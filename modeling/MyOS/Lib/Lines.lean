import Mathlib.Data.List.TakeWhile
import Mathlib.Data.List.Count

namespace MyOS.Lib

/-!
# Lines of a text

A line goes up to and including a terminator; what stands behind the last
terminator is a line too, unless it is empty.  A text is a rest without a
terminator, or a line in front of another text.
-/

section Lines

variable {Symbol : Type} [DecidableEq Symbol] {newline : Symbol}
variable {text line rest : List Symbol}

/-- The lines of a text, each with its terminator. -/
def lines (newline : Symbol) : List Symbol → List (List Symbol)
  | [] => []
  | c :: text =>
      if c = newline then
        [c] :: lines newline text
      else
        match lines newline text with
        | [] => [[c]]
        | line :: others => (c :: line) :: others

theorem lines_append
    (plain : newline ∉ line) :
    lines newline (line ++ newline :: rest) =
      (line ++ [newline]) :: lines newline rest := by
  induction line with
  | nil => exact if_pos rfl
  | cons c line inductionHypothesis =>
      rw [List.mem_cons, not_or] at plain
      have other : c ≠ newline := fun same => plain.1 same.symm
      rw [List.cons_append, lines, if_neg other, inductionHypothesis plain.2]
      rfl

theorem lines_rest
    (plain : newline ∉ rest) :
    lines newline rest = if rest = [] then [] else [rest] := by
  induction rest with
  | nil => rfl
  | cons c rest inductionHypothesis =>
      rw [List.mem_cons, not_or] at plain
      have other : c ≠ newline := fun same => plain.1 same.symm
      rw [lines, if_neg other, inductionHypothesis plain.2,
        if_neg (List.cons_ne_nil c rest)]
      by_cases none : rest = []
      · rw [if_pos none, none]
      · rw [if_neg none]

theorem first_line
    (newline : Symbol)
    (text : List Symbol) :
    newline ∉ text ∨
      ∃ line rest, newline ∉ line ∧ text = line ++ newline :: rest := by
  by_cases member : newline ∈ text
  · right
    obtain ⟨line, rest, isText, plain⟩ := List.eq_append_cons_of_mem member
    exact ⟨line, rest, plain, isText⟩
  · exact Or.inl member

theorem line_induction
    (newline : Symbol)
    {property : List Symbol → Prop}
    (text : List Symbol)
    (last : ∀ rest, newline ∉ rest → property rest)
    (front :
      ∀ line rest, newline ∉ line → property rest →
        property (line ++ newline :: rest)) :
    property text := by
  generalize isLength : text.length = length
  induction length using Nat.strong_induction_on generalizing text with
  | _ length inductionHypothesis =>
      rcases first_line newline text with plain | found
      · exact last text plain
      · obtain ⟨line, rest, plain, rfl⟩ := found
        apply front line rest plain
        apply inductionHypothesis rest.length _ rest rfl
        rw [← isLength, List.length_append, List.length_cons]
        omega

theorem flatten_lines
    (newline : Symbol)
    (text : List Symbol) :
    (lines newline text).flatten = text := by
  induction text using line_induction newline with
  | last rest plain =>
      rw [lines_rest plain]
      by_cases none : rest = []
      · rw [if_pos none, none]
        rfl
      · rw [if_neg none]
        exact List.append_nil rest
  | front line rest plain inductionHypothesis =>
      rw [lines_append plain, List.flatten_cons, inductionHypothesis,
        List.append_assoc]
      rfl

theorem lines_ne_nil
    (member : line ∈ lines newline text) :
    line ≠ [] := by
  induction text using line_induction newline with
  | last rest plain =>
      rw [lines_rest plain] at member
      split_ifs at member with none
      · cases member
      · rw [List.mem_singleton.mp member]
        exact none
  | front first rest plain inductionHypothesis =>
      rw [lines_append plain] at member
      rcases List.mem_cons.mp member with rfl | member
      · exact List.append_ne_nil_of_right_ne_nil _ (List.cons_ne_nil _ _)
      · exact inductionHypothesis member

theorem lines_shape
    (newline : Symbol)
    (text : List Symbol) :
    ∃ (front : List (List Symbol)) (rest : List Symbol),
      (∀ line ∈ front, newline ∉ line) ∧ newline ∉ rest ∧
        lines newline text =
          front.map (fun line => line ++ [newline]) ++
            if rest = [] then [] else [rest] := by
  induction text using line_induction newline with
  | last rest plain =>
      refine ⟨[], rest, ?_, plain, lines_rest plain⟩
      intro line member
      cases member
  | front line rest plain inductionHypothesis =>
      obtain ⟨front, last, plainFront, plainLast, isLines⟩ := inductionHypothesis
      refine ⟨line :: front, last, ?_, plainLast, ?_⟩
      · exact List.forall_mem_cons.mpr ⟨plain, plainFront⟩
      · rw [lines_append plain, isLines]
        rfl

theorem count_terminated
    {front : List (List Symbol)}
    (plain : ∀ line ∈ front, newline ∉ line) :
    (front.map fun line => line ++ [newline]).flatten.count newline =
      front.length := by
  induction front with
  | nil => rfl
  | cons line front inductionHypothesis =>
      obtain ⟨first, others⟩ := List.forall_mem_cons.mp plain
      rw [List.map_cons, List.flatten_cons, List.count_append,
        List.count_append, List.count_eq_zero_of_not_mem first,
        inductionHypothesis others, List.count_singleton_self,
        List.length_cons]
      omega

end Lines

section Selections

variable {Entry Text : Type}

theorem filter_map_eq_iff
    {entries : List Entry}
    {first second : Entry → Bool}
    {say should : Entry → Text}
    {allowed : Text → Prop}
    (within : ∀ entry, first entry = true → allowed (say entry))
    (agrees :
      ∀ entry ∈ entries, second entry = true → allowed (should entry) →
        first entry = true ∧ say entry = should entry) :
    (entries.filter first).map say = (entries.filter second).map should ↔
      ∀ entry ∈ entries,
        (second entry = true → allowed (should entry)) ∧
          (second entry = false → first entry = false) := by
  constructor
  · intro same
    have allows :
        ∀ entry ∈ entries, second entry = true →
          allowed (should entry) := by
      intro entry member isSecond
      have inSecond :
          should entry ∈ (entries.filter second).map should :=
        List.mem_map_of_mem (List.mem_filter.mpr ⟨member, isSecond⟩)
      rw [← same] at inSecond
      obtain ⟨other, inFirst, isSaid⟩ := List.mem_map.mp inSecond
      rw [← isSaid]
      exact within other (List.mem_filter.mp inFirst).2
    -- The second selection is part of the first one, and as long.
    have isPart :
        entries.filter second = (entries.filter first).filter second := by
      rw [List.filter_filter]
      apply List.filter_congr
      intro entry member
      cases isSecond : second entry with
      | false => rfl
      | true =>
          have both := agrees entry member isSecond
            (allows entry member isSecond)
          rw [both.1]
          rfl
    have lengths := congrArg List.length same
    rw [List.length_map, List.length_map, isPart] at lengths
    have whole :
        (entries.filter first).filter second = entries.filter first :=
      List.filter_sublist.eq_of_length lengths.symm
    intro entry member
    refine ⟨allows entry member, fun notSecond => ?_⟩
    cases isFirst : first entry with
    | false => rfl
    | true =>
        have inFirst : entry ∈ entries.filter first :=
          List.mem_filter.mpr ⟨member, isFirst⟩
        rw [← whole] at inFirst
        rw [(List.mem_filter.mp inFirst).2] at notSecond
        cases notSecond
  · intro each
    have same : entries.filter first = entries.filter second := by
      apply List.filter_congr
      intro entry member
      cases isSecond : second entry with
      | false => exact (each entry member).2 isSecond
      | true =>
          exact (agrees entry member isSecond
            ((each entry member).1 isSecond)).1
    rw [same]
    apply List.map_congr_left
    intro entry selected
    obtain ⟨member, isSecond⟩ := List.mem_filter.mp selected
    exact (agrees entry member isSecond ((each entry member).1 isSecond)).2

end Selections

end MyOS.Lib
