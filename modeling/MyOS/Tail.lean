import MyOS.Lib.Lines
import MyOS.Lib.Ring

namespace MyOS

open Lib

/-!
# The lines that `tail` prints

`tail_push` puts characters into a ring of 4096 places and drops from its front
what does not fit and what has more newlines than lines are asked for.  What is
left is the longest end of the input that fits and has no more newlines; a
newline in front of it is stripped before it is written.
-/

/-- `TAIL_CAP` -/
def TAIL_CAP : Nat := 4096

/-- `struct tailbuf` -/
structure TailBuf where
  data : Nat → UInt8
  start : Nat
  len : Nat
  lines : Nat

namespace TailBuf

/-- `tail_get` -/
def tailGet (t : TailBuf) (offset : Nat) : UInt8 :=
  t.data ((t.start + offset) % TAIL_CAP)

/-- `tail_drop_one` -/
def tailDropOne (t : TailBuf) : TailBuf :=
  if t.len = 0 then
    t
  else
    { t with
      lines :=
        if t.data t.start = '\n'.toUInt8 then t.lines - 1 else t.lines
      start := (t.start + 1) % TAIL_CAP
      len := t.len - 1 }

/-- The loop at the end of `tail_push`; every turn drops one character. -/
def dropLines (limit : Int) : Nat → TailBuf → TailBuf
  | 0, t => t
  | turns + 1, t =>
      if limit ≥ 0 ∧ t.lines > limit ∧ t.len > 0 then
        dropLines limit turns t.tailDropOne
      else
        t

/-- `tail_push` -/
def tailPush (t : TailBuf) (c : UInt8) (limit : Int) : TailBuf :=
  let t := if t.len = TAIL_CAP then t.tailDropOne else t
  let pos := (t.start + t.len) % TAIL_CAP
  let t :=
    { t with
      data := Function.update t.data pos c
      len := t.len + 1
      lines := if c = '\n'.toUInt8 then t.lines + 1 else t.lines }
  dropLines limit t.len t

/-- `tail_write`, one entry for each call of `write_bytes`. -/
def tailWrite (t : TailBuf) : List (List UInt8) :=
  if t.len = 0 then
    []
  else
    let first := min (TAIL_CAP - t.start) t.len
    ((List.range first).map fun i => t.data (t.start + i)) ::
      if first < t.len then
        [(List.range (t.len - first)).map fun i => t.data i]
      else
        []

/-- The buffer that `tail_fd` begins with; the data is not initialized. -/
def fresh (data : Nat → UInt8) : TailBuf :=
  ⟨data, 0, 0, 0⟩

end TailBuf

/-- `tail_fd`: what it returns and what it writes, from the chunks that `read`
returns, and whether the last call of `read` has failed. -/
def tailFd
    (data : Nat → UInt8)
    (limit : Int)
    (chunks : List (List UInt8))
    (failed : Bool) : Int × List (List UInt8) :=
  if limit ≤ 0 then
    (if failed then -1 else 0, [])
  else
    let t :=
      chunks.foldl
        (fun t chunk => chunk.foldl (fun t c => TailBuf.tailPush t c limit) t)
        (TailBuf.fresh data)
    if failed then
      (-1, [])
    else
      let t :=
        if 0 < t.len ∧ t.tailGet 0 = '\n'.toUInt8 then t.tailDropOne else t
      (0, t.tailWrite)

/-- The last lines of a text. -/
def lastLines (count : Nat) (text : List UInt8) : List (List UInt8) :=
  (lines '\n'.toUInt8 text).drop ((lines '\n'.toUInt8 text).length - count)

/-- The line in front of the last lines, if there is one. -/
def lineBefore (count : Nat) (text : List UInt8) : Option (List UInt8) :=
  if count < (lines '\n'.toUInt8 text).length then
    (lines '\n'.toUInt8 text)[(lines '\n'.toUInt8 text).length - count - 1]?
  else
    none

/-- The text ends with a newline, or is empty. -/
def isTerminated (text : List UInt8) : Bool :=
  text = [] ∨ text.getLast? = some '\n'.toUInt8

/-- An input of which the code writes the last lines.  If the input is
terminated, there is no line in front of the last ones, or they take the whole
buffer, then the first of them is not empty; otherwise the line in front of
them is, or there is room for its newline only. -/
def TailOk (count : Nat) (text : List UInt8) : Prop :=
  let last := (lastLines count text).flatten
  if isTerminated text = true ∨ lineBefore count text = none ∨
      last.length = TAIL_CAP then
    last.head? ≠ some '\n'.toUInt8
  else
    last.length = TAIL_CAP - 1 ∨ lineBefore count text = some ['\n'.toUInt8]

section Suffixes

variable {limit : Nat} {text rest : List UInt8} {c : UInt8}

/-- A text that fits into the buffer with the newlines that it may have. -/
def TailFits (limit : Nat) (text : List UInt8) : Prop :=
  text.length ≤ TAIL_CAP ∧ text.count '\n'.toUInt8 ≤ limit

instance (limit : Nat) (text : List UInt8) : Decidable (TailFits limit text) :=
  inferInstanceAs (Decidable (_ ∧ _))

theorem TailFits.of_append
    (fits : TailFits limit (rest ++ text)) :
    TailFits limit text := by
  obtain ⟨length, count⟩ := fits
  rw [List.length_append] at length
  rw [List.count_append] at count
  exact ⟨by omega, by omega⟩

/-- The longest end of a text that fits. -/
def tailKept (limit : Nat) : List UInt8 → List UInt8
  | [] => []
  | c :: text =>
      if TailFits limit (c :: text) then c :: text else tailKept limit text

theorem tailKept_of_fits
    (fits : TailFits limit text) :
    tailKept limit text = text := by
  cases text with
  | nil => rfl
  | cons c text => exact if_pos fits

theorem tailKept_cons
    (large : ¬ TailFits limit (c :: text)) :
    tailKept limit (c :: text) = tailKept limit text :=
  if_neg large

theorem tailKept_append
    (text : List UInt8)
    (c : UInt8) :
    tailKept limit (text ++ [c]) =
      tailKept limit (tailKept limit text ++ [c]) := by
  induction text with
  | nil => rfl
  | cons first text inductionHypothesis =>
      by_cases fits : TailFits limit (first :: text)
      · rw [tailKept_of_fits fits]
      · have large : ¬ TailFits limit (first :: (text ++ [c])) := by
          rintro ⟨length, count⟩
          apply fits
          have whole : first :: (text ++ [c]) = first :: text ++ [c] := rfl
          rw [whole, List.length_append] at length
          rw [whole, List.count_append] at count
          exact ⟨by omega, by omega⟩
        rw [tailKept_cons fits, List.cons_append, tailKept_cons large,
          inductionHypothesis]

theorem tailKept_eq
    (front : List UInt8)
    (large : ¬ TailFits limit (c :: text))
    (fits : TailFits limit text) :
    tailKept limit (front ++ c :: text) = text := by
  induction front with
  | nil =>
      rw [List.nil_append, tailKept_cons large, tailKept_of_fits fits]
  | cons first front inductionHypothesis =>
      have alsoLarge : ¬ TailFits limit (first :: (front ++ c :: text)) :=
        fun whole => large (@TailFits.of_append limit (c :: text)
          (first :: front) whole)
      rw [List.cons_append, tailKept_cons alsoLarge, inductionHypothesis]

theorem length_le_tailKept
    (front : List UInt8)
    (fits : TailFits limit text) :
    text.length ≤ (tailKept limit (front ++ text)).length := by
  induction front with
  | nil =>
      rw [List.nil_append, tailKept_of_fits fits]
  | cons first front inductionHypothesis =>
      by_cases whole : TailFits limit (first :: (front ++ text))
      · rw [List.cons_append, tailKept_of_fits whole, List.length_cons,
          List.length_append]
        omega
      · rw [List.cons_append, tailKept_cons whole]
        exact inductionHypothesis

theorem tailKept_front
    (front : List UInt8)
    (fits : TailFits limit text)
    (large :
      ∀ c, front.getLast? = some c → ¬ TailFits limit (c :: text)) :
    tailKept limit (front ++ text) = text := by
  rcases List.eq_nil_or_concat front with rfl | ⟨front, c, rfl⟩
  · rw [List.nil_append, tailKept_of_fits fits]
  · rw [List.concat_eq_append] at large ⊢
    rw [List.append_assoc]
    exact tailKept_eq front (large c List.getLast?_concat) fits

end Suffixes

namespace TailBuf

variable {t : TailBuf} {text : List UInt8} {c : UInt8} {limit : Int}

/-- The buffer holds a text, and counts its newlines. -/
structure Holds (t : TailBuf) (text : List UInt8) : Prop where
  ring :
    RingHolds TAIL_CAP TAIL_CAP t.data t.start ((t.start + t.len) % TAIL_CAP)
      text
  length : t.len = text.length
  few : text.length ≤ TAIL_CAP
  newlines : t.lines = text.count '\n'.toUInt8

theorem Holds.drop
    (holds : Holds t (c :: text)) :
    Holds t.tailDropOne text := by
  have isLength := holds.length
  rw [List.length_cons] at isLength
  obtain ⟨isFirst, rest⟩ := holds.ring.pop (dvd_refl _)
  rw [Nat.mod_eq_of_lt holds.ring.started] at isFirst
  have isNewlines := holds.newlines
  have some_ : ¬ t.len = 0 := by omega
  unfold tailDropOne
  rw [if_neg some_]
  refine ⟨?_, ?_, ?_, ?_⟩
  · have stop :
        ((t.start + 1) % TAIL_CAP + (t.len - 1)) % TAIL_CAP =
          (t.start + t.len) % TAIL_CAP := by
      rw [Nat.mod_add_mod]
      congr 1
      omega
    dsimp only
    rw [stop]
    exact rest
  · exact congrArg (fun length => length - 1) isLength
  · exact Nat.le_of_succ_le holds.few
  · dsimp only
    rw [isFirst, isNewlines, List.count_cons]
    by_cases isNewline : c = '\n'.toUInt8
    · rw [if_pos isNewline, if_pos (beq_iff_eq.mpr isNewline),
        Nat.add_sub_cancel]
    · rw [if_neg isNewline,
        if_neg fun same => isNewline (beq_iff_eq.mp same), Nat.add_zero]

theorem Holds.put
    (holds : Holds t text)
    (room : text.length < TAIL_CAP) :
    Holds
      { t with
        data := Function.update t.data ((t.start + t.len) % TAIL_CAP) c
        len := t.len + 1
        lines := if c = '\n'.toUInt8 then t.lines + 1 else t.lines }
      (text ++ [c]) := by
  have pushed := holds.ring.push (dvd_refl _) room c
  rw [Nat.mod_mod, Nat.mod_add_mod] at pushed
  refine ⟨pushed, ?_, ?_, ?_⟩
  · rw [List.length_append, List.length_singleton]
    exact congrArg (fun length => length + 1) holds.length
  · rw [List.length_append, List.length_singleton]
    exact room
  · dsimp only
    rw [holds.newlines, List.count_append, List.count_singleton]
    by_cases isNewline : c = '\n'.toUInt8
    · rw [if_pos isNewline, if_pos (beq_iff_eq.mpr isNewline)]
    · rw [if_neg isNewline,
        if_neg fun same => isNewline (beq_iff_eq.mp same), Nat.add_zero]

theorem Holds.dropLines
    {turns : Nat}
    (positive : 0 ≤ limit)
    (holds : Holds t text)
    (enough : text.length ≤ turns) :
    Holds (t.dropLines limit turns) (tailKept limit.toNat text) := by
  induction turns generalizing t text with
  | zero =>
      have none := List.length_eq_zero_iff.mp (Nat.le_zero.mp enough)
      rw [none] at holds ⊢
      exact holds
  | succ turns inductionHypothesis =>
      unfold TailBuf.dropLines
      have isLength := holds.length
      have isNewlines := holds.newlines
      cases text with
      | nil =>
          rw [if_neg]
          · exact holds
          · rintro ⟨_, _, some_⟩
            rw [isLength] at some_
            exact Nat.lt_irrefl _ some_
      | cons c text =>
          rw [List.length_cons] at isLength enough
          by_cases fits : TailFits limit.toNat (c :: text)
          · rw [tailKept_of_fits fits, if_neg]
            · exact holds
            · rintro ⟨_, many, _⟩
              have few := fits.2
              omega
          · rw [tailKept_cons fits, if_pos]
            · exact inductionHypothesis holds.drop (by omega)
            · refine ⟨positive, ?_, by omega⟩
              by_contra few
              exact fits ⟨holds.few, by omega⟩

theorem Holds.push
    (positive : 0 ≤ limit)
    (holds : Holds t text)
    (c : UInt8) :
    Holds (t.tailPush c limit) (tailKept limit.toNat (text ++ [c])) := by
  have isLength := holds.length
  have isCap : TAIL_CAP = 4096 := rfl
  unfold tailPush
  by_cases full : t.len = TAIL_CAP
  · rw [if_pos full]
    cases text with
    | nil =>
        rw [List.length_nil] at isLength
        omega
    | cons first text =>
        rw [List.length_cons] at isLength
        have large : ¬ TailFits limit.toNat (first :: (text ++ [c])) := by
          intro fits
          have length := fits.1
          rw [List.length_cons, List.length_append, List.length_singleton]
            at length
          omega
        rw [List.cons_append, tailKept_cons large]
        have put := @Holds.put _ _ c holds.drop (by omega)
        exact put.dropLines positive (Nat.le_of_eq put.length.symm)
  · rw [if_neg full]
    have few := holds.few
    have put := @Holds.put _ _ c holds (by omega)
    exact put.dropLines positive (Nat.le_of_eq put.length.symm)

theorem Holds.read
    {done : List UInt8}
    (positive : 0 ≤ limit)
    (holds : Holds t (tailKept limit.toNat done))
    (text : List UInt8) :
    Holds (text.foldl (fun t c => TailBuf.tailPush t c limit) t)
      (tailKept limit.toNat (done ++ text)) := by
  induction text generalizing t done with
  | nil =>
      rw [List.append_nil]
      exact holds
  | cons c text inductionHypothesis =>
      have pushed := holds.push positive c
      rw [← tailKept_append] at pushed
      have read := inductionHypothesis pushed
      rw [List.append_assoc] at read
      exact read

theorem Holds.fresh (data : Nat → UInt8) : Holds (.fresh data) [] where
  ring := .empty _ (Nat.zero_lt_succ 4095)
  length := rfl
  few := Nat.zero_le _
  newlines := rfl

theorem Holds.text_eq
    (holds : Holds t text) :
    text = (List.range t.len).map t.tailGet := by
  rw [holds.length]
  apply List.ext_getElem
  · rw [List.length_map, List.length_range]
  · intro place inText inRange
    rw [List.getElem_map, List.getElem_range]
    exact (holds.ring.entry place _ (List.getElem?_eq_getElem inText)).symm

theorem Holds.write
    (holds : Holds t text) :
    t.tailWrite.flatten = text := by
  have started := holds.ring.started
  have isLength := holds.length
  have few := holds.few
  have isCap : TAIL_CAP = 4096 := rfl
  have isText := holds.text_eq
  unfold tailWrite
  by_cases none : t.len = 0
  · rw [none] at isText
    rw [if_pos none, isText]
    rfl
  rw [if_neg none]
  dsimp only
  generalize isFirst : min (TAIL_CAP - t.start) t.len = first
  have front :
      ((List.range first).map fun i => t.data (t.start + i)) =
        (List.range first).map t.tailGet := by
    apply List.map_congr_left
    intro i member
    rw [List.mem_range] at member
    unfold tailGet
    rw [Nat.mod_eq_of_lt (by omega)]
  rw [List.flatten_cons, front]
  by_cases wraps : first < t.len
  · have back :
        ((List.range (t.len - first)).map fun i => t.data i) =
          ((List.range (t.len - first)).map (first + ·)).map t.tailGet := by
      rw [List.map_map]
      apply List.map_congr_left
      intro i member
      rw [List.mem_range] at member
      have place : (t.start + (first + i)) % TAIL_CAP = i := by
        rw [isCap] at isFirst started few ⊢
        omega
      exact congrArg t.data place.symm
    rw [if_pos wraps, List.flatten_cons, List.flatten_nil, List.append_nil,
      back, ← List.map_append, ← List.range_add, Nat.add_sub_cancel' (by omega)]
    exact isText.symm
  · have whole : first = t.len := by omega
    rw [if_neg wraps, List.flatten_nil, List.append_nil, whole]
    exact isText.symm

end TailBuf

/-- A text without the newline in front of it. -/
def stripNewline (text : List UInt8) : List UInt8 :=
  if text.head? = some '\n'.toUInt8 then text.tail else text

theorem tailFd_eq
    {limit : Int}
    (data : Nat → UInt8)
    (chunks : List (List UInt8))
    (positive : 1 ≤ limit) :
    (tailFd data limit chunks false).1 = 0 ∧
      (tailFd data limit chunks false).2.flatten =
        stripNewline (tailKept limit.toNat chunks.flatten) := by
  have read :=
    @TailBuf.Holds.read (.fresh data) limit [] (by omega) (.fresh data)
      chunks.flatten
  rw [List.foldl_flatten, List.nil_append] at read
  unfold tailFd
  rw [if_neg (by omega), if_neg Bool.false_ne_true]
  generalize chunks.foldl _ (TailBuf.fresh data) = t at read ⊢
  generalize tailKept limit.toNat chunks.flatten = kept at read ⊢
  refine ⟨rfl, ?_⟩
  dsimp only
  unfold stripNewline
  have isLength := read.length
  cases kept with
  | nil =>
      rw [if_neg]
      · exact read.write
      · rintro ⟨some_, _⟩
        rw [isLength] at some_
        exact Nat.lt_irrefl 0 some_
  | cons c kept =>
      rw [List.length_cons] at isLength
      have isFirst : t.tailGet 0 = c := by
        have entry := read.ring.entry 0 c rfl
        exact entry
      rw [isFirst, List.head?_cons, List.tail_cons]
      by_cases isNewline : c = '\n'.toUInt8
      · rw [if_pos ⟨by omega, isNewline⟩, if_pos (congrArg some isNewline)]
        exact read.drop.write
      · rw [if_neg fun both => isNewline both.2,
          if_neg fun same => isNewline (Option.some.inj same)]
        exact read.write

section LastLines

variable {count : Nat} {text : List UInt8}

/-- A text in two parts: the lines in front, each with its newline, and the
last lines, with no more newlines than lines are asked for. -/
structure LastSplit
    (count : Nat)
    (text : List UInt8)
    (front : List (List UInt8)) : Prop where
  text_eq :
    text =
      (front.map fun line => line ++ ['\n'.toUInt8]).flatten ++
        (lastLines count text).flatten
  before :
    lineBefore count text =
      front.getLast?.map fun line => line ++ ['\n'.toUInt8]
  few : (lastLines count text).flatten.count '\n'.toUInt8 ≤ count
  newlines :
    front ≠ [] →
      (lastLines count text).flatten.count '\n'.toUInt8 =
        if isTerminated text then count else count - 1
  plain : ∀ line ∈ front, '\n'.toUInt8 ∉ line

theorem isTerminated_iff
    {front : List (List UInt8)}
    {rest : List UInt8}
    (plain : '\n'.toUInt8 ∉ rest) :
    isTerminated ((front.map fun line => line ++ ['\n'.toUInt8]).flatten ++
        rest) = true ↔ rest = [] := by
  unfold isTerminated
  rw [decide_eq_true_eq]
  constructor
  · intro terminated
    by_contra some_
    rcases terminated with none | isLast
    · exact some_ (List.append_eq_nil_iff.mp none).2
    · rw [List.getLast?_append, List.getLast?_eq_some_getLast some_,
        Option.some_or] at isLast
      exact plain (Option.some.inj isLast ▸ List.getLast_mem some_)
  · rintro rfl
    rw [List.append_nil]
    rcases List.eq_nil_or_concat front with rfl | ⟨front, line, rfl⟩
    · exact Or.inl rfl
    · right
      rw [List.concat_eq_append, List.map_append, List.flatten_append,
        List.map_cons, List.map_nil, List.flatten_cons, List.flatten_nil,
        List.append_nil, ← List.append_assoc, List.getLast?_concat]

theorem lastSplit
    (some_ : 1 ≤ count)
    (text : List UInt8) :
    ∃ front, LastSplit count text front := by
  obtain ⟨front, rest, plainFront, plainRest, isLines⟩ :=
    lines_shape '\n'.toUInt8 text
  have isText :
      text =
        (front.map fun line => line ++ ['\n'.toUInt8]).flatten ++ rest := by
    have whole := flatten_lines '\n'.toUInt8 text
    rw [isLines, List.flatten_append] at whole
    rw [← whole]
    congr 1
    split_ifs with none
    · exact none.symm
    · exact List.append_nil rest
  have terminated : isTerminated text = true ↔ rest = [] := by
    rw [isText]
    exact isTerminated_iff plainRest
  generalize isTail : (if rest = [] then [] else [rest]) = tail at isLines
  have tailCount : tail.flatten.count '\n'.toUInt8 = 0 := by
    rw [← isTail]
    split_ifs
    · rfl
    · rw [List.flatten_cons, List.flatten_nil, List.append_nil]
      exact List.count_eq_zero_of_not_mem plainRest
  have tailLength : tail.length = if isTerminated text then 0 else 1 := by
    rw [← isTail]
    by_cases none : rest = []
    · rw [if_pos none, if_pos (terminated.mpr none)]
      rfl
    · rw [if_neg none, if_neg fun is => none (terminated.mp is)]
      rfl
  have tailFew : tail.length ≤ 1 := by
    rw [tailLength]
    split_ifs <;> omega
  -- How many lines are in front of the last ones.
  obtain ⟨skipped, isSkipped⟩ :
      ∃ skipped, skipped = front.length + tail.length - count := ⟨_, rfl⟩
  have total :
      (lines '\n'.toUInt8 text).length = front.length + tail.length := by
    rw [isLines, List.length_append, List.length_map]
  have isLast :
      lastLines count text =
        (front.drop skipped).map (fun line => line ++ ['\n'.toUInt8]) ++
          tail := by
    unfold lastLines
    rw [total, ← isSkipped, isLines, List.drop_append_of_le_length,
      List.map_drop]
    rw [List.length_map]
    omega
  have plainDrop : ∀ line ∈ front.drop skipped, '\n'.toUInt8 ∉ line :=
    fun line member => plainFront line (List.mem_of_mem_drop member)
  have newlines :
      (lastLines count text).flatten.count '\n'.toUInt8 =
        front.length - skipped := by
    rw [isLast, List.flatten_append, List.count_append,
      count_terminated plainDrop, tailCount, List.length_drop, Nat.add_zero]
  refine ⟨front.take skipped, ?_, ?_, ?_, ?_, ?_⟩
  · rw [isLast, List.flatten_append, ← List.append_assoc,
      ← List.flatten_append, ← List.map_append, List.take_append_drop]
    have sameTail : tail.flatten = rest := by
      rw [← isTail]
      split_ifs with none
      · exact none.symm
      · exact List.append_nil rest
    rw [sameTail]
    exact isText
  · unfold lineBefore
    rw [total]
    by_cases more : count < front.length + tail.length
    · have place : front.length + tail.length - count - 1 < front.length := by
        omega
      rw [if_pos more, isLines, List.getElem?_append_left
        (by rw [List.length_map]; exact place), List.getElem?_map,
        List.getLast?_take, if_neg (by omega), ← isSkipped]
      rw [← isSkipped] at place
      rw [List.getElem?_eq_getElem place, Option.some_or]
    · rw [if_neg more]
      have none : skipped = 0 := by omega
      rw [none]
      rfl
  · rw [newlines]
    omega
  · intro someFront
    have positive : skipped ≠ 0 := by
      intro isZero
      rw [isZero] at someFront
      exact someFront rfl
    rw [newlines]
    split_ifs at tailLength ⊢ <;> omega
  · exact fun line member => plainFront line (List.mem_of_mem_take member)

theorem stripNewline_eq_self_iff :
    stripNewline text = text ↔ text.head? ≠ some '\n'.toUInt8 := by
  unfold stripNewline
  constructor
  · intro same isNewline
    rw [if_pos isNewline] at same
    cases text with
    | nil => cases isNewline
    | cons c text =>
        have lengths := congrArg List.length same
        rw [List.tail_cons, List.length_cons] at lengths
        omega
  · exact fun other => if_neg other

theorem length_le_stripNewline :
    text.length ≤ (stripNewline text).length + 1 := by
  unfold stripNewline
  split_ifs
  · rw [List.length_tail]
    omega
  · omega

/-- The code writes the last lines exactly of the inputs for which it does, in
which the first of them is not empty or the line in front of them is. -/
theorem tail_exact_iff
    {limit : Int}
    (data : Nat → UInt8)
    (chunks : List (List UInt8))
    (positive : 1 ≤ limit)
    (small :
      (lastLines limit.toNat chunks.flatten).flatten.length ≤ TAIL_CAP) :
    tailFd data limit chunks false =
        (0, (tailFd data limit chunks false).2) ∧
      ((tailFd data limit chunks false).2.flatten =
          (lastLines limit.toNat chunks.flatten).flatten ↔
        TailOk limit.toNat chunks.flatten) := by
  obtain ⟨returns, writes⟩ := tailFd_eq data chunks positive
  refine ⟨Prod.ext returns rfl, ?_⟩
  rw [writes]
  generalize isCount : limit.toNat = count at small ⊢
  generalize chunks.flatten = text at small ⊢
  have someCount : 1 ≤ count := by omega
  obtain ⟨front, split⟩ := lastSplit someCount text
  have isText := split.text_eq
  have before := split.before
  have few := split.few
  have newlines := split.newlines
  unfold TailOk
  dsimp only
  generalize (lastLines count text).flatten = last at small isText few newlines ⊢
  have isCap : TAIL_CAP = 4096 := rfl
  have fits : TailFits count last := ⟨small, few⟩
  rcases List.eq_nil_or_concat front with rfl | ⟨front, line, rfl⟩
  · -- There is no line in front of the last ones.
    have whole : text = last := isText
    have none : lineBefore count text = none := before
    rw [if_pos (Or.inr (Or.inl none)), whole, tailKept_of_fits fits]
    exact stripNewline_eq_self_iff
  rw [List.concat_eq_append] at isText before newlines
  have isBefore : lineBefore count text = some (line ++ ['\n'.toUInt8]) := by
    rw [before, List.getLast?_concat, Option.map_some]
  have isNewlines := newlines
    (List.append_ne_nil_of_right_ne_nil _ (List.cons_ne_nil _ _))
  obtain ⟨first, isFirst⟩ :
      ∃ first,
        first = (front.map fun line => line ++ ['\n'.toUInt8]).flatten :=
    ⟨_, rfl⟩
  have isFront : text = (first ++ line) ++ '\n'.toUInt8 :: last := by
    rw [isText, isFirst, List.map_append, List.flatten_append, List.map_cons,
      List.map_nil, List.flatten_cons, List.flatten_nil, List.append_nil]
    simp only [List.append_assoc, List.cons_append, List.nil_append]
  have withNewline :
      ('\n'.toUInt8 :: last).count '\n'.toUInt8 =
        last.count '\n'.toUInt8 + 1 := List.count_cons_self
  by_cases strips : isTerminated text = true ∨ last.length = TAIL_CAP
  · -- The newline in front of the last lines is one too many.
    have large : ¬ TailFits count ('\n'.toUInt8 :: last) := by
      rintro ⟨length, newline⟩
      rw [withNewline] at newline
      rw [List.length_cons] at length
      rcases strips with isTerminated_ | full
      · rw [if_pos isTerminated_] at isNewlines
        omega
      · omega
    have condition :
        isTerminated text = true ∨ lineBefore count text = none ∨
          last.length = TAIL_CAP :=
      strips.imp_right Or.inr
    rw [if_pos condition, isFront, tailKept_eq _ large fits]
    exact stripNewline_eq_self_iff
  rw [not_or] at strips
  have condition :
      ¬ (isTerminated text = true ∨ lineBefore count text = none ∨
        last.length = TAIL_CAP) := by
    rintro (isTerminated_ | none | full)
    · exact strips.1 isTerminated_
    · rw [isBefore] at none
      cases none
    · exact strips.2 full
  rw [if_neg condition, isBefore]
  rw [if_neg strips.1] at isNewlines
  have room : last.length < TAIL_CAP := by omega
  have fitsNewline : TailFits count ('\n'.toUInt8 :: last) := by
    refine ⟨?_, ?_⟩
    · rw [List.length_cons]
      exact room
    · rw [withNewline]
      omega
  have stripped : stripNewline ('\n'.toUInt8 :: last) = last := rfl
  constructor
  · intro same
    by_contra other
    rw [not_or, Option.some_inj] at other
    have someLine : line ≠ [] := by
      rintro rfl
      exact other.2 rfl
    -- A character of the line in front is kept besides its newline.
    obtain ⟨init, c, isLine⟩ :=
      (List.eq_nil_or_concat line).resolve_left someLine
    have noNewline : c ≠ '\n'.toUInt8 := by
      rintro rfl
      apply split.plain line
      · rw [List.concat_eq_append]
        exact List.mem_append_right _ List.mem_cons_self
      · rw [isLine, List.concat_eq_append]
        exact List.mem_append_right _ List.mem_cons_self
    have fitsCharacter : TailFits count (c :: '\n'.toUInt8 :: last) := by
      refine ⟨?_, ?_⟩
      · rw [List.length_cons, List.length_cons]
        omega
      · rw [List.count_cons_of_ne noNewline]
        exact fitsNewline.2
    have longer :=
      @length_le_tailKept count _ (first ++ init) fitsCharacter
    have isWhole :
        first ++ init ++ c :: '\n'.toUInt8 :: last = text := by
      rw [isFront, isLine, List.concat_eq_append]
      simp only [List.append_assoc, List.cons_append, List.nil_append]
    rw [isWhole, List.length_cons, List.length_cons] at longer
    have kept := @length_le_stripNewline (tailKept count text)
    rw [same] at kept
    omega
  · intro condition
    have kept : tailKept count text = '\n'.toUInt8 :: last := by
      rw [isFront]
      apply tailKept_front _ fitsNewline
      intro c isLast fitsCharacter
      have length := fitsCharacter.1
      have newline := fitsCharacter.2
      rw [List.length_cons, List.length_cons] at length
      rcases condition with full | isEmpty
      · omega
      · have noLine : line = [] :=
          List.append_left_eq_self.mp (Option.some.inj isEmpty)
        rw [noLine, List.append_nil, isFirst] at isLast
        rcases List.eq_nil_or_concat front with rfl | ⟨others, other, rfl⟩
        · cases isLast
        · rw [List.concat_eq_append, List.map_append, List.flatten_append,
            List.map_cons, List.map_nil, List.flatten_cons, List.flatten_nil,
            List.append_nil, ← List.append_assoc, List.getLast?_concat]
            at isLast
          rw [← Option.some.inj isLast, List.count_cons_self, withNewline]
            at newline
          omega
    rw [kept, stripped]

/-- The last of two lines. -/
theorem tail_exact_iff_two :
    tailFd (fun _ => 0) 1 [[97, 10], [98, 10]] false =
        (0, (tailFd (fun _ => 0) 1 [[97, 10], [98, 10]] false).2) ∧
      ((tailFd (fun _ => 0) 1 [[97, 10], [98, 10]] false).2.flatten =
          (lastLines 1 [97, 10, 98, 10]).flatten ↔
        TailOk 1 [97, 10, 98, 10]) :=
  @tail_exact_iff 1 (fun _ => 0) [[97, 10], [98, 10]] (by decide) (by decide)

/-- Of an unterminated input one line too many is written, and an empty line is
not written. -/
theorem tail_not_exact :
    ((tailFd (fun _ => 0) 1 [[97, 10, 98]] false).2.flatten = [97, 10, 98] ∧
        (lastLines 1 [97, 10, 98]).flatten = [98]) ∧
      (tailFd (fun _ => 0) 1 [[10]] false).2.flatten = [] ∧
        (lastLines 1 [10]).flatten = [10] := by
  decide

end LastLines

end MyOS
