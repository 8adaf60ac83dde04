import Mathlib.Data.List.Count

namespace MyOS.Framing

/-!
# Contents between separators

Parts are written one behind the other, each with a fixed text in front of it.
Where the fixed texts are made of one symbol that the contents may have too,
what is written tells the contents exactly if all parts have the same one.
-/

variable {α κ : Type}

/-- The contents that the keys stand for, with the fixed texts in front. -/
def render
    (contents : κ → List α)
    (parts : List (List α × κ)) : List α :=
  parts.flatMap fun part => part.1 ++ contents part.2

/-- How many symbols the fixed texts have. -/
def framing (parts : List (List α × κ)) : Nat :=
  (parts.flatMap Prod.fst).length

@[simp] theorem render_nil
    (contents : κ → List α) :
    render contents [] = [] :=
  rfl

theorem render_cons
    (contents : κ → List α)
    (part : List α × κ)
    (parts : List (List α × κ)) :
    render contents (part :: parts) =
      part.1 ++ (contents part.2 ++ render contents parts) := by
  rw [render, List.flatMap_cons, List.append_assoc]
  rfl

theorem framing_cons
    (part : List α × κ)
    (parts : List (List α × κ)) :
    framing (part :: parts) = part.1.length + framing parts := by
  rw [framing, List.flatMap_cons, List.length_append]
  rfl

theorem render_append
    (contents : κ → List α)
    (parts others : List (List α × κ)) :
    render contents (parts ++ others) =
      render contents parts ++ render contents others :=
  List.flatMap_append

theorem length_render_of_forall
    {contents : κ → List α}
    {key : κ}
    {parts : List (List α × κ)}
    (same : ∀ part ∈ parts, part.2 = key) :
    (render contents parts).length =
      framing parts + parts.length * (contents key).length := by
  induction parts with
  | nil =>
      rw [List.length_nil, Nat.zero_mul]
      rfl
  | cons part parts inductionHypothesis =>
      rw [List.forall_mem_cons] at same
      rw [render_cons, List.length_append, List.length_append,
        inductionHypothesis same.2, same.1, framing_cons, List.length_cons,
        Nat.succ_mul]
      omega

theorem eq_of_render_eq
    {contents others : κ → List α}
    {key : κ}
    {parts : List (List α × κ)}
    (same : ∀ part ∈ parts, part.2 = key)
    (some : parts ≠ [])
    (written : render contents parts = render others parts) :
    contents key = others key := by
  have lengths := congrArg List.length written
  rw [length_render_of_forall same, length_render_of_forall same,
    Nat.add_left_cancel_iff] at lengths
  have equal : (contents key).length = (others key).length :=
    Nat.eq_of_mul_eq_mul_left (List.length_pos_iff.mpr some) lengths
  cases parts with
  | nil =>
      exact absurd rfl some
  | cons part parts =>
      rw [List.forall_mem_cons] at same
      rw [render_cons, render_cons, List.append_cancel_left_eq, same.1]
        at written
      exact List.append_inj_left written equal

section Clash

variable [DecidableEq κ]

/-- Copies of one symbol for a key, and nothing for any other. -/
def only
    (key : κ)
    (count : Nat)
    (symbol : α) : κ → List α :=
  fun other => if other = key then List.replicate count symbol else []

/-- How often a key is among the parts. -/
def occurrences
    (key : κ)
    (parts : List (List α × κ)) : Nat :=
  parts.countP fun part => part.2 = key

theorem render_only
    {parts : List (List α × κ)}
    {symbol : α}
    (frames : ∀ part ∈ parts, ∀ s ∈ part.1, s = symbol)
    (key : κ)
    (count : Nat) :
    render (only key count symbol) parts =
      List.replicate (framing parts + occurrences key parts * count)
        symbol := by
  induction parts with
  | nil =>
      rw [occurrences, List.countP_nil, Nat.zero_mul]
      rfl
  | cons part parts inductionHypothesis =>
      rw [List.forall_mem_cons] at frames
      have frame : part.1 = List.replicate part.1.length symbol :=
        List.eq_replicate_iff.mpr ⟨rfl, frames.1⟩
      rw [render_cons, inductionHypothesis frames.2, frame]
      by_cases isKey : part.2 = key
      · have counted :
            occurrences key (part :: parts) = occurrences key parts + 1 :=
          List.countP_cons_of_pos (by simpa using isKey)
        rw [framing_cons, counted, only, if_pos isKey, List.replicate_append_replicate,
          List.replicate_append_replicate, Nat.succ_mul]
        congr 1
        omega
      · have counted :
            occurrences key (part :: parts) = occurrences key parts :=
          List.countP_cons_of_neg (by simpa using isKey)
        rw [framing_cons, counted, only, if_neg isKey, List.nil_append,
          List.replicate_append_replicate, Nat.add_assoc]

theorem render_clash
    {parts : List (List α × κ)}
    {symbol : α}
    (frames : ∀ part ∈ parts, ∀ s ∈ part.1, s = symbol)
    (key other : κ) :
    render (only key (occurrences other parts) symbol) parts =
      render (only other (occurrences key parts) symbol) parts := by
  rw [render_only frames, render_only frames, Nat.mul_comm]

theorem render_tells_iff
    {parts : List (List α × κ)}
    {symbol : α}
    (frames : ∀ part ∈ parts, ∀ s ∈ part.1, s = symbol) :
    (∀ contents others : κ → List α,
        render contents parts = render others parts →
        ∀ part ∈ parts, contents part.2 = others part.2) ↔
      ∀ first ∈ parts, ∀ second ∈ parts, first.2 = second.2 := by
  constructor
  · intro tells first isFirst second isSecond
    by_contra apart
    have same :=
      tells _ _ (render_clash frames first.2 second.2) first isFirst
    rw [only, if_pos rfl, only, if_neg apart, List.replicate_eq_nil_iff,
      occurrences, List.countP_eq_zero] at same
    exact same second isSecond (by simp)
  · intro same contents others written part member
    exact eq_of_render_eq (fun other isPart => same other isPart part member)
      (List.ne_nil_of_mem member) written

end Clash

end MyOS.Framing
