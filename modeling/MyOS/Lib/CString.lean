import Mathlib.Data.List.Basic

namespace MyOS.Lib

/-!
# Strings with a null byte behind them

A C string is read at every place up to its null byte, and nowhere behind it.
-/

/-- The bytes of a C string before its null byte. -/
structure CString where
  bytes : List UInt8
  plain : 0 ∉ bytes
  deriving DecidableEq

namespace CString

variable {s : CString} {place : Nat}

/-- A character of a string or its null byte; there is nothing behind it. -/
def charAt (s : CString) (place : Nat) : Option UInt8 :=
  (s.bytes ++ [0])[place]?

/-- The string that begins at a place. -/
def drop (s : CString) (place : Nat) : CString :=
  ⟨s.bytes.drop place, fun member => s.plain (List.mem_of_mem_drop member)⟩

theorem charAt_lt
    (before : place < s.bytes.length) :
    s.charAt place = some s.bytes[place] := by
  unfold charAt
  rw [List.getElem?_append_left before, List.getElem?_eq_getElem before]

@[simp]
theorem charAt_length : s.charAt s.bytes.length = some 0 := by
  unfold charAt
  rw [List.getElem?_append_right (Nat.le_refl _), Nat.sub_self]
  rfl

theorem charAt_eq_none_iff :
    s.charAt place = none ↔ s.bytes.length < place := by
  unfold charAt
  rw [List.getElem?_eq_none_iff, List.length_append, List.length_singleton]
  exact Nat.succ_le_iff

theorem charAt_eq_null_iff
    (inside : place ≤ s.bytes.length) :
    s.charAt place = some 0 ↔ place = s.bytes.length := by
  constructor
  · intro isNull
    by_contra early
    have before : place < s.bytes.length := by omega
    rw [charAt_lt before] at isNull
    exact s.plain (Option.some.inj isNull ▸ List.getElem_mem before)
  · rintro rfl
    exact charAt_length

theorem charAt_of_drop
    {first : UInt8}
    {rest : List UInt8}
    (isDrop : s.bytes.drop place = first :: rest) :
    s.charAt place = some first ∧
      s.bytes.drop (place + 1) = rest ∧
      first ≠ 0 := by
  have before : place < s.bytes.length := by
    by_contra late
    rw [List.drop_eq_nil_of_le (Nat.le_of_not_lt late)] at isDrop
    cases isDrop
  rw [List.drop_eq_getElem_cons before] at isDrop
  obtain ⟨isFirst, isRest⟩ := List.cons.inj isDrop
  refine ⟨by rw [charAt_lt before, isFirst], isRest, ?_⟩
  rintro rfl
  exact s.plain (isFirst ▸ List.getElem_mem before)

theorem charAt_of_drop_nil
    (inside : place ≤ s.bytes.length)
    (isDrop : s.bytes.drop place = []) :
    s.charAt place = some 0 := by
  have late := List.drop_eq_nil_iff.mp isDrop
  exact (charAt_eq_null_iff inside).mpr (by omega)

end CString

/-- The loop of `strchr`. -/
def strchrLoop (c : UInt8) : List UInt8 → Nat → Option Nat
  | [], place => if c = 0 then some place else none
  | x :: rest, place => if x = c then some place else strchrLoop c rest (place + 1)

/-- `strchr`: the place of a character in a string, or of its null byte. -/
def strchr (s : CString) (c : UInt8) : Option Nat :=
  strchrLoop c s.bytes 0

theorem strchrLoop_eq
    {c : UInt8}
    (some_ : c ≠ 0)
    (bytes : List UInt8)
    (place : Nat) :
    strchrLoop c bytes place =
      if c ∈ bytes then some (place + bytes.idxOf c) else none := by
  induction bytes generalizing place with
  | nil =>
      unfold strchrLoop
      rw [if_neg some_, if_neg List.not_mem_nil]
  | cons x rest inductionHypothesis =>
      unfold strchrLoop
      by_cases same : x = c
      · rw [if_pos same, if_pos (same ▸ List.mem_cons_self), same,
          List.idxOf_cons_self]
        rfl
      · rw [if_neg same, inductionHypothesis]
        by_cases member : c ∈ rest
        · rw [if_pos member, if_pos (List.mem_cons_of_mem _ member),
            List.idxOf_cons_ne _ same]
          congr 1
          omega
        · rw [if_neg member, if_neg]
          rw [List.mem_cons]
          rintro (rfl | member')
          · exact same rfl
          · exact member member'

theorem strchr_eq
    {s : CString}
    {c : UInt8}
    (some_ : c ≠ 0) :
    strchr s c = if c ∈ s.bytes then some (s.bytes.idxOf c) else none := by
  unfold strchr
  rw [strchrLoop_eq some_, Nat.zero_add]

theorem strchr_null (s : CString) : strchr s 0 = some s.bytes.length := by
  have loop :
      ∀ bytes : List UInt8, 0 ∉ bytes → ∀ place,
        strchrLoop 0 bytes place = some (place + bytes.length) := by
    intro bytes
    induction bytes with
    | nil => exact fun _ place => rfl
    | cons x rest inductionHypothesis =>
        intro plain place
        rw [List.mem_cons, not_or] at plain
        unfold strchrLoop
        rw [if_neg (Ne.symm plain.1), inductionHypothesis plain.2,
          List.length_cons]
        congr 1
        omega
  unfold strchr
  rw [loop s.bytes s.plain, Nat.zero_add]

end MyOS.Lib
