import MyOS.Lib.Lines

namespace MyOS

open Lib

/-!
# Lines as the user's tools see them

The tools read lines character by character, drop carriage returns, and handle
what is left as strings, which end at their first null byte.
-/

/-- The bytes that `write_str` writes. -/
def stringBytes (line : List UInt8) : List UInt8 :=
  line.takeWhile fun c => c ≠ 0

/-- A line without its newline. -/
def lineContent (line : List UInt8) : List UInt8 :=
  line.takeWhile fun c => c ≠ '\n'.toUInt8

/-- The characters of a line that are no carriage returns. -/
def withoutReturns (line : List UInt8) : List UInt8 :=
  line.filter fun c => c ≠ '\r'.toUInt8

section Characters

variable {line rest : List UInt8} {c : UInt8}

theorem stringBytes_null (line : List UInt8) : stringBytes (0 :: line) = [] :=
  rfl

theorem stringBytes_cons
    (notNull : c ≠ 0) :
    stringBytes (c :: line) = c :: stringBytes line :=
  List.takeWhile_cons_of_pos (decide_eq_true notNull)

theorem withoutReturns_nil : withoutReturns [] = [] :=
  rfl

theorem withoutReturns_return (line : List UInt8) :
    withoutReturns ('\r'.toUInt8 :: line) = withoutReturns line :=
  rfl

theorem withoutReturns_cons
    (other : c ≠ '\r'.toUInt8) :
    withoutReturns (c :: line) = c :: withoutReturns line :=
  List.filter_cons_of_pos (decide_eq_true other)

theorem withoutReturns_append (line rest : List UInt8) :
    withoutReturns (line ++ rest) =
      withoutReturns line ++ withoutReturns rest :=
  List.filter_append ..

theorem withoutReturns_eq_self
    (none : '\r'.toUInt8 ∉ line) :
    withoutReturns line = line := by
  unfold withoutReturns
  rw [List.filter_eq_self]
  intro c member
  exact decide_eq_true fun isReturn => none (isReturn ▸ member)

theorem return_notMem_withoutReturns (line : List UInt8) :
    '\r'.toUInt8 ∉ withoutReturns line := by
  intro member
  exact of_decide_eq_true (List.mem_filter.mp member).2 rfl

theorem stringBytes_eq_self
    (none : 0 ∉ line) :
    stringBytes line = line := by
  unfold stringBytes
  rw [List.takeWhile_eq_self_iff]
  intro c member
  exact decide_eq_true fun isNull => none (isNull ▸ member)

theorem null_notMem_stringBytes (line : List UInt8) :
    0 ∉ stringBytes line := by
  intro member
  have kept :=
    @List.mem_takeWhile_imp _ (fun c : UInt8 => decide (c ≠ 0)) line 0 member
  exact of_decide_eq_true kept rfl

theorem lineContent_plain
    (plain : '\n'.toUInt8 ∉ line) :
    lineContent line = line := by
  unfold lineContent
  rw [List.takeWhile_eq_self_iff]
  intro c member
  exact decide_eq_true fun isNewline => plain (isNewline ▸ member)

theorem lineContent_terminated
    (plain : '\n'.toUInt8 ∉ line) :
    lineContent (line ++ ['\n'.toUInt8]) = line := by
  unfold lineContent
  rw [List.takeWhile_append_of_pos]
  · rw [List.takeWhile_cons_of_neg (by decide), List.append_nil]
  · intro c member
    exact decide_eq_true fun isNewline => plain (isNewline ▸ member)

end Characters

end MyOS
