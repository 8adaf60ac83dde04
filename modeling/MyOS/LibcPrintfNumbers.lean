import Mathlib.Data.Nat.Digits.Defs
import MyOS.LibcPrintfRendering
import MyOS.LibcStrtolStandard

namespace MyOS

open Lib

/-!
# The numbers that `out_uint` prints

The digits in `tmp` are those of the number, so that the loop of `strtol` reads
it back, whatever zeros stand in front of it.
-/

section Digits

variable {base x digit : Nat}

theorem digitLoop_eq
    {fuel : Nat}
    (isBase : 2 ≤ base)
    (enough : x < base ^ fuel) :
    digitLoop base fuel x = (Nat.digits base x).map digitChar := by
  induction fuel generalizing x with
  | zero =>
      have isZero : x = 0 := by simpa using enough
      rw [isZero, Nat.digits_zero]
      rfl
  | succ fuel inductionHypothesis =>
      unfold digitLoop
      by_cases isZero : x = 0
      · rw [if_pos isZero, isZero, Nat.digits_zero]
        rfl
      · have smaller : x / base < base ^ fuel :=
          Nat.div_lt_of_lt_mul (by rwa [← Nat.pow_succ'])
        rw [if_neg isZero, Nat.digits_of_two_le_of_pos isBase (by omega),
          List.map_cons, inductionHypothesis smaller]

theorem uintDigits_eq
    (isBase : 2 ≤ base)
    (isLong : x < 18446744073709551616) :
    uintDigits base x =
      if x = 0 then ['0'.toUInt8] else (Nat.digits base x).map digitChar := by
  have enough : x < base ^ 64 :=
    Nat.lt_of_lt_of_le isLong (Nat.pow_le_pow_left isBase 64)
  unfold uintDigits
  rw [digitLoop_eq isBase enough]

theorem digitValue_digitChar
    (isDigit : digit < 16) :
    digitValue (digitChar digit) = digit := by
  interval_cases digit <;> rfl

theorem isDigit_digitChar
    (few : base ≤ 16)
    (isDigit_ : digit < base) :
    isDigit base (digitChar digit) = true := by
  unfold isDigit
  rw [digitValue_digitChar (by omega)]
  exact decide_eq_true isDigit_

theorem uintDigits_isDigit
    {c : UInt8}
    (isBase : 2 ≤ base)
    (few : base ≤ 16)
    (isLong : x < 18446744073709551616)
    (member : c ∈ uintDigits base x) :
    isDigit base c = true := by
  rw [uintDigits_eq isBase isLong] at member
  split_ifs at member with isZero
  · rw [List.mem_singleton] at member
    rw [member]
    exact @isDigit_digitChar base 0 few (by omega)
  · obtain ⟨digit, isDigit_, rfl⟩ := List.mem_map.mp member
    exact isDigit_digitChar few (Nat.digits_lt_base isBase isDigit_)

theorem digitsNumber_reverse
    {digits : List Nat}
    (few : ∀ digit ∈ digits, digit < 16) :
    digitsNumber base (digits.map digitChar).reverse =
      Nat.ofDigits base digits := by
  unfold digitsNumber
  induction digits with
  | nil => rfl
  | cons digit digits inductionHypothesis =>
      obtain ⟨isDigit_, few⟩ := List.forall_mem_cons.mp few
      rw [List.map_cons, List.reverse_cons, List.foldl_append,
        inductionHypothesis few, List.foldl_cons, List.foldl_nil,
        digitValue_digitChar isDigit_, Nat.ofDigits_cons]
      ring

theorem digitsNumber_uintDigits
    (isBase : 2 ≤ base)
    (few : base ≤ 16)
    (isLong : x < 18446744073709551616) :
    digitsNumber base (uintDigits base x).reverse = x := by
  rw [uintDigits_eq isBase isLong]
  split_ifs with isZero
  · rw [isZero]
    exact @digitsNumber_reverse base [0] (by decide)
  · rw [digitsNumber_reverse, Nat.ofDigits_digits]
    intro digit member
    exact Nat.lt_of_lt_of_le (Nat.digits_lt_base isBase member) few

theorem digitsNumber_zeros
    (zeros : Nat)
    (digits : List UInt8) :
    digitsNumber base (List.replicate zeros '0'.toUInt8 ++ digits) =
      digitsNumber base digits := by
  unfold digitsNumber
  rw [List.foldl_append]
  congr 1
  induction zeros with
  | zero => rfl
  | succ zeros inductionHypothesis =>
      rw [List.replicate_succ, List.foldl_cons, Nat.zero_mul]
      exact inductionHypothesis

end Digits

end MyOS
