import MyOS.LibcStrtol

namespace MyOS

open Lib

/-!
# `strtol` and the standard

The code skips less white space, knows no octal numbers with base 0 and no
prefix with base 16, takes digits up to `f` only, points behind white space and
a sign where there is no number, and does not clamp.  It does what the standard
says exactly where none of this shows.
-/

section Digits

variable {base : Nat} {text : List UInt8} {c : UInt8}

theorem strtolDigit_eq (c : UInt8) :
    strtolDigit c = if digitValue c < 16 then (digitValue c : Int) else -1 := by
  unfold strtolDigit digitValue
  have nine : c ≤ '9'.toUInt8 ↔ c.toNat ≤ 57 := UInt8.le_iff_toNat_le
  have lower : 'a'.toUInt8 ≤ c ↔ 97 ≤ c.toNat := UInt8.le_iff_toNat_le
  have lowerF : c ≤ 'f'.toUInt8 ↔ c.toNat ≤ 102 := UInt8.le_iff_toNat_le
  have lowerZ : c ≤ 'z'.toUInt8 ↔ c.toNat ≤ 122 := UInt8.le_iff_toNat_le
  have upper : 'A'.toUInt8 ≤ c ↔ 65 ≤ c.toNat := UInt8.le_iff_toNat_le
  have upperF : c ≤ 'F'.toUInt8 ↔ c.toNat ≤ 70 := UInt8.le_iff_toNat_le
  have upperZ : c ≤ 'Z'.toUInt8 ↔ c.toNat ≤ 90 := UInt8.le_iff_toNat_le
  have zero : '0'.toUInt8 ≤ c ↔ 48 ≤ c.toNat := UInt8.le_iff_toNat_le
  have isZero : '0'.toNat = 48 := rfl
  have isLower : 'a'.toNat = 97 := rfl
  have isUpper : 'A'.toNat = 65 := rfl
  simp only [zero, nine, lower, lowerF, lowerZ, upper, upperF, upperZ, isZero,
    isLower, isUpper]
  split_ifs <;> omega

theorem strtolDigit_stops :
    (strtolDigit c < 0 ∨ strtolDigit c ≥ (base : Int)) ↔
      isDigit (min base 16) c = false := by
  unfold isDigit
  rw [strtolDigit_eq, decide_eq_false_iff_not]
  split_ifs <;> omega

theorem strtolLoop_eq
    (base : Nat)
    (text : List UInt8)
    (number : Nat) :
    strtolLoop base text (BitVec.ofNat 64 number) =
      (BitVec.ofNat 64
        ((text.takeWhile (isDigit (min base 16))).foldl
          (fun number c => number * base + digitValue c) number),
        text.dropWhile (isDigit (min base 16))) := by
  induction text generalizing number with
  | nil => rfl
  | cons c text inductionHypothesis =>
      unfold strtolLoop
      cases isThere : isDigit (min base 16) c with
      | false =>
          rw [if_pos (strtolDigit_stops.mpr isThere),
            List.takeWhile_cons_of_neg (by rw [isThere]; decide),
            List.dropWhile_cons_of_neg (by rw [isThere]; decide)]
          rfl
      | true =>
          have goes : ¬ (strtolDigit c < 0 ∨ strtolDigit c ≥ (base : Int)) := by
            rw [strtolDigit_stops, isThere]
            decide
          have value : strtolDigit c = (digitValue c : Int) := by
            rw [strtolDigit_eq] at goes ⊢
            split_ifs at goes ⊢
            · rfl
            · omega
          rw [if_neg goes, value,
            List.takeWhile_cons_of_pos isThere,
            List.dropWhile_cons_of_pos isThere, List.foldl_cons,
            ← inductionHypothesis]
          congr 1
          rw [BitVec.ofInt_natCast, BitVec.ofInt_natCast, ← BitVec.ofNat_mul,
            ← BitVec.ofNat_add]

theorem digitsNumber_eq_zero_iff
    {digits : List UInt8}
    (some_ : 0 < base) :
    digitsNumber base digits = 0 ↔ ∀ c ∈ digits, digitValue c = 0 := by
  have general :
      ∀ number, digits.foldl (fun number c => number * base + digitValue c)
        number = 0 ↔ number = 0 ∧ ∀ c ∈ digits, digitValue c = 0 := by
    induction digits with
    | nil => simp
    | cons c digits inductionHypothesis =>
        intro number
        rw [List.foldl_cons, inductionHypothesis, List.forall_mem_cons]
        constructor
        · rintro ⟨isSum, all⟩
          have product : number * base = 0 := by omega
          rcases Nat.mul_eq_zero.mp product with isZero | isZero
          · exact ⟨isZero, by omega, all⟩
          · omega
        · rintro ⟨rfl, isZero, all⟩
          exact ⟨by rw [isZero, Nat.zero_mul], all⟩
  unfold digitsNumber
  rw [general]
  exact and_iff_right rfl

end Digits

end MyOS
