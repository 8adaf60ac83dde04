import Mathlib.Data.List.TakeWhile
import MyOS.LibcStrtolStandard

namespace MyOS

open Lib

/-!
# Where `strtol` does what the standard says

The condition speaks about the text: its white space, its sign, its prefix and
its digits.
-/

section Code

/-- A number modulo the range of `long`. -/
def wrapLong (number : Int) : Int :=
  (BitVec.ofInt 64 number).toInt

/-- The base and the digits that the code takes, and what it leaves. -/
def codeBase (base : Nat) (text : List UInt8) : Nat × List UInt8 :=
  if base = 0 then
    if hasHexMark text then
      (16, text.drop 2)
    else
      (10, text)
  else
    (base, text)

theorem strtolSign_eq (text : List UInt8) :
    strtolSign text =
      (if (signOf text).1 then -1 else 1, (signOf text).2) := by
  cases text with
  | nil => rfl
  | cons c rest =>
      by_cases minus : c = '-'.toUInt8
      · simp [strtolSign, signOf, minus]
      · by_cases plus : c = '+'.toUInt8
        · rw [plus]
          rfl
        · simp [strtolSign, signOf, minus, plus]

theorem strtolBase_eq (base : Nat) (text : List UInt8) :
    strtolBase base text =
      (((codeBase base text).1 : Int), (codeBase base text).2) := by
  unfold strtolBase codeBase
  by_cases isZero : base = 0
  · rw [if_pos (by omega), if_pos isZero]
    split_ifs <;> rfl
  · rw [if_neg (by omega), if_neg isZero]

theorem wrapLong_eq (negative : Bool) (number : Nat) :
    (BitVec.ofNat 64 number * if negative then -1 else 1).toInt =
      wrapLong (withSign negative number) := by
  unfold wrapLong withSign
  congr 1
  cases negative with
  | false =>
      rw [if_neg Bool.false_ne_true, if_neg Bool.false_ne_true,
        BitVec.ofInt_natCast]
      exact BitVec.mul_one _
  | true =>
      rw [if_pos rfl, if_pos rfl, BitVec.mul_neg, BitVec.ofInt_neg,
        BitVec.ofInt_natCast]
      exact congrArg Neg.neg (BitVec.mul_one _)

theorem strtol_eq
    (nptr : CString)
    (endptr : Bool)
    (base : Nat) :
    let signed := signOf (nptr.bytes.dropWhile isStrtolSpace)
    let based := codeBase base signed.2
    (strtol nptr endptr base).1.toInt =
        wrapLong (withSign signed.1
          (digitsNumber based.1
            (based.2.takeWhile (isDigit (min based.1 16))))) ∧
      (strtol nptr endptr base).2 =
        if endptr then
          some (based.2.dropWhile (isDigit (min based.1 16)))
        else
          none := by
  dsimp only
  unfold strtol
  rw [strtolSign_eq]
  dsimp only
  rw [strtolBase_eq]
  dsimp only
  have loop := fun base text => strtolLoop_eq base text 0
  rw [show (0 : BitVec 64) = BitVec.ofNat 64 0 from rfl, loop]
  exact ⟨wrapLong_eq _ _, rfl⟩

end Code

section Condition

/-- Where `strtol` does what the standard says. -/
def StrtolOk (endptr : Bool) (base : Nat) (text : List UInt8) : Prop :=
  let found := numberDigits base text
  let rest := unsignedText text
  let zero := ∀ c ∈ found.2, digitValue c = 0
  if text.dropWhile isStrtolSpace ≠ text.dropWhile isWhiteSpace then
    -- The code stops at a white space that it does not skip.
    zero ∧ (endptr = true → found.2 = [] ∧ text.dropWhile isStrtolSpace = text)
  else if found.2 = [] then
    -- Without a number it points behind white space and a sign.
    endptr = true → rest = text
  else if base = 16 ∧ hasHexNumber rest = true then
    -- With base 16 it stops behind the zero of a prefix.
    zero ∧ endptr = false
  else if base = 0 ∧ hasHexMark rest = true ∧ hasHexNumber rest = false then
    -- With base 0 it skips a prefix without digits.
    endptr = false
  else
    let read :=
      if base = 0 ∧ found.1 = 8 then
        (10, rest.takeWhile (isDigit 10))
      else
        (found.1, found.2.takeWhile (isDigit 16))
    wrapLong (withSign (isNegative text) (digitsNumber read.1 read.2)) =
        clampLong
          (withSign (isNegative text) (digitsNumber found.1 found.2)) ∧
      (endptr = true → read.2 = found.2)

end Condition

section Cases

variable {base : Nat} {text : List UInt8}

theorem dropWhile_eq_iff
    (p q : UInt8 → Bool)
    (text : List UInt8) :
    text.dropWhile p = text.dropWhile q ↔
      text.takeWhile p = text.takeWhile q := by
  have first := List.takeWhile_append_dropWhile (p := p) (l := text)
  have second := List.takeWhile_append_dropWhile (p := q) (l := text)
  constructor
  · intro same
    rw [same] at first
    exact List.append_cancel_right (first.trans second.symm)
  · intro same
    rw [same] at first
    exact List.append_cancel_left (first.trans second.symm)

theorem takeWhile_min
    (base : Nat)
    (text : List UInt8) :
    text.takeWhile (isDigit (min base 16)) =
      (text.takeWhile (isDigit base)).takeWhile (isDigit 16) := by
  rw [List.takeWhile_takeWhile]
  congr 1
  funext c
  unfold isDigit
  rw [decide_eq_decide, decide_eq_true_eq, decide_eq_true_eq]
  omega

theorem dropWhile_isWhiteSpace (text : List UInt8) :
    (text.dropWhile isStrtolSpace).dropWhile isWhiteSpace =
      text.dropWhile isWhiteSpace := by
  induction text with
  | nil => rfl
  | cons c rest inductionHypothesis =>
      by_cases isThere : isStrtolSpace c = true
      · have isWhite : isWhiteSpace c = true := by
          unfold isWhiteSpace
          rw [isThere]
          rfl
        rw [List.dropWhile_cons_of_pos isThere,
          List.dropWhile_cons_of_pos isWhite, inductionHypothesis]
      · rw [List.dropWhile_cons_of_neg isThere]

theorem otherWhiteSpace
    (other : text.dropWhile isStrtolSpace ≠ text.dropWhile isWhiteSpace) :
    ∃ c rest, text.dropWhile isStrtolSpace = c :: rest ∧
      (c = 11 ∨ c = 12 ∨ c = 13) ∧
      (text.dropWhile isWhiteSpace).length ≤ rest.length := by
  rw [← dropWhile_isWhiteSpace] at other
  rw [← dropWhile_isWhiteSpace]
  have notBlank : ∀ c rest, text.dropWhile isStrtolSpace = c :: rest →
      isStrtolSpace c = false := by
    intro c rest isCons
    have some_ : text.dropWhile isStrtolSpace ≠ [] := by
      rw [isCons]
      exact List.cons_ne_nil _ _
    have head := List.head_dropWhile_not isStrtolSpace some_
    simp only [isCons, List.head_cons] at head
    exact head
  cases isRest : text.dropWhile isStrtolSpace with
  | nil =>
      rw [isRest] at other
      exact absurd rfl other
  | cons c rest =>
      rw [isRest] at other
      by_cases isWhite : isWhiteSpace c = true
      · refine ⟨c, rest, rfl, ?_, ?_⟩
        · unfold isWhiteSpace at isWhite
          rw [notBlank c rest isRest] at isWhite
          simpa [or_assoc] using isWhite
        · rw [List.dropWhile_cons_of_pos isWhite]
          exact (List.dropWhile_suffix _).length_le
      · rw [List.dropWhile_cons_of_neg isWhite] at other
        exact absurd rfl other

theorem clampLong_eq_zero_iff
    (negative : Bool)
    (number : Nat) :
    0 = clampLong (withSign negative number) ↔ number = 0 := by
  unfold clampLong withSign
  cases negative with
  | false =>
      rw [if_neg Bool.false_ne_true]
      omega
  | true =>
      rw [if_pos rfl]
      omega

theorem wrapLong_zero
    (negative : Bool)
    (base : Nat) :
    wrapLong (withSign negative (digitsNumber base [])) = 0 := by
  cases negative <;> rfl

theorem numberDigits_base_pos
    (base : Nat)
    (text : List UInt8) :
    0 < (numberDigits base text).1 := by
  unfold numberDigits numberBase
  by_cases isHex :
      (base = 0 ∨ base = 16) ∧ hasHexNumber (unsignedText text) = true
  · rw [if_pos isHex]
    exact Nat.zero_lt_succ _
  · rw [if_neg isHex]
    by_cases isZero : base = 0
    · rw [if_pos isZero]
      dsimp only
      split_ifs <;> exact Nat.zero_lt_succ _
    · rw [if_neg isZero]
      exact Nat.pos_of_ne_zero isZero

theorem signOf_length (text : List UInt8) :
    (signOf text).2.length ≤ text.length := by
  cases text with
  | nil => exact Nat.le_refl _
  | cons c rest =>
      dsimp only [signOf]
      split_ifs
      · exact Nat.le_succ _
      · exact Nat.le_succ _
      · exact Nat.le_refl _

theorem numberBase_length
    (base : Nat)
    (text : List UInt8) :
    (numberBase base text).2.length ≤ text.length := by
  unfold numberBase
  by_cases isHex : (base = 0 ∨ base = 16) ∧ hasHexNumber text = true
  · rw [if_pos isHex, List.length_drop]
    exact Nat.sub_le _ _
  · rw [if_neg isHex]
    by_cases isZero : base = 0
    · rw [if_pos isZero]
    · rw [if_neg isZero]

theorem digits_length
    (base : Nat)
    (text : List UInt8) :
    ((numberBase base text).2.dropWhile
        (isDigit (numberBase base text).1)).length ≤ text.length :=
  Nat.le_trans (List.dropWhile_suffix _).length_le
    (numberBase_length base text)

theorem takeWhile_eq_nil
    {first : UInt8}
    {rest : List UInt8}
    {b : Nat}
    (none : isDigit b first = false) :
    (first :: rest).takeWhile (isDigit b) = [] ∧
      (first :: rest).dropWhile (isDigit b) = first :: rest := by
  have stops : ¬ isDigit b first = true := by
    rw [none]
    exact Bool.false_ne_true
  exact ⟨List.takeWhile_cons_of_neg stops, List.dropWhile_cons_of_neg stops⟩

theorem code_otherWhiteSpace
    {c : UInt8}
    (isOther : c = 11 ∨ c = 12 ∨ c = 13)
    (base : Nat)
    (rest : List UInt8) :
    signOf (c :: rest) = (false, c :: rest) ∧
      (codeBase base (c :: rest)).2 = c :: rest ∧
      ∀ b, isDigit (min b 16) c = false := by
  have notZero : c ≠ '0'.toUInt8 := by
    rcases isOther with rfl | rfl | rfl <;> decide
  have noMark : hasHexMark (c :: rest) = false := by
    cases rest with
    | nil => rfl
    | cons mark rest =>
        dsimp only [hasHexMark]
        rw [decide_eq_false notZero]
        rfl
  refine ⟨?_, ?_, ?_⟩
  · rcases isOther with rfl | rfl | rfl <;> rfl
  · unfold codeBase
    rw [noMark, if_neg Bool.false_ne_true]
    split_ifs <;> rfl
  · intro b
    have value : digitValue c = 36 := by
      rcases isOther with rfl | rfl | rfl <;> decide
    unfold isDigit
    rw [value, decide_eq_false_iff_not]
    omega

theorem hasHexMark_cases
    (isMarked : hasHexMark text = true) :
    ∃ mark rest, text = '0'.toUInt8 :: mark :: rest ∧
      isHexMark mark = true := by
  rcases text with _ | ⟨zero, _ | ⟨mark, rest⟩⟩
  · cases isMarked
  · cases isMarked
  · dsimp only [hasHexMark] at isMarked
    rw [Bool.and_eq_true, decide_eq_true_eq] at isMarked
    rw [isMarked.1]
    exact ⟨mark, rest, rfl, isMarked.2⟩

theorem hasHexNumber_cases
    (isNumber : hasHexNumber text = true) :
    ∃ mark digit rest, text = '0'.toUInt8 :: mark :: digit :: rest ∧
      isHexMark mark = true ∧ isDigit 16 digit = true := by
  unfold hasHexNumber at isNumber
  rw [Bool.and_eq_true] at isNumber
  obtain ⟨mark, rest, rfl, isMark⟩ := hasHexMark_cases isNumber.1
  cases rest with
  | nil => cases isNumber.2
  | cons digit rest => exact ⟨mark, digit, rest, rfl, isMark, isNumber.2⟩

theorem isHexMark_digit
    {mark : UInt8}
    (isMark : isHexMark mark = true) :
    isDigit 16 mark = false ∧ isDigit 8 mark = false := by
  unfold isHexMark at isMark
  rw [Bool.or_eq_true, decide_eq_true_eq, decide_eq_true_eq] at isMark
  rcases isMark with rfl | rfl <;> exact ⟨by decide, by decide⟩

end Cases

section Exact

variable {base : Nat} {text : List UInt8} {endptr : Bool}

theorem code_noNumber
    (base : Nat)
    (none : (numberDigits base text).2 = []) :
    (codeBase base (unsignedText text)).2 = unsignedText text ∧
      ((codeBase base (unsignedText text)).2.takeWhile
        (isDigit (min (codeBase base (unsignedText text)).1 16))) = [] := by
  unfold numberDigits at none
  revert none
  generalize unsignedText text = rest
  intro none
  have notHex :
      ¬ ((base = 0 ∨ base = 16) ∧ hasHexNumber rest = true) := by
    intro isHex
    obtain ⟨mark, digit, more, rfl, _, isDigit_⟩ := hasHexNumber_cases isHex.2
    unfold numberBase at none
    rw [if_pos isHex] at none
    change (digit :: more).takeWhile (isDigit 16) = [] at none
    rw [List.takeWhile_cons_of_pos isDigit_] at none
    cases none
  unfold numberBase at none
  rw [if_neg notHex] at none
  by_cases isZero : base = 0
  · rw [if_pos isZero] at none
    dsimp only at none
    have notZero : rest.head? ≠ some '0'.toUInt8 := by
      intro isHead
      obtain ⟨more, rfl⟩ : ∃ more, rest = '0'.toUInt8 :: more := by
        cases rest with
        | nil => cases isHead
        | cons first more => exact ⟨more, by rw [Option.some.inj isHead]⟩
      rw [if_pos isHead,
        List.takeWhile_cons_of_pos (by decide)] at none
      cases none
    have noMark : hasHexMark rest = false := by
      by_contra isMarked
      rw [Bool.not_eq_false] at isMarked
      obtain ⟨mark, more, rfl, _⟩ := hasHexMark_cases isMarked
      exact notZero rfl
    rw [if_neg notZero] at none
    unfold codeBase
    rw [if_pos isZero, noMark, if_neg Bool.false_ne_true]
    exact ⟨rfl, none⟩
  · rw [if_neg isZero] at none
    unfold codeBase
    rw [if_neg isZero]
    refine ⟨rfl, ?_⟩
    dsimp only at none ⊢
    rw [takeWhile_min, none]
    rfl

/-- `strtol` has returned what the standard says. -/
def ReturnsStandard
    (nptr : CString)
    (endptr : Bool)
    (base : Nat) : Prop :=
  (strtol nptr endptr base).1.toInt = (standardStrtol base nptr.bytes).1 ∧
    (strtol nptr endptr base).2 =
      if endptr then some (standardStrtol base nptr.bytes).2 else none

theorem returnsStandard_iff
    {nptr : CString}
    {number : Int}
    {rest : List UInt8}
    (returns :
      (strtol nptr endptr base).1.toInt = number ∧
        (strtol nptr endptr base).2 = if endptr then some rest else none) :
    ReturnsStandard nptr endptr base ↔
      number = (standardStrtol base nptr.bytes).1 ∧
        (endptr = true → rest = (standardStrtol base nptr.bytes).2) := by
  unfold ReturnsStandard
  rw [returns.1, returns.2]
  apply and_congr_right'
  cases endptr with
  | false =>
      rw [if_neg Bool.false_ne_true, if_neg Bool.false_ne_true]
      exact ⟨fun _ wrong => absurd wrong Bool.false_ne_true, fun _ => rfl⟩
  | true =>
      rw [if_pos rfl, if_pos rfl, Option.some_inj]
      exact ⟨fun same _ => same, fun same => same rfl⟩

theorem strtol_otherWhiteSpace
    (nptr : CString)
    (endptr : Bool)
    (base : Nat)
    (other : nptr.bytes.dropWhile isStrtolSpace ≠
      nptr.bytes.dropWhile isWhiteSpace) :
    ReturnsStandard nptr endptr base ↔
      (∀ c ∈ (numberDigits base nptr.bytes).2, digitValue c = 0) ∧
        (endptr = true → (numberDigits base nptr.bytes).2 = [] ∧
          nptr.bytes.dropWhile isStrtolSpace = nptr.bytes) := by
  obtain ⟨c, rest, isCons, isOther, shorter⟩ := otherWhiteSpace other
  obtain ⟨isSign, isBase, noDigit⟩ :=
    code_otherWhiteSpace isOther base rest
  have returns := strtol_eq nptr endptr base
  dsimp only at returns
  rw [isCons, isSign] at returns
  dsimp only at returns
  rw [isBase, (takeWhile_eq_nil (noDigit _)).1, (takeWhile_eq_nil
    (noDigit _)).2, wrapLong_zero] at returns
  rw [returnsStandard_iff returns]
  unfold standardStrtol
  dsimp only
  rw [clampLong_eq_zero_iff, digitsNumber_eq_zero_iff
    (numberDigits_base_pos base nptr.bytes), isCons]
  apply and_congr_right'
  apply imp_congr_right
  intro _
  by_cases isNone : (numberDigits base nptr.bytes).2 = []
  · rw [if_pos isNone]
    exact ⟨fun same => ⟨isNone, same⟩, fun both => both.2⟩
  · rw [if_neg isNone]
    constructor
    · intro same
      have long := congrArg List.length same
      have least := digits_length base (unsignedText nptr.bytes)
      have sign :
          (unsignedText nptr.bytes).length ≤
            (nptr.bytes.dropWhile isWhiteSpace).length :=
        signOf_length _
      rw [List.length_cons] at long
      omega
    · exact fun both => absurd both.1 isNone

theorem strtol_sameWhiteSpace
    (nptr : CString)
    (endptr : Bool)
    (base : Nat)
    (same : nptr.bytes.dropWhile isStrtolSpace =
      nptr.bytes.dropWhile isWhiteSpace) :
    let based := codeBase base (unsignedText nptr.bytes)
    (strtol nptr endptr base).1.toInt =
        wrapLong (withSign (isNegative nptr.bytes)
          (digitsNumber based.1
            (based.2.takeWhile (isDigit (min based.1 16))))) ∧
      (strtol nptr endptr base).2 =
        if endptr then
          some (based.2.dropWhile (isDigit (min based.1 16)))
        else
          none := by
  have returns := strtol_eq nptr endptr base
  rw [same] at returns
  exact returns

theorem strtol_noNumber
    (nptr : CString)
    (endptr : Bool)
    (base : Nat)
    (same : nptr.bytes.dropWhile isStrtolSpace =
      nptr.bytes.dropWhile isWhiteSpace)
    (none : (numberDigits base nptr.bytes).2 = []) :
    ReturnsStandard nptr endptr base ↔
      (endptr = true → unsignedText nptr.bytes = nptr.bytes) := by
  have returns := strtol_sameWhiteSpace nptr endptr base same
  obtain ⟨isRest, noDigits⟩ := code_noNumber base none
  have isLeft :
      (codeBase base (unsignedText nptr.bytes)).2.dropWhile
          (isDigit (min (codeBase base (unsignedText nptr.bytes)).1 16)) =
        unsignedText nptr.bytes := by
    have all := List.takeWhile_append_dropWhile
      (p := isDigit (min (codeBase base (unsignedText nptr.bytes)).1 16))
      (l := (codeBase base (unsignedText nptr.bytes)).2)
    rw [noDigits, List.nil_append] at all
    rw [all, isRest]
  dsimp only at returns
  rw [noDigits, isLeft, wrapLong_zero] at returns
  rw [returnsStandard_iff returns]
  unfold standardStrtol
  dsimp only
  rw [if_pos none, none]
  apply and_iff_right
  rw [clampLong_eq_zero_iff]
  rfl

theorem strtol_hexNumber
    (nptr : CString)
    (endptr : Bool)
    (same : nptr.bytes.dropWhile isStrtolSpace =
      nptr.bytes.dropWhile isWhiteSpace)
    (isNumber : hasHexNumber (unsignedText nptr.bytes) = true) :
    ReturnsStandard nptr endptr 16 ↔
      (∀ c ∈ (numberDigits 16 nptr.bytes).2, digitValue c = 0) ∧
        endptr = false := by
  have returns := strtol_sameWhiteSpace nptr endptr 16 same
  have positive := numberDigits_base_pos 16 nptr.bytes
  obtain ⟨mark, digit, rest, isText, isMark, isDigit_⟩ :=
    hasHexNumber_cases isNumber
  have found :
      numberBase 16 (unsignedText nptr.bytes) = (16, digit :: rest) := by
    unfold numberBase
    rw [if_pos ⟨Or.inr rfl, isNumber⟩, isText]
    rfl
  have some_ : (numberDigits 16 nptr.bytes).2 ≠ [] := by
    unfold numberDigits
    rw [found]
    change (digit :: rest).takeWhile (isDigit 16) ≠ []
    rw [List.takeWhile_cons_of_pos isDigit_]
    exact List.cons_ne_nil _ _
  have isCode :
      codeBase 16 (unsignedText nptr.bytes) =
        (16, '0'.toUInt8 :: mark :: digit :: rest) := by
    rw [isText]
    rfl
  rw [isCode] at returns
  change (strtol nptr endptr 16).1.toInt =
      wrapLong (withSign (isNegative nptr.bytes)
        (digitsNumber 16
          (('0'.toUInt8 :: mark :: digit :: rest).takeWhile
            (isDigit 16)))) ∧ (strtol nptr endptr 16).2 =
      (if endptr then
        some (('0'.toUInt8 :: mark :: digit :: rest).dropWhile (isDigit 16))
      else none) at returns
  rw [List.takeWhile_cons_of_pos (by decide),
    List.dropWhile_cons_of_pos (by decide),
    (takeWhile_eq_nil (isHexMark_digit isMark).1).1,
    (takeWhile_eq_nil (isHexMark_digit isMark).1).2] at returns
  have isZero :
      wrapLong (withSign (isNegative nptr.bytes)
        (digitsNumber 16 ['0'.toUInt8])) = 0 := by
    cases isNegative nptr.bytes <;> rfl
  rw [isZero] at returns
  rw [returnsStandard_iff returns]
  unfold standardStrtol
  dsimp only
  rw [clampLong_eq_zero_iff, digitsNumber_eq_zero_iff positive, if_neg some_,
    found]
  apply and_congr_right'
  constructor
  · intro ends
    by_contra isThere
    have same :=
      congrArg List.length (ends (Bool.of_not_eq_false isThere))
    have shorter :=
      (List.dropWhile_suffix (isDigit 16) (l := digit :: rest)).length_le
    dsimp only at same
    rw [List.length_cons] at same
    omega
  · intro isNull wrong
    rw [isNull] at wrong
    cases wrong

theorem strtol_emptyPrefix
    (nptr : CString)
    (endptr : Bool)
    (same : nptr.bytes.dropWhile isStrtolSpace =
      nptr.bytes.dropWhile isWhiteSpace)
    (isMarked : hasHexMark (unsignedText nptr.bytes) = true)
    (noNumber : hasHexNumber (unsignedText nptr.bytes) = false) :
    ReturnsStandard nptr endptr 0 ↔ endptr = false := by
  have returns := strtol_sameWhiteSpace nptr endptr 0 same
  obtain ⟨mark, rest, isText, isMark⟩ := hasHexMark_cases isMarked
  have found :
      numberBase 0 (unsignedText nptr.bytes) =
        (8, '0'.toUInt8 :: mark :: rest) := by
    unfold numberBase
    rw [if_neg (by rw [noNumber]; exact fun both => Bool.noConfusion both.2),
      if_pos rfl, isText]
    rfl
  have isDigits : (numberDigits 0 nptr.bytes).2 = ['0'.toUInt8] := by
    unfold numberDigits
    rw [found]
    change ('0'.toUInt8 :: mark :: rest).takeWhile (isDigit 8) = _
    rw [List.takeWhile_cons_of_pos (by decide),
      (takeWhile_eq_nil (isHexMark_digit isMark).2).1]
  have isCode : codeBase 0 (unsignedText nptr.bytes) = (16, rest) := by
    unfold codeBase
    rw [if_pos rfl, isMarked, if_pos rfl, isText]
    rfl
  have noDigits :
      rest.takeWhile (isDigit 16) = [] ∧
        rest.dropWhile (isDigit 16) = rest := by
    cases rest with
    | nil => exact ⟨rfl, rfl⟩
    | cons digit rest =>
        apply takeWhile_eq_nil
        unfold hasHexNumber at noNumber
        rw [isMarked, isText] at noNumber
        exact noNumber
  rw [isCode] at returns
  change (strtol nptr endptr 0).1.toInt =
      wrapLong (withSign (isNegative nptr.bytes)
        (digitsNumber 16 (rest.takeWhile (isDigit 16)))) ∧
    (strtol nptr endptr 0).2 =
      (if endptr then some (rest.dropWhile (isDigit 16)) else none) at returns
  rw [noDigits.1, noDigits.2, wrapLong_zero] at returns
  rw [returnsStandard_iff returns]
  unfold standardStrtol
  dsimp only
  rw [isDigits, if_neg (List.cons_ne_nil _ _), found]
  change _ ∧ (endptr = true →
    rest = ('0'.toUInt8 :: mark :: rest).dropWhile (isDigit 8)) ↔ _
  rw [List.dropWhile_cons_of_pos (by decide),
    (takeWhile_eq_nil (isHexMark_digit isMark).2).2]
  constructor
  · rintro ⟨_, ends⟩
    by_contra isThere
    have same :=
      congrArg List.length (ends (Bool.of_not_eq_false isThere))
    rw [List.length_cons] at same
    omega
  · intro isNull
    refine ⟨?_, fun wrong => ?_⟩
    · rw [clampLong_eq_zero_iff]
      change 0 * _ + 0 = 0
      rw [Nat.zero_mul]
    · rw [isNull] at wrong
      cases wrong

theorem strtol_number
    (nptr : CString)
    (endptr : Bool)
    (base : Nat)
    (same : nptr.bytes.dropWhile isStrtolSpace =
      nptr.bytes.dropWhile isWhiteSpace)
    (some_ : (numberDigits base nptr.bytes).2 ≠ [])
    (noHex : ¬ (base = 16 ∧ hasHexNumber (unsignedText nptr.bytes) = true))
    (noPrefix :
      ¬ (base = 0 ∧ hasHexMark (unsignedText nptr.bytes) = true ∧
        hasHexNumber (unsignedText nptr.bytes) = false)) :
    let found := numberDigits base nptr.bytes
    let read :=
      if base = 0 ∧ found.1 = 8 then
        (10, (unsignedText nptr.bytes).takeWhile (isDigit 10))
      else
        (found.1, found.2.takeWhile (isDigit 16))
    ReturnsStandard nptr endptr base ↔
      wrapLong
          (withSign (isNegative nptr.bytes) (digitsNumber read.1 read.2)) =
        clampLong
          (withSign (isNegative nptr.bytes)
            (digitsNumber found.1 found.2)) ∧
        (endptr = true → read.2 = found.2) := by
  have returns := strtol_sameWhiteSpace nptr endptr base same
  dsimp only at returns ⊢
  have standard :
      standardStrtol base nptr.bytes =
        (clampLong (withSign (isNegative nptr.bytes)
          (digitsNumber (numberDigits base nptr.bytes).1
            (numberDigits base nptr.bytes).2)),
          (numberBase base (unsignedText nptr.bytes)).2.dropWhile
            (isDigit (numberBase base (unsignedText nptr.bytes)).1)) := by
    unfold standardStrtol
    dsimp only
    rw [if_neg some_]
  rw [returnsStandard_iff returns, standard]
  dsimp only
  -- The code and the standard see the same text, with another base for
  -- octal numbers only.
  have bases :
      (codeBase base (unsignedText nptr.bytes)).2 =
          (numberBase base (unsignedText nptr.bytes)).2 ∧
        (codeBase base (unsignedText nptr.bytes)).1 =
          (if base = 0 ∧ (numberBase base (unsignedText nptr.bytes)).1 = 8
          then 10
          else (numberBase base (unsignedText nptr.bytes)).1) ∧
        (base = 0 ∧ (numberBase base (unsignedText nptr.bytes)).1 = 8 →
          (numberBase base (unsignedText nptr.bytes)).2 =
            unsignedText nptr.bytes) := by
    revert noHex noPrefix
    generalize unsignedText nptr.bytes = rest
    intro noHex noPrefix
    unfold codeBase numberBase
    by_cases isZero : base = 0
    · rw [if_pos isZero]
      cases isMarked : hasHexMark rest with
      | true =>
          have isNumber : hasHexNumber rest = true := by
            by_contra noNumber
            exact noPrefix ⟨isZero, isMarked,
              Bool.of_not_eq_true noNumber⟩
          rw [if_pos rfl, if_pos ⟨Or.inl isZero, isNumber⟩]
          refine ⟨rfl, (if_neg ?_).symm, ?_⟩
          · exact fun both => absurd both.2 (show ¬ (16 : Nat) = 8 by decide)
          · exact fun both => absurd both.2 (show ¬ (16 : Nat) = 8 by decide)
      | false =>
          have noNumber : hasHexNumber rest = false := by
            unfold hasHexNumber
            rw [isMarked]
            rfl
          rw [if_neg Bool.false_ne_true, if_neg (by
            rw [noNumber]
            exact fun both => Bool.noConfusion both.2), if_pos isZero]
          refine ⟨rfl, ?_, fun _ => rfl⟩
          dsimp only
          by_cases octal : rest.head? = some '0'.toUInt8
          · rw [if_pos octal, if_pos ⟨isZero, rfl⟩]
          · rw [if_neg octal, if_neg fun both => absurd both.2 (by decide)]
    · rw [if_neg isZero, if_neg (by
        rintro ⟨isZero' | isHex, isNumber⟩
        · exact isZero isZero'
        · exact noHex ⟨isHex, isNumber⟩), if_neg isZero]
      exact ⟨rfl, (if_neg fun both => isZero both.1).symm,
        fun both => absurd both.1 isZero⟩
  obtain ⟨sameText, isBase, isUnsigned⟩ := bases
  have isFound : numberDigits base nptr.bytes =
      ((numberBase base (unsignedText nptr.bytes)).1,
        (numberBase base (unsignedText nptr.bytes)).2.takeWhile
          (isDigit (numberBase base (unsignedText nptr.bytes)).1)) := rfl
  rw [isFound, sameText, isBase]
  dsimp only
  by_cases octal :
      base = 0 ∧ (numberBase base (unsignedText nptr.bytes)).1 = 8
  · rw [if_pos octal, if_pos octal, isUnsigned octal, dropWhile_eq_iff]
    exact Iff.rfl
  · rw [if_neg octal, if_neg octal, dropWhile_eq_iff, takeWhile_min]

/-- `strtol` does what the standard says exactly where its white space, its
prefixes, its digits and its range are enough. -/
theorem strtol_standard_iff
    (nptr : CString)
    (endptr : Bool)
    (base : Nat) :
    ReturnsStandard nptr endptr base ↔ StrtolOk endptr base nptr.bytes := by
  unfold StrtolOk
  dsimp only
  by_cases other :
      nptr.bytes.dropWhile isStrtolSpace ≠ nptr.bytes.dropWhile isWhiteSpace
  · rw [if_pos other]
    exact strtol_otherWhiteSpace nptr endptr base other
  rw [if_neg other]
  have same := not_not.mp other
  by_cases none : (numberDigits base nptr.bytes).2 = []
  · rw [if_pos none]
    exact strtol_noNumber nptr endptr base same none
  rw [if_neg none]
  by_cases isHex :
      base = 16 ∧ hasHexNumber (unsignedText nptr.bytes) = true
  · rw [if_pos isHex]
    obtain ⟨rfl, isNumber⟩ := isHex
    exact strtol_hexNumber nptr endptr same isNumber
  rw [if_neg isHex]
  by_cases isEmpty :
      base = 0 ∧ hasHexMark (unsignedText nptr.bytes) = true ∧
        hasHexNumber (unsignedText nptr.bytes) = false
  · rw [if_pos isEmpty]
    obtain ⟨rfl, isMarked, noNumber⟩ := isEmpty
    exact strtol_emptyPrefix nptr endptr same isMarked noNumber
  rw [if_neg isEmpty]
  exact strtol_number nptr endptr base same none isHex isEmpty

/-- An octal number, a prefix with base 16, a digit above `f`, no number behind
white space, and a number out of range. -/
theorem strtol_not_standard :
    ¬ ReturnsStandard ⟨[48, 49, 48], by decide⟩ true 0 ∧
      ¬ ReturnsStandard ⟨[48, 120, 49], by decide⟩ true 16 ∧
      ¬ ReturnsStandard ⟨[122], by decide⟩ true 36 ∧
      ¬ ReturnsStandard ⟨[32, 113], by decide⟩ true 10 ∧
      ¬ ReturnsStandard
        ⟨[57, 50, 50, 51, 51, 55, 50, 48, 51, 54, 56, 53, 52, 55, 55, 53, 56,
          48, 56], by decide⟩ true 10 := by
  refine ⟨?_, ?_, ?_, ?_, ?_⟩ <;>
    · unfold ReturnsStandard
      decide

end Exact

end MyOS
