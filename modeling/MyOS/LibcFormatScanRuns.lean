import Mathlib.Data.List.DropRight
import Mathlib.Data.List.GetD
import MyOS.LibcFormatScan

namespace MyOS

open Lib

/-!
# Scanning what has been printed

`strtol` takes the numeral that stands behind blanks and gives its number modulo
the range of `long`, and the narrowing to the type of the argument gives the
value that was printed.  The scanner comes to the next numeral through the
blanks behind this one and the white space between them.
-/

section Numerals

variable {base n : Nat} {digits text : List UInt8} {c : UInt8}

/-- Digits of a base that stand for a number. -/
structure IsNumeral (base n : Nat) (digits : List UInt8) : Prop where
  notEmpty : digits ≠ []
  areDigits : ∀ c ∈ digits, isDigit base c = true
  number : digitsNumber base digits = n

theorem isNumeral_printed
    (zeros : Nat)
    (isBase : 2 ≤ base)
    (few : base ≤ 16)
    (isLong : n < 18446744073709551616) :
    IsNumeral base n
      (List.replicate zeros '0'.toUInt8 ++ (uintDigits base n).reverse) := by
  refine ⟨?_, ?_, ?_⟩
  · intro nothing
    have none := (List.append_eq_nil_iff.mp nothing).2
    rw [List.reverse_eq_nil_iff, uintDigits_eq isBase isLong] at none
    split_ifs at none with isZero
    rw [List.map_eq_nil_iff, Nat.digits_eq_nil_iff_eq_zero] at none
    exact isZero none
  · intro c member
    rcases List.mem_append.mp member with isZero | isDigit_
    · rw [List.eq_of_mem_replicate isZero]
      exact @isDigit_digitChar base 0 few (by omega)
    · exact uintDigits_isDigit isBase few isLong (List.mem_reverse.mp isDigit_)
  · rw [digitsNumber_zeros, digitsNumber_uintDigits isBase few isLong]

theorem digitValue_special
    (special : scanSpace c = true ∨ c = '-'.toUInt8 ∨ c = '+'.toUInt8) :
    digitValue c = 36 := by
  unfold scanSpace at special
  simp only [Bool.or_eq_true, decide_eq_true_eq] at special
  rcases special with
    (((((rfl | rfl) | rfl) | rfl) | rfl) | rfl) | rfl | rfl <;> rfl

theorem isDigit_notSpecial
    (few : base ≤ 16)
    (isDigit_ : isDigit base c = true) :
    scanSpace c = false ∧ isStrtolSpace c = false ∧
      c ≠ '-'.toUInt8 ∧ c ≠ '+'.toUInt8 := by
  have small : digitValue c < 16 :=
    Nat.lt_of_lt_of_le (of_decide_eq_true isDigit_) few
  have none :
      ¬ (scanSpace c = true ∨ c = '-'.toUInt8 ∨ c = '+'.toUInt8) := by
    intro special
    rw [digitValue_special special] at small
    omega
  rw [not_or, not_or] at none
  have noSpace := Bool.of_not_eq_true none.1
  refine ⟨noSpace, ?_, none.2⟩
  unfold scanSpace at noSpace
  simp only [Bool.or_eq_false_iff] at noSpace
  unfold isStrtolSpace
  rw [noSpace.1.1.1.1.1, noSpace.1.1.1.1.2, noSpace.1.1.1.2]
  rfl

/-- A text that ends, or goes on with white space. -/
def StartsBlank (text : List UInt8) : Prop :=
  ∀ c ∈ text.head?, scanSpace c = true

theorem takeWhile_startsBlank
    (few : base ≤ 16)
    (blank : StartsBlank text) :
    text.takeWhile (isDigit base) = [] := by
  cases text with
  | nil => rfl
  | cons c text =>
      apply List.takeWhile_cons_of_neg
      intro isDigit_
      have noSpace := (isDigit_notSpecial few isDigit_).1
      rw [blank c rfl] at noSpace
      cases noSpace

/-- The sign of a printed number. -/
def signBytes (number : Int) : List UInt8 :=
  if number < 0 then ['-'.toUInt8] else []

theorem signed_notBlank
    {number : Int}
    (few : base ≤ 16)
    (isNumeral : IsNumeral base n digits)
    (text : List UInt8) :
    (signBytes number ++ digits ++ text).dropWhile scanSpace =
        signBytes number ++ digits ++ text ∧
      (signBytes number ++ digits ++ text).dropWhile isStrtolSpace =
        signBytes number ++ digits ++ text := by
  unfold signBytes
  split_ifs with negative
  · exact ⟨rfl, rfl⟩
  · cases isDigits : digits with
    | nil => exact absurd isDigits isNumeral.notEmpty
    | cons c rest =>
        have isDigit_ :=
          isNumeral.areDigits c (isDigits ▸ List.mem_cons_self)
        obtain ⟨noSpace, noBlank, _⟩ := isDigit_notSpecial few isDigit_
        constructor <;>
          · apply List.dropWhile_cons_of_neg
            first
              | rw [noSpace]
              | rw [noBlank]
            exact Bool.false_ne_true

theorem strtolSign_signBytes
    {number : Int}
    (few : base ≤ 16)
    (isNumeral : IsNumeral base n digits)
    (text : List UInt8) :
    strtolSign (signBytes number ++ digits ++ text) =
      (if number < 0 then -1 else 1, digits ++ text) := by
  unfold signBytes
  split_ifs with negative
  · rfl
  · cases isDigits : digits with
    | nil => exact absurd isDigits isNumeral.notEmpty
    | cons c rest =>
        have isDigit_ :=
          isNumeral.areDigits c (isDigits ▸ List.mem_cons_self)
        obtain ⟨_, _, noMinus, noPlus⟩ := isDigit_notSpecial few isDigit_
        change strtolSign (c :: (rest ++ text)) = _
        dsimp only [strtolSign]
        rw [if_neg noMinus, if_neg noPlus]
        rfl

theorem scanNumber_numeral
    {number : Int}
    (isBase : 2 ≤ base)
    (few : base ≤ 16)
    (isNumeral : IsNumeral base number.natAbs digits)
    (blank : StartsBlank text) :
    scanNumber (signBytes number ++ digits ++ text) base =
      (BitVec.ofInt 64 number, text) := by
  have noDigits := takeWhile_startsBlank few blank
  have notZero : ¬ (base : Int) = 0 := by omega
  have all :
      (digits ++ text).takeWhile (isDigit base) = digits ∧
        (digits ++ text).dropWhile (isDigit base) = text := by
    have behind : text.dropWhile (isDigit base) = text := by
      have whole := @List.takeWhile_append_dropWhile _ (isDigit base) text
      rwa [noDigits, List.nil_append] at whole
    rw [List.takeWhile_append_of_pos isNumeral.areDigits, noDigits,
      List.dropWhile_append_of_pos isNumeral.areDigits, behind]
    exact ⟨List.append_nil _, rfl⟩
  unfold scanNumber
  rw [(signed_notBlank few isNumeral text).2,
    strtolSign_signBytes few isNumeral]
  dsimp only
  unfold strtolBase
  rw [if_neg notZero]
  dsimp only
  rw [show (0 : BitVec 64) = BitVec.ofNat 64 0 from rfl, strtolLoop_eq,
    Nat.min_eq_left few, all.1, all.2]
  have isNumber :
      digits.foldl (fun number c => number * base + digitValue c) 0 =
        number.natAbs := isNumeral.number
  rw [isNumber]
  refine Prod.ext ?_ rfl
  dsimp only
  have one :
      BitVec.ofNat 64 number.natAbs * 1 = BitVec.ofNat 64 number.natAbs :=
    BitVec.mul_one _
  split_ifs with negative
  · have isNegative_ : number = -(number.natAbs : Int) := by omega
    rw [BitVec.mul_neg, one, ← BitVec.ofInt_natCast,
      ← BitVec.ofInt_neg, ← isNegative_]
  · have isNatural : number = (number.natAbs : Int) := by omega
    rw [one, ← BitVec.ofInt_natCast, ← isNatural]

end Numerals

section Values

variable (value : IntegerValue) (conversion : IntegerConversion)

theorem IntegerConversion.base_bounds :
    2 ≤ conversion.base ∧ conversion.base ≤ 16 := by
  cases conversion <;> decide

theorem IntegerValue.number_bound :
    (value.number conversion).natAbs < 18446744073709551616 := by
  unfold IntegerValue.number
  cases value with
  | int value =>
      have low := value.le_toInt
      have high := value.toInt_lt
      have few := value.isLt
      dsimp only [IntegerValue.signed, IntegerValue.unsigned]
      split_ifs <;> omega
  | long value =>
      have low := value.le_toInt
      have high := value.toInt_lt
      have few := value.isLt
      dsimp only [IntegerValue.signed, IntegerValue.unsigned]
      split_ifs <;> omega

/-- The length that the scanner finds for a value. -/
def IntegerValue.scanLength : IntegerValue → Int
  | int _ => 0
  | long _ => 1

theorem IntegerValue.scanValue_number :
    scanValue value.scanLength (BitVec.ofInt 64 (value.number conversion)) =
      value.scanned := by
  unfold IntegerValue.number
  cases value with
  | int value =>
      change ScanValue.int _ = ScanValue.int value
      congr 1
      dsimp only [IntegerValue.signed, IntegerValue.unsigned]
      apply BitVec.eq_of_toNat_eq
      have few := value.isLt
      rw [BitVec.truncate_eq_setWidth, BitVec.toNat_setWidth,
        BitVec.toNat_ofInt, BitVec.toInt_eq_toNat_cond]
      split_ifs <;> omega
  | long value =>
      change ScanValue.long _ = ScanValue.long value
      congr 1
      dsimp only [IntegerValue.signed, IntegerValue.unsigned]
      split_ifs
      · exact BitVec.ofInt_toInt
      · rw [BitVec.ofInt_natCast, BitVec.ofNat_toNat, BitVec.setWidth_eq]

end Values

section Scanning

variable {item : PrintedItem} {items : List PrintedItem}
variable {s later : ScanState} {bytes text fmt : List UInt8}

theorem scanLoop_more
    {rounds more : Nat}
    (enough : s.fmt.length < rounds)
    (alsoEnough : s.fmt.length < more) :
    scanLoop rounds s = scanLoop more s := by
  induction rounds generalizing s more with
  | zero => exact absurd enough (Nat.not_lt_zero _)
  | succ rounds inductionHypothesis =>
      cases more with
      | zero => exact absurd alsoEnough (Nat.not_lt_zero _)
      | succ more =>
          unfold scanLoop
          cases step : scanStep s with
          | none => rfl
          | some later =>
              have shorter := scanStep_length step
              exact inductionHypothesis (by omega) (by omega)

/-- What the loop comes to. -/
def scanEnd (s : ScanState) : ScanState :=
  scanLoop (s.fmt.length + 1) s

theorem scanEnd_step
    (step : scanStep s = some later) :
    scanEnd s = scanEnd later := by
  have shorter := scanStep_length step
  have first : scanEnd s = scanLoop s.fmt.length later := by
    unfold scanEnd
    rw [scanLoop, step]
  rw [first]
  exact scanLoop_more shorter (Nat.lt_succ_self _)

theorem scanEnd_nil
    (notLeft : s.left = false)
    (isFmt : s.fmt = []) :
    scanEnd s = s := by
  have none : scanStep s = none := by
    unfold scanStep
    rw [notLeft, if_neg Bool.false_ne_true, isFmt]
  unfold scanEnd
  rw [scanLoop, none]

theorem parseScan_item
    (item : PrintedItem)
    (fmt : List UInt8) :
    parseScan (item.conversionText ++ fmt) =
      (⟨false, [], item.value.scanLength, some item.conversion.letter⟩,
        fmt) := by
  unfold PrintedItem.conversionText
  cases item.value <;> cases item.conversion <;> rfl

theorem scanBase_letter (conversion : IntegerConversion) :
    scanBase conversion.letter = conversion.base := by
  cases conversion <;> rfl

theorem scanInteger_item
    (blank : StartsBlank text)
    (printed :
      NumberBytes (item.value.number item.conversion) item.conversion.base
        bytes)
    (ahead :
      s.str.dropWhile scanSpace = (bytes ++ text).dropWhile scanSpace) :
    ∃ str,
      str.dropWhile scanSpace = text.dropWhile scanSpace ∧
        scanInteger
            ⟨false, [], item.value.scanLength, some item.conversion.letter⟩
            item.conversion.letter s =
          { s with
            str := str
            taken := s.taken + 1
            count := s.count + 1
            stores := s.stores ++ [⟨s.taken, item.value.scanned⟩] } := by
  obtain ⟨isBase, few⟩ := item.conversion.base_bounds
  obtain ⟨before, zeros, after, rfl⟩ := printed
  have isNumeral :=
    isNumeral_printed zeros isBase few
      (item.value.number_bound item.conversion)
  generalize List.replicate zeros '0'.toUInt8 ++ _ = digits at isNumeral ahead
  have blanks :
      ∀ n, ∀ c ∈ List.replicate n ' '.toUInt8, scanSpace c = true := by
    intro n c member
    rw [List.eq_of_mem_replicate member]
    rfl
  obtain ⟨rest, isRest⟩ :
      ∃ rest, rest = List.replicate after ' '.toUInt8 ++ text := ⟨_, rfl⟩
  have restBlank : StartsBlank rest := by
    rw [isRest]
    cases after with
    | zero => exact blank
    | succ after =>
        intro c isHead
        cases isHead
        rfl
  have isStr :
      s.str.dropWhile scanSpace =
        signBytes (item.value.number item.conversion) ++ digits ++ rest := by
    rw [ahead, List.append_assoc, List.dropWhile_append_of_pos (blanks before),
      List.append_assoc, ← isRest]
    exact (signed_notBlank few isNumeral rest).1
  have number := scanNumber_numeral isBase few isNumeral restBlank
  have different :
      ¬ rest =
        signBytes (item.value.number item.conversion) ++ digits ++ rest := by
    intro same
    have lengths := congrArg List.length same
    rw [List.length_append, List.length_append] at lengths
    have some_ := List.length_pos_of_ne_nil isNumeral.notEmpty
    omega
  refine ⟨rest, ?_, ?_⟩
  · rw [isRest, List.dropWhile_append_of_pos (blanks after)]
  · unfold scanInteger
    dsimp only [ScanState.skipSpace, ScanState.take, ScanState.store]
    rw [if_neg Bool.false_ne_true, if_neg Bool.false_ne_true]
    dsimp only
    rw [isStr, scanBase_letter, number]
    dsimp only
    rw [if_neg different, item.value.scanValue_number]

theorem scanStep_item
    (notLeft : s.left = false)
    (isFmt : s.fmt = item.scanText ++ fmt)
    (blank : StartsBlank text)
    (printed :
      NumberBytes (item.value.number item.conversion) item.conversion.base
        bytes)
    (ahead :
      s.str.dropWhile scanSpace = (bytes ++ text).dropWhile scanSpace) :
    ∃ str,
      str.dropWhile scanSpace = text.dropWhile scanSpace ∧
        scanStep s =
          some ⟨str, fmt, s.taken + 1, s.count + 1,
            s.stores ++ [⟨s.taken, item.value.scanned⟩], false⟩ := by
  obtain ⟨str, isStr, scanned⟩ := scanInteger_item blank printed ahead
  refine ⟨str, isStr, ?_⟩
  have isDirective : s.fmt = '%'.toUInt8 :: (item.conversionText ++ fmt) :=
    isFmt
  have isInteger : isIntegerConversion item.conversion.letter = true := by
    cases item.conversion <;> rfl
  unfold scanStep
  rw [notLeft, if_neg Bool.false_ne_true, isDirective]
  dsimp only
  rw [scanSpace_percent, if_neg Bool.false_ne_true, if_neg (not_not.mpr rfl),
    parseScan_item]
  unfold scanDirective
  dsimp only
  rw [if_pos isInteger, scanned, notLeft]

theorem startsBlank_printed
    (printed : PrintedBehind items text) :
    StartsBlank text := by
  intro c isHead
  cases printed with
  | none => cases isHead
  | @next item =>
      apply item.isGap.2
      rw [List.head?_append_of_ne_nil _ item.isGap.1] at isHead
      exact List.mem_of_head? isHead

theorem scanEnd_items
    (notLeft : s.left = false)
    (printed : PrintedBehind items text)
    (isFmt :
      s.fmt = items.flatMap fun item => ' '.toUInt8 :: item.scanText)
    (ahead : s.str.dropWhile scanSpace = text.dropWhile scanSpace) :
    (scanEnd s).count = s.count + items.length ∧
      (scanEnd s).stores = s.stores ++ itemStores items s.taken := by
  induction printed generalizing s with
  | none =>
      rw [scanEnd_nil notLeft isFmt]
      exact ⟨rfl, (List.append_nil _).symm⟩
  | @next item items bytes text number rest inductionHypothesis =>
      -- First the round for the blank of the format.
      have space :
          scanStep s =
            some { s.skipSpace with
              fmt := item.scanText ++
                items.flatMap fun item => ' '.toUInt8 :: item.scanText } := by
        have isBlank :
            s.fmt = ' '.toUInt8 :: (item.scanText ++
              items.flatMap fun item => ' '.toUInt8 :: item.scanText) :=
          isFmt
        unfold scanStep
        rw [notLeft, if_neg Bool.false_ne_true, isBlank]
        rfl
      have skipped :
          (s.skipSpace.str).dropWhile scanSpace =
            (bytes ++ text).dropWhile scanSpace := by
        unfold ScanState.skipSpace
        dsimp only
        rw [List.dropWhile_idempotent, ahead,
          List.dropWhile_append_of_pos item.isGap.2]
      obtain ⟨str, isStr, step⟩ :=
        @scanStep_item item
          { s.skipSpace with
            fmt := item.scanText ++
              items.flatMap fun item => ' '.toUInt8 :: item.scanText }
          bytes text _ notLeft rfl (startsBlank_printed rest) number skipped
      rw [scanEnd_step space, scanEnd_step step]
      obtain ⟨count, stores⟩ := inductionHypothesis
        (s := ⟨str, _, s.taken + 1, s.count + 1,
          s.stores ++ [⟨s.taken, item.value.scanned⟩], false⟩) rfl rfl isStr
      constructor
      · rw [List.length_cons]
        refine count.trans ?_
        dsimp only
        omega
      · refine stores.trans ?_
        unfold itemStores
        rw [List.zipIdx_cons, List.map_cons, List.append_assoc]
        rfl

end Scanning

section Texts

variable {items : List PrintedItem} {bytes text : List UInt8}

theorem conversionText_plain (item : PrintedItem) :
    0 ∉ item.conversionText := by
  have modifier : 0 ∉ item.value.modifier := by
    cases item.value with
    | int => exact List.not_mem_nil
    | long =>
        change 0 ∉ ['l'.toUInt8]
        decide
  have letter : 0 ∉ [item.conversion.letter] := by
    cases item.conversion <;> decide
  exact fun member => (List.mem_append.mp member).elim modifier letter

/-- The format that scans items. -/
def scanFormat (items : List PrintedItem) : CString where
  bytes := scanFormatBytes items
  plain := by
    have directive : ∀ item : PrintedItem, 0 ∉ item.scanText := by
      intro item member
      rcases List.mem_cons.mp member with isPercent | member
      · cases isPercent
      · exact conversionText_plain item member
    intro member
    cases items with
    | nil => cases member
    | cons item items =>
        rcases List.mem_append.mp member with member | member
        · exact directive item member
        · obtain ⟨item, _, member⟩ := List.mem_flatMap.mp member
          rcases List.mem_cons.mp member with isBlank | member
          · cases isBlank
          · exact directive item member

theorem numberBytes_plain
    {item : PrintedItem}
    (printed :
      NumberBytes (item.value.number item.conversion) item.conversion.base
        bytes) :
    0 ∉ bytes := by
  obtain ⟨isBase, few⟩ := item.conversion.base_bounds
  obtain ⟨before, zeros, after, rfl⟩ := printed
  have isNumeral :=
    isNumeral_printed zeros isBase few
      (item.value.number_bound item.conversion)
  have blanks : ∀ n, 0 ∉ List.replicate n ' '.toUInt8 := by
    intro n member
    cases List.eq_of_mem_replicate member
  intro member
  rcases List.mem_append.mp member with member | member
  · exact blanks before member
  rcases List.mem_append.mp member with member | member
  · rcases List.mem_append.mp member with member | member
    · split_ifs at member
      · rw [List.mem_singleton] at member
        cases member
      · cases member
    · have small := of_decide_eq_true (isNumeral.areDigits 0 member)
      have isNone : digitValue 0 = 36 := rfl
      omega
  · exact blanks after member

theorem printedBehind_plain
    (printed : PrintedBehind items text) :
    0 ∉ text := by
  induction printed with
  | none => exact List.not_mem_nil
  | @next item items bytes text number _ inductionHypothesis =>
      intro member
      rcases List.mem_append.mp member with member | member
      · cases item.isGap.2 0 member
      rcases List.mem_append.mp member with member | member
      · exact numberBytes_plain number member
      · exact inductionHypothesis member

/-- A string that stands in memory. -/
def StringAt (memory : Bytes) (str : Nat) (text : CString) : Prop :=
  memory.slice str (text.bytes.length + 1) = text.bytes ++ [0]

theorem stringAt_truncated
    {size : Nat}
    (memory : Bytes)
    (str : Nat)
    (text : CString)
    (fits : text.bytes.length < size) :
    StringAt (truncated memory str size text.bytes) str text := by
  unfold StringAt truncated Bytes.slice
  rw [if_neg (by omega), List.take_of_length_le (by omega),
    Nat.min_eq_right (by omega)]
  apply List.ext_getElem
  · rw [List.length_map, List.length_range, List.length_append,
      List.length_singleton]
  · intro place inSlice inText
    have isPlace :
        str + place - str = place := Nat.add_sub_cancel_left _ _
    rw [List.length_append, List.length_singleton] at inText
    rw [List.getElem_map, List.getElem_range,
      Bytes.put_inside (by omega) (by omega), isPlace]
    unfold Bytes.ofList
    by_cases inside : place < text.bytes.length
    · rw [List.getElem_append_left inside, List.getD_eq_getElem _ _ inside]
    · have isEnd : place = text.bytes.length := by omega
      subst isEnd
      rw [List.getElem_append_right (Nat.le_refl _),
        List.getD_eq_default _ _ (Nat.le_refl _)]
      simp

end Texts

section RoundTrip

theorem items_scanned (items : List PrintedItem) :
    ∃ text : CString,
      rendering (printFormat items)
          (items.map fun item => item.value.argument) =
        some text.bytes ∧
      (vscanString text (scanFormat items)).count = items.length ∧
      (vscanString text (scanFormat items)).stores = itemStores items 0 := by
  cases items with
  | nil => exact ⟨⟨[], List.not_mem_nil⟩, rfl, rfl, rfl⟩
  | cons item items =>
      obtain ⟨fuel, isFuel⟩ :
          ∃ fuel, fuel = (printFormat (item :: items)).length := ⟨_, rfl⟩
      have isLength := isFuel
      unfold printFormat at isLength
      rw [List.length_append] at isLength
      have directive : 0 < item.printText.length := Nat.succ_pos _
      obtain ⟨text, rest, isText⟩ :=
        @piecesLoop_items items fuel (by omega)
      obtain ⟨bytes, number, isBytes⟩ :=
        @piecesLoop_item fuel
          (items.flatMap fun item => item.gap ++ item.printText)
          (items.map fun item => item.value.argument) item
      have isPlain : 0 ∉ bytes ++ text := by
        intro member
        rcases List.mem_append.mp member with member | member
        · exact numberBytes_plain number member
        · exact printedBehind_plain rest member
      obtain ⟨str, isStr, step⟩ :=
        @scanStep_item item
          (scanStart ⟨bytes ++ text, isPlain⟩ (scanFormat (item :: items)))
          bytes text _ rfl rfl (startsBlank_printed rest) number rfl
      have ends := scanEnd_step step
      obtain ⟨count, stores⟩ :=
        @scanEnd_items items
          ⟨str, items.flatMap fun item => ' '.toUInt8 :: item.scanText, 1, 1,
            [⟨0, item.value.scanned⟩], false⟩
          text rfl rest rfl isStr
      refine ⟨⟨bytes ++ text, isPlain⟩, ?_, ?_, ?_⟩
      · unfold rendering formatPieces
        rw [← isFuel]
        unfold printFormat
        rw [List.map_cons, isBytes, isText, Option.map_some]
      · refine (congrArg ScanState.count ends).trans (count.trans ?_)
        rw [List.length_cons]
        exact Nat.add_comm _ _
      · refine (congrArg ScanState.stores ends).trans (stores.trans ?_)
        unfold itemStores
        rw [List.zipIdx_cons, List.map_cons]
        rfl

/-- Integers of every kind that are printed with flags and widths, with white
space between them, into a buffer that is large enough, are scanned as the same
values, each through its own argument, and counted. -/
theorem scan_undoes_print (items : List PrintedItem) :
    ∃ bytes,
      rendering (printFormat items)
          (items.map fun item => item.value.argument) =
        some bytes ∧
      ∀ (memory : Bytes) (str size : Nat),
        bytes.length < size →
          ∃ after count text,
            vsnprintf memory str size (printFormat items)
                (items.map fun item => item.value.argument) =
              some (after, count) ∧
            StringAt after str text ∧
            (vscanString text (scanFormat items)).count = items.length ∧
            (vscanString text (scanFormat items)).stores =
              itemStores items 0 := by
  obtain ⟨text, rendered, count, stores⟩ := items_scanned items
  refine ⟨text.bytes, rendered, ?_⟩
  intro memory str size fits
  exact ⟨_, _, text, vsnprintf_eq memory str size rendered,
    stringAt_truncated memory str text fits, count, stores⟩

end RoundTrip

end MyOS
