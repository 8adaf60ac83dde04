import Mathlib.Data.List.TakeWhile
import MyOS.LibcPrintfNumbers
import MyOS.LibcScanfRuns

namespace MyOS

open Lib

/-!
# Formats that are printed and scanned

A list of integers is printed with flags and widths, with white space between
them, and scanned with the plain conversions.  What is printed for an integer
is its digits behind a sign and zeros, in blanks; `strtol` reads it back.
-/

/-- The conversions of integers. -/
inductive IntegerConversion where
  | d
  | u
  | x
  | o
  deriving Repr, DecidableEq

namespace IntegerConversion

/-- The letter of a conversion. -/
def letter : IntegerConversion → UInt8
  | d => 'd'.toUInt8
  | u => 'u'.toUInt8
  | x => 'x'.toUInt8
  | o => 'o'.toUInt8

/-- The base of a conversion. -/
def base : IntegerConversion → Nat
  | d => 10
  | u => 10
  | x => 16
  | o => 8

end IntegerConversion

/-- A value for a plain conversion or for one with `l`. -/
inductive IntegerValue where
  | int (value : BitVec 32)
  | long (value : BitVec 64)
  deriving Repr, DecidableEq

namespace IntegerValue

/-- The modifier of a conversion for the value. -/
def modifier : IntegerValue → List UInt8
  | int _ => []
  | long _ => ['l'.toUInt8]

/-- The value as it is passed. -/
def argument : IntegerValue → PrintArg
  | int value => .int value
  | long value => .long value

/-- The value as it should be stored. -/
def scanned : IntegerValue → ScanValue
  | int value => .int value
  | long value => .long value

/-- The value as a number of a signed type. -/
def signed : IntegerValue → Int
  | int value => value.toInt
  | long value => value.toInt

/-- The value as a number of an unsigned type. -/
def unsigned : IntegerValue → Nat
  | int value => value.toNat
  | long value => value.toNat

/-- The number that a conversion prints. -/
def number
    (value : IntegerValue)
    (conversion : IntegerConversion) : Int :=
  if conversion = .d then value.signed else value.unsigned

end IntegerValue

/-- An integer that is printed: its conversion, its value, flags `-` and `0`, a
width, and the white space in front of it if it is not the first one. -/
structure PrintedItem where
  gap : List UInt8
  flags : List UInt8
  width : List UInt8
  conversion : IntegerConversion
  value : IntegerValue
  isGap : gap ≠ [] ∧ ∀ c ∈ gap, scanSpace c = true
  areFlags : ∀ c ∈ flags, c = '-'.toUInt8 ∨ c = '0'.toUInt8
  areDigits : ∀ c ∈ width, isDecimal c = true

namespace PrintedItem

/-- The conversion behind flags and width. -/
def conversionText (item : PrintedItem) : List UInt8 :=
  item.value.modifier ++ [item.conversion.letter]

/-- The directive that an item is printed with. -/
def printText (item : PrintedItem) : List UInt8 :=
  '%'.toUInt8 :: (item.flags ++ item.width ++ item.conversionText)

/-- The directive that an item is scanned with. -/
def scanText (item : PrintedItem) : List UInt8 :=
  '%'.toUInt8 :: item.conversionText

end PrintedItem

/-- A format that prints items. -/
def printFormat : List PrintedItem → List UInt8
  | [] => []
  | item :: items =>
      item.printText ++ items.flatMap fun item => item.gap ++ item.printText

/-- The bytes of the format that scans items. -/
def scanFormatBytes : List PrintedItem → List UInt8
  | [] => []
  | item :: items =>
      item.scanText ++ items.flatMap fun item => ' '.toUInt8 :: item.scanText

/-- The stores of the values of items, from an argument on. -/
def itemStores (items : List PrintedItem) (first : Nat) : List ScanStore :=
  (items.zipIdx first).map fun entry => ⟨entry.2, entry.1.value.scanned⟩

section Printing

variable {item : PrintedItem} {items : List PrintedItem}

/-- What is printed for a number: blanks, its sign, zeros, its digits and
blanks. -/
def NumberBytes (number : Int) (base : Nat) (bytes : List UInt8) : Prop :=
  ∃ before zeros after,
    bytes =
      List.replicate before ' '.toUInt8 ++
        ((if number < 0 then ['-'.toUInt8] else []) ++
          (List.replicate zeros '0'.toUInt8 ++
            (uintDigits base number.natAbs).reverse) ++
          List.replicate after ' '.toUInt8)

theorem uintBytes_numberBytes
    (number : Int)
    (base : Nat)
    (leftAlign padZero : Bool)
    (width : Int) :
    NumberBytes number base
      (uintBytes number.natAbs base (decide (number < 0)) leftAlign padZero
        width) := by
  unfold NumberBytes uintBytes
  dsimp only
  generalize (width - _ : Int).toNat = pad
  simp only [decide_eq_true_eq]
  cases leftAlign with
  | true =>
      refine ⟨0, 0, pad, ?_⟩
      simp
  | false =>
      cases padZero with
      | true =>
          refine ⟨0, pad, 0, ?_⟩
          simp
      | false =>
          refine ⟨pad, 0, 0, ?_⟩
          simp

theorem dropWhile_append_stop
    {p : UInt8 → Bool}
    {text rest : List UInt8}
    (stops : rest.dropWhile p = rest) :
    (text ++ rest).dropWhile p = text.dropWhile p ++ rest := by
  rw [List.dropWhile_append]
  split_ifs with isEmpty
  · rw [stops, List.isEmpty_iff.mp isEmpty, List.nil_append]
  · rfl

theorem parseDirective_item
    (item : PrintedItem)
    (rest : List UInt8) :
    ∃ directive,
      parseDirective
          (item.flags ++ item.width ++ item.conversionText ++ rest) =
        (directive, rest) ∧
      directive.conversion = some item.conversion.letter ∧
      directive.modifiers = item.value.modifier := by
  obtain ⟨tail, isTail⟩ :
      ∃ tail, tail = item.conversionText ++ rest := ⟨_, rfl⟩
  have noFlag : tail.dropWhile isFlag = tail := by
    rw [isTail]
    unfold PrintedItem.conversionText
    cases item.value <;> cases item.conversion <;> rfl
  have noDigit : tail.dropWhile isDecimal = tail := by
    rw [isTail]
    unfold PrintedItem.conversionText
    cases item.value <;> cases item.conversion <;> rfl
  have noPoint : parsePrecision tail = (none, tail) := by
    rw [isTail]
    unfold PrintedItem.conversionText
    cases item.value <;> cases item.conversion <;> rfl
  have modifiers :
      tail.takeWhile isModifier = item.value.modifier ∧
        tail.dropWhile isModifier = item.conversion.letter :: rest := by
    rw [isTail]
    unfold PrintedItem.conversionText
    cases item.value <;> cases item.conversion <;> exact ⟨rfl, rfl⟩
  have flagged :
      (item.flags ++ item.width ++ tail).dropWhile isFlag =
        (item.flags ++ item.width).dropWhile isFlag ++ tail :=
    dropWhile_append_stop noFlag
  have digits :
      ((item.flags ++ item.width).dropWhile isFlag).dropWhile isDecimal =
        [] := by
    rw [List.dropWhile_eq_nil_iff]
    have flags : ∀ c ∈ item.flags, isFlag c = true := by
      intro c member
      rcases item.areFlags c member with rfl | rfl <;> rfl
    rw [List.dropWhile_append_of_pos flags]
    intro c member
    exact item.areDigits c ((List.dropWhile_suffix _).subset member)
  rw [List.append_assoc (item.flags ++ item.width), ← isTail]
  unfold parseDirective
  dsimp only
  rw [flagged, dropWhile_append_stop noDigit, digits, List.nil_append, noPoint]
  rw [modifiers.1, modifiers.2]
  exact ⟨_, rfl, rfl, rfl⟩

theorem directiveBytes_item
    {directive : Directive}
    (item : PrintedItem)
    (args : List PrintArg)
    (conversion : directive.conversion = some item.conversion.letter)
    (modifiers : directive.modifiers = item.value.modifier) :
    directiveBytes directive (item.value.argument :: args) =
      some (uintBytes (item.value.number item.conversion).natAbs
        item.conversion.base
        (decide (item.value.number item.conversion < 0))
        directive.leftAlign directive.padZero (widthOf directive.width),
          args) := by
  have isLong : directive.longArg = !item.value.modifier.isEmpty := by
    unfold Directive.longArg
    rw [modifiers]
  unfold directiveBytes
  rw [conversion, isLong]
  cases item.conversion <;> cases item.value <;> rfl

/-- The bytes that are printed for items behind the first one. -/
inductive PrintedBehind : List PrintedItem → List UInt8 → Prop where
  | none :
      PrintedBehind [] []
  | next
      {item : PrintedItem}
      {items : List PrintedItem}
      {bytes text : List UInt8}
      (number :
        NumberBytes (item.value.number item.conversion) item.conversion.base
          bytes)
      (rest : PrintedBehind items text) :
      PrintedBehind (item :: items) (item.gap ++ (bytes ++ text))

theorem piecesLoop_gap
    {gap fmt : List UInt8}
    {fuel : Nat}
    {args : List PrintArg}
    (isGap : ∀ c ∈ gap, scanSpace c = true) :
    piecesBytes (piecesLoop (gap.length + fuel) (gap ++ fmt)) args =
      (piecesBytes (piecesLoop fuel fmt) args).map fun rest => gap ++ rest := by
  induction gap with
  | nil => simp
  | cons c gap inductionHypothesis =>
      obtain ⟨isSpace_, isGap⟩ := List.forall_mem_cons.mp isGap
      have plain : c ≠ '%'.toUInt8 := by
        rintro rfl
        rw [scanSpace_percent] at isSpace_
        cases isSpace_
      have rounds : (c :: gap).length + fuel = gap.length + fuel + 1 := by
        rw [List.length_cons]
        omega
      rw [rounds, List.cons_append]
      have first : piecesLoop (gap.length + fuel + 1) (c :: (gap ++ fmt)) =
          .plain c :: piecesLoop (gap.length + fuel) (gap ++ fmt) :=
        if_pos plain
      rw [first, piecesBytes, inductionHypothesis isGap, Option.map_map]
      rfl

theorem piecesLoop_item
    {fuel : Nat}
    {fmt : List UInt8}
    {args : List PrintArg}
    (item : PrintedItem) :
    ∃ bytes,
      NumberBytes (item.value.number item.conversion) item.conversion.base
          bytes ∧
        piecesBytes (piecesLoop (fuel + 1) (item.printText ++ fmt))
            (item.value.argument :: args) =
          (piecesBytes (piecesLoop fuel fmt) args).map fun rest =>
            bytes ++ rest := by
  obtain ⟨directive, parsed, conversion, modifiers⟩ :=
    parseDirective_item item fmt
  refine ⟨_, uintBytes_numberBytes _ _ directive.leftAlign directive.padZero
    (widthOf directive.width), ?_⟩
  have first :
      piecesLoop (fuel + 1) (item.printText ++ fmt) =
        .directive directive :: piecesLoop fuel fmt := by
    have isDirective :
        piecesLoop (fuel + 1) (item.printText ++ fmt) =
          .directive (parseDirective (item.flags ++ item.width ++
              item.conversionText ++ fmt)).1 ::
            piecesLoop fuel (parseDirective (item.flags ++ item.width ++
              item.conversionText ++ fmt)).2 :=
      if_neg (not_not.mpr rfl)
    rw [isDirective, parsed]
  rw [first, piecesBytes, directiveBytes_item item args conversion modifiers,
    Option.bind_some]

theorem piecesLoop_items
    {fuel : Nat}
    (enough :
      (items.flatMap fun item => item.gap ++ item.printText).length < fuel) :
    ∃ text,
      PrintedBehind items text ∧
        piecesBytes
            (piecesLoop fuel
              (items.flatMap fun item => item.gap ++ item.printText))
            (items.map fun item => item.value.argument) =
          some text := by
  induction items generalizing fuel with
  | nil =>
      refine ⟨[], .none, ?_⟩
      cases fuel <;> rfl
  | cons item items inductionHypothesis =>
      rw [List.flatMap_cons, List.append_assoc] at enough ⊢
      simp only [List.length_append] at enough
      have directive : 0 < item.printText.length := Nat.succ_pos _
      obtain ⟨rounds, isRounds⟩ :
          ∃ rounds, fuel = item.gap.length + (rounds + 1) :=
        ⟨fuel - item.gap.length - 1, by omega⟩
      obtain ⟨text, rest, isText⟩ := @inductionHypothesis rounds (by omega)
      obtain ⟨bytes, number, isBytes⟩ :=
        @piecesLoop_item rounds
          (items.flatMap fun item => item.gap ++ item.printText)
          (items.map fun item => item.value.argument) item
      refine ⟨_, .next number rest, ?_⟩
      rw [isRounds, piecesLoop_gap item.isGap.2, List.map_cons, isBytes,
        isText, Option.map_some, Option.map_some]

end Printing

end MyOS
