import MyOS.LibcStrtol
import MyOS.Lib.Run

namespace MyOS

open Lib

/-!
# Formatted input of the C library

`vscan_string` walks along a format and a text.  Its pointers are what is left
of them; an argument is known by its number, and what is stored through it is
kept in the order of the stores.
-/

/-- What is stored through an argument. -/
inductive ScanValue where
  | long (value : BitVec 64)
  | int (value : BitVec 32)
  | short (value : BitVec 16)
  | byte (value : BitVec 8)
  | text (characters : List UInt8)
  | char (c : UInt8)
  deriving Repr, DecidableEq

/-- The bytes that are written; a text has a null byte behind it. -/
def ScanValue.size : ScanValue → Nat
  | .long _ => 8
  | .int _ => 4
  | .short _ => 2
  | .byte _ => 1
  | .text characters => characters.length + 1
  | .char _ => 1

/-- A store through an argument. -/
structure ScanStore where
  argument : Nat
  value : ScanValue
  deriving Repr, DecidableEq

/-- What is left of the text and of the format, the arguments that have been
taken, `count`, the stores, and whether the loop has been left. -/
structure ScanState where
  str : List UInt8
  fmt : List UInt8
  taken : Nat
  count : Nat
  stores : List ScanStore
  left : Bool
  deriving Repr, DecidableEq

/-- `scan_space` -/
def scanSpace (c : UInt8) : Bool :=
  c = ' '.toUInt8 || c = '\t'.toUInt8 || c = '\n'.toUInt8 || c = 13 ||
    c = 11 || c = 12

/-- What stands between a `%` and the rest of the format. -/
structure ScanDirective where
  suppressed : Bool
  width : List UInt8
  length : Int
  conversion : Option UInt8
  deriving Repr, DecidableEq

/-- `*` -/
def parseSuppression (fmt : List UInt8) : Bool × List UInt8 :=
  if fmt.head? = some '*'.toUInt8 then (true, fmt.tail) else (false, fmt)

/-- A digit of a width. -/
def isWidthDigit (c : UInt8) : Bool :=
  '0'.toUInt8 ≤ c && c ≤ '9'.toUInt8

/-- `length`, and what is left behind the modifiers. -/
def parseLength (fmt : List UInt8) : Int × List UInt8 :=
  if fmt.head? = some 'h'.toUInt8 then
    if fmt.tail.head? = some 'h'.toUInt8 then
      (-2, fmt.tail.tail)
    else
      (-1, fmt.tail)
  else if fmt.head? = some 'l'.toUInt8 then
    if fmt.tail.head? = some 'l'.toUInt8 then
      (2, fmt.tail.tail)
    else
      (1, fmt.tail)
  else if fmt.head? = some 'j'.toUInt8 ∨ fmt.head? = some 'z'.toUInt8 ∨
      fmt.head? = some 't'.toUInt8 then
    (1, fmt.tail)
  else
    (0, fmt)

/-- A directive behind a `%`, and the format behind it. -/
def parseScan (fmt : List UInt8) : ScanDirective × List UInt8 :=
  let star := parseSuppression fmt
  let width := star.2.takeWhile isWidthDigit
  let fmt := star.2.dropWhile isWidthDigit
  let modified := parseLength fmt
  (⟨star.1, width, modified.1, modified.2.head?⟩, modified.2.tail)

/-- The conversions of integers. -/
def isIntegerConversion (c : UInt8) : Bool :=
  c = 'd'.toUInt8 || c = 'i'.toUInt8 || c = 'u'.toUInt8 || c = 'o'.toUInt8 ||
    c = 'x'.toUInt8 || c = 'X'.toUInt8

/-- `base` -/
def scanBase (c : UInt8) : Int :=
  if c = 'o'.toUInt8 then
    8
  else if c = 'x'.toUInt8 ∨ c = 'X'.toUInt8 then
    16
  else if c = 'i'.toUInt8 then
    0
  else
    10

/-- The value in the type of the argument. -/
def scanValue (length : Int) (v : BitVec 64) : ScanValue :=
  if length ≥ 1 then
    .long v
  else if length = -1 then
    .short (v.truncate 16)
  else if length = -2 then
    .byte (v.truncate 8)
  else
    .int (v.truncate 32)

namespace ScanState

/-- The loop is left. -/
def leave (s : ScanState) : ScanState :=
  { s with left := true }

/-- An argument is taken. -/
def take (s : ScanState) : ScanState :=
  { s with taken := s.taken + 1 }

/-- A value is stored through an argument, and counts. -/
def store (s : ScanState) (argument : Nat) (value : ScanValue) : ScanState :=
  { s with
    count := s.count + 1
    stores := s.stores ++ [⟨argument, value⟩] }

/-- White space of the text is skipped. -/
def skipSpace (s : ScanState) : ScanState :=
  { s with str := s.str.dropWhile scanSpace }

end ScanState

/-- `strtol` on what is left of a text: the value, and what is left of it
then.  The pointer `end` is always given. -/
def scanNumber (str : List UInt8) (base : Int) : BitVec 64 × List UInt8 :=
  let signed := strtolSign (str.dropWhile isStrtolSpace)
  let based := strtolBase base signed.2
  let read := strtolLoop based.1 based.2 0
  (read.1 * signed.1, read.2)

/-- The branch for integers. -/
def scanInteger
    (directive : ScanDirective)
    (conversion : UInt8)
    (s : ScanState) : ScanState :=
  let out := s.taken
  let s := if directive.suppressed then s else s.take
  let s := s.skipSpace
  let read := scanNumber s.str (scanBase conversion)
  if read.2 = s.str then
    s.leave
  else
    let s :=
      if directive.suppressed then
        s
      else
        s.store out (scanValue directive.length read.1)
    { s with str := read.2 }

/-- The branch for `s`. -/
def scanText (s : ScanState) : ScanState :=
  let out := s.taken
  let s := s.take.skipSpace
  if s.str = [] then
    s.leave
  else
    { s.store out (.text (s.str.takeWhile fun c => !scanSpace c)) with
      str := s.str.dropWhile fun c => !scanSpace c }

/-- The branch for `c`. -/
def scanChar (s : ScanState) : ScanState :=
  let out := s.taken
  let s := s.take
  match s.str with
  | [] => s.leave
  | c :: str => { s.store out (.char c) with str := str }

/-- A character of the text that has to be this one. -/
def scanPlain (c : UInt8) (s : ScanState) : ScanState :=
  if s.str.head? = some c then
    { s with str := s.str.tail }
  else
    s.leave

/-- The branches for the conversions. -/
def scanDirective
    (directive : ScanDirective)
    (s : ScanState) : ScanState :=
  match directive.conversion with
  | none => s.leave
  | some c =>
      if isIntegerConversion c then
        scanInteger directive c s
      else if c = 's'.toUInt8 then
        scanText s
      else if c = 'c'.toUInt8 then
        scanChar s
      else if c = '%'.toUInt8 then
        scanPlain '%'.toUInt8 s
      else
        s.leave

/-- The directive that comes next, if one does. -/
def nextDirective (s : ScanState) : Option ScanDirective :=
  if s.fmt.head? = some '%'.toUInt8 then
    some (parseScan s.fmt.tail).1
  else
    none

/-- A round of the loop; `none` where there is none any more. -/
def scanStep (s : ScanState) : Option ScanState :=
  if s.left then
    none
  else
    match s.fmt with
    | [] => none
    | c :: fmt =>
        if scanSpace c then
          some { s.skipSpace with fmt := (c :: fmt).dropWhile scanSpace }
        else if c ≠ '%'.toUInt8 then
          some { scanPlain c s with fmt := fmt }
        else
          some
            { scanDirective (parseScan fmt).1 s with
              fmt := (parseScan fmt).2 }

/-- The loop of `vscan_string`; every round consumes a character of the
format. -/
def scanLoop : Nat → ScanState → ScanState
  | 0, s => s
  | rounds + 1, s =>
      match scanStep s with
      | none => s
      | some later => scanLoop rounds later

/-- The state that `vscan_string` begins with. -/
def scanStart (str fmt : CString) : ScanState :=
  ⟨str.bytes, fmt.bytes, 0, 0, [], false⟩

/-- `vscan_string`: the value that it returns is the `count` of the state that
it comes to. -/
def vscanString (str fmt : CString) : ScanState :=
  scanLoop (fmt.bytes.length + 1) (scanStart str fmt)

end MyOS
