import MyOS.Lib.CString

namespace MyOS

open Lib

/-!
# Numbers in texts

`strtol` reads an optional sign, an optional prefix and digits behind white
space.  A pointer into the text is what is left of it; the arithmetic of `long`
is taken modulo its range.
-/

/-- The white space that `strtol` skips. -/
def isStrtolSpace (c : UInt8) : Bool :=
  c = ' '.toUInt8 || c = '\t'.toUInt8 || c = '\n'.toUInt8

/-- `sign`, and what is left behind it. -/
def strtolSign : List UInt8 → BitVec 64 × List UInt8
  | [] => (1, [])
  | c :: nptr =>
      if c = '-'.toUInt8 then
        (-1, nptr)
      else if c = '+'.toUInt8 then
        (1, nptr)
      else
        (1, c :: nptr)

/-- The character that makes a prefix hexadecimal. -/
def isHexMark (c : UInt8) : Bool :=
  c = 'x'.toUInt8 || c = 'X'.toUInt8

/-- Whether a text begins with a hexadecimal prefix. -/
def hasHexMark : List UInt8 → Bool
  | zero :: mark :: _ => zero = '0'.toUInt8 && isHexMark mark
  | _ => false

/-- `base`, and what is left behind a prefix. -/
def strtolBase (base : Int) (nptr : List UInt8) : Int × List UInt8 :=
  if base = 0 then
    if hasHexMark nptr then
      (16, nptr.drop 2)
    else
      (10, nptr)
  else
    (base, nptr)

/-- `digit` -/
def strtolDigit (c : UInt8) : Int :=
  if '0'.toUInt8 ≤ c ∧ c ≤ '9'.toUInt8 then
    c.toNat - '0'.toNat
  else if 'a'.toUInt8 ≤ c ∧ c ≤ 'f'.toUInt8 then
    c.toNat - 'a'.toNat + 10
  else if 'A'.toUInt8 ≤ c ∧ c ≤ 'F'.toUInt8 then
    c.toNat - 'A'.toNat + 10
  else
    -1

/-- The loop over the digits. -/
def strtolLoop
    (base : Int) :
    List UInt8 → BitVec 64 → BitVec 64 × List UInt8
  | [], result => (result, [])
  | c :: nptr, result =>
      if strtolDigit c < 0 ∨ strtolDigit c ≥ base then
        (result, c :: nptr)
      else
        strtolLoop base nptr
          (result * BitVec.ofInt 64 base + BitVec.ofInt 64 (strtolDigit c))

/-- `strtol`; the second component is `*endptr`, where there is one. -/
def strtol
    (nptr : CString)
    (endptr : Bool)
    (base : Int) : BitVec 64 × Option (List UInt8) :=
  let signed := strtolSign (nptr.bytes.dropWhile isStrtolSpace)
  let based := strtolBase base signed.2
  let read := strtolLoop based.1 based.2 0
  (read.1 * signed.1, if endptr then some read.2 else none)

/-- `strtoul` -/
def strtoul
    (nptr : CString)
    (endptr : Bool)
    (base : Int) : BitVec 64 × Option (List UInt8) :=
  strtol nptr endptr base

section Standard

/-- White space. -/
def isWhiteSpace (c : UInt8) : Bool :=
  isStrtolSpace c || c = 11 || c = 12 || c = 13

/-- The sign, and what is left behind it. -/
def signOf : List UInt8 → Bool × List UInt8
  | [] => (false, [])
  | c :: rest =>
      if c = '-'.toUInt8 then
        (true, rest)
      else if c = '+'.toUInt8 then
        (false, rest)
      else
        (false, c :: rest)

/-- The value of a digit; 36 for what is none in any base. -/
def digitValue (c : UInt8) : Nat :=
  if '0'.toUInt8 ≤ c ∧ c ≤ '9'.toUInt8 then
    c.toNat - '0'.toNat
  else if 'a'.toUInt8 ≤ c ∧ c ≤ 'z'.toUInt8 then
    c.toNat - 'a'.toNat + 10
  else if 'A'.toUInt8 ≤ c ∧ c ≤ 'Z'.toUInt8 then
    c.toNat - 'A'.toNat + 10
  else
    36

/-- A digit of a base. -/
def isDigit (base : Nat) (c : UInt8) : Bool :=
  digitValue c < base

/-- Whether a hexadecimal number with its prefix begins here: the prefix counts
before a hexadecimal digit only. -/
def hasHexNumber (text : List UInt8) : Bool :=
  hasHexMark text && ((text.drop 2).head?.map (isDigit 16)).getD false

/-- The base of a number, and what is left behind its prefix. -/
def numberBase (base : Nat) (text : List UInt8) : Nat × List UInt8 :=
  if (base = 0 ∨ base = 16) ∧ hasHexNumber text then
    (16, text.drop 2)
  else if base = 0 then
    (if text.head? = some '0'.toUInt8 then 8 else 10, text)
  else
    (base, text)

/-- What stands behind white space and a sign. -/
def unsignedText (text : List UInt8) : List UInt8 :=
  (signOf (text.dropWhile isWhiteSpace)).2

/-- Whether the number has a minus sign. -/
def isNegative (text : List UInt8) : Bool :=
  (signOf (text.dropWhile isWhiteSpace)).1

/-- The digits of the number that a text begins with, and their base. -/
def numberDigits (base : Nat) (text : List UInt8) : Nat × List UInt8 :=
  let based := numberBase base (unsignedText text)
  (based.1, based.2.takeWhile (isDigit based.1))

/-- The number of a list of digits. -/
def digitsNumber (base : Nat) (digits : List UInt8) : Nat :=
  digits.foldl (fun number c => number * base + digitValue c) 0

/-- A number with its sign. -/
def withSign (negative : Bool) (number : Nat) : Int :=
  if negative then -number else number

/-- A number within the range of `long`. -/
def clampLong (number : Int) : Int :=
  max (-9223372036854775808) (min 9223372036854775807 number)

/-- What `strtol` should return, and where the number should end: at the
beginning of the text where there is none. -/
def standardStrtol (base : Nat) (text : List UInt8) : Int × List UInt8 :=
  let found := numberDigits base text
  let based := numberBase base (unsignedText text)
  (clampLong (withSign (isNegative text) (digitsNumber found.1 found.2)),
    if found.2 = [] then text else based.2.dropWhile (isDigit based.1))

end Standard

end MyOS
