import MyOS.Lib.Bytes

namespace MyOS

open Lib

/-!
# Formatted output of the C library

`vsnprintf` reads a format and sends every character through one function,
which writes it while there is room and counts it in any case.  Formats are the
bytes before their null byte; integers are taken modulo their ranges.
-/

/-- One more argument of a call, with the type that it is passed with. -/
inductive PrintArg where
  | int (value : BitVec 32)
  | long (value : BitVec 64)
  | text (string : Option (List UInt8))
  | pointer (address : BitVec 64)
  deriving Repr, DecidableEq

/-- The buffer, the place of the next character in it, and the counters. -/
structure OutBuffer where
  memory : Bytes
  out : Nat
  left : Nat
  count : Nat

/-- `out_char` -/
def outChar (buffer : OutBuffer) (c : UInt8) : OutBuffer :=
  if 1 < buffer.left then
    { memory := Function.update buffer.memory buffer.out c
      out := buffer.out + 1
      left := buffer.left - 1
      count := buffer.count + 1 }
  else
    { buffer with count := buffer.count + 1 }

/-- The bytes of a text. -/
def textBytes (text : List Char) : List UInt8 :=
  text.map Char.toUInt8

/-- The loop of `out_str`. -/
def outStrLoop (buffer : OutBuffer) : List UInt8 → OutBuffer
  | [] => buffer
  | c :: s => outStrLoop (outChar buffer c) s

/-- `out_str` -/
def outStr (buffer : OutBuffer) (s : Option (List UInt8)) : OutBuffer :=
  outStrLoop buffer
    (s.getD (textBytes ['(', 'n', 'u', 'l', 'l', ')']))

/-- `out_repeat` -/
def outRepeat (buffer : OutBuffer) (c : UInt8) : Nat → OutBuffer
  | 0 => buffer
  | n + 1 => outRepeat (outChar buffer c) c n

/-- The character of a digit. -/
def digitChar (digit : Nat) : UInt8 :=
  if digit < 10 then
    '0'.toUInt8 + UInt8.ofNat digit
  else
    'a'.toUInt8 + UInt8.ofNat digit - 10

/-- The loop of `out_uint` that fills `tmp`, the last digit first. -/
def digitLoop (base : Nat) : Nat → Nat → List UInt8
  | 0, _ => []
  | fuel + 1, x =>
      if x = 0 then
        []
      else
        digitChar (x % base) :: digitLoop base fuel (x / base)

/-- `tmp`; a number of 64 bits has at most 64 digits. -/
def uintDigits (base x : Nat) : List UInt8 :=
  if x = 0 then
    ['0'.toUInt8]
  else
    digitLoop base 64 x

/-- `out_uint` -/
def outUint
    (buffer : OutBuffer)
    (x base : Nat)
    (neg leftAlign padZero : Bool)
    (width : Int) : OutBuffer :=
  let tmp := uintDigits base x
  let len := tmp.length + if neg then 1 else 0
  let pad := (width - len).toNat
  let buffer :=
    if !leftAlign && !padZero then outRepeat buffer ' '.toUInt8 pad else buffer
  let buffer := if neg then outChar buffer '-'.toUInt8 else buffer
  let buffer :=
    if !leftAlign && padZero then outRepeat buffer '0'.toUInt8 pad else buffer
  let buffer := outStrLoop buffer tmp.reverse
  if leftAlign then outRepeat buffer ' '.toUInt8 pad else buffer

/-- A character that the loop over the flags consumes. -/
def isFlag (c : UInt8) : Bool :=
  c = '-'.toUInt8 || c = '+'.toUInt8 || c = ' '.toUInt8 || c = '#'.toUInt8 ||
    c = '0'.toUInt8

/-- A decimal digit. -/
def isDecimal (c : UInt8) : Bool :=
  '0'.toUInt8 ≤ c && c ≤ '9'.toUInt8

/-- A character that the loop over the modifiers consumes. -/
def isModifier (c : UInt8) : Bool :=
  c = 'l'.toUInt8 || c = 'z'.toUInt8

/-- What stands between a `%` and the rest of the format; the conversion is
missing at the end of the format. -/
structure Directive where
  flags : List UInt8
  width : List UInt8
  precision : Option (List UInt8)
  modifiers : List UInt8
  conversion : Option UInt8
  deriving Repr, DecidableEq

/-- The precision is a `.` with the digits behind it. -/
def parsePrecision (fmt : List UInt8) : Option (List UInt8) × List UInt8 :=
  match fmt with
  | [] => (none, [])
  | c :: rest =>
      if c = '.'.toUInt8 then
        (some (rest.takeWhile isDecimal), rest.dropWhile isDecimal)
      else
        (none, c :: rest)

/-- The loops of `vsnprintf` behind a `%`. -/
def parseDirective (fmt : List UInt8) : Directive × List UInt8 :=
  let flags := fmt.takeWhile isFlag
  let fmt := fmt.dropWhile isFlag
  let width := fmt.takeWhile isDecimal
  let fmt := fmt.dropWhile isDecimal
  let precision := (parsePrecision fmt).1
  let fmt := (parsePrecision fmt).2
  let modifiers := fmt.takeWhile isModifier
  let fmt := fmt.dropWhile isModifier
  (⟨flags, width, precision, modifiers, fmt.head?⟩, fmt.tail)

/-- An `int`, as the arithmetic on it wraps. -/
def wrapInt (value : Int) : Int :=
  value.bmod 4294967296

/-- `width` behind the loop over its digits. -/
def widthOf (digits : List UInt8) : Int :=
  digits.foldl (fun width c => wrapInt (width * 10 + (c.toNat - 48 : Int))) 0

namespace Directive

/-- `long_arg` -/
def longArg (directive : Directive) : Bool :=
  !directive.modifiers.isEmpty

/-- `left_align` -/
def leftAlign (directive : Directive) : Bool :=
  directive.flags.contains '-'.toUInt8

/-- `pad_zero` -/
def padZero (directive : Directive) : Bool :=
  directive.flags.contains '0'.toUInt8

end Directive

/-- `va_arg` of a signed integer, an `int` or a `long`. -/
def signedArg (longArg : Bool) : List PrintArg → Option (Int × List PrintArg)
  | .int value :: args => if longArg then none else some (value.toInt, args)
  | .long value :: args => if longArg then some (value.toInt, args) else none
  | _ => none

/-- `va_arg` of an unsigned integer. -/
def unsignedArg (longArg : Bool) : List PrintArg → Option (Nat × List PrintArg)
  | .int value :: args => if longArg then none else some (value.toNat, args)
  | .long value :: args => if longArg then some (value.toNat, args) else none
  | _ => none

/-- `va_arg` of a string. -/
def textArg : List PrintArg → Option (Option (List UInt8) × List PrintArg)
  | .text string :: args => some (string, args)
  | _ => none

/-- `va_arg` of a character, which is passed as an `int`. -/
def charArg : List PrintArg → Option (UInt8 × List PrintArg)
  | .int value :: args => some (UInt8.ofNat value.toNat, args)
  | _ => none

/-- `va_arg` of a pointer. -/
def pointerArg : List PrintArg → Option (Nat × List PrintArg)
  | .pointer address :: args => some (address.toNat, args)
  | _ => none

/-- The branches of `vsnprintf` for the conversions; `none` if the next
argument is missing or of another type. -/
def outDirective
    (directive : Directive)
    (args : List PrintArg)
    (buffer : OutBuffer) : Option (OutBuffer × List PrintArg) :=
  let width := widthOf directive.width
  let number (x base : Nat) (neg : Bool) :=
    outUint buffer x base neg directive.leftAlign directive.padZero width
  match directive.conversion with
  | none => some (outChar buffer '%'.toUInt8, args)
  | some c =>
      if c = 's'.toUInt8 then
        (textArg args).map fun next => (outStr buffer next.1, next.2)
      else if c = 'c'.toUInt8 then
        (charArg args).map fun next => (outChar buffer next.1, next.2)
      else if c = 'd'.toUInt8 ∨ c = 'i'.toUInt8 then
        (signedArg directive.longArg args).map fun next =>
          (number next.1.natAbs 10 (decide (next.1 < 0)), next.2)
      else if c = 'u'.toUInt8 then
        (unsignedArg directive.longArg args).map fun next =>
          (number next.1 10 false, next.2)
      else if c = 'x'.toUInt8 ∨ c = 'X'.toUInt8 then
        (unsignedArg directive.longArg args).map fun next =>
          (number next.1 16 false, next.2)
      else if c = 'o'.toUInt8 then
        (unsignedArg directive.longArg args).map fun next =>
          (number next.1 8 false, next.2)
      else if c = 'p'.toUInt8 then
        (pointerArg args).map fun next =>
          (outUint (outStr buffer (some (textBytes ['0', 'x']))) next.1 16
            false false false 0, next.2)
      else if c = '%'.toUInt8 then
        some (outChar buffer '%'.toUInt8, args)
      else
        some (outChar (outChar buffer '%'.toUInt8) c, args)

/-- The loop of `vsnprintf`; every round consumes a character of the format. -/
def vsnprintfLoop :
    Nat → List UInt8 → List PrintArg → OutBuffer → Option OutBuffer
  | 0, _, _, _ => none
  | _ + 1, [], _, buffer => some buffer
  | fuel + 1, c :: fmt, args, buffer =>
      if c ≠ '%'.toUInt8 then
        vsnprintfLoop fuel fmt args (outChar buffer c)
      else
        let parsed := parseDirective fmt
        (outDirective parsed.1 args buffer).bind fun next =>
          vsnprintfLoop fuel parsed.2 next.2 next.1

/-- The null byte behind the last character that was written. -/
def endString (str size : Nat) (buffer : OutBuffer) : Bytes :=
  if 0 < size then
    if 0 < buffer.left then
      Function.update buffer.memory buffer.out 0
    else
      Function.update buffer.memory (str + (size - 1)) 0
  else
    buffer.memory

/-- `vsnprintf`: the memory behind it and the value that it returns.  With a
size of zero nothing is written through `out`, which points to a sink. -/
def vsnprintf
    (memory : Bytes)
    (str size : Nat)
    (fmt : List UInt8)
    (args : List PrintArg) : Option (Bytes × Int) :=
  (vsnprintfLoop (fmt.length + 1) fmt args ⟨memory, str, size, 0⟩).map
    fun buffer => (endString str size buffer, wrapInt buffer.count)

/-- `vasprintf`: the string, if there is one, and the value returned.
`malloc` answers a request with a pointer, 0 if it fails, and may change the
memory. -/
def vasprintf
    (malloc : Nat → Bytes → Nat × Bytes)
    (memory : Bytes)
    (fmt : List UInt8)
    (args : List PrintArg) : Option (Bytes × Option Nat × Int) :=
  (vsnprintf memory 0 0 fmt args).bind fun first =>
    if first.2 < 0 then
      some (first.1, none, -1)
    else
      let buf := malloc (first.2.toNat + 1) first.1
      if buf.1 = 0 then
        some (buf.2, none, -1)
      else
        (vsnprintf buf.2 buf.1 (first.2.toNat + 1) fmt args).map
          fun second => (second.1, some buf.1, first.2)

/-- `strlen`, of a string with a null byte within a limit. -/
def stringLength (memory : Bytes) (p : Nat) : Nat → Nat
  | 0 => 0
  | limit + 1 =>
      if memory p = 0 then
        0
      else
        stringLength memory (p + 1) limit + 1

/-- The size of the buffer in `vfprintf`. -/
def PRINT_BUFFER : Nat := 1024

/-- `vfprintf`: the bytes that arrive at the descriptor, and the value that it
returns.  `answer` is what `write` returns: the bytes that it has accepted, or
an error. -/
def vfprintf
    (memory : Bytes)
    (buf : Nat)
    (fmt : List UInt8)
    (args : List PrintArg)
    (answer : Option Nat) : Option (List UInt8 × Int) :=
  (vsnprintf memory buf PRINT_BUFFER fmt args).map fun printed =>
    let bytes :=
      printed.1.slice buf (stringLength printed.1 buf PRINT_BUFFER)
    (bytes.take (answer.getD 0), printed.2)

end MyOS
