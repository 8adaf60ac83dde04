import MyOS.Lib.BufferOwners
import MyOS.Lib.Run

namespace MyOS

open Lib

/-!
# The strings of the C++ library

A string keeps its characters and a null byte behind them in a buffer: `data_`,
`size_` and `capacity_` are its fields.  It takes other texts as C strings,
which end at their first null byte.  An operation is undefined where it reads
or writes outside of a buffer, or in one that has been deleted.
-/

/-- A pointer to a text: null, to one outside of all strings, or to the first
character in the buffer of a string. -/
inductive TextPointer where
  | null
  | outside (characters : List UInt8)
  | inside (b : Nat)
  deriving Repr, DecidableEq

/-- The memory of strings. -/
abbrev Chars :=
  Arena UInt8

/-- `text[i]` -/
def readText (arena : Chars) (text : TextPointer) (i : Nat) : Option UInt8 :=
  match text with
  | .null => none
  | .outside characters =>
      if i = characters.length then some 0 else characters[i]?
  | .inside b => arena.read (some b) i

/-- How far a text can be read. -/
def textExtent (arena : Chars) (text : TextPointer) : Nat :=
  match text with
  | .null => 0
  | .outside characters => characters.length + 1
  | .inside b => ((arena.buffers b).map SlotBuffer.capacity).getD 0

/-- The loop of `cstr_len`. -/
def cstrLenLoop
    (arena : Chars)
    (text : TextPointer) : Nat → Nat → Option Nat
  | 0, _ => none
  | rounds + 1, len =>
      (readText arena text len).bind fun c =>
        if c = 0 then
          some len
        else
          cstrLenLoop arena text rounds (len + 1)

/-- `cstr_len` -/
def cstrLen (arena : Chars) (text : TextPointer) : Option Nat :=
  if text = .null then
    some 0
  else
    cstrLenLoop arena text (textExtent arena text) 0

/-- `data_` -/
def stringData (v : BufferFields) : TextPointer :=
  match v.data with
  | none => .null
  | some b => .inside b

/-- `c_str` -/
def cStr (v : BufferFields) : TextPointer :=
  match v.data with
  | none => .outside []
  | some b => .inside b

/-- The loops of `reserve` and `append`: characters are copied one after the
other. -/
def copyCharacters
    (text : TextPointer)
    (data : Option Nat)
    (start : Nat) : Nat → Nat → Chars → Option Chars
  | 0, _, arena => some arena
  | rounds + 1, i, arena =>
      (readText arena text i).bind fun c =>
        (arena.store data (start + i) c).bind fun arena =>
          copyCharacters text data start rounds (i + 1) arena

/-- `reserve` -/
def stringReserve
    (capacity : Nat)
    (v : BufferFields)
    (arena : Chars) : Option (BufferFields × Chars) :=
  if capacity ≤ v.capacity then
    some (v, arena)
  else
    (copyCharacters (stringData v) (some arena.next) 0 v.size 0
        (arena.allocate capacity)).bind fun filled =>
      (filled.store (some arena.next) v.size 0).bind fun ended =>
        (ended.delete v.data).map fun later =>
          (⟨some arena.next, v.size, capacity⟩, later)

/-- `push_back`, and `+=` of a character. -/
def stringPushBack
    (ch : UInt8)
    (v : BufferFields)
    (arena : Chars) : Option (BufferFields × Chars) :=
  (stringReserve (v.size + 2) v arena).bind fun next =>
    (next.2.store next.1.data next.1.size ch).bind fun put =>
      (put.store next.1.data (next.1.size + 1) 0).map fun later =>
        (⟨next.1.data, next.1.size + 1, next.1.capacity⟩, later)

/-- `append`, and `+=` of a text. -/
def stringAppend
    (text : TextPointer)
    (v : BufferFields)
    (arena : Chars) : Option (BufferFields × Chars) :=
  if text = .null then
    some (v, arena)
  else
    (cstrLen arena text).bind fun len =>
      (stringReserve (v.size + len + 1) v arena).bind fun next =>
        (copyCharacters text next.1.data next.1.size len 0
            next.2).bind fun filled =>
          (filled.store next.1.data (next.1.size + len) 0).map fun later =>
            (⟨next.1.data, next.1.size + len, next.1.capacity⟩, later)

/-- `clear` -/
def stringClear
    (v : BufferFields)
    (arena : Chars) : Option (BufferFields × Chars) :=
  match v.data with
  | none => some (⟨none, 0, v.capacity⟩, arena)
  | some b =>
      (arena.store (some b) 0 0).map fun later =>
        (⟨some b, 0, v.capacity⟩, later)

/-- The constructor without arguments. -/
def stringConstruct
    (v : BufferFields)
    (arena : Chars) : Option (BufferFields × Chars) :=
  (stringReserve 1 v arena).bind fun next =>
    (next.2.store next.1.data 0 0).map fun later => (next.1, later)

/-- The constructor from a text. -/
def stringFromText
    (text : TextPointer)
    (v : BufferFields)
    (arena : Chars) : Option (BufferFields × Chars) :=
  (cstrLen arena text).bind fun len =>
    (stringReserve (len + 1) v arena).bind fun next =>
      stringAppend text next.1 next.2

/-- The copy constructor, and the end of the copy assignment. -/
def stringCopyFrom
    (other v : BufferFields)
    (arena : Chars) : Option (BufferFields × Chars) :=
  (stringReserve (other.size + 1) v arena).bind fun next =>
    stringAppend (cStr other) next.1 next.2

/-- The copy assignment from another string. -/
def stringCopyAssign
    (other v : BufferFields)
    (arena : Chars) : Option (BufferFields × Chars) :=
  (stringClear v arena).bind fun next =>
    stringCopyFrom other next.1 next.2

/-- The destructor, and the beginning of the move assignment. -/
def stringRelease
    (v : BufferFields)
    (arena : Chars) : Option (BufferFields × Chars) :=
  (arena.delete v.data).map fun later => (.empty, later)

/-- The loop of `operator==`. -/
def stringEqualLoop
    (arena : Chars)
    (left right : BufferFields) : Nat → Nat → Option Bool
  | 0, _ => some true
  | rounds + 1, i =>
      (arena.read left.data i).bind fun a =>
        (arena.read right.data i).bind fun b =>
          if a ≠ b then
            some false
          else
            stringEqualLoop arena left right rounds (i + 1)

/-- `operator==` -/
def stringEqual
    (arena : Chars)
    (left right : BufferFields) : Option Bool :=
  if left.size ≠ right.size then
    some false
  else
    stringEqualLoop arena left right left.size 0

/-- An operand of type `const char *`: null, a text outside of all strings, or
the `c_str` of a string. -/
inductive TextOperand where
  | null
  | text (characters : List UInt8)
  | of (id : Nat)
  deriving Repr, DecidableEq

/-- What a program does with strings. -/
inductive StringCall where
  | construct
  | constructText (operand : TextOperand)
  | copy (other : Nat)
  | move (other : Nat)
  | copyAssign (id other : Nat)
  | moveAssign (id other : Nat)
  | append (id : Nat) (operand : TextOperand)
  | addText (id : Nat) (operand : TextOperand)
  | addString (id other : Nat)
  | addChar (id : Nat) (ch : UInt8)
  | pushBack (id : Nat) (ch : UInt8)
  | clear (id : Nat)
  | plus (left right : Nat)
  | plusText (left : Nat) (right : TextOperand)
  | textPlus (left : TextOperand) (right : Nat)
  | destruct (id : Nat)
  deriving Repr, DecidableEq

/-- All strings of a program. -/
abbrev StringWorld :=
  OwnerWorld UInt8

/-- The pointer that an operand is. -/
def operandPointer
    (world : StringWorld) :
    TextOperand → Option TextPointer
  | .null => some .null
  | .text characters => some (.outside characters)
  | .of id => (world.owners id).map cStr

/-- A new string from a text. -/
def newFromText
    (world : StringWorld)
    (operand : TextOperand) : Option StringWorld :=
  (operandPointer world operand).bind fun text =>
    (world.add .empty).update world.created (stringFromText text)

/-- A new string from another one. -/
def newCopy (world : StringWorld) (other : Nat) : Option StringWorld :=
  (world.owners other).bind fun v =>
    (world.add .empty).update world.created (stringCopyFrom v)

/-- A text is put behind a string. -/
def addOperand
    (world : StringWorld)
    (id : Nat)
    (operand : TextOperand) : Option StringWorld :=
  (operandPointer world operand).bind fun text =>
    world.update id (stringAppend text)

/-- A call; `none` where it is undefined. -/
def stringCall (world : StringWorld) : StringCall → Option StringWorld
  | .construct => (world.add .empty).update world.created stringConstruct
  | .constructText operand => newFromText world operand
  | .copy other => newCopy world other
  | .move other => (world.add .empty).take world.created other
  | .copyAssign id other =>
      (world.owners other).bind fun v =>
        if id = other then
          some world
        else
          world.update id (stringCopyAssign v)
  | .moveAssign id other =>
      if id = other then
        some world
      else
        (world.update id stringRelease).bind fun world => world.take id other
  | .append id operand => addOperand world id operand
  | .addText id operand => addOperand world id operand
  | .addString id other => addOperand world id (.of other)
  | .addChar id ch => world.update id (stringPushBack ch)
  | .pushBack id ch => world.update id (stringPushBack ch)
  | .clear id => world.update id stringClear
  | .plus left right =>
      (newCopy world left).bind fun result =>
        addOperand result world.created (.of right)
  | .plusText left right =>
      (operandPointer world right).bind fun text =>
        (newCopy world left).bind fun result =>
          result.update world.created (stringAppend text)
  | .textPlus left right =>
      (newFromText world left).bind fun result =>
        addOperand result world.created (.of right)
  | .destruct id =>
      (world.update id stringRelease).map fun world => world.set id none

/-- The string that an operand is about exists. -/
def OperandExists (world : StringWorld) : TextOperand → Prop
  | .null => True
  | .text _ => True
  | .of id => (world.owners id).isSome

/-- The strings that a call is about exist. -/
def StringsExist (world : StringWorld) : StringCall → Prop
  | .construct => True
  | .constructText operand => OperandExists world operand
  | .copy other => (world.owners other).isSome
  | .move other => (world.owners other).isSome
  | .copyAssign id other =>
      (world.owners id).isSome ∧ (world.owners other).isSome
  | .moveAssign id other =>
      (world.owners id).isSome ∧ (world.owners other).isSome
  | .append id operand =>
      (world.owners id).isSome ∧ OperandExists world operand
  | .addText id operand =>
      (world.owners id).isSome ∧ OperandExists world operand
  | .addString id other =>
      (world.owners id).isSome ∧ (world.owners other).isSome
  | .addChar id _ => (world.owners id).isSome
  | .pushBack id _ => (world.owners id).isSome
  | .clear id => (world.owners id).isSome
  | .plus left right =>
      (world.owners left).isSome ∧ (world.owners right).isSome
  | .plusText left right =>
      (world.owners left).isSome ∧ OperandExists world right
  | .textPlus left right =>
      OperandExists world left ∧ (world.owners right).isSome
  | .destruct id => (world.owners id).isSome

/-- A program's step. -/
def StringStep
    (world : StringWorld)
    (call : StringCall)
    (later : StringWorld) : Prop :=
  StringsExist world call ∧ stringCall world call = some later

/-- The C string that a sequence begins with. -/
def cText (items : List UInt8) : List UInt8 :=
  items.takeWhile fun c => c ≠ 0

/-- The C string that an operand is. -/
def operandText
    (sequences : Sequences UInt8) :
    TextOperand → Option (List UInt8)
  | .null => some []
  | .text characters => some (cText characters)
  | .of id => (sequences.items id).map cText

/-- The sequence of two sequences. -/
def joined (left right : Option (List UInt8)) : Option (List UInt8) :=
  left.bind fun first => right.map fun second => first ++ second

/-- What a call does to the sequences that strings stand for. -/
def characterCall (sequences : Sequences UInt8) :
    StringCall → Sequences UInt8
  | .construct => sequences.add (some [])
  | .constructText operand => sequences.add (operandText sequences operand)
  | .copy other => sequences.add (sequences.items other)
  | .move other => (sequences.add (sequences.items other)).set other (some [])
  | .copyAssign id other => sequences.set id (sequences.items other)
  | .moveAssign id other =>
      if id = other then
        sequences
      else
        (sequences.set id (sequences.items other)).set other (some [])
  | .append id operand =>
      sequences.set id
        (joined (sequences.items id) (operandText sequences operand))
  | .addText id operand =>
      sequences.set id
        (joined (sequences.items id) (operandText sequences operand))
  | .addString id other =>
      sequences.set id (joined (sequences.items id) (sequences.items other))
  | .addChar id ch =>
      sequences.set id (joined (sequences.items id) (some [ch]))
  | .pushBack id ch =>
      sequences.set id (joined (sequences.items id) (some [ch]))
  | .clear id => sequences.set id (some [])
  | .plus left right =>
      sequences.add (joined (sequences.items left) (sequences.items right))
  | .plusText left right =>
      sequences.add
        (joined (sequences.items left) (operandText sequences right))
  | .textPlus left right =>
      sequences.add
        (joined (operandText sequences left) (sequences.items right))
  | .destruct id => sequences.set id none

end MyOS
