import MyOS.Lib.LineEditing
import MyOS.Param

namespace MyOS

open Lib

/-!
# The shell's line editor

`read_line` edits the line in place in its buffer and repaints the part behind
the cursor with relative cursor moves.
-/

/-- The byte that starts a control sequence. -/
def escapeKey : UInt8 := 27

/-- The byte that ends a line. -/
def newlineKey : UInt8 := 10

/-- The caller's buffer; `strayed` tells that a byte was stored outside it. -/
structure LineBuffer where
  cells : Nat → UInt8
  strayed : Bool

namespace LineBuffer

/-- `line[place]` -/
def load (line : LineBuffer) (place : Int) : UInt8 :=
  line.cells place.toNat

/-- `line[place] = c` -/
def store (line : LineBuffer) (place : Int) (c : UInt8) : LineBuffer :=
  if 0 ≤ place ∧ place < LINE_SIZE then
    { line with cells := Function.update line.cells place.toNat c }
  else
    { line with strayed := true }

/-- `line[cursor - 1 + i] = line[cursor + i]` for `i` from 0 up to `count`. -/
def shiftDown (line : LineBuffer) (cursor : Int) : Nat → LineBuffer
  | 0 => line
  | i + 1 =>
      let shifted := line.shiftDown cursor i
      shifted.store (cursor - 1 + i) (shifted.load (cursor + i))

/-- `line[cursor + 1 + i] = line[cursor + i]` for `i` from `count - 1` to 0. -/
def shiftUp (line : LineBuffer) (cursor : Int) : Nat → LineBuffer
  | 0 => line
  | i + 1 =>
      (line.store (cursor + 1 + i) (line.load (cursor + i))).shiftUp cursor i

end LineBuffer

/-- The local variables of `read_line`, and what it has written. -/
structure Editor where
  line : LineBuffer
  len : Int
  cursor : Int
  escState : Int
  echoed : List UInt8

namespace Editor

/-- `write_bytes(line + place, n)` -/
def writeLine (e : Editor) (place n : Int) : Editor :=
  { e with
    echoed := e.echoed ++
      (List.range n.toNat).map fun (i : Nat) => e.line.load (place + i) }

/-- `write_char(c)` -/
def writeChar (e : Editor) (c : UInt8) : Editor :=
  { e with echoed := e.echoed ++ [c] }

/-- `move_left(count)` -/
def moveLeft (e : Editor) (count : Int) : Editor :=
  { e with
    echoed := e.echoed ++ (List.replicate count.toNat [27, 91, 68]).flatten }

/-- `move_right()` -/
def moveRight (e : Editor) : Editor :=
  { e with echoed := e.echoed ++ [27, 91, 67] }

/-- `esc_state = handle_arrow(esc_state, c, &cursor, len)` -/
def handleArrow (e : Editor) (c : UInt8) : Editor :=
  if e.escState = 1 then
    { e with escState := if c = 91 then 2 else 0 }
  else if e.escState ≠ 2 then
    { e with escState := 0 }
  else if c = 68 ∧ 0 < e.cursor then
    { ({ e with cursor := e.cursor - 1 }).moveLeft 1 with escState := 0 }
  else if c = 67 ∧ e.cursor < e.len then
    { ({ e with cursor := e.cursor + 1 }).moveRight with escState := 0 }
  else
    { e with escState := 0 }

/-- `if (tail > 0) write_bytes(line + *cursor, tail);` -/
def writeTail (e : Editor) (tail : Int) : Editor :=
  if 0 < tail then e.writeLine e.cursor tail else e

/-- `erase_before_cursor(line, &len, &cursor)` -/
def eraseBeforeCursor (e : Editor) : Editor :=
  if e.cursor ≤ 0 then
    e
  else
    let tail := e.len - e.cursor
    let erased :=
      { e with
        line := e.line.shiftDown e.cursor tail.toNat
        cursor := e.cursor - 1
        len := e.len - 1 }
    ((((erased.moveLeft 1).writeTail tail).writeChar 32).moveLeft (tail + 1))

/-- `insert_at_cursor(line, &len, &cursor, c)` -/
def insertAtCursor (e : Editor) (c : UInt8) : Editor :=
  if LINE_SIZE - 1 ≤ e.len then
    e
  else
    let tail := e.len - e.cursor
    let inserted :=
      { e with
        line := (e.line.shiftUp e.cursor tail.toNat).store e.cursor c
        len := e.len + 1 }
    let written := inserted.writeLine e.cursor (tail + 1)
    ({ written with cursor := e.cursor + 1 }).moveLeft tail

/-- One turn of the loop: it goes on, or `read_line` returns. -/
inductive Turn where
  | again (e : Editor)
  | done (e : Editor) (len : Int)

/-- The body of the loop with the byte that was read. -/
def turn (e : Editor) (c : UInt8) : Turn :=
  if c = escapeKey then
    .again { e with escState := 1 }
  else if e.escState ≠ 0 then
    .again (e.handleArrow c)
  else if c = newlineKey then
    .done
      (({ e with line := e.line.store e.len 0 }).writeChar newlineKey) e.len
  else if c = 127 ∨ c = 8 then
    .again e.eraseBeforeCursor
  else
    .again (e.insertAtCursor c)

/-- Where `read_line` is when the reads that are listed have returned. -/
inductive Outcome where
  | waiting (e : Editor)
  | returned (e : Editor) (len : Int) (rest : List (Option UInt8))

/--
The loop of `read_line`, given what each of its reads finds: a byte, or none
where `read` returns 0 or less.
-/
def readLineLoop : List (Option UInt8) → Editor → Outcome
  | [], e => .waiting e
  | none :: reads, e => readLineLoop reads e
  | some c :: reads, e =>
      match e.turn c with
      | .again later => readLineLoop reads later
      | .done final len => .returned final len reads

/-- The variables at the start of `read_line`. -/
def start (line : Nat → UInt8) : Editor where
  line := ⟨line, false⟩
  len := 0
  cursor := 0
  escState := 0
  echoed := []

/-- `read_line(line)` -/
def readLine (line : Nat → UInt8) (reads : List (Option UInt8)) : Outcome :=
  readLineLoop reads (start line)

end Editor

/-- How far the reference editor is in an arrow's sequence. -/
inductive ArrowPhase where
  | none
  | escape
  | bracket
  deriving Repr, DecidableEq

/-- The reference editor: a line with a cursor. -/
structure CursorEditor where
  line : EditLine UInt8 (LINE_SIZE - 1)
  phase : ArrowPhase

namespace CursorEditor

/-- The editor with an empty line. -/
def empty : CursorEditor where
  line := .empty
  phase := .none

/-- The final letter of an arrow's sequence moves the cursor. -/
def arrow (editor : CursorEditor) (key : UInt8) : CursorEditor where
  line :=
    if key = 68 then
      editor.line.left
    else if key = 67 then
      editor.line.right
    else
      editor.line
  phase := .none

/-- A key outside a sequence erases or inserts. -/
def edit (editor : CursorEditor) (key : UInt8) : CursorEditor where
  line :=
    if key = 127 ∨ key = 8 then
      editor.line.erase
    else
      editor.line.insert key
  phase := .none

/-- One key, other than the newline that ends the line. -/
def press (editor : CursorEditor) (key : UInt8) : CursorEditor :=
  if key = escapeKey then
    { editor with phase := .escape }
  else
    match editor.phase with
    | .escape => { editor with phase := if key = 91 then .bracket else .none }
    | .bracket => editor.arrow key
    | .none => editor.edit key

/-- The key ends the line: a newline outside a sequence. -/
def ends (editor : CursorEditor) (key : UInt8) : Bool :=
  decide (editor.phase = .none ∧ key = newlineKey)

/-- The key is a character that goes into the line. -/
def inserts (editor : CursorEditor) (key : UInt8) : Bool :=
  decide
    (editor.phase = .none ∧ key ≠ escapeKey ∧ key ≠ 127 ∧ key ≠ 8 ∧
      editor.line.text.length < LINE_SIZE - 1)

/-- The editor after a run of keys. -/
def pressAll (editor : CursorEditor) (keys : List UInt8) : CursorEditor :=
  keys.foldl press editor

/-- No key of the run ends the line. -/
def typing : CursorEditor → List UInt8 → Bool
  | _, [] => true
  | editor, key :: keys => !editor.ends key && (editor.press key).typing keys

/-- The characters of the run that go into the line. -/
def inserted : CursorEditor → List UInt8 → List UInt8
  | _, [] => []
  | editor, key :: keys =>
      (if editor.inserts key then [key] else []) ++
        (editor.press key).inserted keys

end CursorEditor

end MyOS
