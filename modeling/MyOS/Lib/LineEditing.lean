import Mathlib.Logic.Function.Basic

namespace MyOS.Lib

/-!
# Lines with a cursor

A line of bounded length with a cursor, a row of cells that shows it, and a
terminal of unbounded width whose cursor is moved by relative steps.  Shifting
a part of a row by one cell inserts and erases letters.
-/

/-- A line of at most `capacity` letters with a cursor. -/
@[ext]
structure EditLine (Letter : Type) (capacity : Nat) where
  text : List Letter
  cursor : Nat
  within : cursor ≤ text.length
  short : text.length ≤ capacity

namespace EditLine

variable {Letter : Type} {capacity : Nat}

/-- The empty line. -/
def empty : EditLine Letter capacity where
  text := []
  cursor := 0
  within := Nat.le_refl 0
  short := Nat.zero_le capacity

/-- Insert a letter at the cursor while there is room. -/
def insert
    (line : EditLine Letter capacity)
    (letter : Letter) : EditLine Letter capacity :=
  if room : line.text.length < capacity then
    { text := line.text.insertIdx line.cursor letter
      cursor := line.cursor + 1
      within := by
        rw [List.length_insertIdx_of_le_length line.within]
        exact Nat.succ_le_succ line.within
      short := by
        rw [List.length_insertIdx_of_le_length line.within]
        exact room }
  else
    line

/-- Erase the letter before the cursor. -/
def erase (line : EditLine Letter capacity) : EditLine Letter capacity :=
  if some : 0 < line.cursor then
    { text := line.text.eraseIdx (line.cursor - 1)
      cursor := line.cursor - 1
      within := by
        have within := line.within
        rw [List.length_eraseIdx_of_lt (by omega)]
        omega
      short := by
        have within := line.within
        have short := line.short
        rw [List.length_eraseIdx_of_lt (by omega)]
        omega }
  else
    line

/-- Move the cursor to the left. -/
def left (line : EditLine Letter capacity) : EditLine Letter capacity where
  text := line.text
  cursor := line.cursor - 1
  within := Nat.le_trans (Nat.sub_le _ 1) line.within
  short := line.short

/-- Move the cursor to the right. -/
def right (line : EditLine Letter capacity) : EditLine Letter capacity where
  text := line.text
  cursor := min (line.cursor + 1) line.text.length
  within := Nat.min_le_right _ _
  short := line.short

end EditLine

/-- A row of cells holds a text from a place on. -/
def HoldsText
    {Letter : Type}
    (cells : Nat → Letter)
    (start : Nat)
    (text : List Letter) : Prop :=
  ∀ i letter, text[i]? = some letter → cells (start + i) = letter

/-- A row of cells shows a text from a place on, and blanks behind it. -/
def ShowsText
    {Letter : Type}
    (blank : Letter)
    (cells : Nat → Letter)
    (start : Nat)
    (text : List Letter) : Prop :=
  ∀ i, cells (start + i) = text[i]?.getD blank

theorem insertIdx_eq_append
    {Letter : Type}
    {text : List Letter}
    {place : Nat}
    (within : place ≤ text.length)
    (letter : Letter) :
    text.insertIdx place letter =
      text.take place ++ letter :: text.drop place := by
  induction text generalizing place with
  | nil =>
      have zero : place = 0 := Nat.le_zero.mp within
      subst zero
      rfl
  | cons first text inductionHypothesis =>
      rcases place with _ | place
      · rfl
      · rw [List.insertIdx_succ_cons,
          inductionHypothesis (Nat.le_of_succ_le_succ within)]
        rfl

section Rows

variable {Letter : Type} {cells : Nat → Letter} {start : Nat}
variable {text : List Letter}

theorem HoldsText.map_range
    (holds : HoldsText cells start text)
    {first count : Nat}
    (enough : first + count ≤ text.length) :
    ((List.range count).map fun i => cells (start + (first + i))) =
      (text.drop first).take count := by
  apply List.ext_getElem?
  intro i
  by_cases inside : i < count
  · have index : first + i < text.length := by omega
    have cell := holds (first + i) _ (List.getElem?_eq_getElem index)
    rw [List.getElem?_map, List.getElem?_range inside,
      List.getElem?_take_of_lt inside, List.getElem?_drop,
      List.getElem?_eq_getElem index, Option.map_some, cell]
  · rw [List.getElem?_eq_none (by simp; omega),
      List.getElem?_eq_none (by simp; omega)]

theorem HoldsText.eraseIdx
    {shifted : Nat → Letter}
    {place : Nat}
    (holds : HoldsText cells start text)
    (below :
      ∀ i, i < place → shifted (start + i) = cells (start + i))
    (above :
      ∀ i, place ≤ i → i + 1 < text.length →
        shifted (start + i) = cells (start + (i + 1))) :
    HoldsText shifted start (text.eraseIdx place) := by
  intro i letter isLetter
  by_cases before : i < place
  · rw [List.getElem?_eraseIdx_of_lt before] at isLetter
    rw [below i before]
    exact holds i letter isLetter
  · rw [List.getElem?_eraseIdx_of_ge (Nat.le_of_not_lt before)] at isLetter
    have inside := (List.getElem?_eq_some_iff.mp isLetter).1
    rw [above i (Nat.le_of_not_lt before) inside]
    exact holds (i + 1) letter isLetter

theorem HoldsText.insertIdx
    {shifted : Nat → Letter}
    {place : Nat}
    {letter : Letter}
    (holds : HoldsText cells start text)
    (below :
      ∀ i, i < place → shifted (start + i) = cells (start + i))
    (here : shifted (start + place) = letter)
    (above :
      ∀ i, place ≤ i → i < text.length →
        shifted (start + (i + 1)) = cells (start + i)) :
    HoldsText shifted start (text.insertIdx place letter) := by
  intro i other isLetter
  rcases Nat.lt_trichotomy i place with before | same | after
  · rw [List.getElem?_insertIdx_of_lt before] at isLetter
    rw [below i before]
    exact holds i other isLetter
  · subst same
    rw [List.getElem?_insertIdx_self] at isLetter
    split at isLetter
    · cases isLetter
      exact here
    · cases isLetter
  · rw [List.getElem?_insertIdx_of_gt after] at isLetter
    have inside := (List.getElem?_eq_some_iff.mp isLetter).1
    obtain ⟨previous, rfl⟩ : ∃ previous, i = previous + 1 :=
      ⟨i - 1, by omega⟩
    rw [Nat.add_sub_cancel] at isLetter inside
    rw [above previous (by omega) inside]
    exact holds previous other isLetter

theorem ShowsText.overwrite
    {blank : Letter}
    {after : Nat → Letter}
    {place : Nat}
    {written : List Letter}
    (shows : ShowsText blank cells start text)
    (within : place ≤ text.length)
    (covers : text.length ≤ place + written.length)
    (below : ∀ i, i < place → after (start + i) = cells (start + i))
    (above :
      ∀ i, after (start + place + i) =
        written[i]?.getD (cells (start + place + i))) :
    ShowsText blank after start (text.take place ++ written) := by
  intro i
  by_cases before : i < place
  · rw [below i before, shows i,
      List.getElem?_append_left (by rw [List.length_take]; omega),
      List.getElem?_take_of_lt before]
  · obtain ⟨rest, rfl⟩ : ∃ rest, i = place + rest := ⟨i - place, by omega⟩
    have length : (text.take place).length = place := by
      rw [List.length_take]
      omega
    rw [List.getElem?_append_right (by omega), length,
      Nat.add_sub_cancel_left, ← Nat.add_assoc, above rest]
    by_cases inside : rest < written.length
    · rw [List.getElem?_eq_getElem inside]
      rfl
    · rw [List.getElem?_eq_none (Nat.le_of_not_lt inside), Option.getD_none,
        Option.getD_none, Nat.add_assoc, shows (place + rest),
        List.getElem?_eq_none (by omega), Option.getD_none]

theorem ShowsText.dropBlank
    {blank : Letter}
    (shows : ShowsText blank cells start (text ++ [blank])) :
    ShowsText blank cells start text := by
  intro i
  rw [shows i]
  rcases Nat.lt_trichotomy i text.length with before | same | after
  · rw [List.getElem?_append_left before]
  · subst same
    simp
  · rw [List.getElem?_eq_none (by simp; omega),
      List.getElem?_eq_none (by omega)]

end Rows

/-- How far a terminal is in a control sequence. -/
inductive ScreenPhase where
  | plain
  | escape
  | bracket
  deriving Repr, DecidableEq

/-- A terminal of unbounded width. -/
structure Screen where
  cells : Nat → UInt8
  column : Nat
  phase : ScreenPhase

namespace Screen

/-- The character that starts a control sequence. -/
def escapeByte : UInt8 := 27

/-- Bytes that a terminal shows. -/
def isPrintable (byte : UInt8) : Bool :=
  decide (32 ≤ byte ∧ byte < 127)

/--
A printable byte overwrites the cell at the cursor and advances it, and
`ESC [ D` and `ESC [ C` move the cursor.
-/
def put (screen : Screen) (byte : UInt8) : Screen :=
  match screen.phase with
  | .plain =>
      if byte = escapeByte then
        { screen with phase := .escape }
      else if isPrintable byte then
        { screen with
          cells := Function.update screen.cells screen.column byte
          column := screen.column + 1 }
      else
        screen
  | .escape =>
      if byte = 91 then
        { screen with phase := .bracket }
      else
        { screen with phase := .plain }
  | .bracket =>
      if byte = 68 then
        { screen with column := screen.column - 1, phase := .plain }
      else if byte = 67 then
        { screen with column := screen.column + 1, phase := .plain }
      else
        { screen with phase := .plain }

/-- The terminal after a run of bytes. -/
def write (screen : Screen) (bytes : List UInt8) : Screen :=
  bytes.foldl put screen

/-- The bytes that move the cursor to the left. -/
def leftBytes : List UInt8 := [escapeByte, 91, 68]

/-- The bytes that move the cursor to the right. -/
def rightBytes : List UInt8 := [escapeByte, 91, 67]

theorem write_append
    (screen : Screen)
    (first second : List UInt8) :
    screen.write (first ++ second) = (screen.write first).write second :=
  List.foldl_append ..

theorem write_leftBytes
    {screen : Screen}
    (plain : screen.phase = .plain) :
    screen.write leftBytes = { screen with column := screen.column - 1 } := by
  obtain ⟨cells, column, phase⟩ := screen
  subst plain
  rfl

theorem write_rightBytes
    {screen : Screen}
    (plain : screen.phase = .plain) :
    screen.write rightBytes = { screen with column := screen.column + 1 } := by
  obtain ⟨cells, column, phase⟩ := screen
  subst plain
  rfl

theorem write_leftBytes_flatten
    (screen : Screen)
    (plain : screen.phase = .plain)
    (count : Nat) :
    screen.write (List.replicate count leftBytes).flatten =
      { screen with column := screen.column - count } := by
  induction count generalizing screen with
  | zero =>
      rfl
  | succ count inductionHypothesis =>
      rw [List.replicate_succ, List.flatten_cons, write_append,
        write_leftBytes plain,
        inductionHypothesis { screen with column := screen.column - 1 } plain,
        Nat.sub_sub, Nat.add_comm]

theorem write_text
    (screen : Screen)
    {text : List UInt8}
    (plain : screen.phase = .plain)
    (printable : ∀ byte ∈ text, isPrintable byte = true) :
    (screen.write text).phase = .plain ∧
      (screen.write text).column = screen.column + text.length ∧
      (∀ i, (screen.write text).cells (screen.column + i) =
        text[i]?.getD (screen.cells (screen.column + i))) ∧
      ∀ place, place < screen.column →
        (screen.write text).cells place = screen.cells place := by
  induction text generalizing screen with
  | nil =>
      exact ⟨plain, rfl, fun i => rfl, fun place before => rfl⟩
  | cons byte text inductionHypothesis =>
      rw [List.forall_mem_cons] at printable
      have notEscape : byte ≠ escapeByte := by
        intro same
        rw [same] at printable
        exact absurd printable.1 (by decide)
      have first :
          screen.put byte =
            { screen with
              cells := Function.update screen.cells screen.column byte
              column := screen.column + 1 } := by
        unfold put
        simp only [plain, if_neg notEscape, printable.1, if_true]
      obtain ⟨stays, column, cells, before⟩ :=
        inductionHypothesis (screen.put byte) (by rw [first]; exact plain)
          printable.2
      have rest : screen.write (byte :: text) = (screen.put byte).write text :=
        rfl
      rw [rest]
      refine ⟨stays, ?_, ?_, ?_⟩
      · have start : (screen.put byte).column = screen.column + 1 := by
          rw [first]
        rw [column, start, List.length_cons]
        omega
      · intro i
        rcases i with _ | i
        · rw [Nat.add_zero, before screen.column (by rw [first]; simp), first]
          simp
        · have cell := cells i
          rw [first] at cell ⊢
          simp only at cell
          rw [Nat.add_right_comm, Nat.add_assoc] at cell
          rw [cell, List.getElem?_cons_succ,
            Function.update_of_ne (by omega)]
      · intro place earlier
        rw [before place (by rw [first]; exact Nat.lt_succ_of_lt earlier),
          first]
        exact Function.update_of_ne (by omega) ..

theorem write_back
    (screen : Screen)
    {text : List UInt8}
    (plain : screen.phase = .plain)
    (printable : ∀ byte ∈ text, isPrintable byte = true)
    (back : Nat) :
    ∃ after,
      (screen.write text).write (List.replicate back leftBytes).flatten =
        after ∧
        after.phase = .plain ∧
        after.column = screen.column + text.length - back ∧
        (∀ i, after.cells (screen.column + i) =
          text[i]?.getD (screen.cells (screen.column + i))) ∧
        ∀ place, place < screen.column →
          after.cells place = screen.cells place := by
  obtain ⟨stays, column, cells, before⟩ := screen.write_text plain printable
  refine ⟨_, write_leftBytes_flatten _ stays back, stays, ?_, cells, before⟩
  rw [← column]

end Screen

end MyOS.Lib
