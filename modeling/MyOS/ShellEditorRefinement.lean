import MyOS.ShellEditor

namespace MyOS

open Lib

/-!
# The line editor is a cursor editor

The buffer holds the reference editor's line, and what has been echoed leaves a
terminal with that line and its cursor.  Every key keeps both.
-/

namespace LineBuffer

theorem store_inside
    (line : LineBuffer)
    {place : Nat}
    (inside : place < LINE_SIZE)
    (c : UInt8) :
    line.store place c =
      { line with cells := Function.update line.cells place c } := by
  have bounds : (0 : Int) ≤ place ∧ (place : Int) < LINE_SIZE := by omega
  unfold store
  rw [if_pos bounds, Int.toNat_natCast]

theorem shiftDown_eq
    (line : LineBuffer)
    (place count : Nat)
    (inside : place + count < LINE_SIZE) :
    line.shiftDown (place + 1) count =
      { line with
        cells := fun cell =>
          if place ≤ cell ∧ cell < place + count then
            line.cells (cell + 1)
          else
            line.cells cell } := by
  induction count with
  | zero =>
      have none : ∀ cell, ¬ (place ≤ cell ∧ cell < place + 0) := by omega
      simp only [shiftDown, none, if_false]
  | succ count inductionHypothesis =>
      have target : (place : Int) + 1 - 1 + count = (place + count : Nat) := by
        omega
      have source :
          ((place : Int) + 1 + count).toNat = place + count + 1 := by
        omega
      simp only [shiftDown]
      rw [inductionHypothesis (by omega), target,
        store_inside _ (by omega)]
      simp only [load, source, LineBuffer.mk.injEq, and_true]
      funext cell
      by_cases last : cell = place + count
      · subst last
        have above : ¬ (place ≤ place + count + 1 ∧
            place + count + 1 < place + count) := by omega
        rw [Function.update_self, if_neg above, if_pos (by omega)]
      · rw [Function.update_of_ne last]
        by_cases moved : place ≤ cell ∧ cell < place + count
        · rw [if_pos moved, if_pos (by omega)]
        · rw [if_neg moved, if_neg (by omega)]

theorem shiftUp_eq
    (line : LineBuffer)
    (place count : Nat)
    (inside : place + count < LINE_SIZE) :
    line.shiftUp place count =
      { line with
        cells := fun cell =>
          if place < cell ∧ cell ≤ place + count then
            line.cells (cell - 1)
          else
            line.cells cell } := by
  induction count generalizing line with
  | zero =>
      have none : ∀ cell, ¬ (place < cell ∧ cell ≤ place + 0) := by omega
      simp only [shiftUp, none, if_false]
  | succ count inductionHypothesis =>
      have target : (place : Int) + 1 + count = (place + count + 1 : Nat) := by
        omega
      have source : ((place : Int) + count).toNat = place + count := by
        omega
      simp only [shiftUp]
      rw [target, store_inside _ (by omega), inductionHypothesis _ (by omega)]
      simp only [load, source, LineBuffer.mk.injEq, and_true]
      funext cell
      by_cases last : cell = place + count + 1
      · subst last
        rw [if_neg (by omega), Function.update_self, if_pos (by omega)]
        rfl
      · by_cases moved : place < cell ∧ cell ≤ place + count
        · rw [if_pos moved, if_pos (by omega),
            Function.update_of_ne (by omega)]
        · rw [if_neg moved, if_neg (by omega), Function.update_of_ne last]

end LineBuffer

/-- The value of `esc_state`. -/
def ArrowPhase.code : ArrowPhase → Int
  | .none => 0
  | .escape => 1
  | .bracket => 2

namespace Editor

/-- The buffer holds the line, and the variables stand for its cursor. -/
structure Edits (e : Editor) (editor : CursorEditor) : Prop where
  len : e.len = editor.line.text.length
  cursor : e.cursor = editor.line.cursor
  phase : e.escState = editor.phase.code
  holds : HoldsText e.line.cells 0 editor.line.text
  inside : e.line.strayed = false

/-- What `read_line` keeps between two keys. -/
structure Bounded (e : Editor) : Prop where
  start : 0 ≤ e.cursor
  cursor : e.cursor ≤ e.len
  len : e.len ≤ LINE_SIZE - 1
  inside : e.line.strayed = false

/-- The caller gets the line, with a NUL behind it. -/
structure Returns (e : Editor) (text : List UInt8) : Prop where
  holds : HoldsText e.line.cells 0 (text ++ [0])
  inside : e.line.strayed = false

/-- What a terminal shows after everything that was echoed to it. -/
structure Mirrors
    (e : Editor)
    (screen : Screen)
    (line : EditLine UInt8 (LINE_SIZE - 1)) : Prop where
  phase : (screen.write e.echoed).phase = .plain
  shows :
    ShowsText 32 (screen.write e.echoed).cells screen.column line.text
  column : (screen.write e.echoed).column = screen.column + line.cursor
  before :
    ∀ place, place < screen.column →
      (screen.write e.echoed).cells place = screen.cells place

/-- A terminal at which a line can be typed: blank from the cursor on. -/
structure Fresh (screen : Screen) : Prop where
  phase : screen.phase = .plain
  blank : ∀ i, screen.cells (screen.column + i) = 32

theorem Edits.bounded
    {e : Editor}
    {editor : CursorEditor}
    (edits : Edits e editor) :
    e.Bounded where
  start := by
    rw [edits.cursor]
    omega
  cursor := by
    have within := editor.line.within
    rw [edits.cursor, edits.len]
    omega
  len := by
    have short := editor.line.short
    rw [edits.len]
    simp only [LINE_SIZE] at short ⊢
    omega
  inside := edits.inside

section Keys

variable {e : Editor} {editor : CursorEditor}

@[simp] theorem writeTail_line
    (e : Editor)
    (tail : Int) :
    (e.writeTail tail).line = e.line := by
  unfold writeTail
  split <;> rfl

@[simp] theorem writeTail_len
    (e : Editor)
    (tail : Int) :
    (e.writeTail tail).len = e.len := by
  unfold writeTail
  split <;> rfl

@[simp] theorem writeTail_cursor
    (e : Editor)
    (tail : Int) :
    (e.writeTail tail).cursor = e.cursor := by
  unfold writeTail
  split <;> rfl

@[simp] theorem writeTail_escState
    (e : Editor)
    (tail : Int) :
    (e.writeTail tail).escState = e.escState := by
  unfold writeTail
  split <;> rfl

theorem writeLine_echoed
    {text : List UInt8}
    {place count : Nat}
    (holds : HoldsText e.line.cells 0 text)
    (enough : place + count = text.length) :
    (e.writeLine place count).echoed = e.echoed ++ text.drop place := by
  have cells :
      ((List.range count).map fun (i : Nat) =>
        e.line.load ((place : Int) + i)) = text.drop place := by
    have whole := holds.map_range (Nat.le_of_eq enough)
    rw [List.take_of_length_le (by rw [List.length_drop]; omega)] at whole
    rw [← whole]
    apply List.map_congr_left
    intro i _
    have index : ((place : Int) + i).toNat = 0 + (place + i) := by omega
    rw [LineBuffer.load, index]
  unfold writeLine
  simp only [Int.toNat_natCast, cells]

theorem writeTail_echoed
    {text : List UInt8}
    {place count : Nat}
    (cursor : e.cursor = place)
    (holds : HoldsText e.line.cells 0 text)
    (enough : place + count = text.length) :
    (e.writeTail count).echoed = e.echoed ++ text.drop place := by
  unfold writeTail
  split
  · rw [cursor]
    exact writeLine_echoed holds enough
  · have nothing : text.drop place = [] := by
      apply List.drop_of_length_le
      omega
    rw [nothing, List.append_nil]

theorem Edits.holds_erase
    (edits : Edits e editor)
    (some : 0 < editor.line.cursor) :
    (e.line.shiftDown e.cursor (e.len - e.cursor).toNat).strayed = false ∧
      HoldsText (e.line.shiftDown e.cursor (e.len - e.cursor).toNat).cells 0
        editor.line.erase.text := by
  have within := editor.line.within
  have short := editor.line.short
  have place : e.cursor = ((editor.line.cursor - 1 : Nat) : Int) + 1 := by
    rw [edits.cursor]
    omega
  have count :
      (e.len - e.cursor).toNat =
        editor.line.text.length - editor.line.cursor := by
    rw [edits.len, edits.cursor]
    omega
  have shifted :=
    e.line.shiftDown_eq (editor.line.cursor - 1)
      (editor.line.text.length - editor.line.cursor)
      (by simp only [LINE_SIZE] at short ⊢; omega)
  rw [count, place, shifted]
  refine ⟨edits.inside, ?_⟩
  simp only [EditLine.erase, dif_pos some]
  apply edits.holds.eraseIdx
  · intro i below
    exact if_neg (by omega)
  · intro i above inside
    rw [if_pos (by omega), Nat.add_assoc]

theorem Edits.holds_insert
    (edits : Edits e editor)
    (room : editor.line.text.length < LINE_SIZE - 1)
    (c : UInt8) :
    ((e.line.shiftUp e.cursor (e.len - e.cursor).toNat).store e.cursor
        c).strayed = false ∧
      HoldsText
        ((e.line.shiftUp e.cursor (e.len - e.cursor).toNat).store e.cursor
          c).cells 0 (editor.line.insert c).text := by
  have within := editor.line.within
  have count :
      (e.len - e.cursor).toNat =
        editor.line.text.length - editor.line.cursor := by
    rw [edits.len, edits.cursor]
    omega
  have shifted :=
    e.line.shiftUp_eq editor.line.cursor
      (editor.line.text.length - editor.line.cursor)
      (by simp only [LINE_SIZE] at room ⊢; omega)
  rw [count, edits.cursor, shifted,
    LineBuffer.store_inside _ (by simp only [LINE_SIZE] at room ⊢; omega)]
  refine ⟨edits.inside, ?_⟩
  simp only [EditLine.insert, dif_pos room]
  apply edits.holds.insertIdx
  · intro i below
    rw [Function.update_of_ne (by omega), if_neg (by omega)]
  · rw [Nat.zero_add, Function.update_self]
  · intro i above inside
    rw [Function.update_of_ne (by omega), if_pos (by omega)]
    congr 1

theorem Edits.eraseBeforeCursor
    (edits : Edits e editor) :
    Edits e.eraseBeforeCursor { editor with line := editor.line.erase } := by
  unfold Editor.eraseBeforeCursor
  by_cases some : 0 < editor.line.cursor
  · have within := editor.line.within
    obtain ⟨inside, holds⟩ := edits.holds_erase some
    rw [if_neg (by rw [edits.cursor]; omega)]
    refine {
      len := ?_
      cursor := ?_
      phase := ?_
      holds := ?_
      inside := ?_
    }
    · simp only [moveLeft, writeChar, writeTail_len, edits.len, EditLine.erase,
        dif_pos some]
      rw [List.length_eraseIdx_of_lt (by omega)]
      omega
    · simp only [moveLeft, writeChar, writeTail_cursor, edits.cursor,
        EditLine.erase, dif_pos some]
      omega
    · simp only [moveLeft, writeChar, writeTail_escState, edits.phase]
    · simp only [moveLeft, writeChar, writeTail_line]
      exact holds
    · simp only [moveLeft, writeChar, writeTail_line]
      exact inside
  · have same : editor.line.erase = editor.line := by
      simp only [EditLine.erase, dif_neg some]
    rw [if_pos (by rw [edits.cursor]; omega), same]
    exact edits

theorem Edits.insertAtCursor
    (edits : Edits e editor)
    (c : UInt8) :
    Edits (e.insertAtCursor c)
      { editor with line := editor.line.insert c } := by
  unfold Editor.insertAtCursor
  by_cases room : editor.line.text.length < LINE_SIZE - 1
  · obtain ⟨inside, holds⟩ := edits.holds_insert room c
    rw [if_neg (by rw [edits.len]; simp only [LINE_SIZE] at room ⊢; omega)]
    refine {
      len := ?_
      cursor := ?_
      phase := edits.phase
      holds := holds
      inside := inside
    }
    · simp only [moveLeft, writeLine, edits.len, EditLine.insert, dif_pos room]
      rw [List.length_insertIdx_of_le_length editor.line.within]
      omega
    · simp only [moveLeft, edits.cursor, EditLine.insert, dif_pos room]
      omega
  · have same : editor.line.insert c = editor.line := by
      simp only [EditLine.insert, dif_neg room]
    rw [if_pos (by rw [edits.len]; simp only [LINE_SIZE] at room ⊢; omega),
      same]
    exact edits

theorem Edits.handleArrow
    (edits : Edits e editor)
    {c : UInt8}
    (notEscape : c ≠ escapeKey)
    (inSequence : editor.phase ≠ .none) :
    Edits (e.handleArrow c) (editor.press c) := by
  have phase := edits.phase
  obtain ⟨line, state⟩ := editor
  unfold Editor.handleArrow CursorEditor.press
  rw [if_neg notEscape, phase]
  cases state with
  | none =>
      exact absurd rfl inSequence
  | escape =>
      simp only [ArrowPhase.code, if_true]
      by_cases bracket : c = 91
      · simp only [if_pos bracket]
        exact ⟨edits.len, edits.cursor, rfl, edits.holds, edits.inside⟩
      · simp only [if_neg bracket]
        exact ⟨edits.len, edits.cursor, rfl, edits.holds, edits.inside⟩
  | bracket =>
      have len := edits.len
      have cursor := edits.cursor
      have within := line.within
      simp only at len cursor within
      simp only [ArrowPhase.code, show (2 : Int) ≠ 1 by decide, if_false,
        ne_eq, not_true_eq_false, CursorEditor.arrow]
      by_cases left : c = 68
      · have notRight : c ≠ 67 := by
          rw [left]
          decide
        simp only [left, if_true, true_and]
        by_cases some : 0 < e.cursor
        · rw [if_pos some]
          refine ⟨len, ?_, rfl, edits.holds, edits.inside⟩
          simp only [moveLeft, EditLine.left]
          omega
        · rw [if_neg some, if_neg (by rw [← left]; exact fun h => notRight h.1)]
          refine ⟨len, ?_, rfl, edits.holds, edits.inside⟩
          simp only [EditLine.left]
          omega
      · simp only [left, false_and, if_false]
        by_cases right : c = 67
        · simp only [right, if_true, true_and]
          by_cases some : e.cursor < e.len
          · rw [if_pos some]
            refine ⟨len, ?_, rfl, edits.holds, edits.inside⟩
            simp only [moveRight, EditLine.right]
            omega
          · rw [if_neg some]
            refine ⟨len, ?_, rfl, edits.holds, edits.inside⟩
            simp only [EditLine.right]
            omega
        · simp only [right, false_and, if_false]
          exact ⟨len, cursor, rfl, edits.holds, edits.inside⟩

theorem Edits.escState_eq_zero_iff
    (edits : Edits e editor) :
    e.escState = 0 ↔ editor.phase = .none := by
  rw [edits.phase]
  cases editor.phase <;> simp [ArrowPhase.code]

theorem Edits.turn
    (edits : Edits e editor)
    {c : UInt8}
    (goesOn : editor.ends c = false) :
    ∃ later, e.turn c = .again later ∧ Edits later (editor.press c) := by
  unfold Editor.turn
  by_cases isEscape : c = escapeKey
  · rw [if_pos isEscape]
    refine ⟨_, rfl, ?_⟩
    unfold CursorEditor.press
    rw [if_pos isEscape]
    exact ⟨edits.len, edits.cursor, rfl, edits.holds, edits.inside⟩
  rw [if_neg isEscape]
  by_cases plain : editor.phase = .none
  · have zero := edits.escState_eq_zero_iff.mpr plain
    have notNewline : c ≠ newlineKey := by
      intro newline
      simp [CursorEditor.ends, plain, newline] at goesOn
    have press : editor.press c = editor.edit c := by
      unfold CursorEditor.press
      rw [if_neg isEscape, plain]
    rw [if_neg (by simp [zero]), if_neg notNewline, press]
    unfold CursorEditor.edit
    by_cases erases : c = 127 ∨ c = 8
    · rw [if_pos erases, if_pos erases]
      refine ⟨_, rfl, ?_⟩
      rw [← plain]
      exact edits.eraseBeforeCursor
    · rw [if_neg erases, if_neg erases]
      refine ⟨_, rfl, ?_⟩
      rw [← plain]
      exact edits.insertAtCursor c
  · have nonzero : e.escState ≠ 0 := fun zero =>
      plain (edits.escState_eq_zero_iff.mp zero)
    rw [if_pos nonzero]
    exact ⟨_, rfl, edits.handleArrow isEscape plain⟩

theorem Edits.turn_newline
    (edits : Edits e editor)
    (plain : editor.phase = .none) :
    ∃ final,
      e.turn newlineKey = .done final editor.line.text.length ∧
        final.Returns editor.line.text := by
  have zero := edits.escState_eq_zero_iff.mpr plain
  have short := editor.line.short
  unfold Editor.turn
  rw [if_neg (by decide), if_neg (by simp [zero]), if_pos rfl, edits.len,
    LineBuffer.store_inside _ (by simp only [LINE_SIZE] at short ⊢; omega)]
  refine ⟨_, rfl, ?_, edits.inside⟩
  intro i letter isLetter
  simp only [writeChar]
  by_cases before : i < editor.line.text.length
  · rw [List.getElem?_append_left before] at isLetter
    rw [Function.update_of_ne (by omega)]
    exact edits.holds i letter isLetter
  · have inside := (List.getElem?_eq_some_iff.mp isLetter).1
    rw [List.length_append, List.length_singleton] at inside
    have last : i = editor.line.text.length := by omega
    subst last
    rw [List.getElem?_concat_length] at isLetter
    cases isLetter
    rw [Nat.zero_add, Function.update_self]

theorem Mirrors.of_same
    {later : Editor}
    {screen : Screen}
    {line other : EditLine UInt8 (LINE_SIZE - 1)}
    (mirrors : e.Mirrors screen line)
    (echoed : later.echoed = e.echoed)
    (same : other = line) :
    later.Mirrors screen other := by
  rw [same]
  refine ⟨?_, ?_, ?_, ?_⟩
  · rw [echoed]
    exact mirrors.phase
  · rw [echoed]
    exact mirrors.shows
  · rw [echoed]
    exact mirrors.column
  · rw [echoed]
    exact mirrors.before

theorem Mirrors.left
    {later : Editor}
    {screen : Screen}
    {line : EditLine UInt8 (LINE_SIZE - 1)}
    (mirrors : e.Mirrors screen line)
    (some : 0 < line.cursor)
    (echoed : later.echoed = e.echoed ++ Screen.leftBytes) :
    later.Mirrors screen line.left := by
  have moved := Screen.write_leftBytes mirrors.phase
  refine ⟨?_, ?_, ?_, ?_⟩
  · rw [echoed, Screen.write_append, moved]
    exact mirrors.phase
  · rw [echoed, Screen.write_append, moved]
    exact mirrors.shows
  · rw [echoed, Screen.write_append, moved]
    simp only [mirrors.column, EditLine.left]
    omega
  · rw [echoed, Screen.write_append, moved]
    exact mirrors.before

theorem Mirrors.right
    {later : Editor}
    {screen : Screen}
    {line : EditLine UInt8 (LINE_SIZE - 1)}
    (mirrors : e.Mirrors screen line)
    (some : line.cursor < line.text.length)
    (echoed : later.echoed = e.echoed ++ Screen.rightBytes) :
    later.Mirrors screen line.right := by
  have moved := Screen.write_rightBytes mirrors.phase
  refine ⟨?_, ?_, ?_, ?_⟩
  · rw [echoed, Screen.write_append, moved]
    exact mirrors.phase
  · rw [echoed, Screen.write_append, moved]
    exact mirrors.shows
  · rw [echoed, Screen.write_append, moved]
    simp only [mirrors.column, EditLine.right]
    omega
  · rw [echoed, Screen.write_append, moved]
    exact mirrors.before

theorem Edits.echoed_erase
    (edits : Edits e editor)
    (some : 0 < editor.line.cursor) :
    e.eraseBeforeCursor.echoed =
      e.echoed ++ Screen.leftBytes ++
        (editor.line.text.drop editor.line.cursor ++ [32]) ++
        (List.replicate
          (editor.line.text.length - editor.line.cursor + 1)
          Screen.leftBytes).flatten := by
  have within := editor.line.within
  obtain ⟨_, holds⟩ := edits.holds_erase some
  have count :
      e.len - e.cursor =
        (editor.line.text.length - editor.line.cursor : Nat) := by
    rw [edits.len, edits.cursor]
    omega
  have back :
      ((editor.line.text.length - editor.line.cursor : Nat) + 1 : Int).toNat =
        editor.line.text.length - editor.line.cursor + 1 := by
    omega
  have rest :
      editor.line.erase.text.drop (editor.line.cursor - 1) =
        editor.line.text.drop editor.line.cursor := by
    simp only [EditLine.erase, dif_pos some]
    rw [List.eraseIdx_eq_take_drop_succ, List.drop_append_of_le_length
      (by rw [List.length_take]; omega), List.drop_eq_nil_of_le
      (by rw [List.length_take]; omega), List.nil_append]
    congr 1
    omega
  have length : editor.line.erase.text.length =
      editor.line.text.length - 1 := by
    simp only [EditLine.erase, dif_pos some]
    rw [List.length_eraseIdx_of_lt (by omega)]
  have moved : e.cursor - 1 = (editor.line.cursor - 1 : Nat) := by
    rw [edits.cursor]
    omega
  rw [count] at holds
  unfold Editor.eraseBeforeCursor
  rw [if_neg (by rw [edits.cursor]; omega)]
  simp only [moveLeft, writeChar]
  have enough :
      editor.line.cursor - 1 +
          (editor.line.text.length - editor.line.cursor) =
        editor.line.erase.text.length := by
    rw [length]
    omega
  rw [count, back, writeTail_echoed moved holds enough, rest]
  simp only [List.append_assoc]
  rfl

theorem Edits.echoed_insert
    (edits : Edits e editor)
    (room : editor.line.text.length < LINE_SIZE - 1)
    (c : UInt8) :
    (e.insertAtCursor c).echoed =
      e.echoed ++ (c :: editor.line.text.drop editor.line.cursor) ++
        (List.replicate (editor.line.text.length - editor.line.cursor)
          Screen.leftBytes).flatten := by
  have within := editor.line.within
  obtain ⟨_, holds⟩ := edits.holds_insert room c
  have count :
      e.len - e.cursor =
        (editor.line.text.length - editor.line.cursor : Nat) := by
    rw [edits.len, edits.cursor]
    omega
  have length : (editor.line.text.take editor.line.cursor).length =
      editor.line.cursor := by
    rw [List.length_take]
    omega
  have enough :
      editor.line.cursor +
          (editor.line.text.length - editor.line.cursor).succ =
        (editor.line.text.insertIdx editor.line.cursor c).length := by
    rw [List.length_insertIdx_of_le_length within]
    omega
  simp only [EditLine.insert, dif_pos room] at holds
  unfold Editor.insertAtCursor
  rw [if_neg (by rw [edits.len]; simp only [LINE_SIZE] at room ⊢; omega)]
  simp only [moveLeft]
  generalize (e.line.shiftUp e.cursor (e.len - e.cursor).toNat).store
    e.cursor c = line at holds ⊢
  rw [count, Int.toNat_natCast, edits.cursor, ← Int.natCast_succ]
  congr 1
  apply (writeLine_echoed holds enough).trans
  congr 1
  rw [insertIdx_eq_append within,
    List.drop_append_of_le_length (Nat.le_of_eq length.symm),
    List.drop_eq_nil_of_le (Nat.le_of_eq length), List.nil_append]

/-- Every letter of the line can be shown. -/
def Printable (editor : CursorEditor) : Prop :=
  ∀ letter ∈ editor.line.text, Screen.isPrintable letter = true

theorem Mirrors.erase
    {screen : Screen}
    (mirrors : e.Mirrors screen editor.line)
    (edits : Edits e editor)
    (printable : Printable editor) :
    e.eraseBeforeCursor.Mirrors screen editor.line.erase := by
  by_cases some : 0 < editor.line.cursor
  · have within := editor.line.within
    have back := Screen.write_leftBytes mirrors.phase
    have letters :
        ∀ byte ∈ editor.line.text.drop editor.line.cursor ++ [32],
          Screen.isPrintable byte = true := by
      intro byte isByte
      rcases List.mem_append.mp isByte with isLetter | isBlank
      · exact printable byte (List.mem_of_mem_drop isLetter)
      · rw [List.mem_singleton.mp isBlank]
        decide
    obtain ⟨after, written, phase, column, cells, before⟩ :=
      Screen.write_back ((screen.write e.echoed).write Screen.leftBytes)
        (by rw [back]; exact mirrors.phase) letters
        (editor.line.text.length - editor.line.cursor + 1)
    have whole : screen.write e.eraseBeforeCursor.echoed = after := by
      rw [edits.echoed_erase some, ← written]
      simp only [Screen.write_append]
    have place :
        ((screen.write e.echoed).write Screen.leftBytes).column =
          screen.column + (editor.line.cursor - 1) := by
      rw [back]
      simp only [mirrors.column]
      omega
    have old :
        ((screen.write e.echoed).write Screen.leftBytes).cells =
          (screen.write e.echoed).cells := by
      rw [back]
    rw [place, old] at cells before
    rw [place] at column
    have text :
        editor.line.erase.text ++ [32] =
          editor.line.text.take (editor.line.cursor - 1) ++
            (editor.line.text.drop editor.line.cursor ++ [32]) := by
      simp only [EditLine.erase, dif_pos some]
      rw [List.eraseIdx_eq_take_drop_succ, List.append_assoc,
        Nat.sub_add_cancel some]
    refine ⟨?_, ?_, ?_, ?_⟩
    · rw [whole]
      exact phase
    · rw [whole]
      apply ShowsText.dropBlank
      rw [text]
      apply mirrors.shows.overwrite
      · omega
      · rw [List.length_append, List.length_drop, List.length_singleton]
        omega
      · intro i below
        exact before _ (by omega)
      · exact cells
    · rw [whole, column]
      simp only [EditLine.erase, dif_pos some, List.length_append,
        List.length_drop, List.length_singleton]
      omega
    · intro cell earlier
      rw [whole, before cell (by omega)]
      exact mirrors.before cell earlier
  · have same : editor.line.erase = editor.line := by
      simp only [EditLine.erase, dif_neg some]
    apply mirrors.of_same _ same
    unfold Editor.eraseBeforeCursor
    rw [if_pos (by rw [edits.cursor]; omega)]

theorem Mirrors.insert
    {screen : Screen}
    {c : UInt8}
    (mirrors : e.Mirrors screen editor.line)
    (edits : Edits e editor)
    (printable : Printable editor)
    (shown :
      editor.line.text.length < LINE_SIZE - 1 →
        Screen.isPrintable c = true) :
    (e.insertAtCursor c).Mirrors screen (editor.line.insert c) := by
  by_cases room : editor.line.text.length < LINE_SIZE - 1
  · have within := editor.line.within
    have letters :
        ∀ byte ∈ c :: editor.line.text.drop editor.line.cursor,
          Screen.isPrintable byte = true := by
      intro byte isByte
      rcases List.mem_cons.mp isByte with isNew | isLetter
      · rw [isNew]
        exact shown room
      · exact printable byte (List.mem_of_mem_drop isLetter)
    obtain ⟨after, written, phase, column, cells, before⟩ :=
      Screen.write_back _ mirrors.phase letters
        (editor.line.text.length - editor.line.cursor)
    have whole : screen.write (e.insertAtCursor c).echoed = after := by
      rw [edits.echoed_insert room, Screen.write_append, Screen.write_append,
        written]
    rw [mirrors.column] at cells before column
    refine ⟨?_, ?_, ?_, ?_⟩
    · rw [whole]
      exact phase
    · rw [whole]
      simp only [EditLine.insert, dif_pos room]
      rw [insertIdx_eq_append within]
      apply mirrors.shows.overwrite within
      · rw [List.length_cons, List.length_drop]
        omega
      · intro i below
        exact before _ (by omega)
      · exact cells
    · rw [whole, column]
      simp only [EditLine.insert, dif_pos room, List.length_cons,
        List.length_drop]
      omega
    · intro cell earlier
      rw [whole, before cell (by omega)]
      exact mirrors.before cell earlier
  · have same : editor.line.insert c = editor.line := by
      simp only [EditLine.insert, dif_neg room]
    apply mirrors.of_same _ same
    unfold Editor.insertAtCursor
    rw [if_pos (by rw [edits.len]; simp only [LINE_SIZE] at room ⊢; omega)]

theorem Mirrors.handleArrow
    {screen : Screen}
    {c : UInt8}
    (mirrors : e.Mirrors screen editor.line)
    (edits : Edits e editor)
    (notEscape : c ≠ escapeKey)
    (inSequence : editor.phase ≠ .none) :
    (e.handleArrow c).Mirrors screen (editor.press c).line := by
  have phase := edits.phase
  have len := edits.len
  have cursor := edits.cursor
  obtain ⟨line, state⟩ := editor
  have within := line.within
  simp only at len cursor mirrors
  unfold Editor.handleArrow CursorEditor.press
  rw [if_neg notEscape, phase]
  cases state with
  | none =>
      exact absurd rfl inSequence
  | escape =>
      exact mirrors.of_same rfl rfl
  | bracket =>
      simp only [ArrowPhase.code, show (2 : Int) ≠ 1 by decide, if_false,
        ne_eq, not_true_eq_false, CursorEditor.arrow]
      by_cases left : c = 68
      · simp only [left, if_true, true_and]
        by_cases some : 0 < e.cursor
        · rw [if_pos some]
          have moves : 0 < line.cursor := by omega
          exact mirrors.left moves rfl
        · rw [if_neg some, if_neg (fun right => absurd right.1 (by decide))]
          have stays : line.left = line := by
            ext1
            · rfl
            · simp only [EditLine.left]
              omega
          exact mirrors.of_same rfl stays
      · simp only [left, false_and, if_false]
        by_cases right : c = 67
        · simp only [right, if_true, true_and]
          by_cases some : e.cursor < e.len
          · rw [if_pos some]
            have moves : line.cursor < line.text.length := by omega
            exact mirrors.right moves rfl
          · rw [if_neg some]
            have stays : line.right = line := by
              ext1
              · rfl
              · simp only [EditLine.right]
                omega
            exact mirrors.of_same rfl stays
        · simp only [right, false_and, if_false]
          exact mirrors.of_same rfl rfl

theorem Mirrors.turn
    {later : Editor}
    {screen : Screen}
    {c : UInt8}
    (mirrors : e.Mirrors screen editor.line)
    (edits : Edits e editor)
    (printable : Printable editor)
    (shown : editor.inserts c = true → Screen.isPrintable c = true)
    (isLater : e.turn c = .again later) :
    later.Mirrors screen (editor.press c).line := by
  unfold Editor.turn at isLater
  by_cases isEscape : c = escapeKey
  · rw [if_pos isEscape] at isLater
    cases isLater
    unfold CursorEditor.press
    rw [if_pos isEscape]
    exact mirrors.of_same rfl rfl
  rw [if_neg isEscape] at isLater
  by_cases plain : editor.phase = .none
  · have zero := edits.escState_eq_zero_iff.mpr plain
    have press : editor.press c = editor.edit c := by
      unfold CursorEditor.press
      rw [if_neg isEscape, plain]
    rw [if_neg (by simp [zero])] at isLater
    split at isLater
    · cases isLater
    rw [press]
    unfold CursorEditor.edit
    by_cases erases : c = 127 ∨ c = 8
    · rw [if_pos erases] at isLater
      rw [if_pos erases]
      cases isLater
      exact mirrors.erase edits printable
    · rw [if_neg erases] at isLater
      rw [if_neg erases]
      cases isLater
      rw [not_or] at erases
      apply mirrors.insert edits printable
      intro room
      apply shown
      rw [CursorEditor.inserts, decide_eq_true_eq]
      exact ⟨plain, isEscape, erases.1, erases.2, room⟩
  · have nonzero : e.escState ≠ 0 := fun zero =>
      plain (edits.escState_eq_zero_iff.mp zero)
    rw [if_pos nonzero] at isLater
    cases isLater
    exact mirrors.handleArrow edits isEscape plain

theorem Printable.press
    {c : UInt8}
    (printable : Printable editor)
    (shown : editor.inserts c = true → Screen.isPrintable c = true) :
    Printable (editor.press c) := by
  obtain ⟨line, phase⟩ := editor
  unfold CursorEditor.press
  by_cases isEscape : c = escapeKey
  · rw [if_pos isEscape]
    exact printable
  rw [if_neg isEscape]
  cases phase with
  | escape =>
      exact printable
  | bracket =>
      simp only [CursorEditor.arrow]
      split
      · exact printable
      · split <;> exact printable
  | none =>
      simp only [CursorEditor.edit]
      by_cases erases : c = 127 ∨ c = 8
      · rw [if_pos erases]
        intro letter isLetter
        simp only [EditLine.erase] at isLetter
        split at isLetter
        · exact printable letter (List.mem_of_mem_eraseIdx isLetter)
        · exact printable letter isLetter
      · rw [if_neg erases]
        intro letter isLetter
        simp only [EditLine.insert] at isLetter
        split at isLetter
        · next room =>
            dsimp only at isLetter
            rw [insertIdx_eq_append line.within, List.mem_append,
              List.mem_cons] at isLetter
            rw [not_or] at erases
            rcases isLetter with before | same | after
            · exact printable letter (List.mem_of_mem_take before)
            · rw [same]
              apply shown
              rw [CursorEditor.inserts, decide_eq_true_eq]
              exact ⟨rfl, isEscape, erases.1, erases.2, room⟩
            · exact printable letter (List.mem_of_mem_drop after)
        · exact printable letter isLetter

theorem Edits.readLineLoop
    {reads : List (Option UInt8)}
    (edits : Edits e editor)
    (goesOn : editor.typing (reads.filterMap id) = true)
    (rest : List (Option UInt8)) :
    ∃ later,
      Editor.readLineLoop reads e = .waiting later ∧
        Editor.readLineLoop (reads ++ rest) e =
          Editor.readLineLoop rest later ∧
        Edits later (editor.pressAll (reads.filterMap id)) ∧
        ∀ screen, e.Mirrors screen editor.line → Printable editor →
          (∀ c ∈ editor.inserted (reads.filterMap id),
            Screen.isPrintable c = true) →
          later.Mirrors screen
            (editor.pressAll (reads.filterMap id)).line := by
  induction reads generalizing e editor with
  | nil =>
      exact ⟨e, rfl, rfl, edits, fun _ mirrors _ _ => mirrors⟩
  | cons read reads inductionHypothesis =>
      cases read with
      | none =>
          exact inductionHypothesis edits goesOn
      | some c =>
          have keys :
              (some c :: reads).filterMap id = c :: reads.filterMap id := rfl
          rw [keys] at goesOn ⊢
          simp only [CursorEditor.typing, Bool.and_eq_true,
            Bool.not_eq_true'] at goesOn
          obtain ⟨next, isNext, nextEdits⟩ := edits.turn goesOn.1
          obtain ⟨later, waits, more, laterEdits, mirrored⟩ :=
            inductionHypothesis nextEdits goesOn.2
          refine ⟨later, ?_, ?_, laterEdits, ?_⟩
          · simp only [Editor.readLineLoop, isNext]
            exact waits
          · simp only [List.cons_append, Editor.readLineLoop, isNext]
            exact more
          · intro screen mirrors printable shown
            simp only [CursorEditor.inserted, List.mem_append] at shown
            have here :
                editor.inserts c = true → Screen.isPrintable c = true := by
              intro inserts
              apply shown c
              rw [if_pos inserts]
              exact Or.inl (List.mem_singleton.mpr rfl)
            exact mirrored screen (mirrors.turn edits printable here isNext)
              (printable.press here)
              (fun other member => shown other (Or.inr member))

end Keys

theorem edits_start
    (line : Nat → UInt8) :
    Edits (start line) .empty where
  len := rfl
  cursor := rfl
  phase := rfl
  holds := by
    intro i letter isLetter
    cases isLetter
  inside := rfl

theorem mirrors_start
    {screen : Screen}
    (fresh : Fresh screen)
    (line : Nat → UInt8) :
    (start line).Mirrors screen EditLine.empty where
  phase := fresh.phase
  shows := fresh.blank
  column := rfl
  before := fun _ _ => rfl

/--
After every run of keys that does not end the line, `read_line` holds the line
and the cursor of the reference editor inside its buffer, a terminal shows them
if the characters are printable, and the newline returns the line.
-/
theorem readLine_isCursorEditor
    (line : Nat → UInt8)
    (reads : List (Option UInt8))
    (goesOn : CursorEditor.empty.typing (reads.filterMap id) = true) :
    ∃ e,
      readLine line reads = .waiting e ∧
        e.Edits (CursorEditor.empty.pressAll (reads.filterMap id)) ∧
        e.Bounded ∧
        ((∀ c ∈ CursorEditor.empty.inserted (reads.filterMap id),
            Screen.isPrintable c = true) →
          ∀ screen, Fresh screen →
            e.Mirrors screen
              (CursorEditor.empty.pressAll (reads.filterMap id)).line) ∧
        ((CursorEditor.empty.pressAll (reads.filterMap id)).phase = .none →
          ∀ rest, ∃ final,
            readLine line (reads ++ some newlineKey :: rest) =
                .returned final
                  (CursorEditor.empty.pressAll
                    (reads.filterMap id)).line.text.length rest ∧
              final.Returns
                (CursorEditor.empty.pressAll
                  (reads.filterMap id)).line.text) := by
  have start := edits_start line
  obtain ⟨e, waits, _, edits, mirrors⟩ := start.readLineLoop goesOn []
  refine ⟨e, waits, edits, edits.bounded, ?_, ?_⟩
  · intro shown screen fresh
    apply mirrors screen (mirrors_start fresh line) _ shown
    intro letter isLetter
    cases isLetter
  · intro plain rest
    obtain ⟨again, alsoWaits, more, _⟩ :=
      start.readLineLoop goesOn (some newlineKey :: rest)
    rw [waits] at alsoWaits
    cases alsoWaits
    obtain ⟨final, isDone, returns⟩ := edits.turn_newline plain
    refine ⟨final, ?_, returns⟩
    unfold readLine
    rw [more]
    simp only [Editor.readLineLoop, isDone]

/-- `ab`, an arrow to the left, a backspace and `c` make the line `cb`. -/
theorem readLine_isCursorEditor_arrow :
    ∃ final,
      readLine (fun _ => 255)
          [some 97, none, some 98, some 27, some 91, some 68, some 127,
            some 99, some newlineKey] =
          .returned final 2 [] ∧
        final.Returns [99, 98] := by
  obtain ⟨e, _, _, _, _, returned⟩ :=
    readLine_isCursorEditor (fun _ => 255)
      [some 97, none, some 98, some 27, some 91, some 68, some 127, some 99]
      (by decide)
  exact returned (by decide) []

end Editor

end MyOS
