import Mathlib.Tactic.IntervalCases
import MyOS.Lib.Lines

namespace MyOS

open Lib

/-!
# What `hexdump` prints

Every chunk of up to 16 bytes that `read` returns becomes a line: the offset in
eight hexadecimal digits, two digits for each byte, in two groups of eight, and
the characters.  The bytes can be read off the digits again.
-/

/-- `READ_CAP` of `hexdump.c` -/
def HEXDUMP_CAP : Nat := 16

/-- `hex_digit` -/
def hexDigit (value : Nat) : UInt8 :=
  if value % 16 < 10 then
    UInt8.ofNat (48 + value % 16)
  else
    UInt8.ofNat (97 + (value % 16 - 10))

/-- The loop of `write_hex32`, which fills the buffer from its end. -/
def hexLoop : Nat → Nat → List UInt8 → List UInt8
  | 0, _, buf => buf
  | i + 1, value, buf => hexLoop i (value / 16) (hexDigit value :: buf)

/-- `write_hex32` -/
def writeHex32 (value : Nat) : List UInt8 :=
  hexLoop 8 value []

/-- `printable` -/
def printable (c : UInt8) : Bool :=
  32 ≤ c && c < 127

/-- The first loop of `dump_line`, for the last `left` places; the bytes are
those that are left. -/
def dumpCells : Nat → List UInt8 → List UInt8
  | 0, _ => []
  | left + 1, buf =>
      (match buf with
      | [] => [32, 32, 32]
      | b :: _ => [hexDigit (b.toNat / 16), hexDigit b.toNat, 32]) ++
        (if HEXDUMP_CAP - (left + 1) = 7 then [32] else []) ++
        dumpCells left buf.tail

/-- `dump_line` -/
def dumpLine (offset : Nat) (buf : List UInt8) : List UInt8 :=
  writeHex32 offset ++ [32, 32] ++ dumpCells HEXDUMP_CAP buf ++
    [32, '|'.toUInt8] ++
    (buf.map fun c => if printable c then c else '.'.toUInt8) ++
    ['|'.toUInt8, '\n'.toUInt8]

/-- The loop of `dump_fd`, from the chunks that `read` returns. -/
def dumpChunks : Nat → List (List UInt8) → List UInt8
  | _, [] => []
  | offset, buf :: chunks =>
      dumpLine offset buf ++ dumpChunks (offset + buf.length) chunks

/-- `dump_fd`: what it returns and what it writes; `failed` tells whether the
last call of `read` has failed. -/
def dumpFd (chunks : List (List UInt8)) (failed : Bool) : Int × List UInt8 :=
  (if failed then -1 else 0, dumpChunks 0 chunks)

/-!
## Reading a dump
-/

/-- The value of a hexadecimal digit. -/
def hexValue (c : UInt8) : Nat :=
  if c < 97 then
    c.toNat - 48
  else
    c.toNat - 87

/-- A number in hexadecimal digits. -/
def hexNumber (digits : List UInt8) : Nat :=
  digits.foldl (fun number c => number * 16 + hexValue c) 0

/-- The bytes of the last `left` places of a line; a blank is none. -/
def readCells : Nat → List UInt8 → List UInt8
  | 0, _ => []
  | left + 1, text =>
      if text.headD 32 = 32 then
        []
      else
        UInt8.ofNat (hexNumber (text.take 2)) ::
          readCells left
            (text.drop (if HEXDUMP_CAP - (left + 1) = 7 then 4 else 3))

/-- The offset and the bytes of a line. -/
def readLineOfDump (line : List UInt8) : Nat × List UInt8 :=
  (hexNumber (line.take 8), readCells HEXDUMP_CAP (line.drop 10))

/-- The offsets and the bytes of a dump. -/
def readDump (text : List UInt8) : List (Nat × List UInt8) :=
  (lines '\n'.toUInt8 text).map readLineOfDump

/-- Chunks with their offsets, as 32 bits hold them. -/
def withOffsets : Nat → List (List UInt8) → List (Nat × List UInt8)
  | _, [] => []
  | offset, buf :: chunks =>
      (offset % 4294967296, buf) :: withOffsets (offset + buf.length) chunks

section Digits

variable {value : Nat}

theorem hexValue_hexDigit (value : Nat) :
    hexValue (hexDigit value) = value % 16 := by
  have small := Nat.mod_lt value (show 0 < 16 by decide)
  unfold hexDigit
  generalize value % 16 = digit at small ⊢
  interval_cases digit <;> rfl

theorem hexDigit_visible (value : Nat) :
    hexDigit value ≠ 32 ∧ hexDigit value ≠ '\n'.toUInt8 := by
  have small := Nat.mod_lt value (show 0 < 16 by decide)
  unfold hexDigit
  generalize value % 16 = digit at small ⊢
  interval_cases digit <;> decide

theorem hexLoop_append
    {i : Nat}
    (buf : List UInt8) :
    hexLoop i value buf = hexLoop i value [] ++ buf := by
  induction i generalizing value buf with
  | zero =>
      rfl
  | succ i inductionHypothesis =>
      unfold hexLoop
      rw [inductionHypothesis, @inductionHypothesis _ [hexDigit value],
        List.append_assoc]
      rfl

theorem hexLoop_spec (i : Nat) :
    (hexLoop i value []).length = i ∧
      hexNumber (hexLoop i value []) = value % 16 ^ i ∧
      '\n'.toUInt8 ∉ hexLoop i value [] := by
  induction i generalizing value with
  | zero =>
      refine ⟨rfl, ?_, List.not_mem_nil⟩
      rw [Nat.pow_zero, Nat.mod_one]
      rfl
  | succ i inductionHypothesis =>
      obtain ⟨length, number, plain⟩ := @inductionHypothesis (value / 16)
      unfold hexLoop
      rw [hexLoop_append]
      refine ⟨?_, ?_, ?_⟩
      · rw [List.length_append, length]
        rfl
      · unfold hexNumber at number ⊢
        rw [List.foldl_append, number, List.foldl_cons, List.foldl_nil,
          hexValue_hexDigit, Nat.pow_succ', Nat.mod_mul]
        omega
      · rw [List.mem_append, not_or]
        refine ⟨plain, ?_⟩
        rw [List.mem_singleton]
        exact (hexDigit_visible value).2.symm

theorem byte_hexNumber (b : UInt8) :
    UInt8.ofNat (hexNumber [hexDigit (b.toNat / 16), hexDigit b.toNat]) = b := by
  have small : b.toNat < 256 := b.toNat_lt
  have isNumber :
      hexNumber [hexDigit (b.toNat / 16), hexDigit b.toNat] = b.toNat := by
    unfold hexNumber
    rw [List.foldl_cons, List.foldl_cons, List.foldl_nil, hexValue_hexDigit,
      hexValue_hexDigit]
    omega
  rw [isNumber, UInt8.ofNat_toNat]

end Digits

section Dump

variable {left offset : Nat} {buf rest : List UInt8}

theorem readCells_dumpCells
    (fits : buf.length ≤ left) :
    readCells left (dumpCells left buf ++ rest) = buf := by
  induction left generalizing buf with
  | zero =>
      exact (List.length_eq_zero_iff.mp (Nat.le_zero.mp fits)).symm
  | succ left inductionHypothesis =>
      cases buf with
      | nil =>
          exact if_pos rfl
      | cons b buf =>
          -- The line goes on behind the digits and the gap.
          obtain ⟨behind, isBehind⟩ :
              ∃ behind, behind = dumpCells left buf ++ rest :=
            ⟨_, rfl⟩
          have isCells :
              dumpCells (left + 1) (b :: buf) ++ rest =
                hexDigit (b.toNat / 16) :: hexDigit b.toNat :: 32 ::
                  ((if HEXDUMP_CAP - (left + 1) = 7 then [32] else []) ++
                    behind) := by
            rw [isBehind]
            simp only [dumpCells, List.tail_cons, List.append_assoc,
              List.cons_append, List.nil_append]
          have dropped :
              (hexDigit (b.toNat / 16) :: hexDigit b.toNat :: 32 ::
                  ((if HEXDUMP_CAP - (left + 1) = 7 then [32] else []) ++
                    behind)).drop
                  (if HEXDUMP_CAP - (left + 1) = 7 then 4 else 3) =
                behind := by
            split <;> rfl
          rw [isCells]
          unfold readCells
          rw [dropped, isBehind,
            inductionHypothesis (Nat.le_of_succ_le_succ fits)]
          have taken :
              ∀ text : List UInt8,
                (hexDigit (b.toNat / 16) :: hexDigit b.toNat :: text).take 2 =
                  [hexDigit (b.toNat / 16), hexDigit b.toNat] :=
            fun _ => rfl
          rw [taken, byte_hexNumber, List.headD_cons,
            if_neg (hexDigit_visible _).1]

theorem newline_notMem_dumpCells
    (left : Nat)
    (buf : List UInt8) :
    '\n'.toUInt8 ∉ dumpCells left buf := by
  have blank : '\n'.toUInt8 ≠ 32 := by
    decide
  induction left generalizing buf with
  | zero =>
      exact List.not_mem_nil
  | succ left inductionHypothesis =>
      unfold dumpCells
      rw [List.mem_append, List.mem_append, not_or, not_or]
      refine ⟨⟨?_, ?_⟩, inductionHypothesis buf.tail⟩
      · cases buf with
        | nil =>
            simp [blank]
        | cons b buf =>
            have high := (hexDigit_visible (b.toNat / 16)).2
            have low := (hexDigit_visible b.toNat).2
            simp [blank, high.symm, low.symm]
      · split <;> simp [blank]

theorem dumpLine_line (offset : Nat) (buf : List UInt8) :
    ∃ line, dumpLine offset buf = line ++ ['\n'.toUInt8] ∧
      '\n'.toUInt8 ∉ line := by
  refine ⟨writeHex32 offset ++ [32, 32] ++ dumpCells HEXDUMP_CAP buf ++
    [32, '|'.toUInt8] ++
    (buf.map fun c => if printable c then c else '.'.toUInt8) ++
    ['|'.toUInt8], ?_, ?_⟩
  · simp [dumpLine]
  · have shown :
        ∀ c : UInt8,
          (if printable c then c else '.'.toUInt8) ≠ '\n'.toUInt8 := by
      intro c isNewline
      split at isNewline
      · next visible =>
        rw [isNewline] at visible
        revert visible
        decide
      · revert isNewline
        decide
    have number := (@hexLoop_spec offset 8).2.2
    have cells := newline_notMem_dumpCells HEXDUMP_CAP buf
    simp only [List.mem_append, List.mem_map, not_or, not_exists, not_and]
    refine ⟨⟨⟨⟨⟨number, by decide⟩, cells⟩, by decide⟩, ?_⟩, by decide⟩
    intro c _ isShown
    exact shown c isShown

theorem readLineOfDump_dumpLine
    (fits : buf.length ≤ HEXDUMP_CAP) :
    readLineOfDump (dumpLine offset buf) = (offset % 4294967296, buf) := by
  obtain ⟨length, number, _⟩ := @hexLoop_spec offset 8
  have isLine :
      dumpLine offset buf =
        hexLoop 8 offset [] ++
          ([32, 32] ++
            (dumpCells HEXDUMP_CAP buf ++
              ([32, '|'.toUInt8] ++
                ((buf.map fun c => if printable c then c else '.'.toUInt8) ++
                  ['|'.toUInt8, '\n'.toUInt8])))) := by
    simp [dumpLine, writeHex32]
  unfold readLineOfDump
  rw [isLine, List.take_left' length, number, ← List.append_assoc,
    List.drop_left' (by simp [length]), readCells_dumpCells fits]
  rfl

theorem readDump_dumpChunks
    (chunks : List (List UInt8))
    (offset : Nat)
    (fit : ∀ chunk ∈ chunks, chunk.length ≤ HEXDUMP_CAP) :
    readDump (dumpChunks offset chunks) = withOffsets offset chunks := by
  induction chunks generalizing offset with
  | nil =>
      rfl
  | cons buf chunks inductionHypothesis =>
      obtain ⟨first, others⟩ := List.forall_mem_cons.mp fit
      obtain ⟨line, isLine, plain⟩ := dumpLine_line offset buf
      have rest := inductionHypothesis (offset + buf.length) others
      unfold readDump at rest ⊢
      unfold dumpChunks withOffsets
      rw [isLine, List.append_assoc, List.singleton_append,
        lines_append plain, List.map_cons, rest, ← isLine,
        readLineOfDump_dumpLine first]

theorem flatten_withOffsets
    (chunks : List (List UInt8))
    (offset : Nat) :
    ((withOffsets offset chunks).map Prod.snd).flatten = chunks.flatten := by
  induction chunks generalizing offset with
  | nil =>
      rfl
  | cons buf chunks inductionHypothesis =>
      unfold withOffsets
      rw [List.map_cons, List.flatten_cons, inductionHypothesis,
        List.flatten_cons]

/--
However the file is read, what `hexdump` has printed tells all of it: a line for
each chunk, with its offset as far as 32 bits hold it, and its bytes.
-/
theorem hexdump_isRead
    (chunks : List (List UInt8))
    (failed : Bool)
    (fit : ∀ chunk ∈ chunks, chunk.length ≤ HEXDUMP_CAP) :
    readDump (dumpFd chunks failed).2 = withOffsets 0 chunks ∧
      ((readDump (dumpFd chunks failed).2).map Prod.snd).flatten =
        chunks.flatten := by
  have isRead : readDump (dumpFd chunks failed).2 = withOffsets 0 chunks :=
    readDump_dumpChunks chunks 0 fit
  rw [isRead, flatten_withOffsets]
  exact ⟨rfl, rfl⟩

/-- A newline and a full line behind it. -/
theorem hexdump_isRead_newline :
    readDump (dumpFd [[10], [97, 98]] false).2 = [(0, [10]), (1, [97, 98])] ∧
      ((readDump (dumpFd [[10], [97, 98]] false).2).map Prod.snd).flatten =
        [10, 97, 98] :=
  hexdump_isRead [[10], [97, 98]] false (by decide)

end Dump

end MyOS
