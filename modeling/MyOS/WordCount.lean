import Mathlib.Algebra.Order.BigOperators.Group.List
import MyOS.LibcPrintfNumbers

namespace MyOS

open Lib

/-!
# What `wc` counts

`wc` counts lines, words and bytes as the chunks come that `read` returns, and
remembers between them whether it is in a word.  So a word that is cut in two
by a read is one word.
-/

/-- `struct counts` -/
structure Counts where
  lines : Nat
  words : Nat
  bytes : Nat
  deriving Repr, DecidableEq

/-- `is_space` -/
def wcIsSpace (c : UInt8) : Bool :=
  c = ' '.toUInt8 || c = '\n'.toUInt8 || c = '\t'.toUInt8 ||
    c = '\r'.toUInt8 || c = 11 || c = 12

/-- A turn of the loop of `count_buf`. -/
def countByte (c : Counts) (inWord : Bool) (byte : UInt8) : Counts × Bool :=
  let c := if byte = '\n'.toUInt8 then { c with lines := c.lines + 1 } else c
  if wcIsSpace byte then
    (c, false)
  else if inWord then
    (c, true)
  else
    ({ c with words := c.words + 1 }, true)

/-- `count_buf` -/
def countBuf (c : Counts) (inWord : Bool) (buf : List UInt8) : Counts × Bool :=
  buf.foldl (fun state byte => countByte state.1 state.2 byte)
    ({ c with bytes := c.bytes + buf.length }, inWord)

/-- `count_fd`, from the chunks that `read` returns, and whether the last call
of `read` has failed. -/
def countFd
    (c : Counts)
    (chunks : List (List UInt8))
    (failed : Bool) : Int × Counts :=
  (if failed then -1 else 0,
    (chunks.foldl (fun state buf => countBuf state.1 state.2 buf)
      (c, false)).1)

/-- `add_counts` -/
def addCounts (dst src : Counts) : Counts :=
  ⟨dst.lines + src.lines, dst.words + src.words, dst.bytes + src.bytes⟩

/-- The loop of `write_uint`: digits in front of those in the buffer. -/
def writeUintLoop : Nat → Nat → List UInt8 → List UInt8
  | 0, _, buf => buf
  | pos + 1, value, buf =>
      if 0 < value then
        writeUintLoop pos (value / 10)
          (('0'.toUInt8 + UInt8.ofNat (value % 10)) :: buf)
      else
        buf

/-- `write_uint`, with a buffer of 24 characters. -/
def writeUint (value : Nat) : List UInt8 :=
  if value = 0 then
    textBytes ['0']
  else
    writeUintLoop 24 value []

/-- `print_counts` -/
def printCounts (c : Counts) (name : Option (List UInt8)) : List UInt8 :=
  writeUint c.lines ++ textBytes [' '] ++ writeUint c.words ++
    textBytes [' '] ++ writeUint c.bytes ++
    (match name with
    | none => []
    | some name => textBytes [' '] ++ name) ++
    textBytes ['\n']

/-- A file that `wc` is asked about: its name, and what `read` returns if it can
be opened. -/
structure WcFile where
  name : List UInt8
  chunks : Option (List (List UInt8))
  failed : Bool

/-- `count_file`; `none` if it returns -1. -/
def countFile (file : WcFile) : Option Counts :=
  match file.chunks with
  | none => none
  | some chunks =>
      let counted := countFd ⟨0, 0, 0⟩ chunks file.failed
      if counted.1 < 0 then none else some counted.2

/-- The loop of `main`: what has been written, the sums, and `had_error`. -/
def wcLoop :
    List WcFile → List UInt8 × Counts × Bool → List UInt8 × Counts × Bool
  | [], state => state
  | file :: files, (written, total, hadError) =>
      match countFile file with
      | none => wcLoop files (written, total, true)
      | some c =>
          wcLoop files
            (written ++ printCounts c (some file.name), addCounts total c,
              hadError)

/-- `main` with file arguments: what it writes, and the exit status. -/
def wcMain (files : List WcFile) : List UInt8 × Int :=
  let state := wcLoop files ([], ⟨0, 0, 0⟩, false)
  (if 1 < files.length then
      state.1 ++ printCounts state.2.1 (some (textBytes ['t', 'o', 't', 'a', 'l']))
    else
      state.1,
    if state.2.2 then -1 else 0)

/-!
## What the counts mean
-/

/-- The words of a text: what is left between white space. -/
def textWords (text : List UInt8) : List (List UInt8) :=
  (text.splitOnP wcIsSpace).filter fun word => !word.isEmpty

/-- What there is to count in a text. -/
def countsOf (text : List UInt8) : Counts :=
  ⟨text.count '\n'.toUInt8, (textWords text).length, text.length⟩

/-- A number in decimal notation. -/
def decimal (value : Nat) : List UInt8 :=
  if value = 0 then
    textBytes ['0']
  else
    (Nat.digits 10 value).reverse.map digitChar

/-- The text of a file that can be read. -/
def WcFile.text (file : WcFile) : Option (List UInt8) :=
  if file.failed then none else file.chunks.map List.flatten

/-- The line for a file. -/
def countsLine (c : Counts) (name : List UInt8) : List UInt8 :=
  decimal c.lines ++ textBytes [' '] ++ decimal c.words ++ textBytes [' '] ++
    decimal c.bytes ++ textBytes [' '] ++ name ++ textBytes ['\n']

/-- What is reported of files with names and texts. -/
def wcReport (files : List (List UInt8 × List UInt8)) : List UInt8 :=
  (files.map fun file => countsLine (countsOf file.2) file.1).flatten

/-- The sums over texts. -/
def totalOf (texts : List (List UInt8)) : Counts :=
  ⟨(texts.map fun text => text.count '\n'.toUInt8).sum,
    (texts.map fun text => (textWords text).length).sum,
    (texts.map List.length).sum⟩

section Counting

variable {c : Counts} {text rest : List UInt8} {byte : UInt8} {inWord : Bool}

/-- The words that begin in a text, in front of which there is a word or not. -/
def wordsBehind (inWord : Bool) (text : List UInt8) : Nat :=
  ((if inWord then (text.splitOnP wcIsSpace).tail
    else text.splitOnP wcIsSpace).filter fun word => !word.isEmpty).length

theorem wordsBehind_space
    (isSpace : wcIsSpace byte = true) :
    wordsBehind inWord (byte :: rest) = wordsBehind false rest := by
  unfold wordsBehind
  rw [List.splitOnP_cons_eq_if_modifyHead, if_pos isSpace]
  cases inWord <;> rfl

theorem wordsBehind_letter
    (isLetter : wcIsSpace byte = false) :
    wordsBehind inWord (byte :: rest) =
      (if inWord then 0 else 1) + wordsBehind true rest := by
  unfold wordsBehind
  rw [List.splitOnP_cons_eq_if_modifyHead, isLetter,
    if_neg Bool.false_ne_true]
  cases split : rest.splitOnP wcIsSpace with
  | nil =>
      exact absurd split (List.splitOnP_ne_nil wcIsSpace rest)
  | cons word words =>
      cases inWord with
      | true =>
          simp
      | false =>
          simp [List.modifyHead, Nat.add_comm]

theorem countByte_newline :
    countByte c inWord '\n'.toUInt8 =
      ({ c with lines := c.lines + 1 }, false) :=
  rfl

theorem countByte_space
    (isSpace : wcIsSpace byte = true)
    (notNewline : byte ≠ '\n'.toUInt8) :
    countByte c inWord byte = (c, false) := by
  unfold countByte
  rw [if_neg notNewline, if_pos isSpace]

theorem countByte_letter
    (isLetter : wcIsSpace byte = false) :
    countByte c inWord byte =
      ({ c with words := c.words + if inWord then 0 else 1 }, true) := by
  have notNewline : byte ≠ '\n'.toUInt8 := by
    rintro rfl
    revert isLetter
    decide
  unfold countByte
  rw [if_neg notNewline, isLetter]
  cases inWord <;> rfl

theorem countBytes_eq :
    (text.foldl (fun state byte => countByte state.1 state.2 byte)
        (c, inWord)).1 =
      { c with
        lines := c.lines + text.count '\n'.toUInt8
        words := c.words + wordsBehind inWord text } := by
  induction text generalizing c inWord with
  | nil =>
      cases inWord <;> rfl
  | cons byte text inductionHypothesis =>
      rw [List.foldl_cons]
      dsimp only
      cases isSpace : wcIsSpace byte with
      | true =>
          rw [wordsBehind_space isSpace]
          by_cases isNewline : byte = '\n'.toUInt8
          · rw [isNewline, countByte_newline, inductionHypothesis,
              List.count_cons_self, Nat.add_assoc, Nat.add_comm 1]
          · rw [countByte_space isSpace isNewline, inductionHypothesis,
              List.count_cons_of_ne isNewline]
      | false =>
          have notNewline : byte ≠ '\n'.toUInt8 := by
            rintro rfl
            revert isSpace
            decide
          rw [wordsBehind_letter isSpace, countByte_letter isSpace,
            inductionHypothesis, List.count_cons_of_ne notNewline,
            Nat.add_assoc]

/-- More bytes in the counts. -/
def addBytes (more : Nat) (state : Counts × Bool) : Counts × Bool :=
  ({ state.1 with bytes := state.1.bytes + more }, state.2)

theorem countBytes_addBytes
    (more : Nat)
    (state : Counts × Bool) :
    text.foldl (fun state byte => countByte state.1 state.2 byte)
        (addBytes more state) =
      addBytes more
        (text.foldl (fun state byte => countByte state.1 state.2 byte)
          state) := by
  induction text generalizing state with
  | nil =>
      rfl
  | cons byte text inductionHypothesis =>
      have same :
          countByte (addBytes more state).1 (addBytes more state).2 byte =
            addBytes more (countByte state.1 state.2 byte) := by
        unfold countByte addBytes
        by_cases isNewline : byte = '\n'.toUInt8
        · rw [isNewline]
          rfl
        · rw [if_neg isNewline, if_neg isNewline]
          cases wcIsSpace byte <;> cases state.2 <;> rfl
      rw [List.foldl_cons, List.foldl_cons, same, inductionHypothesis]

theorem countBuf_append :
    countBuf (countBuf c inWord text).1 (countBuf c inWord text).2 rest =
      countBuf c inWord (text ++ rest) := by
  have both :
      addBytes rest.length (addBytes text.length (c, inWord)) =
        addBytes (text ++ rest).length (c, inWord) := by
    rw [List.length_append]
    unfold addBytes
    rw [Nat.add_assoc]
  have isBuf :
      ∀ (state : Counts × Bool) (buf : List UInt8),
        countBuf state.1 state.2 buf =
          buf.foldl (fun state byte => countByte state.1 state.2 byte)
            (addBytes buf.length state) := fun _ _ => rfl
  rw [isBuf, isBuf (c, inWord) text, isBuf (c, inWord) (text ++ rest),
    ← countBytes_addBytes, both, List.foldl_append]

theorem countChunks_eq (chunks : List (List UInt8)) :
    chunks.foldl (fun state buf => countBuf state.1 state.2 buf)
        (c, inWord) =
      countBuf c inWord chunks.flatten := by
  induction chunks generalizing c inWord with
  | nil =>
      rfl
  | cons buf chunks inductionHypothesis =>
      rw [List.foldl_cons, List.flatten_cons, ← countBuf_append]
      exact inductionHypothesis

theorem countFd_eq
    (chunks : List (List UInt8))
    (failed : Bool) :
    countFd ⟨0, 0, 0⟩ chunks failed =
      (if failed then -1 else 0, countsOf chunks.flatten) := by
  unfold countFd
  rw [countChunks_eq]
  unfold countBuf
  rw [countBytes_eq]
  simp [countsOf, textWords, wordsBehind]

theorem countFile_eq (file : WcFile) :
    countFile file = file.text.map countsOf := by
  unfold countFile WcFile.text
  cases file.chunks with
  | none =>
      cases file.failed <;> rfl
  | some chunks =>
      dsimp only
      rw [countFd_eq]
      cases file.failed <;> rfl

end Counting

/-!
## What is written
-/

section Writing

variable {value : Nat}

theorem writeUintLoop_eq
    {pos : Nat}
    (buf : List UInt8)
    (enough : value < 10 ^ pos) :
    writeUintLoop pos value buf =
      (Nat.digits 10 value).reverse.map digitChar ++ buf := by
  induction pos generalizing value buf with
  | zero =>
      have isZero : value = 0 := by simpa using enough
      rw [isZero, Nat.digits_zero]
      rfl
  | succ pos inductionHypothesis =>
      unfold writeUintLoop
      by_cases positive : 0 < value
      · have smaller : value / 10 < 10 ^ pos :=
          Nat.div_lt_of_lt_mul (by rwa [← Nat.pow_succ'])
        have isDigit : digitChar (value % 10) =
            '0'.toUInt8 + UInt8.ofNat (value % 10) :=
          if_pos (Nat.mod_lt value (by decide))
        rw [if_pos positive, inductionHypothesis _ smaller,
          Nat.digits_def' (by decide) positive, List.reverse_cons,
          List.map_append, List.append_assoc, ← isDigit]
        rfl
      · have isZero : value = 0 := by omega
        rw [if_neg positive, isZero, Nat.digits_zero]
        rfl

theorem writeUint_eq
    (isLong : value < 18446744073709551616) :
    writeUint value = decimal value := by
  unfold writeUint decimal
  rw [writeUintLoop_eq [] (Nat.lt_trans isLong (by decide)), List.append_nil]

/-- Counts that the machine can hold. -/
def Counts.Short (c : Counts) : Prop :=
  c.lines < 18446744073709551616 ∧ c.words < 18446744073709551616 ∧
    c.bytes < 18446744073709551616

theorem printCounts_eq
    {c : Counts}
    (short : c.Short)
    (name : List UInt8) :
    printCounts c (some name) = countsLine c name := by
  unfold printCounts countsLine
  rw [writeUint_eq short.1, writeUint_eq short.2.1, writeUint_eq short.2.2]
  simp only [List.append_assoc]

theorem wcLoop_eq
    (files : List WcFile)
    (written : List UInt8)
    (total : Counts)
    (hadError : Bool)
    (short :
      ∀ file ∈ files, ∀ text, file.text = some text →
        (countsOf text).Short) :
    wcLoop files (written, total, hadError) =
      (written ++
          wcReport (files.filterMap fun file =>
            file.text.map fun text => (file.name, text)),
        addCounts total (totalOf (files.filterMap WcFile.text)),
        hadError || files.any fun file => file.text.isNone) := by
  induction files generalizing written total hadError with
  | nil =>
      simp [wcLoop, wcReport, totalOf, addCounts]
  | cons file files inductionHypothesis =>
      have others := fun file member => short file (List.mem_cons_of_mem _ member)
      unfold wcLoop
      rw [countFile_eq]
      cases isText : file.text with
      | none =>
          rw [Option.map_none]
          dsimp only
          rw [inductionHypothesis _ _ _ others]
          simp [isText]
      | some text =>
          have isShort := short file List.mem_cons_self text isText
          rw [Option.map_some]
          dsimp only
          rw [inductionHypothesis _ _ _ others, printCounts_eq isShort]
          simp [isText, wcReport, totalOf, addCounts, countsOf,
            List.append_assoc, Nat.add_assoc]

theorem wordsBehind_le
    (inWord : Bool)
    (text : List UInt8) :
    wordsBehind inWord text ≤ text.length := by
  induction text generalizing inWord with
  | nil =>
      cases inWord <;> exact Nat.le_refl _
  | cons byte text inductionHypothesis =>
      rw [List.length_cons]
      cases isSpace : wcIsSpace byte with
      | true =>
          rw [wordsBehind_space isSpace]
          exact Nat.le_succ_of_le (inductionHypothesis false)
      | false =>
          rw [wordsBehind_letter isSpace, Nat.add_comm]
          apply Nat.add_le_add (inductionHypothesis true)
          cases inWord <;> decide

theorem totalOf_short
    {texts : List (List UInt8)}
    (short : (totalOf texts).bytes < 18446744073709551616) :
    (totalOf texts).Short := by
  have fewLines : (totalOf texts).lines ≤ (totalOf texts).bytes :=
    List.sum_le_sum fun text _ => List.count_le_length
  have fewWords : (totalOf texts).words ≤ (totalOf texts).bytes :=
    List.sum_le_sum fun text _ => wordsBehind_le false text
  exact ⟨Nat.lt_of_le_of_lt fewLines short,
    Nat.lt_of_le_of_lt fewWords short, short⟩

theorem countsOf_short
    {texts : List (List UInt8)}
    {text : List UInt8}
    (member : text ∈ texts)
    (short : (totalOf texts).bytes < 18446744073709551616) :
    (countsOf text).Short := by
  have isPart : text.length ≤ (totalOf texts).bytes :=
    List.single_le_sum (fun _ _ => Nat.zero_le _) _ (List.mem_map_of_mem member)
  have single : (totalOf [text]).Short := by
    apply totalOf_short
    simp only [totalOf, List.map_cons, List.map_nil, List.sum_cons,
      List.sum_nil, Nat.add_zero]
    exact Nat.lt_of_le_of_lt isPart short
  simpa [totalOf, countsOf, Counts.Short] using single

/--
However the files are read, `wc` reports the lines, words and bytes of each file
that can be read, in the order of the files, and their sums if it has been asked
about more than one; it fails if and only if one of them cannot be read.
-/
theorem wc_reports
    (files : List WcFile)
    (short :
      (totalOf (files.filterMap WcFile.text)).bytes < 18446744073709551616) :
    wcMain files =
      (wcReport (files.filterMap fun file =>
          file.text.map fun text => (file.name, text)) ++
          (if 1 < files.length then
            countsLine (totalOf (files.filterMap WcFile.text))
              (textBytes ['t', 'o', 't', 'a', 'l'])
          else
            []),
        if files.all fun file => file.text.isSome then 0 else -1) := by
  have each :
      ∀ file ∈ files, ∀ text, file.text = some text →
        (countsOf text).Short := by
    intro file member text isText
    exact countsOf_short (List.mem_filterMap.mpr ⟨file, member, isText⟩) short
  have isTotal :
      addCounts ⟨0, 0, 0⟩ (totalOf (files.filterMap WcFile.text)) =
        totalOf (files.filterMap WcFile.text) := by
    simp [addCounts]
  have status :
      (files.any fun file => file.text.isNone) =
        !files.all fun file => file.text.isSome := by
    rw [List.not_all_eq_any_not]
    simp
  unfold wcMain
  rw [wcLoop_eq files [] ⟨0, 0, 0⟩ false each]
  dsimp only
  rw [isTotal, printCounts_eq (totalOf_short short), List.nil_append,
    Bool.false_or, status]
  congr 1
  · split <;> simp
  · cases files.all fun file => file.text.isSome <;> rfl

/-- Two words of which the second one is cut in two by a read. -/
theorem wc_reports_cut :
    wcMain [⟨[97], some [[98, 32, 99], [99, 10]], false⟩] =
      (wcReport [([97], [98, 32, 99, 99, 10])], 0) :=
  wc_reports [⟨[97], some [[98, 32, 99], [99, 10]], false⟩] (by decide)

end Writing

end MyOS
