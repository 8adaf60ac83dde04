import Mathlib.Data.List.Infix
import MyOS.Lib.CString
import MyOS.UserLines

namespace MyOS

open Lib

/-!
# The lines that `grep` prints

`grep_fd` puts the characters of a line into a buffer without carriage returns
and without what does not fit, and matches and prints the buffer as a string, so
that it ends at the first null byte.  It prints the lines with the pattern, and
no others, exactly where this makes no difference.
-/

/-- `LINE_CAP` of `grep.c` -/
def GREP_LINE_CAP : Nat := 1024

/-- The inner loop of `brute_match`: the pattern stands at the beginning of what
is left of the line.  Behind the line is its null byte. -/
def patternStands : List UInt8 → List UInt8 → Bool
  | [], _ => true
  | _ :: _, [] => false
  | p :: pat, c :: line => if c = p then patternStands pat line else false

/-- The outer loop of `brute_match`. -/
def bruteLoop (pat : List UInt8) : List UInt8 → Bool
  | [] => false
  | c :: line =>
      if c = 0 then
        false
      else if patternStands pat (c :: line) then
        true
      else
        bruteLoop pat line

/-- `brute_match` -/
def bruteMatch (pattern : CString) (line : List UInt8) : Bool :=
  if pattern.bytes = [] then true else bruteLoop pattern.bytes line

/-- The arguments of `grep_fd` that it hands on. -/
structure GrepCall where
  pattern : CString
  name : CString
  showName : Bool

/-- What `print_match` writes. -/
def GrepCall.printMatch (call : GrepCall) (line : List UInt8) : List UInt8 :=
  (if call.showName then call.name.bytes ++ [':'.toUInt8] else []) ++
    stringBytes line ++ ['\n'.toUInt8]

/-- The line buffer up to `pos`, whether a line has matched, and what has been
printed for the lines. -/
structure GrepState where
  line : List UInt8
  matched : Bool
  output : List (List UInt8)
  deriving Repr, DecidableEq

namespace GrepCall

variable (call : GrepCall)

/-- `flush_line`, and the test of what it returns. -/
def flushLine (s : GrepState) : GrepState :=
  if bruteMatch call.pattern s.line then
    ⟨[], true, s.output ++ [call.printMatch s.line]⟩
  else
    { s with line := [] }

/-- The body of the loop over the characters that have been read. -/
def grepChar (s : GrepState) (c : UInt8) : GrepState :=
  if c = '\r'.toUInt8 then
    s
  else if c = '\n'.toUInt8 then
    call.flushLine s
  else if s.line.length < GREP_LINE_CAP - 1 then
    { s with line := s.line ++ [c] }
  else
    s

/-- The loops of `grep_fd` over the chunks that `read` returns. -/
def grepRead (s : GrepState) (chunks : List (List UInt8)) : GrepState :=
  chunks.foldl (fun s chunk => chunk.foldl call.grepChar s) s

/-- `grep_fd`: what is printed for the lines, and whether it returns 1. -/
def grepFd (chunks : List (List UInt8)) : List (List UInt8) × Bool :=
  let s := call.grepRead ⟨[], false, []⟩ chunks
  let s := if s.line ≠ [] then call.flushLine s else s
  (s.output, s.matched)

end GrepCall

/-- The line has the pattern. -/
def hasPattern (pattern : CString) (line : List UInt8) : Bool :=
  decide (pattern.bytes <:+: lineContent line)

namespace GrepCall

variable (call : GrepCall)

/-- What should be printed for a line. -/
def shouldPrint (line : List UInt8) : List UInt8 :=
  (if call.showName then call.name.bytes ++ [':'.toUInt8] else []) ++
    lineContent line ++ ['\n'.toUInt8]

/-- Each line that has the pattern is printed once, completely and in order, no
other line is printed, and 1 is returned exactly if there is such a line. -/
def PrintsMatches (chunks : List (List UInt8)) : Prop :=
  call.grepFd chunks =
    (((lines '\n'.toUInt8 chunks.flatten).filter
        (hasPattern call.pattern)).map call.shouldPrint,
      (lines '\n'.toUInt8 chunks.flatten).any (hasPattern call.pattern))

end GrepCall

/-- What the code sees of a line: its characters without carriage returns, as
many as fit, up to the first null byte. -/
def seenLine (line : List UInt8) : List UInt8 :=
  stringBytes ((withoutReturns (lineContent line)).take (GREP_LINE_CAP - 1))

/-- A line for which it makes no difference: with the pattern it has neither a
carriage return nor a null byte and fits, and without the pattern the code does
not see the pattern in it. -/
def GrepLineOk (pattern : CString) (line : List UInt8) : Prop :=
  if hasPattern pattern line then
    '\r'.toUInt8 ∉ lineContent line ∧ 0 ∉ lineContent line ∧
      (lineContent line).length < GREP_LINE_CAP
  else
    ¬ pattern.bytes <:+: seenLine line

section Matching

variable {pattern : CString} {line : List UInt8}

theorem patternStands_iff
    {pat : List UInt8}
    (plain : 0 ∉ pat) :
    patternStands pat line = true ↔ pat <+: stringBytes line := by
  induction pat generalizing line with
  | nil => exact iff_of_true rfl (List.nil_prefix)
  | cons p pat inductionHypothesis =>
      rw [List.mem_cons, not_or] at plain
      cases line with
      | nil =>
          refine iff_of_false Bool.false_ne_true ?_
          intro begins
          cases List.prefix_nil.mp begins
      | cons c line =>
          unfold patternStands
          by_cases same : c = p
          · have notNull : c ≠ 0 := by
              rw [same]
              exact fun isNull => plain.1 isNull.symm
            rw [if_pos same, stringBytes_cons notNull,
              inductionHypothesis plain.2, same, List.cons_prefix_cons]
            exact (and_iff_right rfl).symm
          · rw [if_neg same]
            refine iff_of_false Bool.false_ne_true ?_
            by_cases isNull : c = 0
            · rw [isNull, stringBytes_null]
              intro begins
              cases List.prefix_nil.mp begins
            · rw [stringBytes_cons isNull, List.cons_prefix_cons]
              exact fun begins => same begins.1.symm

theorem bruteLoop_iff
    {pat : List UInt8}
    (some_ : pat ≠ [])
    (plain : 0 ∉ pat) :
    bruteLoop pat line = true ↔ pat <:+: stringBytes line := by
  induction line with
  | nil =>
      refine iff_of_false Bool.false_ne_true ?_
      exact fun inside => some_ (List.infix_nil.mp inside)
  | cons c line inductionHypothesis =>
      unfold bruteLoop
      by_cases isNull : c = 0
      · rw [if_pos isNull, isNull]
        refine iff_of_false Bool.false_ne_true ?_
        rw [stringBytes_null]
        exact fun inside => some_ (List.infix_nil.mp inside)
      · rw [if_neg isNull]
        have isString := @stringBytes_cons line c isNull
        rw [isString, List.infix_cons_iff, ← isString,
          ← patternStands_iff plain, ← inductionHypothesis]
        by_cases stands : patternStands pat (c :: line) = true
        · rw [if_pos stands]
          exact iff_of_true rfl (Or.inl stands)
        · rw [if_neg stands]
          exact (or_iff_right stands).symm

theorem bruteMatch_iff
    (pattern : CString)
    (line : List UInt8) :
    bruteMatch pattern line = true ↔ pattern.bytes <:+: stringBytes line := by
  unfold bruteMatch
  by_cases none : pattern.bytes = []
  · rw [if_pos none, none]
    exact iff_of_true rfl List.nil_infix
  · rw [if_neg none]
    exact bruteLoop_iff none pattern.plain

end Matching

section Runs

variable {call : GrepCall} {s : GrepState} {text line rest : List UInt8}

/-- What `line` holds of a line at its end. -/
def bufferedLine (line : List UInt8) : List UInt8 :=
  (withoutReturns (lineContent line)).take
    (GREP_LINE_CAP - 1)

/-- The code comes to `flush_line` with a line and finds the pattern: a rest of
carriage returns is not flushed. -/
def flushMatches (pattern : CString) (line : List UInt8) : Bool :=
  decide (withoutReturns line ≠ []) &&
    bruteMatch pattern (bufferedLine line)

theorem foldl_grepChar
    (plain : '\n'.toUInt8 ∉ line)
    (few : s.line.length ≤ GREP_LINE_CAP - 1) :
    line.foldl call.grepChar s =
      { s with
        line :=
          (s.line ++ withoutReturns line).take
            (GREP_LINE_CAP - 1) } := by
  induction line generalizing s with
  | nil =>
      rw [List.foldl_nil, withoutReturns_nil, List.append_nil,
        List.take_of_length_le few]
  | cons c line inductionHypothesis =>
      rw [List.mem_cons, not_or] at plain
      have other : c ≠ '\n'.toUInt8 := fun same => plain.1 same.symm
      rw [List.foldl_cons]
      by_cases isReturn : c = '\r'.toUInt8
      · have skipped : call.grepChar s c = s := if_pos isReturn
        rw [skipped, inductionHypothesis plain.2 few,
          isReturn, withoutReturns_return]
      · rw [withoutReturns_cons isReturn]
        by_cases room : s.line.length < GREP_LINE_CAP - 1
        · have put : call.grepChar s c = { s with line := s.line ++ [c] } := by
            unfold GrepCall.grepChar
            rw [if_neg isReturn, if_neg other, if_pos room]
          have stillFew :
              (call.grepChar s c).line.length ≤ GREP_LINE_CAP - 1 := by
            rw [put, List.length_append, List.length_singleton]
            exact room
          rw [inductionHypothesis plain.2 stillFew, put, List.append_assoc]
          rfl
        · have dropped : call.grepChar s c = s := by
            unfold GrepCall.grepChar
            rw [if_neg isReturn, if_neg other, if_neg room]
          have full : GREP_LINE_CAP - 1 ≤ s.line.length := Nat.le_of_not_lt room
          rw [dropped, inductionHypothesis plain.2 few,
            List.take_append_of_le_length full,
            List.take_append_of_le_length full]

/-- What `grep_fd` has printed at its end, and whether it has matched. -/
def GrepCall.finish (call : GrepCall) (s : GrepState) :
    List (List UInt8) × Bool :=
  let s := if s.line ≠ [] then call.flushLine s else s
  (s.output, s.matched)

theorem grep_lines
    (call : GrepCall)
    (text : List UInt8)
    (matched : Bool)
    (output : List (List UInt8)) :
    call.finish (text.foldl call.grepChar ⟨[], matched, output⟩) =
      (output ++
          ((lines '\n'.toUInt8 text).filter (flushMatches call.pattern)).map
            fun line => call.printMatch (bufferedLine line),
        matched || (lines '\n'.toUInt8 text).any
          (flushMatches call.pattern)) := by
  induction text using line_induction '\n'.toUInt8
      generalizing matched output with
  | last rest plain =>
      have isContent := lineContent_plain plain
      rw [foldl_grepChar plain (Nat.zero_le _), List.nil_append,
        lines_rest plain]
      have isBuffer :
          (withoutReturns rest).take (GREP_LINE_CAP - 1) =
            bufferedLine rest := by
        unfold bufferedLine
        rw [isContent]
      rw [isBuffer]
      unfold GrepCall.finish
      by_cases nothing : withoutReturns rest = []
      · -- A rest of carriage returns is not flushed.
        have noBuffer : bufferedLine rest = [] := by
          rw [← isBuffer, nothing, List.take_nil]
        have noMatch : flushMatches call.pattern rest = false := by
          unfold flushMatches
          rw [decide_eq_false (not_not.mpr nothing), Bool.false_and]
        dsimp only
        rw [noBuffer, if_neg (not_not.mpr rfl)]
        by_cases none : rest = []
        · rw [if_pos none]
          exact Prod.ext (List.append_nil _).symm (Bool.or_false _).symm
        · rw [if_neg none, List.filter_cons_of_neg (by rw [noMatch]; decide),
            List.any_cons, noMatch]
          exact Prod.ext (List.append_nil _).symm (Bool.or_false _).symm
      · have some_ : rest ≠ [] := by
          rintro rfl
          exact nothing rfl
        have someBuffer : bufferedLine rest ≠ [] := by
          rw [← isBuffer]
          intro none
          rcases List.take_eq_nil_iff.mp none with isZero | isNothing
          · revert isZero
            decide
          · exact nothing isNothing
        have isMatch :
            flushMatches call.pattern rest =
              bruteMatch call.pattern (bufferedLine rest) := by
          unfold flushMatches
          rw [decide_eq_true nothing, Bool.true_and]
        dsimp only
        rw [if_pos someBuffer, if_neg some_]
        unfold GrepCall.flushLine
        dsimp only
        cases found : bruteMatch call.pattern (bufferedLine rest) with
        | true =>
            rw [found] at isMatch
            rw [if_pos rfl, List.filter_cons_of_pos isMatch, List.any_cons,
              isMatch]
            exact Prod.ext rfl (Bool.or_true _).symm
        | false =>
            rw [found] at isMatch
            rw [if_neg Bool.false_ne_true,
              List.filter_cons_of_neg (by rw [isMatch]; decide),
              List.any_cons, isMatch]
            exact Prod.ext (List.append_nil _).symm (Bool.or_false _).symm
  | front line rest plain inductionHypothesis =>
      have isContent := lineContent_terminated plain
      have isBuffer :
          (withoutReturns line).take (GREP_LINE_CAP - 1) =
            bufferedLine (line ++ ['\n'.toUInt8]) := by
        unfold bufferedLine
        rw [isContent]
      have isMatch :
          flushMatches call.pattern (line ++ ['\n'.toUInt8]) =
            bruteMatch call.pattern
              (bufferedLine (line ++ ['\n'.toUInt8])) := by
        have some_ :
            withoutReturns (line ++ ['\n'.toUInt8]) ≠ [] := by
          rw [withoutReturns_append]
          exact List.append_ne_nil_of_right_ne_nil _ (by decide)
        unfold flushMatches
        rw [decide_eq_true some_, Bool.true_and]
      have newline :
          ∀ s, call.grepChar s '\n'.toUInt8 = call.flushLine s := fun s => rfl
      rw [List.foldl_append, foldl_grepChar plain (Nat.zero_le _),
        List.nil_append, isBuffer, List.foldl_cons, newline,
        lines_append plain]
      unfold GrepCall.flushLine
      dsimp only
      cases found : bruteMatch call.pattern
          (bufferedLine (line ++ ['\n'.toUInt8])) with
      | true =>
          rw [found] at isMatch
          rw [if_pos rfl, inductionHypothesis,
            List.filter_cons_of_pos isMatch, List.any_cons, isMatch,
            List.map_cons, List.append_assoc]
          exact Prod.ext rfl (Bool.or_true _).symm
      | false =>
          rw [found] at isMatch
          rw [if_neg Bool.false_ne_true, inductionHypothesis,
            List.filter_cons_of_neg (by rw [isMatch]; decide), List.any_cons,
            isMatch, Bool.false_or]

theorem grepFd_eq
    (call : GrepCall)
    (chunks : List (List UInt8)) :
    call.grepFd chunks =
      (((lines '\n'.toUInt8 chunks.flatten).filter
          (flushMatches call.pattern)).map
            fun line => call.printMatch (bufferedLine line),
        (lines '\n'.toUInt8 chunks.flatten).any
          (flushMatches call.pattern)) := by
  have isFold :
      call.grepRead ⟨[], false, []⟩ chunks =
        chunks.flatten.foldl call.grepChar ⟨[], false, []⟩ := by
    unfold GrepCall.grepRead
    rw [List.foldl_flatten]
  have ends := grep_lines call chunks.flatten false []
  rw [List.nil_append, Bool.false_or, ← isFold] at ends
  exact ends

/-- The texts that the code prints: what it sees of a line. -/
def GrepCall.Printable (call : GrepCall) (text : List UInt8) : Prop :=
  ∃ content : List UInt8,
    '\r'.toUInt8 ∉ content ∧ 0 ∉ content ∧ content.length < GREP_LINE_CAP ∧
      text =
        (if call.showName then call.name.bytes ++ [':'.toUInt8] else []) ++
          content ++ ['\n'.toUInt8]

theorem printable_printMatch
    (call : GrepCall)
    (line : List UInt8) :
    call.Printable (call.printMatch (bufferedLine line)) := by
  refine ⟨stringBytes (bufferedLine line), ?_, null_notMem_stringBytes _, ?_,
    rfl⟩
  · intro member
    have inBuffer := (List.takeWhile_prefix _).subset member
    have kept := (List.take_prefix _ _).subset inBuffer
    exact return_notMem_withoutReturns _ kept
  · have short := (List.takeWhile_prefix (l := bufferedLine line)
      fun c : UInt8 => decide (c ≠ 0)).length_le
    have few := List.length_take_le (GREP_LINE_CAP - 1)
      (withoutReturns (lineContent line))
    unfold stringBytes
    unfold bufferedLine at short ⊢
    have isCap : GREP_LINE_CAP = 1024 := rfl
    omega

theorem printable_shouldPrint_iff
    (call : GrepCall)
    (line : List UInt8) :
    call.Printable (call.shouldPrint line) ↔
      '\r'.toUInt8 ∉ lineContent line ∧ 0 ∉ lineContent line ∧
        (lineContent line).length < GREP_LINE_CAP := by
  constructor
  · rintro ⟨content, noReturn, noNull, short, isText⟩
    unfold GrepCall.shouldPrint at isText
    rw [List.append_left_inj, List.append_right_inj] at isText
    rw [isText]
    exact ⟨noReturn, noNull, short⟩
  · rintro ⟨noReturn, noNull, short⟩
    exact ⟨lineContent line, noReturn, noNull, short, rfl⟩

theorem withoutReturns_ne_nil
    (some_ : line ≠ [])
    (none : '\r'.toUInt8 ∉ lineContent line) :
    withoutReturns line ≠ [] := by
  cases line with
  | nil => exact absurd rfl some_
  | cons c line =>
      have other : c ≠ '\r'.toUInt8 := by
        rintro rfl
        apply none
        unfold lineContent
        rw [List.takeWhile_cons_of_pos (by decide)]
        exact List.mem_cons_self
      rw [withoutReturns_cons other]
      exact List.cons_ne_nil _ _

theorem bufferedLine_eq
    (none : '\r'.toUInt8 ∉ lineContent line)
    (short : (lineContent line).length < GREP_LINE_CAP) :
    bufferedLine line = lineContent line := by
  unfold bufferedLine
  rw [withoutReturns_eq_self none, List.take_of_length_le]
  exact Nat.le_sub_one_of_lt short

theorem flushMatches_iff
    (pattern : CString)
    (line : List UInt8) :
    flushMatches pattern line = true ↔
      withoutReturns line ≠ [] ∧ pattern.bytes <:+: seenLine line := by
  unfold flushMatches
  rw [Bool.and_eq_true, decide_eq_true_eq, bruteMatch_iff]
  rfl

/-- The code prints the lines with the pattern and no others exactly where every
line is such that it does so, however the lines have been read. -/
theorem grep_exact_iff
    (call : GrepCall)
    (chunks : List (List UInt8)) :
    call.PrintsMatches chunks ↔
      ∀ line ∈ lines '\n'.toUInt8 chunks.flatten,
        GrepLineOk call.pattern line := by
  generalize isLines : lines '\n'.toUInt8 chunks.flatten = all
  have someLine : ∀ line ∈ all, line ≠ [] := by
    intro line member
    rw [← isLines] at member
    exact lines_ne_nil member
  have texts :=
    @filter_map_eq_iff _ _ all (flushMatches call.pattern)
      (hasPattern call.pattern)
      (fun line => call.printMatch (bufferedLine line)) call.shouldPrint
      call.Printable (fun line _ => printable_printMatch call line)
      (by
        intro line member has printable
        obtain ⟨noReturn, noNull, short⟩ :=
          (printable_shouldPrint_iff call line).mp printable
        have isBuffer := bufferedLine_eq noReturn short
        have isString := stringBytes_eq_self noNull
        constructor
        · rw [flushMatches_iff]
          refine ⟨withoutReturns_ne_nil (someLine line member) noReturn, ?_⟩
          change call.pattern.bytes <:+: stringBytes (bufferedLine line)
          rw [isBuffer, isString]
          exact of_decide_eq_true has
        · unfold GrepCall.printMatch GrepCall.shouldPrint
          rw [isBuffer, isString])
  have each :
      ∀ line, ((hasPattern call.pattern line = true →
          call.Printable (call.shouldPrint line)) ∧
        (hasPattern call.pattern line = false →
          flushMatches call.pattern line = false)) ↔
            GrepLineOk call.pattern line := by
    intro line
    unfold GrepLineOk
    cases has : hasPattern call.pattern line with
    | true =>
        rw [if_pos rfl, ← printable_shouldPrint_iff call line]
        constructor
        · exact fun both => both.1 rfl
        · intro printable
          refine ⟨fun _ => printable, fun wrong => ?_⟩
          cases wrong
    | false =>
        rw [if_neg Bool.false_ne_true]
        have notInfix := of_decide_eq_false has
        have patternSome : call.pattern.bytes ≠ [] := by
          intro none
          rw [none] at notInfix
          exact notInfix List.nil_infix
        constructor
        · intro both seen
          have noMatch := both.2 rfl
          rw [← Bool.not_eq_true, flushMatches_iff, not_and'] at noMatch
          -- What the code sees of a line that it does not flush is empty.
          have nothing := not_not.mp (noMatch seen)
          apply patternSome
          have isSeen : seenLine line = [] := by
            have noContent : withoutReturns (lineContent line) = [] := by
              rw [← List.sublist_nil, ← nothing]
              exact (List.takeWhile_prefix _).sublist.filter _
            unfold seenLine
            rw [noContent, List.take_nil]
            rfl
          rw [isSeen] at seen
          exact List.infix_nil.mp seen
        · intro notSeen
          refine ⟨fun wrong => ?_, fun _ => ?_⟩
          · cases wrong
          · rw [← Bool.not_eq_true, flushMatches_iff]
            exact fun both => notSeen both.2
  have isAll :
      (∀ line ∈ all, GrepLineOk call.pattern line) ↔
        (all.filter (flushMatches call.pattern)).map
            (fun line => call.printMatch (bufferedLine line)) =
          (all.filter (hasPattern call.pattern)).map call.shouldPrint := by
    rw [texts]
    constructor
    · exact fun ok line member => (each line).mpr (ok line member)
    · exact fun ok line member => (each line).mp (ok line member)
  unfold GrepCall.PrintsMatches
  rw [grepFd_eq, isLines, isAll, Prod.mk.injEq]
  refine and_iff_left_of_imp ?_
  intro same
  have lengths := congrArg List.length same
  rw [List.length_map, List.length_map, ← List.countP_eq_length_filter,
    ← List.countP_eq_length_filter] at lengths
  rw [Bool.eq_iff_iff, List.any_eq_true, List.any_eq_true,
    ← List.countP_pos_iff, ← List.countP_pos_iff, lengths]

/-- The pattern across a carriage return, a line with a carriage return, and the
pattern behind a null byte. -/
theorem grep_not_exact :
    let call : GrepCall := ⟨⟨[97, 98], by decide⟩, ⟨[], by decide⟩, false⟩
    ¬ call.PrintsMatches [[97, 13, 98, 10]] ∧
      ¬ call.PrintsMatches [[13, 97, 98, 10]] ∧
      ¬ call.PrintsMatches [[0, 97, 98, 10]] := by
  refine ⟨?_, ?_, ?_⟩ <;>
    · unfold GrepCall.PrintsMatches
      decide

end Runs

end MyOS
