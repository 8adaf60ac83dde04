import MyOS.Lib.CString
import MyOS.UserLines

namespace MyOS

open Lib

/-!
# The difference that `diff` finds

`diff_files` reads both files line by line and compares what `read_line` leaves
of the lines: no carriage returns, no newline, 511 characters and whether there
were more, up to the first null byte.  It finds the first different lines
exactly where they differ in this, too.
-/

/-- `LINE_CAP` of `diff.c` -/
def DIFF_LINE_CAP : Nat := 512

/-- A file that is read character by character, and whether the read behind its
last character fails. -/
structure DiffInput where
  bytes : List UInt8
  fails : Bool
  deriving Repr, DecidableEq

/-- What `read_line` returns, with the buffer and `*truncated`. -/
inductive DiffLine where
  | error
  | eof
  | line (buf : List UInt8) (truncated : Bool)
  deriving Repr, DecidableEq

/-- The loop of `read_line`: the line, and what is left of the file. -/
def readLineLoop
    (fails : Bool) :
    List UInt8 → List UInt8 → Bool → DiffLine × List UInt8
  | [], buf, truncated =>
      if fails then
        (.error, [])
      else if buf = [] then
        (.eof, [])
      else
        (.line buf truncated, [])
  | ch :: bytes, buf, truncated =>
      if ch = '\r'.toUInt8 then
        readLineLoop fails bytes buf truncated
      else if ch = '\n'.toUInt8 then
        (.line buf truncated, bytes)
      else if buf.length < DIFF_LINE_CAP - 1 then
        readLineLoop fails bytes (buf ++ [ch]) truncated
      else
        readLineLoop fails bytes buf true

/-- `read_line` -/
def readLine (file : DiffInput) : DiffLine × DiffInput :=
  let read := readLineLoop file.fails file.bytes [] false
  (read.1, { file with bytes := read.2 })

/-- `str_eq`; behind each text is its null byte. -/
def strEq : List UInt8 → List UInt8 → Bool
  | [], [] => true
  | [], b :: _ => b = 0
  | a :: _, [] => a = 0
  | a :: as, b :: bs =>
      if a = 0 then
        b = 0
      else if a = b then
        strEq as bs
      else
        false

/-- The arguments of `print_difference`; a file has no line at its end. -/
structure DiffReport where
  left : CString
  right : CString
  line : Nat
  leftLine : Option (List UInt8)
  rightLine : Option (List UInt8)
  deriving DecidableEq

/-- What the loop of `diff_files` comes to: no difference, one that is printed,
or a read error, of the left file or of the right one. -/
inductive DiffResult where
  | same
  | differ (report : DiffReport)
  | readError (file : CString)
  deriving DecidableEq

namespace DiffResult

/-- What `diff_files` returns. -/
def status : DiffResult → Int
  | same => 0
  | differ _ => 1
  | readError _ => -1

end DiffResult

/-- The buffer of a line that is printed. -/
def DiffLine.text? : DiffLine → Option (List UInt8)
  | .error => none
  | .eof => none
  | .line buf _ => some (stringBytes buf)

/-- Whether `diff_files` sees a difference between two lines. -/
def DiffLine.differs : DiffLine → DiffLine → Bool
  | .line lbuf ltrunc, .line rbuf rtrunc =>
      ltrunc != rtrunc || !strEq lbuf rbuf
  | left, right => left != right

/-- The loop of `diff_files`; every round that goes on takes a line of the left
file. -/
def diffLoop
    (left right : CString) :
    Nat → Nat → DiffInput → DiffInput → DiffResult
  | 0, _, _, _ => .same
  | rounds + 1, line, lfd, rfd =>
      let l := readLine lfd
      let r := readLine rfd
      if l.1 = .error then
        .readError left
      else if r.1 = .error then
        .readError right
      else if l.1 = .eof ∧ r.1 = .eof then
        .same
      else if l.1.differs r.1 then
        .differ ⟨left, right, line, l.1.text?, r.1.text?⟩
      else
        diffLoop left right rounds (line + 1) l.2 r.2

/-- `diff_files`, of files that have been opened. -/
def diffFiles (left right : CString) (lfd rfd : DiffInput) : DiffResult :=
  diffLoop left right (lfd.bytes.length + 1) 1 lfd rfd

/-- How many lines two lists have in common at their beginning. -/
def commonLines : List (List UInt8) → List (List UInt8) → Nat
  | l :: left, r :: right => if l = r then commonLines left right + 1 else 0
  | _, _ => 0

/-- The lines of a file. -/
abbrev fileLines (bytes : List UInt8) : List (List UInt8) :=
  lines '\n'.toUInt8 bytes

/-- 0 is returned for equal files; for others 1 is returned and the number of
the first line in which they differ is printed. -/
def FindsDifference (left right : CString) (l r : List UInt8) : Prop :=
  if l = r then
    (diffFiles left right ⟨l, false⟩ ⟨r, false⟩).status = 0
  else
    ∃ report,
      diffFiles left right ⟨l, false⟩ ⟨r, false⟩ = .differ report ∧
        report.line = commonLines (fileLines l) (fileLines r) + 1

/-- What the code sees of a line: the characters in front of the newline and the
first null byte without carriage returns, as many as fit, and whether there were
more.  Of a rest of carriage returns, and where there is no line, it sees
nothing. -/
def seenDiffLine : Option (List UInt8) → Option (List UInt8 × Bool)
  | none => none
  | some line =>
      if withoutReturns line = [] then
        none
      else
        let kept := withoutReturns (lineContent line)
        some (stringBytes (kept.take (DIFF_LINE_CAP - 1)),
          decide (DIFF_LINE_CAP - 1 < kept.length))

/-- Files that are equal, or whose first different lines the code sees to be
different. -/
def DiffOk (l r : List UInt8) : Prop :=
  l = r ∨
    seenDiffLine (fileLines l)[commonLines (fileLines l) (fileLines r)]? ≠
      seenDiffLine (fileLines r)[commonLines (fileLines l) (fileLines r)]?

section Reading

variable {line rest buf : List UInt8}

theorem readLineLoop_append
    (plain : '\n'.toUInt8 ∉ line)
    (few : buf.length ≤ DIFF_LINE_CAP - 1)
    (truncated : Bool) :
    readLineLoop false (line ++ rest) buf truncated =
      readLineLoop false rest
        ((buf ++ withoutReturns line).take (DIFF_LINE_CAP - 1))
        (truncated ||
          decide (DIFF_LINE_CAP - 1 <
            (buf ++ withoutReturns line).length)) := by
  induction line generalizing buf truncated with
  | nil =>
      rw [withoutReturns_nil, List.append_nil, List.take_of_length_le few,
        decide_eq_false (Nat.not_lt.mpr few), Bool.or_false]
      rfl
  | cons c line inductionHypothesis =>
      rw [List.mem_cons, not_or] at plain
      have other : c ≠ '\n'.toUInt8 := fun same => plain.1 same.symm
      rw [List.cons_append, readLineLoop]
      by_cases isReturn : c = '\r'.toUInt8
      · rw [if_pos isReturn, inductionHypothesis plain.2 few, isReturn,
          withoutReturns_return]
      · rw [if_neg isReturn, if_neg other, withoutReturns_cons isReturn]
        have isWhole :
            buf ++ c :: withoutReturns line =
              buf ++ [c] ++ withoutReturns line := by
          rw [List.append_assoc]
          rfl
        by_cases room : buf.length < DIFF_LINE_CAP - 1
        · have stillFew : (buf ++ [c]).length ≤ DIFF_LINE_CAP - 1 := by
            rw [List.length_append, List.length_singleton]
            exact room
          rw [if_pos room, inductionHypothesis plain.2 stillFew, isWhole]
        · have full : DIFF_LINE_CAP - 1 ≤ buf.length := Nat.le_of_not_lt room
          have more :
              DIFF_LINE_CAP - 1 <
                (buf ++ c :: withoutReturns line).length := by
            rw [List.length_append, List.length_cons]
            omega
          rw [if_neg room, inductionHypothesis plain.2 few,
            List.take_append_of_le_length full,
            List.take_append_of_le_length full, decide_eq_true more,
            Bool.true_or, Bool.or_true]

theorem readLineLoop_line
    (plain : '\n'.toUInt8 ∉ line) :
    readLineLoop false (line ++ '\n'.toUInt8 :: rest) [] false =
      (.line ((withoutReturns line).take (DIFF_LINE_CAP - 1))
          (decide (DIFF_LINE_CAP - 1 < (withoutReturns line).length)),
        rest) := by
  rw [readLineLoop_append plain (Nat.zero_le _), List.nil_append,
    Bool.false_or]
  rfl

theorem readLineLoop_rest
    (plain : '\n'.toUInt8 ∉ rest) :
    readLineLoop false rest [] false =
      (if withoutReturns rest = [] then
          .eof
        else
          .line ((withoutReturns rest).take (DIFF_LINE_CAP - 1))
            (decide (DIFF_LINE_CAP - 1 < (withoutReturns rest).length)),
        []) := by
  have whole := @readLineLoop_append rest [] [] plain (Nat.zero_le _) false
  rw [List.append_nil, List.nil_append, Bool.false_or] at whole
  rw [whole]
  unfold readLineLoop
  rw [if_neg Bool.false_ne_true]
  by_cases none : withoutReturns rest = []
  · rw [if_pos none, none, if_pos List.take_nil]
  · have someTaken :
        (withoutReturns rest).take (DIFF_LINE_CAP - 1) ≠ [] := by
      intro nothing
      rcases List.take_eq_nil_iff.mp nothing with isZero | isNothing
      · revert isZero
        decide
      · exact none isNothing
    rw [if_neg none, if_neg someTaken]

/-- What is seen of a line that has been read. -/
def DiffLine.seen : DiffLine → Option (List UInt8 × Bool)
  | .error => none
  | .eof => none
  | .line buf truncated => some (stringBytes buf, truncated)

/-- A file that has been read up to the end of its first line. -/
structure ReadsLine
    (bytes : List UInt8)
    (read : DiffLine)
    (rest : List UInt8) : Prop where
  noError : read ≠ .error
  seen : read.seen = seenDiffLine (fileLines bytes).head?
  lines : fileLines rest = (fileLines bytes).tail
  shorter : read ≠ .eof → rest.length < bytes.length
  ends : read = .eof → rest = []

theorem readLine_reads (bytes : List UInt8) :
    ∃ read rest,
      readLine ⟨bytes, false⟩ = (read, ⟨rest, false⟩) ∧
        ReadsLine bytes read rest := by
  unfold readLine
  dsimp only
  rcases first_line '\n'.toUInt8 bytes with plain | found
  · rw [readLineLoop_rest plain]
    refine ⟨_, _, rfl, ?_⟩
    have isLines := lines_rest plain
    by_cases none : bytes = []
    · subst none
      exact ⟨by decide, rfl, rfl, fun wrong => absurd rfl wrong, fun _ => rfl⟩
    rw [if_neg none] at isLines
    by_cases nothing : withoutReturns bytes = []
    · rw [if_pos nothing]
      refine ⟨by decide, ?_, ?_, fun wrong => absurd rfl wrong, fun _ => rfl⟩
      · unfold fileLines seenDiffLine
        rw [isLines, List.head?_cons]
        exact (if_pos nothing).symm
      · unfold fileLines
        rw [isLines]
        rfl
    · rw [if_neg nothing]
      refine ⟨DiffLine.noConfusion, ?_, ?_, ?_, fun wrong => ?_⟩
      · unfold fileLines seenDiffLine
        rw [isLines, List.head?_cons]
        dsimp only
        rw [if_neg nothing, lineContent_plain plain]
        rfl
      · unfold fileLines
        rw [isLines]
        rfl
      · exact fun _ => List.length_pos_of_ne_nil none
      · cases wrong
  · obtain ⟨line, rest, plain, rfl⟩ := found
    rw [readLineLoop_line plain]
    refine ⟨_, _, rfl, ?_⟩
    have isLines := @lines_append _ _ '\n'.toUInt8 line rest plain
    have something : ¬ withoutReturns (line ++ ['\n'.toUInt8]) = [] := by
      rw [withoutReturns_append]
      exact List.append_ne_nil_of_right_ne_nil _ (by decide)
    refine ⟨DiffLine.noConfusion, ?_, ?_, ?_, fun wrong => ?_⟩
    · unfold fileLines seenDiffLine
      rw [isLines, List.head?_cons]
      dsimp only
      rw [if_neg something, lineContent_terminated plain]
      rfl
    · unfold fileLines
      rw [isLines]
      rfl
    · intro _
      change rest.length < _
      rw [List.length_append, List.length_cons]
      omega
    · cases wrong

end Reading

section Comparing

theorem strEq_iff (a b : List UInt8) :
    strEq a b = true ↔ stringBytes a = stringBytes b := by
  have emptyIff : ∀ (c : UInt8) (line : List UInt8),
      stringBytes (c :: line) = [] ↔ c = 0 := by
    intro c line
    by_cases isNull : c = 0
    · rw [isNull, stringBytes_null]
      exact iff_of_true rfl rfl
    · rw [stringBytes_cons isNull]
      exact iff_of_false (List.cons_ne_nil _ _) isNull
  induction a generalizing b with
  | nil =>
      cases b with
      | nil => exact iff_of_true rfl rfl
      | cons c b =>
          unfold strEq
          rw [decide_eq_true_eq, ← emptyIff c b]
          exact eq_comm
  | cons c a inductionHypothesis =>
      cases b with
      | nil =>
          unfold strEq
          rw [decide_eq_true_eq, ← emptyIff c a]
          rfl
      | cons d b =>
          unfold strEq
          by_cases isNull : c = 0
          · rw [if_pos isNull, decide_eq_true_eq, isNull, stringBytes_null,
              ← emptyIff d b]
            exact eq_comm
          rw [if_neg isNull, stringBytes_cons isNull]
          by_cases same : c = d
          · rw [if_pos same, ← same, stringBytes_cons isNull,
              List.cons.injEq, and_iff_right rfl]
            exact inductionHypothesis b
          · rw [if_neg same]
            refine iff_of_false Bool.false_ne_true ?_
            intro equal
            by_cases isEnd : d = 0
            · rw [isEnd, stringBytes_null] at equal
              cases equal
            · rw [stringBytes_cons isEnd] at equal
              exact same (List.cons.inj equal).1

theorem differs_iff
    {l r : DiffLine}
    (leftRead : l ≠ .error)
    (rightRead : r ≠ .error) :
    l.differs r = true ↔ l.seen ≠ r.seen := by
  cases l with
  | error => exact absurd rfl leftRead
  | eof =>
      cases r with
      | error => exact absurd rfl rightRead
      | eof => exact iff_of_false (by decide) (fun wrong => wrong rfl)
      | line rbuf rtrunc =>
          refine iff_of_true rfl ?_
          intro wrong
          cases wrong
  | line lbuf ltrunc =>
      cases r with
      | error => exact absurd rfl rightRead
      | eof =>
          refine iff_of_true rfl ?_
          intro wrong
          cases wrong
      | line rbuf rtrunc =>
          change (ltrunc != rtrunc || !strEq lbuf rbuf) = true ↔
            some (stringBytes lbuf, ltrunc) ≠ some (stringBytes rbuf, rtrunc)
          have same :
              some (stringBytes lbuf, ltrunc) =
                  some (stringBytes rbuf, rtrunc) ↔
                ltrunc = rtrunc ∧ stringBytes lbuf = stringBytes rbuf := by
            rw [Option.some_inj, Prod.mk.injEq]
            exact and_comm
          rw [Bool.or_eq_true, bne_iff_ne, Bool.not_eq_true',
            ← Bool.not_eq_true, strEq_iff]
          exact not_and_or.symm.trans (not_congr same.symm)

theorem seen_eq_none_iff
    {l : DiffLine}
    (isRead : l ≠ .error) :
    l.seen = none ↔ l = .eof := by
  cases l with
  | error => exact absurd rfl isRead
  | eof => exact iff_of_true rfl rfl
  | line buf truncated =>
      constructor <;>
        · intro wrong
          cases wrong

end Comparing

section Differences

variable {left right : CString} {rounds line : Nat} {l r : List UInt8}

theorem fileLines_injective : fileLines l = fileLines r ↔ l = r := by
  constructor
  · intro same
    have texts := congrArg List.flatten same
    rwa [flatten_lines, flatten_lines] at texts
  · exact congrArg fileLines

theorem diffLoop_round
    (l r : List UInt8) :
    ∃ lread lrest rread rrest,
      ReadsLine l lread lrest ∧ ReadsLine r rread rrest ∧
        ∀ rounds line,
          diffLoop left right (rounds + 1) line ⟨l, false⟩ ⟨r, false⟩ =
            if lread = .eof ∧ rread = .eof then
              .same
            else if lread.differs rread then
              .differ ⟨left, right, line, lread.text?, rread.text?⟩
            else
              diffLoop left right rounds (line + 1) ⟨lrest, false⟩
                ⟨rrest, false⟩ := by
  obtain ⟨lread, lrest, isLeft, leftReads⟩ := readLine_reads l
  obtain ⟨rread, rrest, isRight, rightReads⟩ := readLine_reads r
  refine ⟨lread, lrest, rread, rrest, leftReads, rightReads, ?_⟩
  intro rounds line
  rw [diffLoop, isLeft, isRight]
  dsimp only
  rw [if_neg leftReads.noError, if_neg rightReads.noError]

theorem diffLoop_line
    {report : DiffReport}
    (differ :
      diffLoop left right rounds line ⟨l, false⟩ ⟨r, false⟩ =
        .differ report) :
    line ≤ report.line := by
  induction rounds generalizing line l r with
  | zero => cases differ
  | succ rounds inductionHypothesis =>
      obtain ⟨lread, lrest, rread, rrest, _, _, round⟩ :=
        @diffLoop_round left right l r
      rw [round] at differ
      split_ifs at differ
      · cases differ
        exact Nat.le_refl _
      · exact Nat.le_of_succ_le (inductionHypothesis differ)

theorem diffLoop_same
    (enough : l.length < rounds) :
    diffLoop left right rounds line ⟨l, false⟩ ⟨l, false⟩ = .same := by
  induction rounds generalizing line l with
  | zero => exact absurd enough (Nat.not_lt_zero _)
  | succ rounds inductionHypothesis =>
      obtain ⟨read, rest, isRead, reads⟩ := readLine_reads l
      have notDiffers : ¬ read.differs read = true := by
        rw [differs_iff reads.noError reads.noError]
        exact fun wrong => wrong rfl
      rw [diffLoop, isRead]
      dsimp only
      rw [if_neg reads.noError, if_neg reads.noError]
      by_cases ends : read = .eof
      · rw [if_pos ⟨ends, ends⟩]
      · have shorter := reads.shorter ends
        rw [if_neg fun both => ends both.1, if_neg notDiffers]
        exact inductionHypothesis (by omega)

theorem diffLoop_differ_iff
    (different : l ≠ r)
    (enough : l.length < rounds) :
    (∃ report,
      diffLoop left right rounds line ⟨l, false⟩ ⟨r, false⟩ =
          .differ report ∧
        report.line = commonLines (fileLines l) (fileLines r) + line) ↔
      seenDiffLine (fileLines l)[commonLines (fileLines l) (fileLines r)]? ≠
        seenDiffLine
          (fileLines r)[commonLines (fileLines l) (fileLines r)]? := by
  induction rounds generalizing line l r with
  | zero => exact absurd enough (Nat.not_lt_zero _)
  | succ rounds inductionHypothesis =>
      obtain ⟨lread, lrest, rread, rrest, leftReads, rightReads, round⟩ :=
        @diffLoop_round left right l r
      have leftSeen := leftReads.seen
      have rightSeen := rightReads.seen
      have leftLines := leftReads.lines
      have rightLines := rightReads.lines
      have differs := differs_iff leftReads.noError rightReads.noError
      rw [round]
      by_cases common : ∃ first ls rs,
          fileLines l = first :: ls ∧ fileLines r = first :: rs
      · -- The first lines are the same.
        obtain ⟨first, ls, rs, isLeft, isRight⟩ := common
        rw [isLeft, List.head?_cons] at leftSeen
        rw [isRight, List.head?_cons] at rightSeen
        rw [isLeft, List.tail_cons] at leftLines
        rw [isRight, List.tail_cons] at rightLines
        have sameSeen : lread.seen = rread.seen :=
          leftSeen.trans rightSeen.symm
        have restsDiffer : lrest ≠ rrest := by
          intro same
          apply different
          rw [← fileLines_injective, isLeft, isRight, ← leftLines,
            ← rightLines, same]
        have goesOn : lread ≠ .eof := by
          intro leftEnds
          have rightEnds : rread = .eof := by
            rw [← seen_eq_none_iff rightReads.noError, ← sameSeen,
              seen_eq_none_iff leftReads.noError]
            exact leftEnds
          exact restsDiffer
            ((leftReads.ends leftEnds).trans (rightReads.ends rightEnds).symm)
        have shorter := leftReads.shorter goesOn
        have isCommon :
            commonLines (fileLines l) (fileLines r) =
              commonLines (fileLines lrest) (fileLines rrest) + 1 := by
          rw [isLeft, isRight, leftLines, rightLines]
          exact if_pos rfl
        rw [if_neg fun both => goesOn both.1,
          if_neg fun wrong => differs.mp wrong sameSeen, isCommon, isLeft,
          isRight, List.getElem?_cons_succ, List.getElem?_cons_succ,
          ← leftLines, ← rightLines,
          ← @inductionHypothesis (line + 1) lrest rrest restsDiffer
            (by omega)]
        constructor
        · rintro ⟨report, isReport, isLine⟩
          exact ⟨report, isReport, by omega⟩
        · rintro ⟨report, isReport, isLine⟩
          exact ⟨report, isReport, by omega⟩
      · -- The first lines differ, or a file has none.
        have isCommon : commonLines (fileLines l) (fileLines r) = 0 := by
          cases isLeft : fileLines l with
          | nil => rfl
          | cons first ls =>
              cases isRight : fileLines r with
              | nil => rfl
              | cons second rs =>
                  apply if_neg
                  rintro rfl
                  exact common ⟨first, ls, rs, isLeft, isRight⟩
        rw [isCommon, ← List.head?_eq_getElem?, ← List.head?_eq_getElem?,
          ← leftSeen, ← rightSeen, Nat.zero_add]
        constructor
        · rintro ⟨report, isReport, isLine⟩
          split_ifs at isReport with ends seen
          · exact differs.mp seen
          · have later := diffLoop_line isReport
            omega
        · intro different
          have notBoth : ¬ (lread = .eof ∧ rread = .eof) := by
            rintro ⟨leftEnds, rightEnds⟩
            rw [leftEnds, rightEnds] at different
            exact different rfl
          rw [if_neg notBoth, if_pos (differs.mpr different)]
          exact ⟨_, rfl, rfl⟩

end Differences

/-- `diff_files` returns 0 for equal files, and 1 with the number of the first
different line for others, exactly where the files are equal or the code sees
different things of these lines. -/
theorem diff_exact_iff
    (left right : CString)
    (l r : List UInt8) :
    FindsDifference left right l r ↔ DiffOk l r := by
  unfold FindsDifference DiffOk diffFiles
  by_cases same : l = r
  · rw [if_pos same, ← same, diffLoop_same (Nat.lt_succ_self _)]
    exact iff_of_true rfl (Or.inl rfl)
  · rw [if_neg same, diffLoop_differ_iff same (Nat.lt_succ_self _)]
    exact (or_iff_right same).symm

/-- Files that differ in a carriage return, in the last newline or behind a null
byte are equal to the code. -/
theorem diff_not_exact :
    let name : CString := ⟨[], by decide⟩
    ¬ FindsDifference name name [97, 13, 10] [97, 10] ∧
      ¬ FindsDifference name name [97] [97, 10] ∧
      ¬ FindsDifference name name [0, 97, 10] [0, 98, 10] := by
  have equal :
      ∀ (l r : List UInt8) (name : CString), l ≠ r →
        diffFiles name name ⟨l, false⟩ ⟨r, false⟩ = .same →
          ¬ FindsDifference name name l r := by
    intro l r name different isSame finds
    unfold FindsDifference at finds
    rw [if_neg different, isSame] at finds
    obtain ⟨report, wrong, _⟩ := finds
    cases wrong
  exact ⟨equal _ _ _ (by decide) rfl, equal _ _ _ (by decide) rfl,
    equal _ _ _ (by decide) rfl⟩

end MyOS
