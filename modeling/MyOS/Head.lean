import MyOS.Lib.Lines

namespace MyOS

open Lib

/-!
# The lines that `head` prints

`head_fd` counts newlines across the chunks that `read` returns, and stops
behind the one that makes the lines enough.
-/

/-- The loop of `head_fd` over a chunk: where what is to be written ends, and
the lines so far. -/
def headEnd (limit : Int) : Nat → Int → List UInt8 → Nat × Int
  | i, lines, [] => (i, lines)
  | i, lines, c :: buf =>
      if c = '\n'.toUInt8 then
        if lines + 1 ≥ limit then
          (i + 1, lines + 1)
        else
          headEnd limit (i + 1) (lines + 1) buf
      else
        headEnd limit (i + 1) lines buf

/-- The loop of `head_fd` over the chunks: what it returns, and one entry for
each call of `write_bytes`. -/
def headChunks
    (limit : Int)
    (failed : Bool) :
    Int → List (List UInt8) → Int × List (List UInt8)
  | _, [] => (if failed then -1 else 0, [])
  | lines, buf :: chunks =>
      let stop := headEnd limit 0 lines buf
      let written := if 0 < stop.1 then [buf.take stop.1] else []
      if stop.2 ≥ limit then
        (0, written)
      else
        let rest := headChunks limit failed stop.2 chunks
        (rest.1, written ++ rest.2)

/-- `head_fd`, from the chunks that `read` returns, and whether the call of
`read` behind them fails. -/
def headFd
    (limit : Int)
    (chunks : List (List UInt8))
    (failed : Bool) : Int × List (List UInt8) :=
  if limit ≤ 0 then
    (0, [])
  else
    headChunks limit failed 0 chunks

/-- The first lines of a text. -/
def firstLines (count : Nat) (text : List UInt8) : List (List UInt8) :=
  (lines '\n'.toUInt8 text).take count

section FirstLines

variable {count : Nat} {text buf rest : List UInt8}

/-- A text up to and including a number of newlines. -/
def upToLines : Nat → List UInt8 → List UInt8
  | 0, _ => []
  | _ + 1, [] => []
  | count + 1, c :: text =>
      c ::
        if c = '\n'.toUInt8 then
          upToLines count text
        else
          upToLines (count + 1) text

theorem upToLines_nil : upToLines count [] = [] := by
  cases count <;> rfl

theorem upToLines_zero (text : List UInt8) : upToLines 0 text = [] := by
  cases text <;> rfl

theorem upToLines_plain
    {line : List UInt8}
    (plain : '\n'.toUInt8 ∉ line) :
    upToLines (count + 1) (line ++ rest) =
      line ++ upToLines (count + 1) rest := by
  induction line with
  | nil =>
      rfl
  | cons c line inductionHypothesis =>
      obtain ⟨other, plain⟩ := not_or.mp (plain ∘ List.mem_cons.mpr)
      rw [List.cons_append, upToLines, if_neg (Ne.symm other),
        inductionHypothesis plain]
      rfl

theorem upToLines_eq
    (count : Nat)
    (text : List UInt8) :
    upToLines count text = (firstLines count text).flatten := by
  unfold firstLines
  induction text using line_induction '\n'.toUInt8 generalizing count with
  | last rest plain =>
      cases count with
      | zero =>
          rw [upToLines_zero, List.take_zero, List.flatten_nil]
      | succ count =>
          have whole := @upToLines_plain count [] rest plain
          rw [List.append_nil, upToLines_nil, List.append_nil] at whole
          rw [whole, lines_rest plain]
          by_cases none : rest = []
          · rw [if_pos none, none]
            rfl
          · rw [if_neg none, List.take_succ_cons, List.take_nil]
            simp
  | front line rest plain inductionHypothesis =>
      cases count with
      | zero =>
          rw [upToLines_zero, List.take_zero, List.flatten_nil]
      | succ count =>
          rw [upToLines_plain plain, lines_append plain, List.take_succ_cons,
            List.flatten_cons, ← inductionHypothesis count, upToLines,
            if_pos rfl, List.append_assoc]
          rfl

theorem upToLines_append :
    upToLines count (buf ++ rest) =
      upToLines count buf ++
        upToLines (count - buf.count '\n'.toUInt8) rest := by
  induction buf generalizing count with
  | nil =>
      rw [upToLines_nil]
      rfl
  | cons c buf inductionHypothesis =>
      cases count with
      | zero =>
          rw [Nat.zero_sub, upToLines_zero, upToLines_zero, upToLines_zero,
            List.append_nil]
      | succ count =>
          rw [List.cons_append, upToLines, upToLines, List.cons_append]
          by_cases isNewline : c = '\n'.toUInt8
          · rw [if_pos isNewline, if_pos isNewline, inductionHypothesis,
              isNewline, List.count_cons_self, Nat.add_sub_add_right]
          · rw [if_neg isNewline, if_neg isNewline, inductionHypothesis,
              List.count_cons_of_ne isNewline]

end FirstLines

section Head

variable {limit lines : Int}

theorem headEnd_spec
    {i : Nat}
    {buf : List UInt8}
    (missing : lines < limit) :
    i ≤ (headEnd limit i lines buf).1 ∧
      buf.take ((headEnd limit i lines buf).1 - i) =
        upToLines (limit - lines).toNat buf ∧
      (headEnd limit i lines buf).2 =
        min limit (lines + buf.count '\n'.toUInt8) := by
  induction buf generalizing i lines with
  | nil =>
      refine ⟨Nat.le_refl i, ?_, ?_⟩
      · rw [upToLines_nil, List.take_nil]
      · simp only [headEnd, List.count_nil]
        omega
  | cons c buf inductionHypothesis =>
      obtain ⟨more, isMore⟩ : ∃ more, (limit - lines).toNat = more + 1 :=
        ⟨(limit - lines).toNat - 1, by omega⟩
      unfold headEnd
      rw [isMore, upToLines]
      by_cases isNewline : c = '\n'.toUInt8
      · rw [if_pos isNewline, if_pos isNewline, isNewline,
          List.count_cons_self]
        by_cases enough : lines + 1 ≥ limit
        · have isLast : more = 0 := by omega
          rw [if_pos enough, isLast]
          refine ⟨Nat.le_succ i, ?_, ?_⟩
          · dsimp only
            rw [Nat.add_sub_cancel_left, upToLines_zero]
            rfl
          · dsimp only
            omega
        · obtain ⟨behind, written, isCount⟩ :=
            @inductionHypothesis (lines + 1) (i + 1) (by omega)
          have fewer : (limit - (lines + 1)).toNat = more := by omega
          rw [if_neg enough]
          refine ⟨Nat.le_of_succ_le behind, ?_, ?_⟩
          · rw [← fewer, ← written, ← List.take_succ_cons]
            congr 1
            omega
          · rw [isCount]
            omega
      · obtain ⟨behind, written, isCount⟩ :=
          @inductionHypothesis lines (i + 1) missing
        rw [if_neg isNewline, if_neg isNewline,
          List.count_cons_of_ne isNewline]
        refine ⟨Nat.le_of_succ_le behind, ?_, isCount⟩
        rw [← isMore, ← written, ← List.take_succ_cons]
        congr 1
        omega

theorem headChunks_spec
    {failed : Bool}
    {chunks : List (List UInt8)}
    (missing : lines < limit) :
    (headChunks limit failed lines chunks).2.flatten =
        upToLines (limit - lines).toNat chunks.flatten ∧
      ((headChunks limit failed lines chunks).1 =
        if failed = true ∧
            lines + chunks.flatten.count '\n'.toUInt8 < limit then
          -1
        else
          0) := by
  induction chunks generalizing lines with
  | nil =>
      refine ⟨?_, ?_⟩
      · rw [List.flatten_nil, upToLines_nil]
        rfl
      · simp only [headChunks, List.flatten_nil, List.count_nil]
        cases failed <;> simp [missing]
  | cons buf chunks inductionHypothesis =>
      obtain ⟨_, written, isCount⟩ := @headEnd_spec limit lines 0 buf missing
      rw [Nat.sub_zero] at written
      have isWritten :
          (if 0 < (headEnd limit 0 lines buf).1 then
              [buf.take (headEnd limit 0 lines buf).1]
            else
              []).flatten =
            upToLines (limit - lines).toNat buf := by
        split
        · rw [List.flatten_singleton, written]
        · next nothing =>
          have isZero : (headEnd limit 0 lines buf).1 = 0 := by omega
          rw [← written, isZero]
          rfl
      unfold headChunks
      dsimp only
      rw [List.flatten_cons, upToLines_append, List.count_append]
      split
      · next enough =>
        have none : (limit - lines).toNat - buf.count '\n'.toUInt8 = 0 := by
          omega
        rw [isWritten, none, upToLines_zero, List.append_nil]
        refine ⟨rfl, ?_⟩
        apply Eq.symm (if_neg _)
        rintro ⟨_, few⟩
        omega
      · next fewer =>
        have isLines : (headEnd limit 0 lines buf).2 =
            lines + buf.count '\n'.toUInt8 := by
          omega
        have left :
            (limit - (lines + (buf.count '\n'.toUInt8 : Int))).toNat =
              (limit - lines).toNat - buf.count '\n'.toUInt8 := by
          omega
        obtain ⟨rest, status⟩ :=
          @inductionHypothesis (headEnd limit 0 lines buf).2 (by omega)
        rw [isLines, left] at rest
        rw [isLines, Int.add_assoc] at status
        rw [List.flatten_append, isWritten, isLines]
        refine ⟨congrArg _ rest, ?_⟩
        rw [status]
        rfl

/--
However the file is read, `head_fd` writes its first lines, as many as are asked
for or as there are; it fails if and only if a read fails before they are found.
-/
theorem head_writes
    (limit : Int)
    (chunks : List (List UInt8))
    (failed : Bool) :
    (headFd limit chunks failed).2.flatten =
        (firstLines limit.toNat chunks.flatten).flatten ∧
      ((headFd limit chunks failed).1 = -1 ↔
        failed = true ∧
          (chunks.flatten.count '\n'.toUInt8 : Int) < limit) := by
  unfold headFd
  split
  · next none =>
    have isZero : limit.toNat = 0 := by omega
    rw [isZero]
    refine ⟨rfl, ?_⟩
    constructor
    · intro impossible
      cases impossible
    · rintro ⟨_, few⟩
      omega
  · next some =>
    obtain ⟨written, status⟩ :=
      @headChunks_spec limit 0 failed chunks (by omega)
    rw [Int.sub_zero] at written
    rw [Int.zero_add] at status
    rw [written, upToLines_eq, status]
    refine ⟨rfl, ?_⟩
    split
    · next fails =>
      exact iff_of_true rfl fails
    · next works =>
      exact iff_of_false (by decide) works

end Head

end MyOS
