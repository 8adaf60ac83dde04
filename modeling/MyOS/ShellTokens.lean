import Mathlib.Tactic.IntervalCases
import MyOS.ShellGrammar

namespace MyOS

/-!
# The tokens of a line

`parse_args` finds the first tokens of a line, as many as `argv` has room for:
the buffer for the texts never runs out on a line that fits the shell's buffer.
-/

section Loops

variable {line : ShellWord} {out : Nat}

/-- The characters of a word. -/
def isWordChar (c : UInt8) : Bool :=
  !isSpace c && !isOperator c

theorem wordLoop_eq
    (room : out + line.length < TOKEN_BUF_SIZE) :
    wordLoop out line =
      (line.takeWhile isWordChar,
        out + (line.takeWhile isWordChar).length,
        line.dropWhile isWordChar) := by
  induction line generalizing out with
  | nil =>
      rfl
  | cons c line inductionHypothesis =>
      rw [List.length_cons] at room
      have small : out < TOKEN_BUF_SIZE - 1 := by omega
      unfold wordLoop
      by_cases isWord : isWordChar c = true
      · have both : isSpace c = false ∧ isOperator c = false := by
          simpa [isWordChar] using isWord
        rw [if_pos ⟨both.1, both.2, small⟩,
          inductionHypothesis (by omega),
          List.takeWhile_cons_of_pos isWord,
          List.dropWhile_cons_of_pos isWord, List.length_cons,
          Nat.add_right_comm, Nat.add_assoc]
      · have other :
            ¬ (isSpace c = false ∧ isOperator c = false ∧
              out < TOKEN_BUF_SIZE - 1) := by
          intro both
          exact isWord (by simp [isWordChar, both.1, both.2.1])
        rw [if_neg other, List.takeWhile_cons_of_neg isWord,
          List.dropWhile_cons_of_neg isWord]
        rfl

/-- One token of the reference: its text and what is behind it. -/
def firstToken (c : UInt8) (rest : ShellWord) : ShellWord × ShellWord :=
  if isOperator c then
    if c = 62 ∧ rest.head? = some 62 then
      ([c, 62], rest.tail)
    else
      ([c], rest)
  else
    ((c :: rest).takeWhile isWordChar, (c :: rest).dropWhile isWordChar)

theorem tokensOf_succ
    (fuel : Nat)
    (line : ShellWord) :
    tokensOf (fuel + 1) line =
      match line.dropWhile isSpace with
      | [] => []
      | c :: rest =>
          (firstToken c rest).1 :: tokensOf fuel (firstToken c rest).2 := by
  conv_lhs => unfold tokensOf
  cases line.dropWhile isSpace with
  | nil => rfl
  | cons c rest =>
      unfold firstToken
      dsimp only
      split
      · split <;> rfl
      · rfl

theorem firstToken_length
    {c : UInt8}
    (notSpace : isSpace c = false)
    (rest : ShellWord) :
    0 < (firstToken c rest).1.length ∧
      (firstToken c rest).1.length + (firstToken c rest).2.length =
        (c :: rest).length := by
  unfold firstToken
  split
  · split
    · next double =>
        rcases rest with _ | ⟨d, rest⟩
        · exact absurd double.2 (by simp)
        · simp only [List.length_cons, List.length_nil, List.tail_cons]
          omega
    · simp only [List.length_cons, List.length_nil]
      omega
  · next plain =>
      have isWord : isWordChar c = true := by
        simp [isWordChar, notSpace, plain]
      have whole :
          ((c :: rest).takeWhile isWordChar).length +
              ((c :: rest).dropWhile isWordChar).length =
            (c :: rest).length := by
        rw [← List.length_append, List.takeWhile_append_dropWhile]
      refine ⟨?_, whole⟩
      rw [List.takeWhile_cons_of_pos isWord, List.length_cons]
      exact Nat.succ_pos _

theorem nextToken_eq
    {c : UInt8}
    {rest : ShellWord}
    (room : out + (c :: rest).length < TOKEN_BUF_SIZE) :
    nextToken out (c :: rest) =
      ((firstToken c rest).1, out + (firstToken c rest).1.length,
        (firstToken c rest).2) := by
  unfold nextToken firstToken
  by_cases operator : isOperator c = true
  · simp only [if_pos operator]
    cases rest with
    | nil =>
        rw [if_neg (by simp)]
        rfl
    | cons d rest =>
        rw [List.length_cons, List.length_cons] at room
        have small : out + 1 < TOKEN_BUF_SIZE - 1 := by omega
        by_cases double : c = 62 ∧ d = 62
        · have head : (d :: rest).head? = some 62 := by
            rw [double.2]
            rfl
          rw [if_pos ⟨double.1, head⟩]
          simp only [double, small, and_self, if_true]
          rfl
        · have head : ¬ (c = 62 ∧ (d :: rest).head? = some 62) := by
            rintro ⟨first, second⟩
            exact double ⟨first, Option.some.inj second⟩
          rw [if_neg head]
          simp only
          rw [if_neg (fun both => double ⟨both.1, both.2.1⟩)]
          rfl
  · simp only [if_neg operator]
    exact wordLoop_eq room

theorem parseLoop_eq
    (left : Nat)
    {fuel : Nat}
    (enough : line.length ≤ fuel)
    (room : out + 2 * line.length < TOKEN_BUF_SIZE - 1) :
    parseLoop left out line = (tokensOf fuel line).take left := by
  induction left generalizing out line fuel with
  | zero =>
      rfl
  | succ left inductionHypothesis =>
      have shorter : (line.dropWhile isSpace).length ≤ line.length := by
        have whole :
            (line.takeWhile isSpace).length +
                (line.dropWhile isSpace).length = line.length := by
          rw [← List.length_append, List.takeWhile_append_dropWhile]
        omega
      unfold parseLoop
      rw [if_pos (by omega)]
      rcases fuel with _ | fuel
      · have none : line = [] := List.length_eq_zero_iff.mp (by omega)
        rw [none]
        rfl
      · rw [tokensOf_succ]
        rcases found : line.dropWhile isSpace with _ | ⟨c, rest⟩
        · rfl
        · have notSpace : isSpace c = false := by
            have first := List.head?_dropWhile_not isSpace line
            rw [found] at first
            simpa using first
          obtain ⟨some, whole⟩ := firstToken_length notSpace rest
          rw [found] at shorter
          have small : out + (c :: rest).length < TOKEN_BUF_SIZE := by
            omega
          simp only
          rw [nextToken_eq small]
          simp only
          rw [inductionHypothesis (by omega : _ ≤ fuel) (by omega),
            List.take_succ_cons]

end Loops

theorem parseArgs_eq
    {line : ShellWord}
    (limit : line.length < LINE_SIZE) :
    parseArgs line = (tokensOf line.length line).take (MAX_ARGS - 1) := by
  apply parseLoop_eq _ (Nat.le_refl _)
  simp only [TOKEN_BUF_SIZE, LINE_SIZE] at limit ⊢
  omega

end MyOS
