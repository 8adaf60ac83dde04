import MyOS.LibcPrintf

namespace MyOS

open Lib

/-!
# The one rendering of a format

A format is a list of characters and directives, and each of them has its bytes
whatever the size of the buffer is.  `vsnprintf` writes as many of them as fit,
and counts them all.
-/

/-- A part of a format. -/
inductive FormatPiece where
  | plain (c : UInt8)
  | directive (directive : Directive)
  deriving Repr, DecidableEq

/-- The parts of a format; every round consumes a character. -/
def piecesLoop : Nat → List UInt8 → List FormatPiece
  | 0, _ => []
  | _ + 1, [] => []
  | fuel + 1, c :: fmt =>
      if c ≠ '%'.toUInt8 then
        .plain c :: piecesLoop fuel fmt
      else
        .directive (parseDirective fmt).1 ::
          piecesLoop fuel (parseDirective fmt).2

/-- The parts of a format. -/
def formatPieces (fmt : List UInt8) : List FormatPiece :=
  piecesLoop (fmt.length + 1) fmt

/-- The bytes of a number. -/
def uintBytes
    (x base : Nat)
    (neg leftAlign padZero : Bool)
    (width : Int) : List UInt8 :=
  let digits := uintDigits base x
  let pad := (width - (digits.length + if neg then 1 else 0 : Nat)).toNat
  (if !leftAlign && !padZero then List.replicate pad ' '.toUInt8 else []) ++
    (if neg then ['-'.toUInt8] else []) ++
    (if !leftAlign && padZero then List.replicate pad '0'.toUInt8 else []) ++
    digits.reverse ++
    (if leftAlign then List.replicate pad ' '.toUInt8 else [])

/-- The bytes of a directive, and the arguments behind it. -/
def directiveBytes
    (directive : Directive)
    (args : List PrintArg) : Option (List UInt8 × List PrintArg) :=
  let width := widthOf directive.width
  let number (x base : Nat) (neg : Bool) :=
    uintBytes x base neg directive.leftAlign directive.padZero width
  match directive.conversion with
  | none => some (['%'.toUInt8], args)
  | some c =>
      if c = 's'.toUInt8 then
        (textArg args).map fun next =>
          (next.1.getD (textBytes ['(', 'n', 'u', 'l', 'l', ')']), next.2)
      else if c = 'c'.toUInt8 then
        (charArg args).map fun next => ([next.1], next.2)
      else if c = 'd'.toUInt8 ∨ c = 'i'.toUInt8 then
        (signedArg directive.longArg args).map fun next =>
          (number next.1.natAbs 10 (decide (next.1 < 0)), next.2)
      else if c = 'u'.toUInt8 then
        (unsignedArg directive.longArg args).map fun next =>
          (number next.1 10 false, next.2)
      else if c = 'x'.toUInt8 ∨ c = 'X'.toUInt8 then
        (unsignedArg directive.longArg args).map fun next =>
          (number next.1 16 false, next.2)
      else if c = 'o'.toUInt8 then
        (unsignedArg directive.longArg args).map fun next =>
          (number next.1 8 false, next.2)
      else if c = 'p'.toUInt8 then
        (pointerArg args).map fun next =>
          (textBytes ['0', 'x'] ++ uintBytes next.1 16 false false false 0,
            next.2)
      else if c = '%'.toUInt8 then
        some (['%'.toUInt8], args)
      else
        some (['%'.toUInt8, c], args)

/-- The bytes of the parts of a format, if the arguments match. -/
def piecesBytes : List FormatPiece → List PrintArg → Option (List UInt8)
  | [], _ => some []
  | .plain c :: pieces, args => (piecesBytes pieces args).map fun rest => c :: rest
  | .directive directive :: pieces, args =>
      (directiveBytes directive args).bind fun next =>
        (piecesBytes pieces next.2).map fun rest => next.1 ++ rest

/-- The full rendering of a format. -/
def rendering
    (fmt : List UInt8)
    (args : List PrintArg) : Option (List UInt8) :=
  piecesBytes (formatPieces fmt) args

section Emission

variable {buffer : OutBuffer} {first second : List UInt8}

theorem outStrLoop_append :
    outStrLoop buffer (first ++ second) =
      outStrLoop (outStrLoop buffer first) second := by
  induction first generalizing buffer with
  | nil => rfl
  | cons c first inductionHypothesis => exact inductionHypothesis

theorem outRepeat_eq
    (c : UInt8)
    (n : Nat) :
    outRepeat buffer c n = outStrLoop buffer (List.replicate n c) := by
  induction n generalizing buffer with
  | zero => rfl
  | succ n inductionHypothesis => exact inductionHypothesis

theorem outStrLoop_ite
    (condition : Prop)
    [Decidable condition] :
    outStrLoop buffer (if condition then first else []) =
      if condition then outStrLoop buffer first else buffer := by
  by_cases holds : condition
  · rw [if_pos holds, if_pos holds]
  · rw [if_neg holds, if_neg holds]
    rfl

theorem outUint_eq
    (x base : Nat)
    (neg leftAlign padZero : Bool)
    (width : Int) :
    outUint buffer x base neg leftAlign padZero width =
      outStrLoop buffer (uintBytes x base neg leftAlign padZero width) := by
  unfold outUint uintBytes
  simp only [outStrLoop_append, outStrLoop_ite, outRepeat_eq]
  rfl

theorem outDirective_eq
    (directive : Directive)
    (args : List PrintArg) :
    outDirective directive args buffer =
      (directiveBytes directive args).map fun next =>
        (outStrLoop buffer next.1, next.2) := by
  unfold outDirective directiveBytes
  simp only [outUint_eq, outStr, ← outStrLoop_append]
  cases directive.conversion with
  | none => rfl
  | some c =>
      dsimp only
      repeat' split
      all_goals simp only [Option.map_map, Option.map_some]
      all_goals rfl

theorem parseDirective_length (fmt : List UInt8) :
    (parseDirective fmt).2.length ≤ fmt.length := by
  have dropped :
      ∀ (p : UInt8 → Bool) (fmt : List UInt8),
        (fmt.dropWhile p).length ≤ fmt.length := fun p fmt =>
    (List.dropWhile_suffix p).length_le
  have precision : ∀ fmt, (parsePrecision fmt).2.length ≤ fmt.length := by
    intro fmt
    unfold parsePrecision
    cases fmt with
    | nil => exact Nat.le_refl _
    | cons c rest =>
        dsimp only
        split
        · exact Nat.le_succ_of_le (dropped _ _)
        · exact Nat.le_refl _
  unfold parseDirective
  dsimp only
  rw [List.length_tail]
  refine Nat.le_trans (Nat.sub_le _ _) ?_
  refine Nat.le_trans (dropped _ _) ?_
  refine Nat.le_trans (precision _) ?_
  exact Nat.le_trans (dropped _ _) (dropped _ _)

theorem vsnprintfLoop_eq
    {fuel : Nat}
    {fmt : List UInt8}
    {args : List PrintArg}
    (enough : fmt.length < fuel) :
    vsnprintfLoop fuel fmt args buffer =
      (piecesBytes (piecesLoop fuel fmt) args).map (outStrLoop buffer) := by
  induction fuel generalizing fmt args buffer with
  | zero => exact absurd enough (Nat.not_lt_zero _)
  | succ fuel inductionHypothesis =>
      cases fmt with
      | nil => rfl
      | cons c fmt =>
          have shorter : fmt.length < fuel := Nat.lt_of_succ_lt_succ enough
          unfold vsnprintfLoop piecesLoop
          by_cases plain : c ≠ '%'.toUInt8
          · rw [if_pos plain, if_pos plain, inductionHypothesis shorter]
            change _ = Option.map _ (Option.map _ (piecesBytes _ args))
            rw [Option.map_map]
            rfl
          · rw [if_neg plain, if_neg plain]
            have rest :=
              Nat.lt_of_le_of_lt (parseDirective_length fmt) shorter
            dsimp only
            change _ = Option.map _ (Option.bind _ _)
            rw [outDirective_eq]
            cases directiveBytes (parseDirective fmt).1 args with
            | none => rfl
            | some next =>
                simp only [Option.map_some, Option.bind_some]
                rw [inductionHypothesis rest, Option.map_map]
                congr 1
                funext bytes
                exact outStrLoop_append.symm

end Emission

section Truncation

variable {memory : Bytes} {str size : Nat} {bytes : List UInt8}

/-- What a sequence of characters leaves in the buffer. -/
def afterBytes (buffer : OutBuffer) (bytes : List UInt8) : OutBuffer :=
  let kept := min (buffer.left - 1) bytes.length
  ⟨buffer.memory.put buffer.out kept (Bytes.ofList bytes), buffer.out + kept,
    buffer.left - kept, buffer.count + bytes.length⟩

theorem put_zero (source : Bytes) : memory.put str 0 source = memory := by
  funext place
  exact Bytes.put_outside (by omega)

theorem put_cons
    (c : UInt8)
    (kept : Nat) :
    Bytes.put (Function.update memory str c) (str + 1) kept
        (Bytes.ofList bytes) =
      memory.put str (kept + 1) (Bytes.ofList (c :: bytes)) := by
  funext place
  by_cases isFirst : place = str
  · rw [isFirst, Bytes.put_outside (by omega), Function.update_self,
      Bytes.put_inside (Nat.le_refl _) (by omega), Nat.sub_self]
    rfl
  by_cases inside : str < place ∧ place < str + (kept + 1)
  · have place_eq : place - str = place - (str + 1) + 1 := by omega
    rw [Bytes.put_inside (by omega) (by omega),
      Bytes.put_inside (by omega) inside.2, place_eq]
    rfl
  · rw [Bytes.put_outside (by omega), Bytes.put_outside (by omega),
      Function.update_of_ne isFirst]

theorem outStrLoop_eq
    (buffer : OutBuffer) :
    outStrLoop buffer bytes = afterBytes buffer bytes := by
  induction bytes generalizing buffer with
  | nil =>
      unfold afterBytes
      simp only [List.length_nil, Nat.min_zero, put_zero]
      rfl
  | cons c bytes inductionHypothesis =>
      change outStrLoop (outChar buffer c) bytes = _
      rw [inductionHypothesis]
      unfold outChar
      by_cases room : 1 < buffer.left
      · rw [if_pos room]
        unfold afterBytes
        have kept :
            min (buffer.left - 1) (c :: bytes).length =
              min (buffer.left - 1 - 1) bytes.length + 1 := by
          rw [List.length_cons]
          omega
        dsimp only
        rw [kept, put_cons, List.length_cons]
        congr 1 <;> omega
      · rw [if_neg room]
        unfold afterBytes
        have none : buffer.left - 1 = 0 := by omega
        simp only [none, Nat.zero_min, put_zero, List.length_cons,
          Nat.add_zero, Nat.sub_zero]
        congr 1
        omega

/-- A buffer with the beginning of a string and a null byte. -/
def truncated
    (memory : Bytes)
    (str size : Nat)
    (bytes : List UInt8) : Bytes :=
  if size = 0 then
    memory
  else
    memory.put str (min (size - 1) bytes.length + 1)
      (Bytes.ofList (bytes.take (size - 1)))

theorem endString_eq :
    endString str size (afterBytes ⟨memory, str, size, 0⟩ bytes) =
      truncated memory str size bytes := by
  unfold endString truncated afterBytes
  dsimp only
  by_cases nothing : size = 0
  · rw [if_neg (by omega), if_pos nothing, nothing]
    simp only [Nat.zero_sub, Nat.zero_min, put_zero]
  · have positive : 0 < size := Nat.pos_of_ne_zero nothing
    rw [if_pos positive, if_neg nothing, if_pos (by omega)]
    generalize isKept : min (size - 1) bytes.length = kept
    funext place
    by_cases isEnd : place = str + kept
    · rw [isEnd, Function.update_self,
        Bytes.put_inside (by omega) (by omega), Nat.add_sub_cancel_left]
      unfold Bytes.ofList
      rw [List.getD_eq_getElem?_getD, List.getElem?_eq_none]
      · rfl
      · rw [List.length_take]
        omega
    rw [Function.update_of_ne isEnd]
    by_cases inside : str ≤ place ∧ place < str + kept
    · rw [Bytes.put_inside inside.1 inside.2,
        Bytes.put_inside inside.1 (by omega)]
      unfold Bytes.ofList
      simp only [List.getD_eq_getElem?_getD]
      rw [List.getElem?_take_of_lt (by omega)]
    · rw [Bytes.put_outside (by omega), Bytes.put_outside (by omega)]

variable {fmt : List UInt8} {args : List PrintArg}

theorem vsnprintf_eq
    (memory : Bytes)
    (str size : Nat)
    (rendered : rendering fmt args = some bytes) :
    vsnprintf memory str size fmt args =
      some (truncated memory str size bytes, wrapInt bytes.length) := by
  unfold rendering formatPieces at rendered
  unfold vsnprintf
  rw [vsnprintfLoop_eq (Nat.lt_succ_self _), rendered, Option.map_some,
    Option.map_some, outStrLoop_eq, endString_eq]
  unfold afterBytes
  dsimp only
  rw [Nat.zero_add]

theorem wrapInt_of_short
    {count : Nat}
    (short : count < 2147483648) :
    wrapInt count = count := by
  unfold wrapInt
  rw [Int.bmod_def]
  omega

/-- `vsnprintf` returns the length of the one rendering for every size, writes
the beginning that fits with a null byte behind it and nothing else; so
`vasprintf` returns the whole. -/
theorem vsnprintf_truncates
    (rendered : rendering fmt args = some bytes)
    (short : bytes.length < 2147483648) :
    (∀ memory str size,
      vsnprintf memory str size fmt args =
        some (truncated memory str size bytes, (bytes.length : Int))) ∧
      ∀ malloc memory,
        vasprintf malloc memory fmt args =
          if (malloc (bytes.length + 1) memory).1 = 0 then
            some ((malloc (bytes.length + 1) memory).2, none, -1)
          else
            some ((malloc (bytes.length + 1) memory).2.put
                (malloc (bytes.length + 1) memory).1 (bytes.length + 1)
                (Bytes.ofList bytes),
              some (malloc (bytes.length + 1) memory).1,
              (bytes.length : Int)) := by
  have prints :
      ∀ memory str size,
        vsnprintf memory str size fmt args =
          some (truncated memory str size bytes, (bytes.length : Int)) := by
    intro memory str size
    rw [vsnprintf_eq memory str size rendered, wrapInt_of_short short]
  refine ⟨prints, fun malloc memory => ?_⟩
  unfold vasprintf
  rw [prints, Option.bind_some]
  dsimp only
  have nothing : truncated memory 0 0 bytes = memory := rfl
  have positive : ¬ (bytes.length : Int) < 0 := by omega
  rw [if_neg positive, nothing, Int.toNat_natCast]
  generalize malloc (bytes.length + 1) memory = answer
  by_cases failed : answer.1 = 0
  · rw [if_pos failed, if_pos failed]
  · rw [if_neg failed, if_neg failed, prints, Option.map_some]
    unfold truncated
    rw [if_neg (Nat.succ_ne_zero _), Nat.add_sub_cancel, Nat.min_self,
      List.take_length]

/-- A format without directives is its own rendering. -/
theorem vsnprintf_truncates_word :
    (∀ memory str size,
      vsnprintf memory str size (textBytes ['o', 'k']) [] =
        some (truncated memory str size (textBytes ['o', 'k']), 2)) ∧
      ∀ malloc memory,
        vasprintf malloc memory (textBytes ['o', 'k']) [] =
          if (malloc 3 memory).1 = 0 then
            some ((malloc 3 memory).2, none, -1)
          else
            some ((malloc 3 memory).2.put (malloc 3 memory).1 3
                (Bytes.ofList (textBytes ['o', 'k'])),
              some (malloc 3 memory).1, 2) :=
  @vsnprintf_truncates (textBytes ['o', 'k']) (textBytes ['o', 'k']) [] rfl
    (by decide)

end Truncation

end MyOS
