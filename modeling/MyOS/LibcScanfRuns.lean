import MyOS.LibcScanfDirectives

namespace MyOS

open Lib

/-!
# Runs of `vscan_string`

Every round consumes a part of the format, so that the loop ends, and counts
what it stores.  The directives of a run respect their suppression and their
width exactly when each of them is such that the code does so.
-/

/-- A round of the loop, together with the state that it comes to. -/
def ScanRound (s next later : ScanState) : Prop :=
  scanStep s = some later ∧ next = later

/-- The directives of a run that should take an argument. -/
def argumentCount (trace : List (ScanState × ScanState)) : Nat :=
  trace.countP fun round =>
    ((nextDirective round.1).map ScanDirective.takesArgument).getD false

/-- A round whose directive, if it has one, does what it should. -/
def RoundHonours (s later : ScanState) : Prop :=
  ∀ directive, nextDirective s = some directive → Honours s directive later

/-- A state in which the next directive, if there is one, is such that the code
does what it should. -/
def RoundOk (s _later : ScanState) : Prop :=
  ∀ directive, nextDirective s = some directive → DirectiveOk s directive

/-- The directives of a run do what they should, and each of those that take an
argument finds its own. -/
def Respects (trace : List (ScanState × ScanState)) : Prop :=
  Meets RoundHonours trace ∧
    ∀ earlier s later rest,
      trace = earlier ++ (s, later) :: rest →
        s.taken = argumentCount earlier

section Rounds

variable {s later : ScanState} {fmt : List UInt8}

theorem scanSpace_percent : scanSpace '%'.toUInt8 = false := by
  decide

theorem scanStep_cases
    (step : scanStep s = some later) :
    s.left = false ∧ ∃ c fmt, s.fmt = c :: fmt ∧
      (scanSpace c = true ∧ nextDirective s = none ∧
          later = { s.skipSpace with fmt := fmt.dropWhile scanSpace } ∨
        nextDirective s = none ∧ later = { scanPlain c s with fmt := fmt } ∨
        nextDirective s = some (parseScan fmt).1 ∧
          later = { scanDirective (parseScan fmt).1 s with
            fmt := (parseScan fmt).2 }) := by
  unfold scanStep at step
  cases isLeft : s.left with
  | true =>
      rw [isLeft, if_pos rfl] at step
      cases step
  | false =>
      rw [isLeft, if_neg Bool.false_ne_true] at step
      refine ⟨rfl, ?_⟩
      cases isFmt : s.fmt with
      | nil =>
          rw [isFmt] at step
          cases step
      | cons c fmt =>
          rw [isFmt] at step
          refine ⟨c, fmt, rfl, ?_⟩
          dsimp only at step
          have next :
              nextDirective s =
                if c = '%'.toUInt8 then some (parseScan fmt).1 else none := by
            unfold nextDirective
            rw [isFmt, List.head?_cons, List.tail_cons]
            by_cases isPercent : c = '%'.toUInt8
            · rw [if_pos isPercent, if_pos (congrArg some isPercent)]
            · rw [if_neg isPercent,
                if_neg fun same => isPercent (Option.some.inj same)]
          by_cases isSpace_ : scanSpace c = true
          · rw [if_pos isSpace_, List.dropWhile_cons_of_pos isSpace_] at step
            left
            refine ⟨isSpace_, ?_, (Option.some.inj step).symm⟩
            rw [next, if_neg]
            rintro rfl
            rw [scanSpace_percent] at isSpace_
            cases isSpace_
          · rw [if_neg isSpace_] at step
            right
            by_cases isPlain : c ≠ '%'.toUInt8
            · rw [if_pos isPlain] at step
              left
              rw [next, if_neg isPlain]
              exact ⟨rfl, (Option.some.inj step).symm⟩
            · rw [if_neg isPlain] at step
              right
              rw [next, if_pos (not_not.mp isPlain)]
              exact ⟨rfl, (Option.some.inj step).symm⟩

theorem round_iff
    (step : scanStep s = some later) :
    RoundHonours s later ↔ RoundOk s later := by
  obtain ⟨_, c, fmt, _, round⟩ := scanStep_cases step
  unfold RoundHonours RoundOk
  rcases round with ⟨_, none, _⟩ | ⟨none, _⟩ | ⟨next, isLater⟩
  · rw [none]
    constructor <;>
      · intro _ _ wrong
        cases wrong
  · rw [none]
    constructor <;>
      · intro _ _ wrong
        cases wrong
  · have iff := scanDirective_honours s (parseScan fmt).1
    have same :
        Honours s (parseScan fmt).1 later ↔
          Honours s (parseScan fmt).1 (scanDirective (parseScan fmt).1 s) := by
      rw [isLater]
      exact ⟨fun honours => ⟨honours.suppressed, honours.taken, honours.width,
          honours.stores⟩,
        fun honours => ⟨honours.suppressed, honours.taken, honours.width,
          honours.stores⟩⟩
    rw [next]
    constructor
    · intro honours directive isNext
      rw [← Option.some.inj isNext, ← iff, ← same]
      exact honours _ rfl
    · intro ok directive isNext
      rw [← Option.some.inj isNext, same, iff]
      exact ok _ rfl

/-- A store counts. -/
def StoresCount (s later : ScanState) : Prop :=
  later.count + s.stores.length = s.count + later.stores.length

theorem scanPlain_storesCount
    (c : UInt8)
    (s : ScanState) :
    StoresCount s (scanPlain c s) := by
  unfold scanPlain
  split <;> exact rfl

theorem scanDirective_storesCount
    (directive : ScanDirective)
    (s : ScanState) :
    StoresCount s (scanDirective directive s) := by
  have stored : ∀ (argument : Nat) (value : ScanValue),
      s.count + 1 + s.stores.length =
        s.count + (s.stores ++ [(⟨argument, value⟩ : ScanStore)]).length := by
    intro argument value
    rw [List.length_append, List.length_singleton]
    omega
  have integer : ∀ c, StoresCount s (scanInteger directive c s) := by
    intro c
    unfold scanInteger
    dsimp only
    cases directive.suppressed with
    | true =>
        rw [if_pos rfl, if_pos rfl]
        split <;> exact rfl
    | false =>
        rw [if_neg Bool.false_ne_true, if_neg Bool.false_ne_true]
        split
        · exact rfl
        · exact stored _ _
  have text : StoresCount s (scanText s) := by
    unfold scanText
    dsimp only
    split
    · exact rfl
    · exact stored _ _
  have char : StoresCount s (scanChar s) := by
    unfold scanChar
    dsimp only
    split
    · exact rfl
    · exact stored _ _
  unfold scanDirective
  cases directive.conversion with
  | none => exact rfl
  | some c =>
      dsimp only
      split_ifs
      · exact integer c
      · exact text
      · exact char
      · exact scanPlain_storesCount _ s
      · exact rfl

theorem scanStep_storesCount
    (step : scanStep s = some later) :
    StoresCount s later := by
  obtain ⟨_, c, fmt, _, round⟩ := scanStep_cases step
  rcases round with ⟨_, _, rfl⟩ | ⟨_, rfl⟩ | ⟨_, rfl⟩
  · exact rfl
  · exact scanPlain_storesCount c s
  · exact scanDirective_storesCount (parseScan fmt).1 s

theorem parseScan_length (fmt : List UInt8) :
    (parseScan fmt).2.length ≤ fmt.length := by
  have star : (parseSuppression fmt).2.length ≤ fmt.length := by
    unfold parseSuppression
    split
    · exact (List.tail_suffix _).length_le
    · exact Nat.le_refl _
  have modified : ∀ fmt : List UInt8,
      (parseLength fmt).2.length ≤ fmt.length := by
    intro fmt
    have one := (List.tail_suffix fmt).length_le
    have two := (List.tail_suffix fmt.tail).length_le
    unfold parseLength
    split_ifs <;> dsimp only <;> omega
  unfold parseScan
  dsimp only
  have digits :=
    (List.dropWhile_suffix isWidthDigit (l := (parseSuppression fmt).2)
      ).length_le
  have rest := modified ((parseSuppression fmt).2.dropWhile isWidthDigit)
  have last := (List.tail_suffix
    (parseLength ((parseSuppression fmt).2.dropWhile isWidthDigit)).2
      ).length_le
  omega

theorem scanStep_length
    (step : scanStep s = some later) :
    later.fmt.length < s.fmt.length := by
  obtain ⟨_, c, fmt, isFmt, round⟩ := scanStep_cases step
  rw [isFmt, List.length_cons]
  apply Nat.lt_succ_of_le
  rcases round with ⟨_, _, rfl⟩ | ⟨_, rfl⟩ | ⟨_, rfl⟩
  · exact (List.dropWhile_suffix _).length_le
  · exact Nat.le_refl _
  · exact parseScan_length fmt

end Rounds

section Runs

variable {s first : ScanState} {trace : List (ScanState × ScanState)}

theorem scanLoop_run
    {rounds : Nat}
    (enough : s.fmt.length < rounds) :
    ∃ trace,
      Run ScanRound s trace (scanLoop rounds s) ∧
        scanStep (scanLoop rounds s) = none := by
  induction rounds generalizing s with
  | zero => exact absurd enough (Nat.not_lt_zero _)
  | succ rounds inductionHypothesis =>
      unfold scanLoop
      cases step : scanStep s with
      | none => exact ⟨[], .start, step⟩
      | some later =>
          have shorter := scanStep_length step
          obtain ⟨trace, run, ends⟩ :=
            inductionHypothesis (s := later) (by omega)
          exact ⟨_, Run.cons ⟨step, rfl⟩ run, ends⟩

theorem run_storesCount
    (run : Run ScanRound first trace s)
    (start : first.count = first.stores.length) :
    s.count = s.stores.length := by
  induction run with
  | start => exact start
  | next _ round inductionHypothesis =>
      have counts := scanStep_storesCount round.1
      unfold StoresCount at counts
      omega

theorem scanStep_taken
    {later : ScanState}
    (step : scanStep s = some later)
    (honours : RoundHonours s later) :
    later.taken =
      s.taken +
        if ((nextDirective s).map ScanDirective.takesArgument).getD false
        then 1 else 0 := by
  obtain ⟨_, c, fmt, _, round⟩ := scanStep_cases step
  rcases round with ⟨_, none, rfl⟩ | ⟨none, rfl⟩ | ⟨next, isLater⟩
  · rw [none]
    rfl
  · rw [none]
    unfold scanPlain
    split <;> rfl
  · have taken := (honours _ next).taken
    rw [next]
    exact taken

theorem run_taken
    (run : Run ScanRound first trace s)
    (start : first.taken = 0)
    (honours : Meets RoundHonours trace) :
    s.taken = argumentCount trace := by
  induction run with
  | start => exact start
  | next _ round inductionHypothesis =>
      obtain ⟨step, rfl⟩ := round
      obtain ⟨earlier, last⟩ := Meets.snoc_iff.mp honours
      have before := inductionHypothesis earlier
      unfold argumentCount at before ⊢
      rw [List.countP_append, List.countP_singleton, ← before]
      exact scanStep_taken step last

theorem run_respects_iff
    (run : Run ScanRound first trace s)
    (start : first.taken = 0) :
    Respects trace ↔ Meets RoundOk trace := by
  have each : Meets RoundHonours trace ↔ Meets RoundOk trace := by
    have rounds :
        Meets (fun s later => RoundHonours s later ↔ RoundOk s later)
          trace := by
      refine Run.meets ?_ run
      rintro current next final ⟨step, rfl⟩
      exact round_iff step
    constructor
    · intro honours entry member
      exact (rounds entry member).mp (honours entry member)
    · intro ok entry member
      exact (rounds entry member).mpr (ok entry member)
  unfold Respects
  rw [← each]
  constructor
  · exact And.left
  · intro honours
    refine ⟨honours, ?_⟩
    intro earlier current later rest isTrace
    rw [isTrace] at run
    apply run_taken run.earlier start
    intro entry member
    apply honours
    rw [isTrace]
    exact List.mem_append_left _ member

end Runs

/-- For every text and every format the loop ends, the count that is returned
is the number of stores that have been made, and the directives respect their
suppression, their width and their own arguments exactly when each that is
reached is such that the code does so. -/
theorem scanf_respects_iff
    (str fmt : CString) :
    ∃ trace,
      Run ScanRound (scanStart str fmt) trace (vscanString str fmt) ∧
        scanStep (vscanString str fmt) = none ∧
        (vscanString str fmt).count =
          (vscanString str fmt).stores.length ∧
        (Respects trace ↔ Meets RoundOk trace) := by
  have enough : (scanStart str fmt).fmt.length < fmt.bytes.length + 1 :=
    Nat.lt_succ_self _
  obtain ⟨trace, run, ends⟩ := scanLoop_run enough
  exact ⟨trace, run, ends, run_storesCount run rfl, run_respects_iff run rfl⟩

/-- A suppressed word is stored through the argument of the number behind it,
the number behind that argument, and both count; a number of three digits is
stored for a width of two. -/
theorem scanf_ignores_star_and_width :
    let words : CString := ⟨[97, 98, 99, 32, 55], by decide⟩
    let star : CString := ⟨[37, 42, 115, 32, 37, 100], by decide⟩
    let number : CString := ⟨[49, 50, 51], by decide⟩
    let two : CString := ⟨[37, 50, 100], by decide⟩
    (∃ trace,
      Run ScanRound (scanStart words star) trace (vscanString words star) ∧
        (vscanString words star).stores =
          [⟨0, .text [97, 98, 99]⟩, ⟨1, .int 7⟩] ∧
        (vscanString words star).count = 2 ∧ ¬ Respects trace) ∧
      ∃ trace,
        Run ScanRound (scanStart number two) trace (vscanString number two) ∧
          (vscanString number two).stores = [⟨0, .int 123⟩] ∧
          ¬ Respects trace := by
  refine ⟨⟨_, Run.cons ⟨rfl, rfl⟩ (Run.cons ⟨rfl, rfl⟩
    (Run.cons ⟨rfl, rfl⟩ .start)), rfl, rfl, fun respects => ?_⟩,
    ⟨_, Run.cons ⟨rfl, rfl⟩ .start, rfl, fun respects => ?_⟩⟩
  · have honours := respects.1 _ List.mem_cons_self _ rfl
    have same := (honours.suppressed rfl).1
    revert same
    decide
  · have honours := respects.1 _ List.mem_cons_self _ rfl
    have few := honours.width 2 (by decide)
    revert few
    decide

end MyOS
