import MyOS.LibcScanf

namespace MyOS

open Lib

/-!
# What the directives of `vscan_string` respect

A directive respects its suppression and its width when it is a number, and
nothing else does: the branches for `s` and `c` take, store and count in any
case, and no branch looks at the width.
-/

namespace ScanDirective

/-- The number of a width. -/
def maximum (directive : ScanDirective) : Option Nat :=
  if directive.width = [] then
    none
  else
    some (digitsNumber 10 directive.width)

/-- The conversions that store something. -/
def isStoring (directive : ScanDirective) : Bool :=
  match directive.conversion with
  | none => false
  | some c =>
      isIntegerConversion c || c = 's'.toUInt8 || c = 'c'.toUInt8

/-- A directive that should take an argument. -/
def takesArgument (directive : ScanDirective) : Bool :=
  !directive.suppressed && directive.isStoring

/-- The conversions that skip white space in front of their item. -/
def skipsSpace (directive : ScanDirective) : Bool :=
  match directive.conversion with
  | none => false
  | some c => isIntegerConversion c || c = 's'.toUInt8

/-- The text from the item of a directive on. -/
def itemText
    (directive : ScanDirective)
    (s : ScanState) : List UInt8 :=
  if directive.skipsSpace then s.str.dropWhile scanSpace else s.str

/-- The number of characters that a directive finds in the text. -/
def itemAhead
    (directive : ScanDirective)
    (s : ScanState) : Nat :=
  let text := directive.itemText s
  match directive.conversion with
  | none => 0
  | some c =>
      if isIntegerConversion c then
        text.length - (scanNumber text (scanBase c)).2.length
      else if c = 's'.toUInt8 then
        (text.takeWhile fun c => !scanSpace c).length
      else if c = 'c'.toUInt8 then
        min 1 text.length
      else if c = '%'.toUInt8 ∧ text.head? = some '%'.toUInt8 then
        1
      else
        0

end ScanDirective

/-- What a directive should do: with a `*` it takes no argument and nothing
counts; it consumes no more characters than its width; what it stores goes
through its own argument, and is no longer than the width allows. -/
structure Honours
    (s : ScanState)
    (directive : ScanDirective)
    (later : ScanState) : Prop where
  suppressed :
    directive.suppressed = true →
      later.taken = s.taken ∧ later.count = s.count ∧ later.stores = s.stores
  taken :
    later.taken = s.taken + if directive.takesArgument then 1 else 0
  width :
    ∀ w, directive.maximum = some w →
      (directive.itemText s).length - later.str.length ≤ w
  stores :
    later.stores = s.stores ∨
      ∃ value,
        later.stores = s.stores ++ [⟨s.taken, value⟩] ∧
          (directive.conversion = some 's'.toUInt8 →
            ∀ w, directive.maximum = some w → value.size ≤ w + 1)

/-- A directive for which the code does so: one that stores characters has no
`*`, and the item in the text is not longer than the width. -/
def DirectiveOk (s : ScanState) (directive : ScanDirective) : Prop :=
  (directive.suppressed = true →
    directive.conversion ≠ some 's'.toUInt8 ∧
      directive.conversion ≠ some 'c'.toUInt8) ∧
    ∀ w, directive.maximum = some w → directive.itemAhead s ≤ w

section Branches

variable {s : ScanState} {directive : ScanDirective} {c : UInt8}

theorem scanInteger_honours
    (conversion : directive.conversion = some c)
    (isInteger : isIntegerConversion c = true) :
    Honours s directive (scanInteger directive c s) ↔
      DirectiveOk s directive := by
  have noText : c ≠ 's'.toUInt8 ∧ c ≠ 'c'.toUInt8 := by
    constructor <;>
      · rintro rfl
        revert isInteger
        decide
  have skips : directive.skipsSpace = true := by
    unfold ScanDirective.skipsSpace
    rw [conversion]
    dsimp only
    rw [isInteger]
    rfl
  have isItem : directive.itemText s = s.str.dropWhile scanSpace :=
    if_pos skips
  have takes : directive.takesArgument = !directive.suppressed := by
    unfold ScanDirective.takesArgument ScanDirective.isStoring
    rw [conversion]
    dsimp only
    rw [isInteger]
    simp
  have ahead :
      directive.itemAhead s =
        (s.str.dropWhile scanSpace).length -
          (scanNumber (s.str.dropWhile scanSpace) (scanBase c)).2.length := by
    unfold ScanDirective.itemAhead
    rw [isItem, conversion]
    dsimp only
    rw [if_pos isInteger]
  -- What the branch leaves, with a number or without one.
  have results :
      (scanInteger directive c s).str =
          (scanNumber (s.str.dropWhile scanSpace) (scanBase c)).2 ∧
        (scanInteger directive c s).taken =
          s.taken + (if directive.suppressed then 0 else 1) ∧
        ((scanInteger directive c s).stores = s.stores ∧
            (scanInteger directive c s).count = s.count ∨
          directive.suppressed = false ∧
            ∃ value, (scanInteger directive c s).stores =
              s.stores ++ [⟨s.taken, value⟩]) := by
    unfold scanInteger
    cases directive.suppressed with
    | true =>
        dsimp only [ScanState.skipSpace]
        by_cases nothing :
            (scanNumber (s.str.dropWhile scanSpace) (scanBase c)).2 =
              s.str.dropWhile scanSpace
        · rw [if_pos rfl, if_pos nothing]
          exact ⟨nothing.symm, rfl, Or.inl ⟨rfl, rfl⟩⟩
        · rw [if_pos rfl, if_neg nothing]
          exact ⟨rfl, rfl, Or.inl ⟨rfl, rfl⟩⟩
    | false =>
        dsimp only [ScanState.skipSpace, ScanState.take]
        rw [if_neg Bool.false_ne_true, if_neg Bool.false_ne_true]
        dsimp only
        by_cases nothing :
            (scanNumber (s.str.dropWhile scanSpace) (scanBase c)).2 =
              s.str.dropWhile scanSpace
        · rw [if_pos nothing]
          exact ⟨nothing.symm, rfl, Or.inl ⟨rfl, rfl⟩⟩
        · rw [if_neg nothing]
          exact ⟨rfl, rfl, Or.inr ⟨rfl, _, rfl⟩⟩
  obtain ⟨isStr, isTaken, isStored⟩ := results
  constructor
  · intro honours
    refine ⟨fun _ => ?_, ?_⟩
    · rw [conversion, Ne, Option.some_inj, Ne, Option.some_inj]
      exact noText
    · have width := honours.width
      rw [isItem, isStr] at width
      rw [ahead]
      exact width
  · intro ok
    refine ⟨?_, ?_, ?_, ?_⟩
    · intro isSuppressed
      rw [isSuppressed, if_pos rfl] at isTaken
      rcases isStored with ⟨stores, count⟩ | ⟨notSuppressed, _⟩
      · exact ⟨isTaken, count, stores⟩
      · rw [isSuppressed] at notSuppressed
        cases notSuppressed
    · rw [isTaken, takes]
      cases directive.suppressed <;> rfl
    · have few := ok.2
      rw [ahead] at few
      rw [isItem, isStr]
      exact few
    · rcases isStored with ⟨stores, _⟩ | ⟨_, value, stores⟩
      · exact Or.inl stores
      · refine Or.inr ⟨value, stores, fun isText => ?_⟩
        rw [conversion, Option.some_inj] at isText
        exact absurd isText noText.1

theorem scanText_honours
    (conversion : directive.conversion = some 's'.toUInt8) :
    Honours s directive (scanText s) ↔ DirectiveOk s directive := by
  have isItem : directive.itemText s = s.str.dropWhile scanSpace := by
    unfold ScanDirective.itemText ScanDirective.skipsSpace
    rw [conversion]
    rfl
  have takes : directive.takesArgument = !directive.suppressed := by
    unfold ScanDirective.takesArgument ScanDirective.isStoring
    rw [conversion]
    exact Bool.and_true _
  have ahead :
      directive.itemAhead s =
        ((s.str.dropWhile scanSpace).takeWhile
          fun c => !scanSpace c).length := by
    unfold ScanDirective.itemAhead
    rw [isItem, conversion]
    rfl
  have isTaken : (scanText s).taken = s.taken + 1 := by
    unfold scanText
    dsimp only
    split <;> rfl
  have length :
      (s.str.dropWhile scanSpace).length - (scanText s).str.length =
        ((s.str.dropWhile scanSpace).takeWhile
          fun c => !scanSpace c).length := by
    unfold scanText
    dsimp only [ScanState.take, ScanState.skipSpace]
    by_cases nothing : s.str.dropWhile scanSpace = []
    · rw [if_pos nothing, nothing]
      rfl
    · rw [if_neg nothing]
      have all := congrArg List.length
        (List.takeWhile_append_dropWhile (p := fun c => !scanSpace c)
          (l := s.str.dropWhile scanSpace))
      rw [List.length_append] at all
      dsimp only
      omega
  have isStored :
      (scanText s).stores = s.stores ∨
        (scanText s).stores =
          s.stores ++ [⟨s.taken, .text ((s.str.dropWhile scanSpace).takeWhile
            fun c => !scanSpace c)⟩] := by
    unfold scanText
    dsimp only [ScanState.take, ScanState.skipSpace]
    by_cases nothing : s.str.dropWhile scanSpace = []
    · rw [if_pos nothing]
      exact Or.inl rfl
    · rw [if_neg nothing]
      exact Or.inr rfl
  constructor
  · intro honours
    refine ⟨fun isSuppressed => ?_, ?_⟩
    · have same := (honours.suppressed isSuppressed).1
      omega
    · have width := honours.width
      rw [isItem, length] at width
      rw [ahead]
      exact width
  · intro ok
    have notSuppressed : directive.suppressed = false := by
      by_contra isSuppressed
      exact (ok.1 (Bool.of_not_eq_false isSuppressed)).1 conversion
    refine ⟨?_, ?_, ?_, ?_⟩
    · intro isSuppressed
      rw [notSuppressed] at isSuppressed
      cases isSuppressed
    · rw [isTaken, takes, notSuppressed]
      rfl
    · rw [isItem, length, ← ahead]
      exact ok.2
    · rcases isStored with stores | stores
      · exact Or.inl stores
      · refine Or.inr ⟨_, stores, fun _ w isWidth => ?_⟩
        have few := ok.2 w isWidth
        rw [ahead] at few
        exact Nat.succ_le_succ few

theorem scanChar_honours
    (conversion : directive.conversion = some 'c'.toUInt8) :
    Honours s directive (scanChar s) ↔ DirectiveOk s directive := by
  have isItem : directive.itemText s = s.str := by
    unfold ScanDirective.itemText ScanDirective.skipsSpace
    rw [conversion]
    rfl
  have takes : directive.takesArgument = !directive.suppressed := by
    unfold ScanDirective.takesArgument ScanDirective.isStoring
    rw [conversion]
    exact Bool.and_true _
  have ahead : directive.itemAhead s = min 1 s.str.length := by
    unfold ScanDirective.itemAhead
    rw [isItem, conversion]
    rfl
  obtain ⟨isTaken, length, isStored⟩ :
      (scanChar s).taken = s.taken + 1 ∧
        s.str.length - (scanChar s).str.length = min 1 s.str.length ∧
        ((scanChar s).stores = s.stores ∨
          ∃ value, (scanChar s).stores =
            s.stores ++ [⟨s.taken, value⟩]) := by
    unfold scanChar
    cases isStr : s.str with
    | nil =>
        have sameStr : s.take.str = [] := isStr
        dsimp only
        rw [sameStr]
        refine ⟨rfl, ?_, Or.inl rfl⟩
        change 0 - s.str.length = _
        rw [isStr]
        rfl
    | cons first rest =>
        have sameStr : s.take.str = first :: rest := isStr
        dsimp only
        rw [sameStr]
        refine ⟨rfl, ?_, Or.inr ⟨_, rfl⟩⟩
        change rest.length + 1 - rest.length = min 1 (rest.length + 1)
        omega
  constructor
  · intro honours
    refine ⟨fun isSuppressed => ?_, ?_⟩
    · have same := (honours.suppressed isSuppressed).1
      omega
    · have width := honours.width
      rw [isItem, length] at width
      rw [ahead]
      exact width
  · intro ok
    have notSuppressed : directive.suppressed = false := by
      by_contra isSuppressed
      exact (ok.1 (Bool.of_not_eq_false isSuppressed)).2 conversion
    refine ⟨?_, ?_, ?_, ?_⟩
    · intro isSuppressed
      rw [notSuppressed] at isSuppressed
      cases isSuppressed
    · rw [isTaken, takes, notSuppressed]
      rfl
    · rw [isItem, length, ← ahead]
      exact ok.2
    · rcases isStored with stores | ⟨value, stores⟩
      · exact Or.inl stores
      · refine Or.inr ⟨value, stores, fun isText => ?_⟩
        rw [conversion, Option.some_inj] at isText
        exact absurd isText (by decide)

theorem honours_of_plain
    {later : ScanState}
    (notStoring : directive.isStoring = false)
    (isItem : directive.itemText s = s.str)
    (taken : later.taken = s.taken)
    (count : later.count = s.count)
    (stores : later.stores = s.stores)
    (length : s.str.length - later.str.length = directive.itemAhead s) :
    Honours s directive later ↔ DirectiveOk s directive := by
  constructor
  · intro honours
    refine ⟨fun _ => ?_, ?_⟩
    · constructor <;>
        · intro isText
          unfold ScanDirective.isStoring at notStoring
          rw [isText] at notStoring
          revert notStoring
          decide
    · rw [← length, ← isItem]
      exact honours.width
  · intro ok
    refine ⟨fun _ => ⟨taken, count, stores⟩, ?_, ?_, Or.inl stores⟩
    · unfold ScanDirective.takesArgument
      rw [notStoring, Bool.and_false, taken]
      rfl
    · rw [isItem, length]
      exact ok.2

theorem scanDirective_honours
    (s : ScanState)
    (directive : ScanDirective) :
    Honours s directive (scanDirective directive s) ↔
      DirectiveOk s directive := by
  have left : ∀ later : ScanState, later = s.leave →
      directive.isStoring = false → directive.itemText s = s.str →
        directive.itemAhead s = 0 →
          (Honours s directive later ↔ DirectiveOk s directive) := by
    rintro later rfl notStoring isItem ahead
    refine honours_of_plain notStoring isItem ?_ ?_ ?_ ?_
    · rfl
    · rfl
    · rfl
    · rw [ahead]
      exact Nat.sub_self _
  unfold scanDirective
  cases conversion : directive.conversion with
  | none =>
      dsimp only
      apply left _ rfl
      · unfold ScanDirective.isStoring
        rw [conversion]
      · unfold ScanDirective.itemText ScanDirective.skipsSpace
        rw [conversion]
        rfl
      · unfold ScanDirective.itemAhead
        rw [conversion]
  | some c =>
      dsimp only
      by_cases isInteger : isIntegerConversion c = true
      · rw [if_pos isInteger]
        exact scanInteger_honours conversion isInteger
      rw [if_neg isInteger]
      by_cases isText : c = 's'.toUInt8
      · rw [if_pos isText]
        rw [isText] at conversion
        exact scanText_honours conversion
      rw [if_neg isText]
      by_cases isChar : c = 'c'.toUInt8
      · rw [if_pos isChar]
        rw [isChar] at conversion
        exact scanChar_honours conversion
      rw [if_neg isChar]
      have notStoring : directive.isStoring = false := by
        unfold ScanDirective.isStoring
        rw [conversion]
        dsimp only
        rw [Bool.of_not_eq_true isInteger, decide_eq_false isText,
          decide_eq_false isChar]
        rfl
      have skips : directive.skipsSpace = false := by
        unfold ScanDirective.skipsSpace
        rw [conversion]
        dsimp only
        rw [Bool.of_not_eq_true isInteger, decide_eq_false isText]
        rfl
      have isItem : directive.itemText s = s.str := by
        unfold ScanDirective.itemText
        rw [skips]
        rfl
      have ahead :
          directive.itemAhead s =
            if c = '%'.toUInt8 ∧ s.str.head? = some '%'.toUInt8 then 1
            else 0 := by
        unfold ScanDirective.itemAhead
        rw [isItem, conversion]
        dsimp only
        rw [if_neg isInteger, if_neg isText, if_neg isChar]
      by_cases isPercent : c = '%'.toUInt8
      · rw [if_pos isPercent]
        unfold scanPlain
        by_cases isHead : s.str.head? = some '%'.toUInt8
        · rw [if_pos isHead]
          refine honours_of_plain notStoring isItem rfl rfl rfl ?_
          rw [ahead, if_pos ⟨isPercent, isHead⟩]
          cases isStr : s.str with
          | nil =>
              rw [isStr] at isHead
              cases isHead
          | cons first rest =>
              dsimp only [List.tail_cons, List.length_cons]
              omega
        · rw [if_neg isHead]
          apply left _ rfl notStoring isItem
          rw [ahead, if_neg fun both => isHead both.2]
      · rw [if_neg isPercent]
        apply left _ rfl notStoring isItem
        rw [ahead, if_neg fun both => isPercent both.1]

end Branches

end MyOS
