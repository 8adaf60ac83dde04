import MyOS.LibcGetopt
import MyOS.Lib.Run

namespace MyOS

open Lib

/-!
# Calls of `getopt` until the end

The calls report the options of the words in order.  Behind a missing argument
the position stays on the null byte of its word, and the next call reads behind
the null byte of `optstring`.
-/

section Letters

variable {argv words : List CString} {optstring word : CString}
variable {s : GetoptState} {i place : Nat} {letter : UInt8}
variable {rest : List UInt8}

/-- A word that holds options. -/
structure HoldsOptions (word : CString) : Prop where
  dash : word.bytes.head? = some '-'.toUInt8
  more : word.bytes.length ≠ 1
  notEnd : word.bytes ≠ ['-'.toUInt8, '-'.toUInt8]

/-- The state is at this place of this word. -/
structure AtPlace
    (argv : List CString)
    (word : CString)
    (i place : Nat)
    (s : GetoptState) : Prop where
  isWord : argv[i]? = some word
  holds : HoldsOptions word
  first : 1 ≤ i
  optind : s.optind = i
  optpos : s.optpos = place

theorem getopt_word
    (first : 1 ≤ i)
    (isWord : argv[i]? = some word)
    (optind : s.optind = i) :
    getopt argv optstring s = getoptWord argv optstring word s := by
  have inside : i < argv.length := (List.getElem?_eq_some_iff.mp isWord).1
  have same : (if s.optind ≤ 0 then { s with optind := 1 } else s) = s :=
    if_neg (by omega)
  unfold getopt
  rw [same]
  dsimp only
  rw [if_neg (by omega), optind, Int.toNat_natCast, isWord]

theorem getopt_end
    (first : 1 ≤ i)
    (late : argv.length ≤ i)
    (optind : s.optind = i) :
    getopt argv optstring s = some (-1, s) := by
  have same : (if s.optind ≤ 0 then { s with optind := 1 } else s) = s :=
    if_neg (by omega)
  unfold getopt
  rw [same]
  dsimp only
  rw [if_pos (by omega)]

theorem getopt_letter
    (isAt : AtPlace argv word i place s) :
    getopt argv optstring s = getoptLetter argv optstring word s := by
  rw [getopt_word isAt.first isAt.isWord isAt.optind]
  obtain ⟨dash, more, notEnd⟩ := isAt.holds
  have plain := word.plain
  unfold getoptWord CString.charAt
  revert dash more notEnd plain
  generalize word.bytes = bytes
  intro dash more notEnd plain
  rcases bytes with _ | ⟨first, _ | ⟨second, rest⟩⟩
  · cases dash
  · exact absurd rfl more
  · have isDash : first = '-'.toUInt8 := Option.some.inj dash
    have some_ : second ≠ 0 := by
      rintro rfl
      simp at plain
    dsimp only [List.cons_append, List.getElem?_cons_zero,
      List.getElem?_cons_succ, Option.bind_some]
    rw [if_neg (not_not_intro isDash), if_neg some_, if_neg notEnd]

/-- The state behind a character of a word. -/
def GetoptState.behind
    (s : GetoptState)
    (rest : List UInt8) : GetoptState :=
  if rest = [] then s.nextWord 1 else s

theorem leaveWord_eq
    (inside : s.optpos ≤ word.bytes.length)
    (isRest : word.bytes.drop s.optpos = rest) :
    leaveWord word s = some (s.behind rest) := by
  unfold leaveWord GetoptState.behind
  cases rest with
  | nil =>
      rw [CString.charAt_of_drop_nil inside isRest, Option.map_some,
        if_pos rfl, if_pos rfl]
  | cons next rest =>
      obtain ⟨isNext, _, some_⟩ := CString.charAt_of_drop isRest
      rw [isNext, Option.map_some, if_neg some_,
        if_neg (List.cons_ne_nil _ _)]

theorem getopt_unknown
    (isAt : AtPlace argv word i place s)
    (isDrop : word.bytes.drop place = letter :: rest)
    (unknown : isOption optstring letter = false) :
    getopt argv optstring s =
      some (('?'.toNat : Int), (s.read letter).behind rest) := by
  obtain ⟨isLetter, isRest, some_⟩ := CString.charAt_of_drop isDrop
  have inside : (s.read letter).optpos ≤ word.bytes.length := by
    have long := congrArg List.length isDrop
    rw [List.length_drop, List.length_cons] at long
    change s.optpos + 1 ≤ _
    rw [isAt.optpos]
    omega
  have leaves : leaveWord word (s.read letter) =
      some ((s.read letter).behind rest) := by
    apply leaveWord_eq inside
    change word.bytes.drop (s.optpos + 1) = rest
    rw [isAt.optpos, isRest]
  have reports : getoptUnknown word (s.read letter) =
      some (('?'.toNat : Int), (s.read letter).behind rest) := by
    unfold getoptUnknown
    rw [leaves]
    rfl
  rw [getopt_letter isAt]
  unfold getoptLetter
  rw [isAt.optpos, isLetter, Option.bind_some, strchr_eq some_]
  by_cases member : letter ∈ optstring.bytes
  · rw [if_pos member]
    have isColon : letter = ':'.toUInt8 := by
      unfold isOption at unknown
      simpa [member] using unknown
    dsimp only [getoptMatch]
    rw [if_pos isColon]
    exact reports
  · rw [if_neg member]
    exact reports

theorem getoptLetter_option
    (isAt : AtPlace argv word i place s)
    (isDrop : word.bytes.drop place = letter :: rest)
    (known : isOption optstring letter = true) :
    getopt argv optstring s =
      if hasArgument optstring letter then
        getoptArgument argv optstring word letter (s.read letter)
      else
        (leaveWord word { s.read letter with optarg := none }).map fun s =>
          ((letter.toNat : Int), s) := by
  obtain ⟨isLetter, _, some_⟩ := CString.charAt_of_drop isDrop
  unfold isOption at known
  simp only [decide_eq_true_eq] at known
  obtain ⟨member, notColon⟩ := known
  have found := List.idxOf_lt_length_of_mem member
  rw [getopt_letter isAt]
  unfold getoptLetter
  rw [isAt.optpos, isLetter, Option.bind_some, strchr_eq some_, if_pos member]
  dsimp only [getoptMatch]
  rw [if_neg notColon]
  unfold hasArgument
  by_cases last : optstring.bytes.idxOf letter + 1 = optstring.bytes.length
  · rw [last, CString.charAt_length, Option.bind_some,
      List.getElem?_eq_none (Nat.le_refl _), if_neg (by decide),
      if_neg (by decide)]
  · have inside :
        optstring.bytes.idxOf letter + 1 < optstring.bytes.length := by
      omega
    rw [CString.charAt_lt inside, Option.bind_some,
      List.getElem?_eq_getElem inside]
    by_cases colon :
        optstring.bytes[optstring.bytes.idxOf letter + 1] = ':'.toUInt8
    · rw [if_pos colon, colon, if_pos (by decide)]
    · rw [if_neg colon, if_neg (by
        rw [decide_eq_true_eq, Option.some_inj]
        exact colon)]

theorem getopt_option
    (isAt : AtPlace argv word i place s)
    (isDrop : word.bytes.drop place = letter :: rest)
    (known : isOption optstring letter = true)
    (alone : hasArgument optstring letter = false) :
    getopt argv optstring s =
      some ((letter.toNat : Int),
        { s.read letter with optarg := none }.behind rest) := by
  rw [getoptLetter_option isAt isDrop known, alone, if_neg Bool.false_ne_true]
  obtain ⟨_, isRest, _⟩ := CString.charAt_of_drop isDrop
  have long := congrArg List.length isDrop
  rw [List.length_drop, List.length_cons] at long
  have inside :
      ({ s.read letter with optarg := none } : GetoptState).optpos ≤
        word.bytes.length := by
    change s.optpos + 1 ≤ _
    rw [isAt.optpos]
    omega
  rw [leaveWord_eq inside (by
    change word.bytes.drop (s.optpos + 1) = rest
    rw [isAt.optpos, isRest])]
  rfl

theorem getopt_attached
    (isAt : AtPlace argv word i place s)
    (isDrop : word.bytes.drop place = letter :: rest)
    (known : isOption optstring letter = true)
    (wants : hasArgument optstring letter = true)
    (attached : rest ≠ []) :
    getopt argv optstring s =
      some ((letter.toNat : Int),
        { s.read letter with
          optarg := some (word.drop (place + 1)) }.nextWord 1) := by
  rw [getoptLetter_option isAt isDrop known, wants, if_pos rfl]
  obtain ⟨_, isRest, _⟩ := CString.charAt_of_drop isDrop
  obtain ⟨next, more, isCons⟩ := List.exists_cons_of_ne_nil attached
  obtain ⟨isNext, _, some_⟩ :=
    CString.charAt_of_drop (isRest.trans isCons)
  unfold getoptArgument
  change (word.charAt (s.optpos + 1)).bind _ = _
  rw [isAt.optpos, isNext, Option.bind_some, if_pos some_]
  change some ((letter.toNat : Int),
    ({ s.read letter with
      optarg := some (word.drop (s.optpos + 1)) } : GetoptState).nextWord 1) = _
  rw [isAt.optpos]

theorem getopt_separate
    (isAt : AtPlace argv word i place s)
    (isDrop : word.bytes.drop place = [letter])
    (known : isOption optstring letter = true)
    (wants : hasArgument optstring letter = true) :
    getopt argv optstring s =
      if i + 1 < argv.length then
        some ((letter.toNat : Int),
          { s.read letter with optarg := argv[i + 1]? }.nextWord 2)
      else
        some
          (((if optstring.bytes.head? = some ':'.toUInt8 then ':'.toNat
            else '?'.toNat : Nat) : Int), s.read letter) := by
  rw [getoptLetter_option isAt isDrop known, wants, if_pos rfl]
  obtain ⟨_, isRest, _⟩ := CString.charAt_of_drop isDrop
  have long := congrArg List.length isDrop
  rw [List.length_drop, List.length_singleton] at long
  unfold getoptArgument
  change (word.charAt (s.optpos + 1)).bind _ = _
  rw [isAt.optpos, CString.charAt_of_drop_nil (by omega) isRest,
    Option.bind_some, if_neg (not_not_intro rfl)]
  change (if s.optind + 1 < argv.length then _ else _) = _
  by_cases another : i + 1 < argv.length
  · rw [if_pos another, if_pos (by rw [isAt.optind]; omega)]
    change some ((letter.toNat : Int),
      ({ s.read letter with
        optarg := argv[(s.optind + 1).toNat]? } : GetoptState).nextWord 2) = _
    rw [isAt.optind]
    rfl
  · rw [if_neg another, if_neg (by rw [isAt.optind]; omega)]
    have sameHead :
        optstring.charAt 0 = some (optstring.bytes.head?.getD 0) := by
      unfold CString.charAt
      cases optstring.bytes <;> rfl
    rw [sameHead, Option.map_some]
    cases isHead : optstring.bytes.head? with
    | none => rfl
    | some first =>
        dsimp only [Option.getD_some]
        by_cases colon : first = ':'.toUInt8
        · rw [if_pos colon, if_pos (congrArg some colon)]
        · rw [if_neg colon, if_neg (fun same => colon (Option.some.inj same))]

theorem getopt_behind
    (isAt : AtPlace argv word i word.bytes.length s) :
    getopt argv optstring s = none := by
  rw [getopt_letter isAt]
  unfold getoptLetter
  rw [isAt.optpos, CString.charAt_length, Option.bind_some, strchr_null]
  dsimp only [getoptMatch]
  rw [if_neg (by decide),
    CString.charAt_eq_none_iff.mpr (Nat.lt_succ_self _)]
  rfl

end Letters

section Runs

variable {argv words : List CString} {optstring word : CString}
variable {s : GetoptState} {i place : Nat} {letters : List UInt8}

theorem AtPlace.next
    {later : GetoptState}
    (isAt : AtPlace argv word i place s)
    (optind : later.optind = s.optind)
    (optpos : later.optpos = s.optpos + 1) :
    AtPlace argv word i (place + 1) later :=
  ⟨isAt.isWord, isAt.holds, isAt.first, optind.trans isAt.optind,
    by rw [optpos, isAt.optpos]⟩

/-- What the calls have done with the rest of a word: they are at the next one,
or at the last character, which wants the next word. -/
def LettersDone
    (argv : List CString)
    (optstring word : CString)
    (i : Nat)
    (middle : GetoptState) : Option UInt8 → Prop
  | none => middle.optind = i + 1 ∧ middle.optpos = 1
  | some letter =>
      ∃ place,
        AtPlace argv word i place middle ∧
          word.bytes.drop place = [letter] ∧
          isOption optstring letter = true ∧
          hasArgument optstring letter = true

theorem letters_run
    (optstring : CString)
    (isAt : AtPlace argv word i place s)
    (isDrop : word.bytes.drop place = letters)
    (some_ : letters ≠ []) :
    ∃ trace middle,
      Run (GetoptCall argv optstring) s trace middle ∧
        trace.map Prod.snd =
          (optionLetters optstring word letters place).1 ∧
        LettersDone argv optstring word i middle
          (optionLetters optstring word letters place).2 := by
  induction letters generalizing place s with
  | nil => exact absurd rfl some_
  | cons letter rest inductionHypothesis =>
      obtain ⟨_, isRest, _⟩ := CString.charAt_of_drop isDrop
      -- A call that reports one character, before the rest of the word.
      have step :
          ∀ (event : OptionEvent) (middle : GetoptState),
            middle.optind = s.optind → middle.optpos = s.optpos + 1 →
              GetoptCall argv optstring s event (middle.behind rest) →
                ∃ trace last,
                  Run (GetoptCall argv optstring) s trace last ∧
                    trace.map Prod.snd = event ::
                      (optionLetters optstring word rest (place + 1)).1 ∧
                    LettersDone argv optstring word i last
                      (optionLetters optstring word rest (place + 1)).2 := by
        intro event middle optind optpos call
        cases rest with
        | nil =>
            refine ⟨[(s, event)], _, .next .start call, rfl, ?_, rfl⟩
            change middle.optind + ((1 : Nat) : Int) = i + 1
            rw [optind, isAt.optind]
            rfl
        | cons next more =>
            obtain ⟨trace, last, run, isTrace, done⟩ :=
              inductionHypothesis (isAt.next optind optpos) isRest
                (List.cons_ne_nil _ _)
            refine ⟨(s, event) :: trace, last, Run.cons call run, ?_, done⟩
            rw [List.map_cons, isTrace]
      cases known : isOption optstring letter with
      | false =>
          unfold optionLetters
          rw [known, if_neg Bool.false_ne_true]
          apply step (.unknown letter) (s.read letter) rfl rfl
          refine ⟨_, getopt_unknown isAt isDrop known, by decide, rfl, ?_⟩
          unfold GetoptState.behind
          by_cases last : rest = []
          · rw [if_pos last]
            rfl
          · rw [if_neg last]
            rfl
      | true =>
          cases wants : hasArgument optstring letter with
          | false =>
              unfold optionLetters
              rw [known, if_pos rfl, wants, if_neg Bool.false_ne_true]
              apply step (.option letter none)
                { s.read letter with optarg := none } rfl rfl
              refine ⟨_, getopt_option isAt isDrop known wants, by omega,
                rfl, ?_⟩
              unfold GetoptState.behind
              by_cases last : rest = []
              · rw [if_pos last]
                rfl
              · rw [if_neg last]
          | true =>
              unfold optionLetters
              rw [known, if_pos rfl, wants, if_pos rfl]
              by_cases last : rest = []
              · rw [if_pos last]
                rw [last] at isDrop
                exact ⟨[], s, .start, rfl, place, isAt, isDrop, known, wants⟩
              · rw [if_neg last]
                have call :
                    GetoptCall argv optstring s
                      (.option letter (some (word.drop (place + 1))))
                      ({ s.read letter with
                        optarg := some (word.drop (place + 1)) }.nextWord
                          1) :=
                  ⟨_, getopt_attached isAt isDrop known wants last, by omega,
                    rfl, rfl⟩
                refine ⟨[(s, _)], _, .next .start call, rfl, ?_, rfl⟩
                change s.optind + ((1 : Nat) : Int) = i + 1
                rw [isAt.optind]
                rfl

section Equations

variable {events : List OptionEvent} {letter : UInt8}

theorem optionWords_closed
    (words : List CString)
    (holds : HoldsOptions word)
    (isFound :
      optionLetters optstring word (word.bytes.drop 1) 1 = (events, none)) :
    optionWords optstring (word :: words) =
      (events ++ (optionWords optstring words).1,
        (optionWords optstring words).2 + 1) := by
  conv => lhs; unfold optionWords
  rw [if_neg (not_or.mpr ⟨not_not_intro holds.dash, holds.more⟩),
    if_neg holds.notEnd, isFound]

theorem optionWords_missing
    (holds : HoldsOptions word)
    (isFound :
      optionLetters optstring word (word.bytes.drop 1) 1 =
        (events, some letter)) :
    optionWords optstring [word] = (events ++ [.missing letter], 1) := by
  conv => lhs; unfold optionWords
  rw [if_neg (not_or.mpr ⟨not_not_intro holds.dash, holds.more⟩),
    if_neg holds.notEnd, isFound]

theorem optionWords_separate
    (argument : CString)
    (words : List CString)
    (holds : HoldsOptions word)
    (isFound :
      optionLetters optstring word (word.bytes.drop 1) 1 =
        (events, some letter)) :
    optionWords optstring (word :: argument :: words) =
      (events ++ .option letter (some argument) ::
          (optionWords optstring words).1,
        (optionWords optstring words).2 + 2) := by
  conv => lhs; unfold optionWords
  rw [if_neg (not_or.mpr ⟨not_not_intro holds.dash, holds.more⟩),
    if_neg holds.notEnd, isFound]

end Equations

/-- No argument of an option is missing. -/
def NoneMissing (optstring : CString) (words : List CString) : Prop :=
  ∀ letter, .missing letter ∉ (optionWords optstring words).1

/-- What the calls have done with the words: the next one returns `-1`, with
`optind` at the first word that holds no option; behind a missing argument it
reads behind a string. -/
def WordsDone
    (argv : List CString)
    (optstring : CString)
    (words : List CString)
    (i : Nat)
    (middle : GetoptState) : Prop :=
  (NoneMissing optstring words ∧
    ∃ final,
      getopt argv optstring middle = some (-1, final) ∧
        final.optind = i + (optionWords optstring words).2 ∧
        final.optpos = 1) ∨
    ¬ NoneMissing optstring words ∧ getopt argv optstring middle = none

theorem WordsDone.append
    {rest : List CString}
    {middle : GetoptState}
    {n : Nat}
    (done : WordsDone argv optstring rest (i + n) middle)
    (events : List OptionEvent)
    (isWords :
      optionWords optstring words =
        (events ++ (optionWords optstring rest).1,
          (optionWords optstring rest).2 + n))
    (present : ∀ letter, .missing letter ∉ events) :
    WordsDone argv optstring words i middle := by
  have same : NoneMissing optstring words ↔ NoneMissing optstring rest := by
    unfold NoneMissing
    rw [isWords]
    constructor
    · intro none letter member
      exact none letter (List.mem_append_right _ member)
    · intro none letter member
      rcases List.mem_append.mp member with early | late
      · exact present letter early
      · exact none letter late
  rcases done with ⟨none, final, returns, optind, optpos⟩ | ⟨some_, undefined⟩
  · refine Or.inl ⟨same.mpr none, final, returns, ?_, optpos⟩
    rw [isWords, optind]
    push_cast
    omega
  · exact Or.inr ⟨fun none => some_ (same.mp none), undefined⟩

theorem optionLetters_present
    (optstring word : CString)
    (letters : List UInt8)
    (place : Nat) :
    ∀ letter,
      .missing letter ∉ (optionLetters optstring word letters place).1 := by
  induction letters generalizing place with
  | nil => exact fun _ => List.not_mem_nil
  | cons first rest inductionHypothesis =>
      intro letter
      have more := inductionHypothesis (place + 1) letter
      unfold optionLetters
      by_cases known : isOption optstring first = true
      · rw [if_pos known]
        by_cases wants : hasArgument optstring first = true
        · rw [if_pos wants]
          by_cases last : rest = []
          · rw [if_pos last]
            exact List.not_mem_nil
          · rw [if_neg last]
            simp
        · rw [if_neg wants]
          simpa using more
      · rw [if_neg known]
        simpa using more

theorem getoptWord_stop
    (stop : word.bytes.head? ≠ some '-'.toUInt8 ∨ word.bytes.length = 1) :
    getoptWord argv optstring word s = some (-1, s) := by
  unfold getoptWord CString.charAt
  revert stop
  generalize word.bytes = bytes
  intro stop
  rcases bytes with _ | ⟨first, _ | ⟨second, rest⟩⟩
  · rfl
  · dsimp only [List.cons_append, List.getElem?_cons_zero,
      List.getElem?_cons_succ, List.nil_append, Option.bind_some]
    by_cases isDash : first ≠ '-'.toUInt8
    · rw [if_pos isDash]
    · rw [if_neg isDash, if_pos rfl]
  · rcases stop with notDash | short
    · dsimp only [List.cons_append, List.getElem?_cons_zero,
        Option.bind_some]
      rw [if_pos fun isDash => notDash (congrArg some isDash)]
    · cases short

theorem getoptWord_dashes
    (dashes : word.bytes = ['-'.toUInt8, '-'.toUInt8]) :
    getoptWord argv optstring word s =
      some (-1, { s with optind := s.optind + 1 }) := by
  unfold getoptWord CString.charAt
  rw [dashes]
  rfl

theorem words_run
    (argv : List CString)
    (optstring : CString)
    (isWords : argv.drop i = words)
    (first : 1 ≤ i)
    (optind : s.optind = i)
    (optpos : s.optpos = 1) :
    ∃ trace middle,
      Run (GetoptCall argv optstring) s trace middle ∧
        trace.map Prod.snd = (optionWords optstring words).1 ∧
        WordsDone argv optstring words i middle := by
  induction count : words.length using Nat.strong_induction_on
    generalizing words i s with
  | _ count inductionHypothesis =>
  cases words with
  | nil =>
      have late := List.drop_eq_nil_iff.mp isWords
      refine ⟨[], s, .start, rfl, Or.inl ⟨fun _ => List.not_mem_nil, s,
        getopt_end first late optind, ?_, optpos⟩⟩
      rw [optind]
      rfl
  | cons word rest =>
      obtain ⟨isWord, isRest⟩ :
          argv[i]? = some word ∧ argv.drop (i + 1) = rest := by
        have inside : i < argv.length := by
          by_contra late
          rw [List.drop_eq_nil_of_le (Nat.le_of_not_lt late)] at isWords
          cases isWords
        rw [List.drop_eq_getElem_cons inside] at isWords
        obtain ⟨isFirst, isRest⟩ := List.cons.inj isWords
        exact ⟨by rw [List.getElem?_eq_getElem inside, isFirst], isRest⟩
      have inside : i < argv.length := (List.getElem?_eq_some_iff.mp isWord).1
      -- A word at which the calls end.
      have ends :
          ∀ (n : Nat) (final : GetoptState),
            optionWords optstring (word :: rest) = ([], n) →
            getoptWord argv optstring word s = some (-1, final) →
            final.optind = i + n → final.optpos = 1 →
              ∃ trace middle,
                Run (GetoptCall argv optstring) s trace middle ∧
                  trace.map Prod.snd =
                    (optionWords optstring (word :: rest)).1 ∧
                  WordsDone argv optstring (word :: rest) i middle := by
        intro n final isEnd returns isOptind isOptpos
        refine ⟨[], s, .start, by rw [isEnd]; rfl, Or.inl ⟨?_, final,
          (getopt_word first isWord optind).trans returns, ?_, isOptpos⟩⟩
        · unfold NoneMissing
          rw [isEnd]
          exact fun _ => List.not_mem_nil
        · rw [isEnd]
          exact isOptind
      by_cases stop :
          word.bytes.head? ≠ some '-'.toUInt8 ∨ word.bytes.length = 1
      · apply ends 0 s _ (getoptWord_stop stop) (by rw [optind]; rfl) optpos
        unfold optionWords
        rw [if_pos stop]
      by_cases dashes : word.bytes = ['-'.toUInt8, '-'.toUInt8]
      · apply ends 1 { s with optind := s.optind + 1 } _
          (getoptWord_dashes dashes) (by rw [optind]; rfl) optpos
        unfold optionWords
        rw [if_neg stop, if_pos dashes]
      rw [not_or, not_not] at stop
      have isAt : AtPlace argv word i 1 s :=
        ⟨isWord, ⟨stop.1, stop.2, dashes⟩, first, optind, optpos⟩
      have some_ : word.bytes.drop 1 ≠ [] := by
        intro isNil
        have short := List.drop_eq_nil_iff.mp isNil
        have none := stop.2
        have isEmpty : word.bytes = [] := List.length_eq_zero_iff.mp (by omega)
        rw [isEmpty] at stop
        cases stop.1
      have present :=
        optionLetters_present optstring word (word.bytes.drop 1) 1
      obtain ⟨trace, middle, run, isTrace, done⟩ :=
        letters_run optstring isAt rfl some_
      generalize isFound :
          optionLetters optstring word (word.bytes.drop 1) 1 = found
        at present isTrace done
      obtain ⟨events, ending⟩ := found
      cases ending with
      | none =>
          have isAll :=
            optionWords_closed rest isAt.holds isFound
          obtain ⟨further, last, laterRun, isFurther, laterDone⟩ :=
            inductionHypothesis rest.length
              (by rw [← count]; exact Nat.lt_succ_self _)
              isRest (Nat.le_succ_of_le first) done.1 done.2 rfl
          refine ⟨trace ++ further, last, run.append laterRun, ?_,
            laterDone.append events isAll present⟩
          rw [List.map_append, isTrace, isFurther, isAll]
      | some letter =>
          obtain ⟨place, isLast, isDrop, known, wants⟩ := done
          have call := getopt_separate isLast isDrop known wants
          cases rest with
          | nil =>
              have late := List.drop_eq_nil_iff.mp isRest
              rw [if_neg (by omega)] at call
              have isAll := optionWords_missing isAt.holds isFound
              have isMissing :
                  OptionEvent.missing letter ∈
                    (optionWords optstring [word]).1 := by
                rw [isAll]
                exact List.mem_append_right _ (List.mem_singleton_self _)
              have long := congrArg List.length isDrop
              rw [List.length_drop, List.length_singleton] at long
              have reports :
                  GetoptCall argv optstring middle (.missing letter)
                    (middle.read letter) :=
                ⟨_, call, by split <;> decide, rfl, rfl⟩
              refine ⟨trace ++ [(middle, .missing letter)],
                middle.read letter, .next run reports, ?_,
                Or.inr ⟨fun none => none letter isMissing, ?_⟩⟩
              · rw [List.map_append, isTrace, isAll]
                rfl
              · have behind :
                    AtPlace argv word i (place + 1) (middle.read letter) :=
                  isLast.next rfl rfl
                rw [show place + 1 = word.bytes.length by omega] at behind
                exact getopt_behind behind
          | cons argument words =>
              have another : i + 1 < argv.length := by
                by_contra late
                rw [List.drop_eq_nil_of_le (Nat.le_of_not_lt late)] at isRest
                cases isRest
              rw [List.drop_eq_getElem_cons another] at isRest
              obtain ⟨isArgument, isWords⟩ := List.cons.inj isRest
              rw [if_pos another, List.getElem?_eq_getElem another,
                isArgument] at call
              have isAll :=
                optionWords_separate argument words isAt.holds isFound
              have reports :
                  GetoptCall argv optstring middle
                    (.option letter (some argument))
                    ({ middle.read letter with
                      optarg := some argument }.nextWord 2) :=
                ⟨_, call, by omega, rfl, rfl⟩
              obtain ⟨further, last, laterRun, isFurther, laterDone⟩ :=
                inductionHypothesis words.length
                  (by rw [← count]; exact Nat.lt_succ_of_lt (Nat.lt_succ_self _))
                  (s := { middle.read letter with
                    optarg := some argument }.nextWord 2)
                  isWords (Nat.le_add_left 1 _)
                  (by
                    change middle.optind + ((2 : Nat) : Int) = _
                    rw [isLast.optind]
                    rfl) rfl rfl
              refine ⟨(trace ++ [(middle, .option letter (some argument))]) ++
                further, last,
                (Run.next run reports).append laterRun,
                ?_, ?_⟩
              · rw [List.map_append, List.map_append, isTrace, isFurther,
                  isAll, List.append_assoc]
                rfl
              · apply laterDone.append (n := 2)
                  (events ++ [.option letter (some argument)])
                · rw [isAll, List.append_assoc]
                  rfl
                · intro other member
                  rcases List.mem_append.mp member with early | late
                  · exact present other early
                  · rw [List.mem_singleton] at late
                    cases late

theorem getoptCall_unique
    {event other : OptionEvent}
    {later last : GetoptState}
    (call : GetoptCall argv optstring s event later)
    (also : GetoptCall argv optstring s other last) :
    later = last := by
  obtain ⟨_, returns, _⟩ := call
  obtain ⟨_, alsoReturns, _⟩ := also
  rw [returns] at alsoReturns
  exact (Prod.mk.inj (Option.some.inj alsoReturns)).2

/-- The calls report the options of the words in order, each with its argument,
never read behind a string, and come to `-1` with `optind` at the first word
that holds no option, exactly when no argument of an option is missing. -/
theorem getopt_reports_iff
    (argv : List CString)
    (optstring : CString) :
    (∃ trace middle final,
        Run (GetoptCall argv optstring) .start trace middle ∧
          trace.map Prod.snd = (optionWords optstring (argv.drop 1)).1 ∧
          getopt argv optstring middle = some (-1, final) ∧
          final.optind = 1 + (optionWords optstring (argv.drop 1)).2 ∧
          final.optpos = 1) ↔
      NoneMissing optstring (argv.drop 1) := by
  obtain ⟨trace, middle, run, isTrace, done⟩ :=
    words_run (s := .start) (i := 1) argv optstring rfl (Nat.le_refl 1) rfl rfl
  constructor
  · rintro ⟨other, last, final, alsoRun, isOther, returns, _⟩
    have length : trace.length = other.length := by
      rw [← List.length_map (f := Prod.snd), isTrace, ← isOther,
        List.length_map]
    have same : middle = last :=
      run.final_unique alsoRun length getoptCall_unique
    rcases done with ⟨none, _⟩ | ⟨_, undefined⟩
    · exact none
    · rw [same, returns] at undefined
      cases undefined
  · intro none
    rcases done with ⟨_, final, returns, optind, optpos⟩ | ⟨some_, _⟩
    · exact ⟨trace, middle, final, run, isTrace, returns, optind, optpos⟩
    · exact absurd none some_

/-- An option at the end whose argument is missing is reported once; the next
call reads behind the null byte of `optstring`. -/
theorem getopt_missing_undefined :
    ∃ later,
      getopt [⟨[112], by decide⟩, ⟨[45, 97], by decide⟩]
          ⟨[97, 58], by decide⟩ .start = some (63, later) ∧
        getopt [⟨[112], by decide⟩, ⟨[45, 97], by decide⟩]
          ⟨[97, 58], by decide⟩ later = none :=
  ⟨_, rfl, rfl⟩

end Runs

end MyOS
