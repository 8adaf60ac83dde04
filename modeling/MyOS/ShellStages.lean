import MyOS.ShellTokens

namespace MyOS

/-!
# The stages of a line

A sequence of tokens is of the grammar exactly if no piece between its pipes is
empty and every redirection operator has its file.  The shell's loops over the
shared array find the pieces, check the operators and take the redirections
out.
-/

section Grammar

/-- The parts of a run of tokens without pipes, if it has any. -/
def parseStage : List ShellWord → Option (List StageItem)
  | [] => some []
  | token :: rest =>
      match redirectOperator? token with
      | some operator =>
          match rest with
          | [] => none
          | path :: behind =>
              if isControlToken path then
                none
              else
                (parseStage behind).map (.redirect ⟨operator, path⟩ :: ·)
      | none =>
          if token = pipeToken then
            none
          else
            (parseStage rest).map (.word token :: ·)

theorem redirectOperator?_eq_some
    {token : ShellWord}
    {operator : RedirectOperator}
    (found : redirectOperator? token = some operator) :
    token = operator.token := by
  unfold redirectOperator? at found
  split at found
  · next same =>
      cases found
      exact same
  · split at found
    · next same =>
        cases found
        exact same
    · split at found
      · next same =>
          cases found
          exact same
      · cases found

theorem redirectOperator?_token
    (operator : RedirectOperator) :
    redirectOperator? operator.token = some operator := by
  cases operator <;> decide

theorem isRedirectToken_eq
    (token : ShellWord) :
    isRedirectToken token = (redirectOperator? token).isSome := by
  unfold isRedirectToken redirectOperator?
  split
  · next same => simp [same]
  · next notInput =>
      split
      · next same => simp [same]
      · next notOutput =>
          split
          · next same => simp [same]
          · next notAppend => simp [notInput, notOutput, notAppend]

theorem isControlToken_eq_false
    {token : ShellWord} :
    isControlToken token = false ↔
      redirectOperator? token = none ∧ token ≠ pipeToken := by
  rw [isControlToken, isRedirectToken_eq, Bool.or_eq_false_iff,
    Option.isSome_eq_false_iff, Option.isNone_iff_eq_none,
    decide_eq_false_iff_not]

theorem parseStage_sound
    {tokens : List ShellWord}
    {stage : List StageItem}
    (parses : parseStage tokens = some stage) :
    stageTokens stage = tokens ∧ ∀ item ∈ stage, item.isPlain = true := by
  induction tokens using parseStage.induct generalizing stage with
  | case1 =>
      cases parses
      exact ⟨rfl, fun item member => absurd member List.not_mem_nil⟩
  | case2 token operator isOperator =>
      simp [parseStage, isOperator] at parses
  | case3 token operator isOperator path behind isControl =>
      simp [parseStage, isOperator, isControl] at parses
  | case4 token operator isOperator path behind isWord inductionHypothesis =>
      simp only [parseStage, isOperator, if_neg isWord, Option.map_eq_some_iff]
        at parses
      obtain ⟨later, found, rfl⟩ := parses
      obtain ⟨same, plain⟩ := inductionHypothesis found
      refine ⟨?_, ?_⟩
      · rw [redirectOperator?_eq_some isOperator, ← same]
        rfl
      · rw [List.forall_mem_cons]
        exact ⟨by simpa [StageItem.isPlain] using isWord, plain⟩
  | case5 rest notOperator =>
      simp [parseStage, notOperator] at parses
  | case6 token rest notOperator notPipe inductionHypothesis =>
      simp only [parseStage, notOperator, if_neg notPipe,
        Option.map_eq_some_iff] at parses
      obtain ⟨later, found, rfl⟩ := parses
      obtain ⟨same, plain⟩ := inductionHypothesis found
      refine ⟨?_, ?_⟩
      · rw [← same]
        rfl
      · rw [List.forall_mem_cons]
        refine ⟨?_, plain⟩
        simp only [StageItem.isPlain, Bool.not_eq_true']
        exact isControlToken_eq_false.mpr ⟨notOperator, notPipe⟩

theorem parseStage_complete
    {stage : List StageItem}
    (plain : ∀ item ∈ stage, item.isPlain = true) :
    parseStage (stageTokens stage) = some stage := by
  induction stage with
  | nil =>
      rfl
  | cons item stage inductionHypothesis =>
      rw [List.forall_mem_cons] at plain
      have later := inductionHypothesis plain.2
      cases item with
      | word text =>
          have isWord : isControlToken text = false := by
            simpa [StageItem.isPlain] using plain.1
          obtain ⟨notOperator, notPipe⟩ := isControlToken_eq_false.mp isWord
          have tokens :
              stageTokens (.word text :: stage) = text :: stageTokens stage :=
            rfl
          rw [tokens]
          simp [parseStage, notOperator, notPipe, later]
      | redirect redirection =>
          have isWord : isControlToken redirection.path = false := by
            simpa [StageItem.isPlain] using plain.1
          have tokens :
              stageTokens (.redirect redirection :: stage) =
                redirection.operator.token :: redirection.path ::
                  stageTokens stage := rfl
          rw [tokens]
          simp [parseStage, redirectOperator?_token, isWord, later]

theorem pipe_not_mem_stageTokens
    {stage : List StageItem}
    (plain : ∀ item ∈ stage, item.isPlain = true) :
    pipeToken ∉ stageTokens stage := by
  intro member
  obtain ⟨item, inStage, isToken⟩ := List.mem_flatMap.mp member
  have isPlain := plain item inStage
  cases item with
  | word text =>
      have same := List.mem_singleton.mp isToken
      rw [StageItem.isPlain, ← same] at isPlain
      exact absurd isPlain (by decide)
  | redirect redirection =>
      rcases List.mem_cons.mp isToken with isOperator | isPath
      · have told := redirectOperator?_token redirection.operator
        have none : redirectOperator? pipeToken = none := by decide
        rw [← isOperator, none] at told
        cases told
      · have same := List.mem_singleton.mp isPath
        rw [StageItem.isPlain, ← same] at isPlain
        exact absurd isPlain (by decide)

theorem parseStage_isSome
    {tokens : List ShellWord}
    (noPipe : pipeToken ∉ tokens) :
    (parseStage tokens).isSome = !dangles tokens := by
  induction tokens using parseStage.induct with
  | case1 =>
      rfl
  | case2 token operator isOperator =>
      simp [parseStage, dangles, isOperator, isRedirectToken_eq]
  | case3 token operator isOperator path behind isControl =>
      simp [parseStage, dangles, isOperator, isRedirectToken_eq, isControl]
  | case4 token operator isOperator path behind isWord inductionHypothesis =>
      rw [List.mem_cons, List.mem_cons, not_or, not_or] at noPipe
      have word : isControlToken path = false := by simpa using isWord
      have notOperator : isRedirectToken path = false := by
        rw [isRedirectToken_eq, (isControlToken_eq_false.mp word).1]
        rfl
      simp only [parseStage, isOperator, word, Bool.false_eq_true, if_false,
        Option.isSome_map, inductionHypothesis noPipe.2.2, dangles,
        notOperator, Bool.and_false, Bool.false_and, Bool.false_or]
  | case5 rest notOperator =>
      exact absurd (List.mem_cons_self) noPipe
  | case6 token rest notOperator notPipe inductionHypothesis =>
      rw [List.mem_cons, not_or] at noPipe
      simp only [parseStage, notOperator, if_neg notPipe, Option.isSome_map,
        inductionHypothesis noPipe.2, dangles, isRedirectToken_eq,
        Option.isSome_none, Bool.false_and, Bool.false_or]

theorem pipe_not_mem_piece
    {tokens piece : List ShellWord}
    (member : piece ∈ pieces tokens) :
    pipeToken ∉ piece := by
  induction tokens generalizing piece with
  | nil =>
      rw [pieces, List.splitOn_nil, List.mem_singleton] at member
      rw [member]
      exact List.not_mem_nil
  | cons token tokens inductionHypothesis =>
      rw [pieces, List.splitOn_cons_eq_if_modifyHead] at member
      split at member
      · rcases List.mem_cons.mp member with isEmpty | later
        · rw [isEmpty]
          exact List.not_mem_nil
        · exact inductionHypothesis later
      · next notPipe =>
          have notPipe : token ≠ pipeToken := by simpa using notPipe
          rcases found : tokens.splitOn pipeToken with _ | ⟨first, others⟩
          · exact absurd found (List.splitOn_ne_nil _ _)
          · rw [found, List.modifyHead_cons] at member
            have known : ∀ other ∈ first :: others, pipeToken ∉ other := by
              intro other isPiece
              apply inductionHypothesis
              rw [pieces, found]
              exact isPiece
            rcases List.mem_cons.mp member with isFirst | later
            · rw [isFirst, List.mem_cons, not_or]
              exact ⟨fun same => notPipe same.symm,
                known first List.mem_cons_self⟩
            · exact known piece (List.mem_cons_of_mem _ later)

/-- The parts of every piece of a sequence that is not malformed. -/
def pieceStages (tokens : List ShellWord) : List (List StageItem) :=
  (pieces tokens).map fun piece => (parseStage piece).getD []

/-- No piece is empty and no operator dangles. -/
def WellFormed (tokens : List ShellWord) : Prop :=
  ∀ piece ∈ pieces tokens, piece ≠ [] ∧ dangles piece = false

theorem isMalformed_eq_false_iff
    (tokens : List ShellWord) :
    isMalformed tokens = false ↔ WellFormed tokens := by
  simp [isMalformed, WellFormed, List.any_eq_false]

theorem parseStage_piece
    {tokens piece : List ShellWord}
    (member : piece ∈ pieces tokens)
    (fine : dangles piece = false) :
    parseStage piece = some ((parseStage piece).getD []) := by
  have known := parseStage_isSome (pipe_not_mem_piece member)
  rw [fine] at known
  obtain ⟨stage, found⟩ := Option.isSome_iff_exists.mp known
  rw [found]
  rfl

theorem isPipeline_pieceStages
    {tokens : List ShellWord}
    (wellFormed : WellFormed tokens) :
    IsPipeline tokens (pieceStages tokens) := by
  have parsed :
      ∀ piece ∈ pieces tokens,
        stageTokens ((parseStage piece).getD []) = piece ∧
          ∀ item ∈ (parseStage piece).getD [], item.isPlain = true := by
    intro piece member
    exact parseStage_sound
      (parseStage_piece member (wellFormed piece member).2)
  unfold pieceStages
  refine {
    tokens := ?_
    nonempty := ?_
    plain := ?_
  }
  · rw [List.map_map]
    have same :
        (pieces tokens).map
            (stageTokens ∘ fun piece => (parseStage piece).getD []) =
          pieces tokens := by
      conv_rhs => rw [← List.map_id (pieces tokens)]
      apply List.map_congr_left
      intro piece member
      exact (parsed piece member).1
    rw [same]
    exact (List.intercalate_splitOn pipeToken).symm
  · intro stage member none
    obtain ⟨piece, isPiece, rfl⟩ := List.mem_map.mp member
    have same := (parsed piece isPiece).1
    rw [none] at same
    exact (wellFormed piece isPiece).1 same.symm
  · intro stage member
    obtain ⟨piece, isPiece, rfl⟩ := List.mem_map.mp member
    exact (parsed piece isPiece).2

theorem pieces_of_isPipeline
    {tokens : List ShellWord}
    {stages : List (List StageItem)}
    (isPipeline : IsPipeline tokens stages)
    (some : tokens ≠ []) :
    pieces tokens = stages.map stageTokens := by
  have notNil : stages.map stageTokens ≠ [] := by
    intro none
    apply some
    rw [isPipeline.tokens, none]
    rfl
  have noPipes : ∀ run ∈ stages.map stageTokens, pipeToken ∉ run := by
    intro run isRun
    obtain ⟨stage, inStages, rfl⟩ := List.mem_map.mp isRun
    exact pipe_not_mem_stageTokens (isPipeline.plain stage inStages)
  rw [pieces, isPipeline.tokens, List.splitOn_intercalate _ noPipes notNil]

theorem inGrammar_iff
    {tokens : List ShellWord}
    (some : tokens ≠ []) :
    InGrammar tokens ↔ WellFormed tokens := by
  constructor
  · rintro ⟨stages, isPipeline⟩ piece member
    rw [pieces_of_isPipeline isPipeline some] at member
    obtain ⟨stage, inStages, rfl⟩ := List.mem_map.mp member
    have plain := isPipeline.plain stage inStages
    have parses := parseStage_complete plain
    refine ⟨?_, ?_⟩
    · intro none
      rw [none] at parses
      cases parses
      exact isPipeline.nonempty [] inStages rfl
    · have known := parseStage_isSome (pipe_not_mem_stageTokens plain)
      rw [parses] at known
      simpa using known
  · intro wellFormed
    exact ⟨pieceStages tokens, isPipeline_pieceStages wellFormed⟩

end Grammar

/-- Entries of `argv` from a place on hold words, with a null behind them. -/
def HoldsWords
    (argv : Argv)
    (start : Nat)
    (words : List ShellWord) : Prop :=
  ∀ i, i ≤ words.length → argv (start + i) = words[i]?

namespace HoldsWords

variable {argv : Argv} {start : Nat} {word : ShellWord}
variable {words : List ShellWord}

theorem nil (holds : HoldsWords argv start []) : argv start = none :=
  holds 0 (Nat.le_refl 0)

theorem head
    (holds : HoldsWords argv start (word :: words)) :
    argv start = some word :=
  holds 0 (Nat.zero_le _)

theorem tail
    (holds : HoldsWords argv start (word :: words)) :
    HoldsWords argv (start + 1) words := by
  intro i within
  have entry := holds (i + 1) (Nat.succ_le_succ within)
  rw [Nat.add_assoc, Nat.add_comm 1]
  exact entry

theorem drop
    {first : List ShellWord}
    (holds : HoldsWords argv start (first ++ words)) :
    HoldsWords argv (start + first.length) words := by
  intro i within
  have entry := holds (first.length + i) (by rw [List.length_append]; omega)
  rw [Nat.add_assoc, entry,
    List.getElem?_append_right (Nat.le_add_right _ _),
    Nat.add_sub_cancel_left]

end HoldsWords

theorem holdsWords_argvOf
    (tokens : List ShellWord) :
    HoldsWords (argvOf tokens) 0 tokens := by
  intro i _
  rw [Nat.zero_add]
  rfl

theorem argvWords_eq
    {argv : Argv}
    {words : List ShellWord}
    {fuel start : Nat}
    (holds : HoldsWords argv start words)
    (enough : words.length ≤ fuel) :
    argvWords argv fuel start = words := by
  induction words generalizing fuel start with
  | nil =>
      cases fuel with
      | zero => rfl
      | succ fuel => simp only [argvWords, holds.nil]
  | cons word words inductionHypothesis =>
      cases fuel with
      | zero => exact absurd enough (Nat.not_succ_le_zero _)
      | succ fuel =>
          simp only [argvWords, holds.head]
          rw [inductionHypothesis holds.tail (Nat.le_of_succ_le_succ enough)]

theorem findTokenLoop_neg_iff
    {argv : Argv}
    {words : List ShellWord}
    {fuel i : Nat}
    (holds : HoldsWords argv i words)
    (enough : words.length ≤ fuel)
    (token : ShellWord) :
    findTokenLoop argv token fuel i < 0 ↔ token ∉ words := by
  induction words generalizing fuel i with
  | nil =>
      cases fuel with
      | zero => simp [findTokenLoop]
      | succ fuel => simp [findTokenLoop, holds.nil]
  | cons word words inductionHypothesis =>
      cases fuel with
      | zero => exact absurd enough (Nat.not_succ_le_zero _)
      | succ fuel =>
          simp only [findTokenLoop, holds.head, List.mem_cons, not_or]
          by_cases same : word = token
          · rw [if_pos same]
            refine iff_of_false (by omega) ?_
            exact fun other => other.1 same.symm
          · rw [if_neg same,
              inductionHypothesis holds.tail (Nat.le_of_succ_le_succ enough)]
            exact ⟨fun absent => ⟨fun equal => same equal.symm, absent⟩,
              fun both => both.2⟩

theorem validateLoop_eq
    {argv : Argv}
    {words : List ShellWord}
    {fuel i : Nat}
    (holds : HoldsWords argv i words)
    (enough : words.length ≤ fuel) :
    validateLoop argv fuel i = !dangles words := by
  induction words generalizing fuel i with
  | nil =>
      cases fuel with
      | zero => rfl
      | succ fuel => simp [validateLoop, holds.nil, dangles]
  | cons word words inductionHypothesis =>
      cases fuel with
      | zero => exact absurd enough (Nat.not_succ_le_zero _)
      | succ fuel =>
          have later :=
            inductionHypothesis holds.tail (Nat.le_of_succ_le_succ enough)
          simp only [validateLoop, holds.head, dangles]
          by_cases operator : isRedirectToken word = true
          · rw [if_pos operator, operator]
            cases words with
            | nil =>
                simp only [holds.tail.nil, Bool.true_and, Bool.true_or,
                  Bool.not_true]
            | cons next words =>
                simp only [holds.tail.head, Bool.true_and]
                by_cases control : isControlToken next = true
                · rw [if_pos control, control, Bool.true_or, Bool.not_true]
                · rw [if_neg control, later,
                    Bool.eq_false_iff.mpr control, Bool.false_or]
          · rw [if_neg operator, later,
              Bool.eq_false_iff.mpr operator, Bool.false_and,
              Bool.false_or]

theorem removeLoop_spec
    {argv : Argv}
    {rest : List ShellWord}
    {fuel i : Nat}
    (holds : HoldsWords argv (i + 2) rest)
    (enough : rest.length < fuel) :
    HoldsWords (removeLoop fuel i argv) i rest ∧
      ∀ place, place < i → removeLoop fuel i argv place = argv place := by
  induction rest generalizing argv fuel i with
  | nil =>
      cases fuel with
      | zero => exact absurd enough (Nat.not_lt_zero _)
      | succ fuel =>
          simp only [removeLoop, holds.nil]
          refine ⟨?_, ?_⟩
          · intro j within
            have zero : j = 0 := Nat.le_zero.mp within
            subst zero
            have apart : i + 0 ≠ i + 1 := by omega
            rw [Function.update_of_ne apart]
            exact Function.update_self ..
          · intro place below
            rw [Function.update_of_ne (by omega),
              Function.update_of_ne (by omega)]
  | cons word rest inductionHypothesis =>
      cases fuel with
      | zero => exact absurd enough (Nat.not_lt_zero _)
      | succ fuel =>
          simp only [removeLoop, holds.head]
          have later :
              HoldsWords (Function.update argv i (some word)) (i + 1 + 2)
                rest := by
            intro j within
            rw [Function.update_of_ne (by omega)]
            have entry := holds.tail j within
            rw [← entry]
          obtain ⟨moved, before⟩ :=
            inductionHypothesis later (Nat.lt_of_succ_lt_succ enough)
          refine ⟨?_, ?_⟩
          · intro j within
            rcases j with _ | j
            · have entry := before i (Nat.lt_succ_self i)
              rw [Function.update_self] at entry
              exact entry
            · have entry := moved j (Nat.le_of_succ_le_succ within)
              rw [Nat.add_right_comm, Nat.add_assoc] at entry
              rw [entry]
              rfl
          · intro place below
            rw [before place (Nat.lt_succ_of_lt below),
              Function.update_of_ne (by omega)]

theorem HoldsWords.removeArgPair
    {argv : Argv}
    {start : Nat}
    {kept rest : List ShellWord}
    {first second : ShellWord}
    (holds : HoldsWords argv start (kept ++ first :: second :: rest))
    (short : rest.length < MAX_ARGS) :
    HoldsWords (MyOS.removeArgPair argv (start + kept.length)) start
      (kept ++ rest) := by
  obtain ⟨moved, before⟩ := removeLoop_spec holds.drop.tail.tail short
  intro i within
  rw [List.length_append] at within
  by_cases isKept : i < kept.length
  · have entry := holds i (by rw [List.length_append]; omega)
    rw [MyOS.removeArgPair, before _ (by omega), entry,
      List.getElem?_append_left isKept, List.getElem?_append_left isKept]
  · obtain ⟨j, rfl⟩ : ∃ j, i = kept.length + j :=
      ⟨i - kept.length, by omega⟩
    rw [MyOS.removeArgPair, ← Nat.add_assoc, moved j (by omega),
      List.getElem?_append_right (Nat.le_add_right _ _),
      Nat.add_sub_cancel_left]

theorem childLoop_eq
    (opens : Redirection → Bool)
    {argv : Argv}
    {start fuel : Nat}
    {kept rest : List ShellWord}
    {stage : List StageItem}
    (parses : parseStage rest = some stage)
    (holds : HoldsWords argv start (kept ++ rest))
    (enough : rest.length ≤ fuel)
    (short : kept.length + rest.length ≤ MAX_ARGS)
    (done : List Redirection) :
    childLoop opens start fuel (start + kept.length) argv done =
      applyAll opens (kept ++ stage.filterMap StageItem.word?)
        (stage.filterMap StageItem.redirect?) done := by
  induction rest using parseStage.induct
    generalizing argv fuel kept stage done with
  | case1 =>
      cases parses
      have whole : HoldsWords argv start kept := by
        rw [List.append_nil] at holds
        exact holds
      have ends : argv (start + kept.length) = none := by
        rw [whole kept.length (Nat.le_refl _)]
        exact List.getElem?_eq_none (Nat.le_refl _)
      have command :
          execCommand argv start = if kept = [] then none else some kept := by
        unfold execCommand
        cases kept with
        | nil => rw [if_pos whole.nil, if_pos rfl]
        | cons word kept =>
            rw [if_neg (by rw [whole.head]; exact Option.some_ne_none _),
              if_neg (List.cons_ne_nil _ _),
              argvWords_eq whole (by simpa using short)]
      simp only [List.filterMap_nil, List.append_nil, applyAll]
      rw [← command]
      cases fuel with
      | zero => rfl
      | succ fuel => simp only [childLoop, ends]
  | case2 token operator isOperator =>
      simp [parseStage, isOperator] at parses
  | case3 token operator isOperator path behind isControl =>
      simp [parseStage, isOperator, isControl] at parses
  | case4 token operator isOperator path behind isWord inductionHypothesis =>
      simp only [parseStage, isOperator, if_neg isWord, Option.map_eq_some_iff]
        at parses
      obtain ⟨later, found, rfl⟩ := parses
      cases fuel with
      | zero => exact absurd enough (Nat.not_succ_le_zero _)
      | succ fuel =>
          simp only [List.length_cons] at enough short
          have here := holds.drop.head
          have next := holds.drop.tail.head
          have removed := holds.removeArgPair (by omega)
          simp only [childLoop, here, isOperator, next,
            List.filterMap_cons, StageItem.word?, StageItem.redirect?,
            applyAll]
          split
          · exact inductionHypothesis found removed (by omega) (by omega) _
          · rfl
  | case5 rest notOperator =>
      simp [parseStage, notOperator] at parses
  | case6 token rest notOperator notPipe inductionHypothesis =>
      simp only [parseStage, notOperator, if_neg notPipe,
        Option.map_eq_some_iff] at parses
      obtain ⟨later, found, rfl⟩ := parses
      cases fuel with
      | zero => exact absurd enough (Nat.not_succ_le_zero _)
      | succ fuel =>
          simp only [List.length_cons] at enough short
          have here := holds.drop.head
          have place :
              start + kept.length + 1 = start + (kept ++ [token]).length := by
            rw [List.length_append, List.length_singleton, Nat.add_assoc]
          have whole : HoldsWords argv start ((kept ++ [token]) ++ rest) := by
            rw [List.append_assoc]
            exact holds
          simp only [childLoop, here, notOperator, List.filterMap_cons,
            StageItem.word?, StageItem.redirect?]
          rw [place,
            inductionHypothesis found whole (by omega)
              (by rw [List.length_append, List.length_singleton]; omega),
            List.append_assoc]
          rfl

end MyOS
