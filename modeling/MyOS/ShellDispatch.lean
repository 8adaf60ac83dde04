import MyOS.ShellStages

namespace MyOS

/-!
# Which lines the shell takes

Pipes are cut out of the shared array in place, so that every stage stands
there with a null behind it.  What the shell's checks let pass is of the
grammar exactly if no stage is empty and no token was left behind.
-/

section Split

/-- Where the stages behind the first start. -/
def pipeStarts : List ShellWord → Nat → List Nat
  | [], _ => []
  | token :: rest, i =>
      if token = pipeToken then
        (i + 1) :: pipeStarts rest (i + 1)
      else
        pipeStarts rest (i + 1)

/-- The entries of `argv` with nulls in place of the pipes. -/
def cutPipes (argv : Argv) (i : Nat) : Argv :=
  fun place =>
    if place < i then
      argv place
    else
      (argv place).filter fun token => token ≠ pipeToken

theorem splitLoop_eq
    {argv : Argv}
    {rest : List ShellWord}
    {i : Nat}
    (fuel : Nat)
    (stages : List Nat)
    (holds : HoldsWords argv i rest)
    (beyond : ∀ place, i + rest.length ≤ place → argv place = none)
    (enough : rest.length ≤ fuel)
    (short : stages.length + rest.length ≤ MAX_STAGES) :
    splitLoop fuel i argv stages =
      if (i = 0 ∧ rest.head? = some pipeToken) ∨
          rest.getLast? = some pipeToken then
        none
      else
        some (cutPipes argv i, stages ++ pipeStarts rest i) := by
  induction rest generalizing argv fuel i stages with
  | nil =>
      have same : cutPipes argv i = argv := by
        funext place
        unfold cutPipes
        split
        · rfl
        · next above =>
            rw [beyond place (by simpa using above)]
            rfl
      have none : ¬ ((i = 0 ∧ ([] : List ShellWord).head? = some pipeToken) ∨
          ([] : List ShellWord).getLast? = some pipeToken) := by
        simp
      rw [if_neg none, same, pipeStarts, List.append_nil]
      cases fuel with
      | zero => rfl
      | succ fuel => simp only [splitLoop, holds.nil]
  | cons token rest inductionHypothesis =>
      cases fuel with
      | zero => exact absurd enough (Nat.not_succ_le_zero _)
      | succ fuel =>
          simp only [List.length_cons] at enough short beyond
          simp only [splitLoop, holds.head]
          by_cases isPipe : token = pipeToken
          · rw [if_neg (fun other => other isPipe)]
            subst isPipe
            cases rest with
            | nil =>
                have last : [pipeToken].getLast? = some pipeToken := rfl
                rw [if_pos (Or.inr (Or.inl holds.tail.nil)),
                  if_pos (Or.inr last)]
            | cons next rest =>
                have more : argv (i + 1) ≠ none := by
                  rw [holds.tail.head]
                  exact Option.some_ne_none _
                have few : ¬ MAX_STAGES ≤ stages.length := by
                  rw [List.length_cons] at short
                  omega
                by_cases first : i = 0
                · rw [if_pos (Or.inl first),
                    if_pos (Or.inl ⟨first, rfl⟩)]
                · have goesOn :
                      ¬ (i = 0 ∨ argv (i + 1) = none ∨
                        MAX_STAGES ≤ stages.length) := by
                    simp [first, more, few]
                  have later :
                      HoldsWords (Function.update argv i none) (i + 1)
                        (next :: rest) := by
                    intro j within
                    rw [Function.update_of_ne (by omega)]
                    exact holds.tail j within
                  rw [if_neg goesOn,
                    inductionHypothesis _ _ later
                      (by
                        intro place above
                        rw [Function.update_of_ne (by omega)]
                        exact beyond place (by omega))
                      (by omega)
                      (by
                        rw [List.length_append, List.length_singleton]
                        omega)]
                  have cut :
                      cutPipes (Function.update argv i none) (i + 1) =
                        cutPipes argv i := by
                    funext place
                    unfold cutPipes
                    rcases Nat.lt_trichotomy place i with before | here | after
                    · rw [if_pos (by omega), if_pos before,
                        Function.update_of_ne (by omega)]
                    · subst here
                      rw [if_pos (Nat.lt_succ_self _), if_neg (Nat.lt_irrefl _),
                        Function.update_self, holds.head]
                      rfl
                    · rw [if_neg (by omega), if_neg (by omega),
                        Function.update_of_ne (by omega)]
                  simp only [Nat.succ_ne_zero, first, false_and, false_or, cut,
                    List.getLast?_cons_cons, pipeStarts, if_true,
                    List.append_assoc, List.singleton_append]
          · rw [if_pos isPipe,
              inductionHypothesis _ _ holds.tail
                (fun place above => beyond place (by omega))
                (Nat.le_of_succ_le_succ enough) (by omega)]
            have cut : cutPipes argv (i + 1) = cutPipes argv i := by
              funext place
              unfold cutPipes
              rcases Nat.lt_trichotomy place i with before | here | after
              · rw [if_pos (by omega), if_pos before]
              · subst here
                rw [if_pos (Nat.lt_succ_self _), if_neg (Nat.lt_irrefl _),
                  holds.head]
                simp [Option.filter, isPipe]
              · rw [if_neg (by omega), if_neg (by omega)]
            have notHead :
                ¬ (i = 0 ∧ (token :: rest).head? = some pipeToken) := by
              rintro ⟨_, same⟩
              exact isPipe (Option.some.inj same)
            have last :
                ((token :: rest).getLast? = some pipeToken) ↔
                  rest.getLast? = some pipeToken := by
              cases rest with
              | nil => simp [isPipe]
              | cons next rest => rw [List.getLast?_cons_cons]
            simp only [Nat.succ_ne_zero, false_and, false_or, notHead, last,
              cut, pipeStarts, if_neg isPipe]

theorem holdsWords_pieces
    {argv : Argv}
    {tokens : List ShellWord}
    {i : Nat}
    (cut :
      ∀ j, j ≤ tokens.length →
        argv (i + j) = tokens[j]?.filter fun token => token ≠ pipeToken) :
    List.Forall₂ (HoldsWords argv) (i :: pipeStarts tokens i)
      (pieces tokens) := by
  induction tokens generalizing i with
  | nil =>
      rw [pieces, List.splitOn_nil, pipeStarts]
      refine List.Forall₂.cons ?_ List.Forall₂.nil
      intro j within
      have zero : j = 0 := Nat.le_zero.mp within
      subst zero
      exact cut 0 (Nat.le_refl 0)
  | cons token tokens inductionHypothesis =>
      have later :=
        inductionHypothesis (i := i + 1) (by
          intro j within
          have entry := cut (j + 1) (Nat.succ_le_succ within)
          rw [Nat.add_assoc, Nat.add_comm 1]
          exact entry)
      have here := cut 0 (Nat.zero_le _)
      rw [pieces, List.splitOn_cons_eq_if_modifyHead]
      unfold pipeStarts
      by_cases isPipe : token = pipeToken
      · subst isPipe
        rw [if_pos rfl, if_pos (by simp)]
        refine List.Forall₂.cons ?_ later
        intro j within
        have zero : j = 0 := Nat.le_zero.mp within
        subst zero
        exact here
      · rw [if_neg isPipe, if_neg (by simpa using isPipe)]
        rw [pieces] at later
        rcases found : tokens.splitOn pipeToken with _ | ⟨first, others⟩
        · exact absurd found (List.splitOn_ne_nil _ _)
        · rw [found] at later
          rw [List.modifyHead_cons]
          cases later with
          | cons holds rest =>
              refine List.Forall₂.cons ?_ rest
              intro j within
              rcases j with _ | j
              · rw [here]
                simp [Option.filter, isPipe]
              · have entry := holds j (Nat.le_of_succ_le_succ within)
                rw [Nat.add_assoc, Nat.add_comm 1] at entry
                exact entry

end Split

section Checks

variable {tokens : List ShellWord}

theorem nil_mem_pieces
    (atEnd :
      tokens.head? = some pipeToken ∨ tokens.getLast? = some pipeToken) :
    [] ∈ pieces tokens := by
  rcases atEnd with atHead | atLast
  · obtain ⟨rest, rfl⟩ := List.head?_eq_some_iff.mp atHead
    rw [pieces, List.splitOn_cons_eq_if_modifyHead, if_pos (by simp)]
    exact List.mem_cons_self
  · obtain ⟨first, rfl⟩ := List.getLast?_eq_some_iff.mp atLast
    rw [pieces, List.splitOn_append_cons_self, List.splitOn_nil]
    exact List.mem_append_right _ (List.mem_singleton.mpr rfl)

theorem not_wellFormed_of_failsChecks
    (fails : failsChecks tokens = true) :
    ¬ WellFormed tokens := by
  intro wellFormed
  simp only [failsChecks, Bool.or_eq_true, decide_eq_true_eq,
    List.any_eq_true] at fails
  rcases fails with atEnd | ⟨piece, member, isDangling⟩
  · exact (wellFormed [] (nil_mem_pieces atEnd)).1 rfl
  · rw [(wellFormed piece member).2] at isDangling
    cases isDangling

theorem wellFormed_iff_of_passes
    (passes : failsChecks tokens = false) :
    WellFormed tokens ↔ [] ∉ pieces tokens := by
  simp only [failsChecks, Bool.or_eq_false_iff, List.any_eq_false]
    at passes
  constructor
  · exact fun wellFormed member => (wellFormed [] member).1 rfl
  · intro absent piece member
    refine ⟨?_, by simpa using passes.2 piece member⟩
    rintro rfl
    exact absent member

theorem length_le_of_mem_pieces
    {piece : List ShellWord}
    (member : piece ∈ pieces tokens) :
    piece.length ≤ tokens.length := by
  induction tokens generalizing piece with
  | nil =>
      rw [pieces, List.splitOn_nil, List.mem_singleton] at member
      rw [member]
  | cons token tokens inductionHypothesis =>
      rw [List.length_cons]
      rw [pieces, List.splitOn_cons_eq_if_modifyHead] at member
      split at member
      · rcases List.mem_cons.mp member with isEmpty | later
        · rw [isEmpty]
          exact Nat.zero_le _
        · exact Nat.le_succ_of_le (inductionHypothesis later)
      · rcases found : tokens.splitOn pipeToken with _ | ⟨first, others⟩
        · exact absurd found (List.splitOn_ne_nil _ _)
        · rw [found, List.modifyHead_cons] at member
          have known : ∀ other ∈ first :: others,
              other.length ≤ tokens.length := by
            intro other isPiece
            apply inductionHypothesis
            rw [pieces, found]
            exact isPiece
          rcases List.mem_cons.mp member with isFirst | later
          · rw [isFirst, List.length_cons]
            exact Nat.succ_le_succ (known first List.mem_cons_self)
          · exact Nat.le_succ_of_le
              (known piece (List.mem_cons_of_mem _ later))

theorem forall₂_and_mem
    {First Second : Type}
    {relation : First → Second → Prop}
    {firsts : List First}
    {seconds : List Second}
    (related : List.Forall₂ relation firsts seconds) :
    List.Forall₂ (fun first second =>
      relation first second ∧ second ∈ seconds) firsts seconds := by
  induction related with
  | nil =>
      exact .nil
  | cons here later inductionHypothesis =>
      refine .cons ⟨here, List.mem_cons_self⟩ ?_
      apply inductionHypothesis.imp
      intro first second both
      exact ⟨both.1, List.mem_cons_of_mem _ both.2⟩

end Checks

section Dispatching

variable {chdirs : ShellWord → Bool} {vars : ShellVariables}
variable {args : List ShellWord}

/-- The entries behind the cut. -/
def cutArgv (args : List ShellWord) : Argv :=
  cutPipes (argvOf args) 0

theorem holdsWords_cutArgv
    (args : List ShellWord) :
    List.Forall₂ (HoldsWords (cutArgv args)) (0 :: pipeStarts args 0)
      (pieces args) := by
  apply holdsWords_pieces
  intro j _
  rw [Nat.zero_add]
  rfl

theorem findToken_neg_iff
    (short : args.length < MAX_ARGS)
    (token : ShellWord) :
    findToken (argvOf args) token < 0 ↔ token ∉ args :=
  findTokenLoop_neg_iff (holdsWords_argvOf args) (Nat.le_of_lt short) token

theorem splitPipeline_eq
    (short : args.length < MAX_ARGS)
    (some : args ≠ []) :
    splitPipeline (argvOf args) =
      if args.head? = Option.some pipeToken ∨
          args.getLast? = Option.some pipeToken then
        none
      else
        Option.some (cutArgv args, 0 :: pipeStarts args 0) := by
  obtain ⟨first, rest, rfl⟩ := List.exists_cons_of_ne_nil some
  have here : argvOf (first :: rest) 0 ≠ none := by
    simp [argvOf]
  have split :=
    splitLoop_eq MAX_ARGS [0]
      (holdsWords_argvOf (first :: rest))
      (by
        intro place above
        rw [Nat.zero_add] at above
        exact List.getElem?_eq_none above)
      (Nat.le_of_lt short)
      (by
        rw [List.length_singleton, MAX_STAGES]
        omega)
  rw [splitPipeline, if_neg here, split]
  simp only [true_and]
  rfl

theorem validate_eq
    (short : args.length < MAX_ARGS) :
    ((0 :: pipeStarts args 0).all fun start =>
        validateRedirections (cutArgv args) start) =
      (pieces args).all fun piece => !dangles piece := by
  have holds := forall₂_and_mem (holdsWords_cutArgv args)
  have lengths :
      ∀ piece ∈ pieces args, piece.length ≤ MAX_ARGS := fun piece member =>
    Nat.le_trans (length_le_of_mem_pieces member) (Nat.le_of_lt short)
  generalize 0 :: pipeStarts args 0 = starts at holds ⊢
  generalize pieces args = found at holds lengths ⊢
  have all :
      ∀ (starts : List Nat) (others : List (List ShellWord)),
        List.Forall₂ (fun start piece =>
          HoldsWords (cutArgv args) start piece ∧ piece ∈ found)
          starts others →
        (starts.all fun start => validateRedirections (cutArgv args) start) =
          others.all fun piece => !dangles piece := by
    intro starts others related
    induction related with
    | nil => rfl
    | cons here later inductionHypothesis =>
        rw [List.all_cons, List.all_cons, inductionHypothesis,
          validateRedirections,
          validateLoop_eq here.1 (lengths _ here.2)]
  exact all starts found holds

theorem dispatchCommand_cases
    (chdirs : ShellWord → Bool)
    (vars : ShellVariables)
    (short : args.length < MAX_ARGS)
    (some : args ≠ []) :
    (∃ status,
        dispatchCommand chdirs vars args = .builtin args status ∧
          pipeToken ∉ args ∧ ∀ token ∈ args, isRedirectToken token = false) ∨
      (dispatchCommand chdirs vars args = .refused ∧
        failsChecks args = true) ∨
      (dispatchCommand chdirs vars args =
          .launch (cutArgv args) (0 :: pipeStarts args 0) ∧
        failsChecks args = false) := by
  have positive : args.length ≠ 0 := fun zero =>
    some (List.length_eq_zero_iff.mp zero)
  unfold dispatchCommand
  dsimp only
  rw [if_neg positive]
  split
  · next status _ handled =>
      left
      split at handled
      · next absent =>
          simp only [findToken_neg_iff short] at absent
          refine ⟨status, rfl, absent.1, ?_⟩
          intro token member
          by_contra isRedirect
          rw [Bool.not_eq_false] at isRedirect
          simp only [isRedirectToken, Bool.or_eq_true, decide_eq_true_eq]
            at isRedirect
          rcases isRedirect with (rfl | rfl) | rfl
          · exact absent.2.1 member
          · exact absent.2.2.1 member
          · exact absent.2.2.2 member
      · cases handled
  · right
    rw [splitPipeline_eq short some]
    by_cases atEnd :
        args.head? = Option.some pipeToken ∨
          args.getLast? = Option.some pipeToken
    · rw [if_pos atEnd]
      refine Or.inl ⟨rfl, ?_⟩
      rcases atEnd with atHead | atLast
      · simp [failsChecks, atHead]
      · simp [failsChecks, atLast]
    · rw [if_neg atEnd]
      simp only [validate_eq short]
      rw [not_or] at atEnd
      by_cases fine : (pieces args).all (fun piece => !dangles piece) = true
      · rw [if_pos fine]
        refine Or.inr ⟨rfl, ?_⟩
        simpa [failsChecks, atEnd.1, atEnd.2] using fine
      · rw [if_neg fine]
        refine Or.inl ⟨rfl, ?_⟩
        simpa [failsChecks, atEnd.1, atEnd.2] using fine

theorem dispatchCommand_nil : dispatchCommand chdirs vars [] = .nothing :=
  rfl

theorem runsStage_of_wellFormed
    (short : args.length < MAX_ARGS)
    (wellFormed : WellFormed args) :
    List.Forall₂ (RunsStage (cutArgv args)) (0 :: pipeStarts args 0)
      (pieceStages args) := by
  rw [pieceStages, List.forall₂_map_right_iff]
  refine (forall₂_and_mem (holdsWords_cutArgv args)).imp ?_
  rintro start piece ⟨holds, member⟩
  have parses := parseStage_piece member (wellFormed piece member).2
  have within : piece.length ≤ MAX_ARGS :=
    Nat.le_trans (length_le_of_mem_pieces member) (Nat.le_of_lt short)
  constructor
  · rw [argvWords_eq holds within, (parseStage_sound parses).1]
  · intro opens
    have room : ([] : List ShellWord).length + piece.length ≤ MAX_ARGS := by
      rw [List.length_nil, Nat.zero_add]
      exact within
    exact childLoop_eq opens parses holds within room []

theorem pieces_of_runsStage
    {starts : List Nat}
    {stages : List (List StageItem)}
    (short : args.length < MAX_ARGS)
    (holds : List.Forall₂ (HoldsWords (cutArgv args)) starts (pieces args))
    (runs : List.Forall₂ (RunsStage (cutArgv args)) starts stages) :
    pieces args = stages.map stageTokens := by
  have lengths :
      ∀ piece ∈ pieces args, piece.length ≤ MAX_ARGS := fun piece member =>
    Nat.le_trans (length_le_of_mem_pieces member) (Nat.le_of_lt short)
  generalize pieces args = found at holds lengths ⊢
  induction runs generalizing found with
  | nil =>
      cases holds
      rfl
  | cons stageRuns _ inductionHypothesis =>
      cases holds with
      | cons here later =>
          rw [List.forall_mem_cons] at lengths
          rw [List.map_cons, ← inductionHypothesis _ later lengths.2,
            ← stageRuns.tokens, argvWords_eq here lengths.1]

theorem launch_iff
    {tokens : List ShellWord}
    (short : args.length < MAX_ARGS)
    (some : args ≠ []) :
    (∃ stages, IsPipeline tokens stages ∧
        List.Forall₂ (RunsStage (cutArgv args)) (0 :: pipeStarts args 0)
          stages) ↔
      args = tokens ∧ WellFormed args := by
  constructor
  · rintro ⟨stages, isPipeline, runs⟩
    have found :=
      pieces_of_runsStage short (holdsWords_cutArgv args) runs
    have same : args = tokens := by
      rw [isPipeline.tokens, ← found, pieces, List.intercalate_splitOn]
    subst same
    exact ⟨rfl, (inGrammar_iff some).mp ⟨stages, isPipeline⟩⟩
  · rintro ⟨rfl, wellFormed⟩
    exact ⟨pieceStages args, isPipeline_pieceStages wellFormed,
      runsStage_of_wellFormed short wellFormed⟩

theorem wellFormed_of_plain
    (some : args ≠ [])
    (noPipe : pipeToken ∉ args)
    (noRedirect : ∀ token ∈ args, isRedirectToken token = false) :
    WellFormed args := by
  have none :
      ∀ tokens : List ShellWord,
        (∀ token ∈ tokens, isRedirectToken token = false) →
        dangles tokens = false := by
    intro tokens plain
    induction tokens with
    | nil => rfl
    | cons token rest inductionHypothesis =>
        rw [List.forall_mem_cons] at plain
        simp only [dangles, plain.1, inductionHypothesis plain.2,
          Bool.false_and, Bool.false_or]
  intro piece member
  rw [pieces, List.splitOn_eq_singleton noPipe, List.mem_singleton] at member
  rw [member]
  exact ⟨some, none args noRedirect⟩

theorem followsGrammar_refused_iff
    {tokens : List ShellWord} :
    FollowsGrammar tokens .refused ↔ ¬ InGrammar tokens := by
  constructor
  · exact fun follows => follows.accepts rfl
  · intro outside
    exact {
      nothing := fun same => by cases same
      builtin := fun _ _ same => by cases same
      launch := fun _ _ same => by cases same
      refuses := fun _ => rfl
      accepts := fun _ => outside
    }

theorem followsGrammar_builtin_iff
    {tokens : List ShellWord}
    {status : Int} :
    FollowsGrammar tokens (.builtin args status) ↔
      args = tokens ∧ InGrammar tokens := by
  constructor
  · intro follows
    refine ⟨follows.builtin args status rfl, ?_⟩
    by_contra outside
    have refused := follows.refuses outside
    cases refused
  · rintro ⟨same, inside⟩
    exact {
      nothing := fun other => by cases other
      builtin := fun _ _ other => by
        cases other
        exact same
      launch := fun _ _ other => by cases other
      refuses := fun outside => absurd inside outside
      accepts := fun other => by cases other
    }

theorem followsGrammar_launch_iff
    {tokens : List ShellWord}
    {argv : Argv}
    {starts : List Nat} :
    FollowsGrammar tokens (.launch argv starts) ↔
      ∃ stages, IsPipeline tokens stages ∧
        List.Forall₂ (RunsStage argv) starts stages := by
  constructor
  · exact fun follows => follows.launch argv starts rfl
  · rintro ⟨stages, isPipeline, runs⟩
    exact {
      nothing := fun other => by cases other
      builtin := fun _ _ other => by cases other
      launch := fun _ _ other => by
        cases other
        exact ⟨stages, isPipeline, runs⟩
      refuses := fun outside => absurd ⟨stages, isPipeline⟩ outside
      accepts := fun other => by cases other
    }

theorem followsGrammar_iff_of_short
    (short : args.length < MAX_ARGS)
    (some : args ≠ []) :
    FollowsGrammar args (dispatchCommand chdirs vars args) ↔
      failsChecks args = true ∨ [] ∉ pieces args := by
  rcases dispatchCommand_cases chdirs vars short some
    with ⟨status, result, noPipe, noRedirect⟩ | ⟨result, fails⟩ |
      ⟨result, passes⟩
  · have wellFormed := wellFormed_of_plain some noPipe noRedirect
    rw [result, followsGrammar_builtin_iff, inGrammar_iff some]
    exact iff_of_true ⟨rfl, wellFormed⟩
      (Or.inr fun member => (wellFormed [] member).1 rfl)
  · rw [result, followsGrammar_refused_iff, inGrammar_iff some]
    exact iff_of_true (not_wellFormed_of_failsChecks fails) (Or.inl fails)
  · rw [result, followsGrammar_launch_iff, launch_iff short some,
      wellFormed_iff_of_passes passes, passes]
    simp

theorem followsGrammar_iff_of_cut
    {tokens : List ShellWord}
    (short : args.length < MAX_ARGS)
    (some : args ≠ [])
    (cut : args ≠ tokens) :
    FollowsGrammar tokens (dispatchCommand chdirs vars args) ↔
      failsChecks args = true ∧ ¬ InGrammar tokens := by
  rcases dispatchCommand_cases chdirs vars short some
    with ⟨status, result, noPipe, noRedirect⟩ | ⟨result, fails⟩ |
      ⟨result, passes⟩
  · have wellFormed := wellFormed_of_plain some noPipe noRedirect
    rw [result, followsGrammar_builtin_iff]
    exact iff_of_false (fun both => cut both.1)
      (fun both => not_wellFormed_of_failsChecks both.1 wellFormed)
  · rw [result, followsGrammar_refused_iff]
    exact ⟨fun outside => ⟨fails, outside⟩, fun both => both.2⟩
  · rw [result, followsGrammar_launch_iff, launch_iff short some, passes]
    exact iff_of_false (fun both => cut both.1)
      (fun both => Bool.false_ne_true both.1)

theorem followsGrammar_dispatchCommand_iff
    (tokens : List ShellWord) :
    FollowsGrammar tokens
        (dispatchCommand chdirs vars (tokens.take (MAX_ARGS - 1))) ↔
      TokensFit tokens := by
  unfold TokensFit
  by_cases fit : tokens.length < MAX_ARGS
  · rw [if_pos fit, List.take_of_length_le (Nat.le_sub_one_of_lt fit)]
    by_cases none : tokens = []
    · subst none
      have pipeline : IsPipeline [] [] := {
        tokens := rfl
        nonempty := by simp
        plain := by simp
      }
      rw [dispatchCommand_nil]
      refine iff_of_true ?_ (Or.inl rfl)
      exact {
        nothing := fun _ => rfl
        builtin := fun _ _ other => by cases other
        launch := fun _ _ other => by cases other
        refuses := fun outside => absurd ⟨[], pipeline⟩ outside
        accepts := fun other => by cases other
      }
    · rw [followsGrammar_iff_of_short fit none]
      simp only [none, false_or]
  · rw [if_neg fit]
    have length : (tokens.take (MAX_ARGS - 1)).length = MAX_ARGS - 1 := by
      rw [List.length_take, Nat.min_eq_left (by omega)]
    have whole : tokens ≠ [] := by
      rintro rfl
      exact fit (by decide)
    have short : (tokens.take (MAX_ARGS - 1)).length < MAX_ARGS := by
      rw [length]
      decide
    have some : tokens.take (MAX_ARGS - 1) ≠ [] := by
      intro none
      rw [none] at length
      exact absurd length (by decide)
    have cut : tokens.take (MAX_ARGS - 1) ≠ tokens := by
      intro same
      rw [same] at short
      exact fit short
    rw [followsGrammar_iff_of_cut short some cut, inGrammar_iff whole,
      ← isMalformed_eq_false_iff, Bool.not_eq_false]

end Dispatching

/-- A turn of the shell does with a line what the grammar asks for exactly if
the line's tokens fit. -/
theorem followsGrammar_runLine_iff
    (chdirs : ShellWord → Bool)
    (vars : ShellVariables)
    (line : ShellWord)
    (limit : line.length < LINE_SIZE) :
    FollowsGrammar (lineTokens vars line) (runLine chdirs vars line) ↔
      TokensFit (lineTokens vars line) := by
  rw [runLine, parseArgs_eq limit, List.map_take]
  exact followsGrammar_dispatchCommand_iff _

/-- It can be computed whether the tokens of a line fit. -/
instance (tokens : List ShellWord) : Decidable (TokensFit tokens) :=
  inferInstanceAs (Decidable (if tokens.length < MAX_ARGS then _ else _))

/-- The variables of a shell that has just begun. -/
def ShellVariables.initial : ShellVariables where
  pathValue := [47, 98, 105, 110, 58, 47]
  lastStatus := 0
  plain := by simp [isOperator]

/-- The line `cat < a | wc` is one that fits. -/
theorem followsGrammar_runLine_pipe :
    FollowsGrammar
      (lineTokens .initial
        [99, 97, 116, 32, 60, 32, 97, 32, 124, 32, 119, 99])
      (runLine (fun _ => true) .initial
        [99, 97, 116, 32, 60, 32, 97, 32, 124, 32, 119, 99]) :=
  (followsGrammar_runLine_iff (fun _ => true) .initial
    [99, 97, 116, 32, 60, 32, 97, 32, 124, 32, 119, 99]
    (by decide)).mpr (by decide)

/-- Of the line `a | | b` a child is forked for the empty stage. -/
theorem runLine_forks_empty_stage :
    ¬ FollowsGrammar
      (lineTokens .initial [97, 32, 124, 32, 124, 32, 98])
      (runLine (fun _ => true) .initial [97, 32, 124, 32, 124, 32, 98]) := by
  intro follows
  rw [runLine, parseArgs_eq (by decide), List.map_take] at follows
  have fits := (followsGrammar_dispatchCommand_iff _).mp follows
  exact absurd fits (by decide)

end MyOS
