import Mathlib.Data.Fintype.Card
import MyOS.BuildScheduleOrder

namespace MyOS

/-!
# Runs of the build tool

Each nested call of `build_target` visits one target more, so that a walk never
nests deeper than the table is long.  What a run of the tool completes follows
from the order in which its calls complete targets.
-/

section Returns

variable {W : Type} {answers : BuildAnswers W} {targets : List Target}

/-- Another call returns all that one returns. -/
def AtLeast (build build' : BuildCall W targets.length) : Prop :=
  ∀ j state result, build j state = some result → build' j state = some result

variable {build build' : BuildCall W targets.length}

theorem checkDependency_atLeast
    (more : AtLeast build build')
    {i : Fin targets.length}
    {dep : BuildText}
    {state : BuildState W targets.length}
    {result : Int × BuildState W targets.length}
    (returns :
      checkDependency answers targets build i dep state = some result) :
    checkDependency answers targets build' i dep state = some result := by
  unfold checkDependency at returns ⊢
  cases isDep : dependencyOf targets dep with
  | file path =>
      rw [isDep] at returns
      exact returns
  | missing =>
      rw [isDep] at returns
      exact returns
  | target j =>
      rw [isDep] at returns
      exact more j state result returns

theorem checkDependencyRange_atLeast
    (more : AtLeast build build')
    {i : Fin targets.length}
    {dep : BuildText}
    {state : BuildState W targets.length}
    {result : Int × BuildState W targets.length}
    (returns :
      checkDependencyRange answers targets build i dep state = some result) :
    checkDependencyRange answers targets build' i dep state =
      some result := by
  unfold checkDependencyRange at returns ⊢
  by_cases isEmpty : dep = []
  · rw [if_pos isEmpty] at returns ⊢
    exact returns
  by_cases isLong : DEP_CAP ≤ dep.length
  · rw [if_neg isEmpty, if_pos isLong] at returns ⊢
    exact returns
  rw [if_neg isEmpty, if_neg isLong] at returns ⊢
  exact checkDependency_atLeast more returns

theorem checkLoop_atLeast
    (more : AtLeast build build')
    {i : Fin targets.length}
    {deps : List BuildText}
    {state : BuildState W targets.length}
    {result : Int × BuildState W targets.length}
    (returns : checkLoop answers targets build i deps state = some result) :
    checkLoop answers targets build' i deps state = some result := by
  induction deps generalizing state with
  | nil =>
      exact returns
  | cons dep deps inductionHypothesis =>
      unfold checkLoop at returns ⊢
      cases checks :
          checkDependencyRange answers targets build i dep state with
      | none =>
          rw [checks] at returns
          cases returns
      | some middle =>
          rw [checkDependencyRange_atLeast more checks]
          rw [checks] at returns
          dsimp only at returns ⊢
          by_cases fails : middle.1 < 0
          · rw [if_pos fails] at returns ⊢
            exact returns
          · rw [if_neg fails] at returns ⊢
            exact inductionHypothesis returns

theorem checkDependencies_atLeast
    (more : AtLeast build build')
    {i : Fin targets.length}
    {state : BuildState W targets.length}
    {result : Int × BuildState W targets.length}
    (returns : checkDependencies answers targets build i state = some result) :
    checkDependencies answers targets build' i state = some result := by
  unfold checkDependencies at returns ⊢
  by_cases isNone : targets[i].deps = NO_DEPS
  · rw [if_pos isNone] at returns ⊢
    exact returns
  rw [if_neg isNone] at returns ⊢
  cases loops :
      checkLoop answers targets build i targets[i].depNames state with
  | none =>
      rw [loops] at returns
      cases returns
  | some middle =>
      rw [checkLoop_atLeast more loops]
      rw [loops] at returns
      exact returns

theorem buildTarget_succ
    (fuel : Nat) :
    AtLeast (buildTarget answers targets fuel)
      (buildTarget answers targets (fuel + 1)) := by
  induction fuel with
  | zero =>
      intro j state result returns
      cases returns
  | succ fuel inductionHypothesis =>
      intro j state result returns
      unfold buildTarget at returns ⊢
      by_cases isDone : state.done j = true
      · rw [if_pos isDone] at returns ⊢
        exact returns
      by_cases isVisited : state.visiting j = true
      · rw [if_neg isDone, if_pos isVisited] at returns ⊢
        exact returns
      rw [if_neg isDone, if_neg isVisited] at returns ⊢
      cases checks :
          checkDependencies answers targets
            (buildTarget answers targets fuel) j (state.visit j) with
      | none =>
          rw [checks] at returns
          cases returns
      | some middle =>
          rw [checkDependencies_atLeast inductionHypothesis checks]
          rw [checks] at returns
          exact returns

theorem buildTarget_mono
    {fuel fuel' : Nat}
    (more : fuel ≤ fuel') :
    AtLeast (buildTarget answers targets fuel)
      (buildTarget answers targets fuel') := by
  induction more with
  | refl =>
      exact fun _ _ _ returns => returns
  | step _ inductionHypothesis =>
      intro j state result returns
      exact buildTarget_succ _ j state result
        (inductionHypothesis j state result returns)

/-- How many targets are not visited. -/
def unvisited (state : BuildState W targets.length) : Nat :=
  (Finset.univ.filter fun i => state.visiting i = false).card

theorem unvisited_le
    (state : BuildState W targets.length) :
    unvisited state ≤ targets.length :=
  Nat.le_trans (Finset.card_filter_le _ _) (Nat.le_of_eq (Finset.card_fin _))

theorem unvisited_visit_lt
    {state : BuildState W targets.length}
    {i : Fin targets.length}
    (fresh : state.visiting i = false) :
    unvisited (state.visit i) < unvisited state := by
  apply Finset.card_lt_card
  refine ⟨?_, ?_⟩
  · intro j member
    rw [Finset.mem_filter] at member ⊢
    refine ⟨member.1, ?_⟩
    by_cases same : j = i
    · rw [same]
      exact fresh
    · rw [← member.2]
      exact (Function.update_of_ne same _ _).symm
  · intro inside
    have member :
        i ∈ Finset.univ.filter fun j => (state.visit i).visiting j = false :=
      inside (Finset.mem_filter.mpr ⟨Finset.mem_univ i, fresh⟩)
    rw [Finset.mem_filter] at member
    have marked : (state.visit i).visiting i = true :=
      Function.update_self ..
    rw [marked] at member
    exact absurd member.2.symm Bool.false_ne_true

theorem checkLoop_returns
    (marks : Fin targets.length → Bool)
    (spec : BuildSpec build)
    (calls :
      ∀ j state, BuildInvariant state → state.visiting = marks →
        ∃ result, build j state = some result)
    (i : Fin targets.length)
    (deps : List BuildText)
    {state : BuildState W targets.length}
    (invariant : BuildInvariant state)
    (same : state.visiting = marks) :
    ∃ result, checkLoop answers targets build i deps state = some result := by
  induction deps generalizing state with
  | nil =>
      exact ⟨_, rfl⟩
  | cons dep deps inductionHypothesis =>
      have first :
          ∃ result,
            checkDependencyRange answers targets build i dep state =
              some result := by
        unfold checkDependencyRange
        split
        · exact ⟨_, rfl⟩
        · split
          · exact ⟨_, rfl⟩
          · unfold checkDependency
            cases dependencyOf targets dep with
            | file path =>
                dsimp only
                split <;> exact ⟨_, rfl⟩
            | missing => exact ⟨_, rfl⟩
            | target j => exact calls j state invariant same
      obtain ⟨⟨status, middle⟩, checks⟩ := first
      unfold checkLoop
      rw [checks]
      dsimp only
      split
      · exact ⟨_, rfl⟩
      · have walked := (checkDependencyRange_spec spec invariant checks).1
        exact inductionHypothesis walked.invariant
          (walked.visiting.trans same)

theorem buildTarget_returns
    {fuel : Nat}
    {i : Fin targets.length}
    {state : BuildState W targets.length}
    (invariant : BuildInvariant state)
    (enough : unvisited state < fuel) :
    ∃ result, buildTarget answers targets fuel i state = some result := by
  induction fuel generalizing i state with
  | zero =>
      exact absurd enough (Nat.not_lt_zero _)
  | succ fuel inductionHypothesis =>
      unfold buildTarget
      by_cases isDone : state.done i = true
      · rw [if_pos isDone]
        exact ⟨_, rfl⟩
      rw [if_neg isDone]
      by_cases isVisited : state.visiting i = true
      · rw [if_pos isVisited]
        exact ⟨_, rfl⟩
      rw [if_neg isVisited]
      have fewer :
          unvisited (state.visit i) < unvisited state :=
        unvisited_visit_lt (by simpa using isVisited)
      have visited := invariant.visit (i := i) (by simpa using isDone)
      have checks :
          ∃ result,
            checkDependencies answers targets
              (buildTarget answers targets fuel) i (state.visit i) =
                some result := by
        unfold checkDependencies
        split
        · exact ⟨_, rfl⟩
        · have calls :
              ∀ j other, BuildInvariant other →
                other.visiting = (state.visit i).visiting →
                ∃ result,
                  buildTarget answers targets fuel j other = some result := by
            intro j other otherInvariant same
            apply inductionHypothesis otherInvariant
            have equal : unvisited other = unvisited (state.visit i) := by
              unfold unvisited
              rw [same]
            omega
          obtain ⟨⟨status, middle⟩, loops⟩ :=
            checkLoop_returns (state.visit i).visiting (buildTarget_spec fuel)
              calls i targets[i].depNames visited rfl
          rw [loops]
          dsimp only
          split <;> exact ⟨_, rfl⟩
      obtain ⟨⟨status, middle⟩, checked⟩ := checks
      rw [checked]
      dsimp only
      split <;> exact ⟨_, rfl⟩

theorem buildInvariant_start
    (world : W) :
    BuildInvariant (BuildState.start world : BuildState W targets.length) where
  done_iff := fun _ => iff_of_false Bool.false_ne_true List.not_mem_nil
  nodup := List.nodup_nil
  ordered := CompletionOrder.ordered_nil
  apart := fun _ _ => rfl

theorem BuildReached.invariant
    {world : W}
    {state : BuildState W targets.length}
    (reached : BuildReached answers targets world state) :
    BuildInvariant state ∧ ∀ i, state.visiting i = false := by
  induction reached with
  | start =>
      exact ⟨buildInvariant_start world, fun _ => rfl⟩
  | call _ returns inductionHypothesis =>
      have walked :=
        (buildTarget_spec _).walked _ _ _ _ inductionHypothesis.1 returns
      refine ⟨walked.invariant, ?_⟩
      rw [walked.visiting]
      exact inductionHypothesis.2

theorem BuildReached.returns
    {world : W}
    {state : BuildState W targets.length}
    (reached : BuildReached answers targets world state)
    (i : Fin targets.length) :
    ∃ status state', ∀ fuel, targets.length < fuel →
      buildTarget answers targets fuel i state = some (status, state') := by
  have terminates :
      ∃ result,
        buildTarget answers targets (targets.length + 1) i state =
          some result :=
    buildTarget_returns reached.invariant.1
      (Nat.lt_succ_of_le (unvisited_le state))
  obtain ⟨⟨status, state'⟩, returns⟩ := terminates
  exact ⟨status, state', fun fuel enough =>
    buildTarget_mono enough i state _ returns⟩

theorem groupLoop_returns
    {world : W}
    (group : BuildText)
    (rest : List (Fin targets.length))
    (built failed : Nat)
    {state : BuildState W targets.length}
    (reached : BuildReached answers targets world state) :
    ∃ status state',
      (∀ fuel, targets.length < fuel →
        groupLoop answers targets fuel group rest built failed state =
          some (status, state')) ∧
        BuildReached answers targets world state' := by
  induction rest generalizing built failed state with
  | nil =>
      exact ⟨_, state, fun _ _ => rfl, reached⟩
  | cons i rest inductionHypothesis =>
      unfold groupLoop
      by_cases other : targets[i].group ≠ group
      · simp only [if_pos other]
        exact inductionHypothesis built failed reached
      · simp only [if_neg other]
        obtain ⟨status, middle, returns⟩ := reached.returns i
        have next : BuildReached answers targets world middle :=
          .call reached (returns _ (Nat.lt_succ_self _))
        obtain ⟨last, final, goesOn, ends⟩ :=
          inductionHypothesis (built + 1)
            (if status < 0 then failed + 1 else failed) next
        refine ⟨last, final, ?_, ends⟩
        intro fuel enough
        rw [returns fuel enough]
        exact goesOn fuel enough

/-- How a call of `build_target` ends. -/
structure BuildOutcome
    (i : Fin targets.length)
    (state : BuildState W targets.length)
    (status : Int) : Prop where
  /-- All that the target needs was completed before it, once in the run. -/
  completes :
    status = 0 →
      (∀ j, Relation.ReflTransGen (Needs targets) i j →
        state.completed.count j = 1) ∧
      ∃ before behind, state.completed = before ++ i :: behind ∧
        ∀ j, Relation.TransGen (Needs targets) i j → j ∈ before
  cycle :
    (∃ j, Relation.ReflTransGen (Needs targets) i j ∧
      Relation.TransGen (Needs targets) j j) → status = -1
  unmarked : ∀ j, state.visiting j = false

theorem BuildReached.outcome
    {world : W}
    {fuel : Nat}
    {i : Fin targets.length}
    {state state' : BuildState W targets.length}
    {status : Int}
    (reached : BuildReached answers targets world state)
    (returns :
      buildTarget answers targets fuel i state = some (status, state')) :
    BuildOutcome i state' status := by
  obtain ⟨invariant, unmarked⟩ := reached.invariant
  have walked :=
    (buildTarget_spec fuel).walked i state status state' invariant returns
  have result :=
    (buildTarget_spec fuel).result i state status state' invariant returns
  have ordered := walked.invariant.ordered
  refine {
    completes := ?_
    cycle := ?_
    unmarked := by
      rw [walked.visiting]
      exact unmarked
  }
  · intro passes
    have member : i ∈ state'.completed := by
      rcases result with completes | fails
      · exact completes.2
      · rw [fails] at passes
        exact absurd passes (by decide)
    refine ⟨?_, ?_⟩
    · intro j needed
      exact List.count_eq_one_of_mem walked.invariant.nodup
        (ordered.mem_of_reflTransGen member needed)
    · obtain ⟨before, behind, split⟩ := List.append_of_mem member
      exact ⟨before, behind, split, fun j needed =>
        ordered.mem_of_transGen split needed⟩
  · rintro ⟨j, needed, cycle⟩
    rcases result with completes | fails
    · exact absurd cycle (ordered.acyclic completes.2 needed)
    · exact fails

theorem attempted_eq_completed
    {world : W}
    {fuel : Nat}
    {i : Fin targets.length}
    {state : BuildState W targets.length}
    (returns :
      buildTarget answers targets fuel i (BuildState.start world) =
        some (0, state)) :
    state.attempted = state.completed :=
  ((buildTarget_spec fuel).walked i _ 0 state (buildInvariant_start world)
    returns).attempts (Int.le_refl 0) rfl

end Returns

/-- Every call of `build_target` in a run, and every `build_group`, returns;
targets are completed once and behind what they need, cycles fail, no mark of a
visit stays; and `build_target` alone attempts every target once. -/
theorem buildTarget_schedules
    {W : Type}
    (answers : BuildAnswers W)
    (targets : List Target)
    (world : W) :
    (∀ state, BuildReached answers targets world state → ∀ i,
      ∃ status state',
        (∀ fuel, targets.length < fuel →
          buildTarget answers targets fuel i state =
            some (status, state')) ∧
          BuildOutcome i state' status) ∧
      (∀ group, ∃ status state',
        (∀ fuel, targets.length < fuel →
          buildGroup answers targets fuel group (BuildState.start world) =
            some (status, state')) ∧
          BuildReached answers targets world state' ∧
          ∀ j, state'.visiting j = false) ∧
      ∀ i fuel state,
        buildTarget answers targets fuel i (BuildState.start world) =
          some (0, state) →
        ∀ j, Relation.ReflTransGen (Needs targets) i j →
          state.attempted.count j = 1 := by
  refine ⟨?_, ?_, ?_⟩
  · intro state reached i
    obtain ⟨status, state', returns⟩ := reached.returns i
    exact ⟨status, state', returns,
      reached.outcome (returns _ (Nat.lt_succ_self _))⟩
  · intro group
    have begun :
        BuildReached answers targets world (BuildState.start world) :=
      .start
    obtain ⟨status, state', returns, reached⟩ :=
      groupLoop_returns group (List.finRange targets.length) 0 0 begun
    exact ⟨status, state', returns, reached, reached.invariant.2⟩
  · intro i fuel state returns j needed
    rw [attempted_eq_completed returns]
    exact ((BuildReached.start.outcome returns).completes rfl).1 j needed

/-- Every call that returns 0 has attempted each target once in the run. -/
def AttemptsOnce
    {W : Type}
    (answers : BuildAnswers W)
    (targets : List Target)
    (world : W) : Prop :=
  ∀ state, BuildReached answers targets world state →
    ∀ i fuel state', buildTarget answers targets fuel i state =
        some (0, state') →
      ∀ j, Relation.ReflTransGen (Needs targets) i j →
        state'.attempted.count j = 1

/-- Two members of a group that need one target: `a cc x a g @c`,
`b cc x b g @c`, `c cc x c h -`. -/
def sharedNeedText : BuildText :=
  [97, 32, 99, 99, 32, 120, 32, 97, 32, 103, 32, 64, 99, 10,
    98, 32, 99, 99, 32, 120, 32, 98, 32, 103, 32, 64, 99, 10,
    99, 32, 99, 99, 32, 120, 32, 99, 32, 104, 32, 45, 10]

/-- The table of the text. -/
def sharedNeed : List Target :=
  [⟨[97], RECIPE_CC, [120], [97], [103], [64, 99]⟩,
    ⟨[98], RECIPE_CC, [120], [98], [103], [64, 99]⟩,
    ⟨[99], RECIPE_CC, [120], [99], [104], NO_DEPS⟩]

/-- The first recipe fails, and every later one does not. -/
def firstFails : BuildAnswers Nat where
  fileExists := fun _ runs => (true, runs)
  targetCurrent := fun _ runs => (false, runs)
  runRecipe := fun _ runs => (if runs = 0 then -1 else 0, runs + 1)

/-- The need of both members is attempted for each of them, as it fails for
the first. -/
theorem sharedNeed_attempted_twice :
    parseBuildFile sharedNeedText MAX_TARGETS = some sharedNeed ∧
      ¬ AttemptsOnce firstFails sharedNeed 0 := by
  refine ⟨by decide, ?_⟩
  intro once
  let first : Fin sharedNeed.length := ⟨0, by decide⟩
  let second : Fin sharedNeed.length := ⟨1, by decide⟩
  let shared : Fin sharedNeed.length := ⟨2, by decide⟩
  let begun : BuildState Nat sharedNeed.length := .start 0
  let failed : BuildState Nat sharedNeed.length :=
    ((buildTarget firstFails sharedNeed 4 first begun).getD (0, begun)).2
  let built : BuildState Nat sharedNeed.length :=
    ((buildTarget firstFails sharedNeed 4 second failed).getD (0, begun)).2
  have fails :
      buildTarget firstFails sharedNeed 4 first begun = some (-1, failed) :=
    rfl
  have passes :
      buildTarget firstFails sharedNeed 4 second failed = some (0, built) :=
    rfl
  have needed : Needs sharedNeed second shared :=
    ⟨by decide, [64, 99], by decide, by decide⟩
  have attempts :=
    once failed (.call .start fails) second 4 built passes shared
      (Relation.ReflTransGen.single needed)
  exact absurd attempts (by decide)

end MyOS
