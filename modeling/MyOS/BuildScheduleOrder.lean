import MyOS.BuildSchedule
import MyOS.Lib.CompletionOrder

namespace MyOS

/-!
# In which order targets are completed

Every call of `build_target` returns, leaves the marks of visited targets as
they were, and completes targets only behind everything that they depend on.
-/

namespace BuildState

variable {W : Type} {count : Nat} {state : BuildState W count}

@[simp] theorem completed_print
    (event : BuildEvent count) :
    (state.print event).completed =
      state.completed ++ event.completes?.toList := by
  unfold completed print
  rw [List.filterMap_append]
  cases event <;> rfl

@[simp] theorem attempted_print
    (event : BuildEvent count) :
    (state.print event).attempted =
      state.attempted ++ event.attempts?.toList := by
  unfold attempted print
  rw [List.filterMap_append]
  cases event <;> rfl

@[simp] theorem completed_visit (i : Fin count) :
    (state.visit i).completed = state.completed := rfl

@[simp] theorem completed_leave (i : Fin count) :
    (state.leave i).completed = state.completed := rfl

@[simp] theorem completed_finish (i : Fin count) :
    (state.finish i).completed = state.completed := rfl

@[simp] theorem completed_withWorld (world : W) :
    (state.withWorld world).completed = state.completed := rfl

@[simp] theorem attempted_visit (i : Fin count) :
    (state.visit i).attempted = state.attempted := rfl

@[simp] theorem attempted_leave (i : Fin count) :
    (state.leave i).attempted = state.attempted := rfl

@[simp] theorem attempted_finish (i : Fin count) :
    (state.finish i).attempted = state.attempted := rfl

@[simp] theorem attempted_withWorld (world : W) :
    (state.withWorld world).attempted = state.attempted := rfl

end BuildState

section Calls

variable {W : Type} {answers : BuildAnswers W} {targets : List Target}

/-- What holds between the steps of a walk. -/
structure BuildInvariant
    (state : BuildState W targets.length) : Prop where
  done_iff : ∀ i, state.done i = true ↔ i ∈ state.completed
  nodup : state.completed.Nodup
  ordered : CompletionOrder.Ordered (Needs targets) state.completed
  apart : ∀ i, state.visiting i = true → state.done i = false

/-- What a part of a walk does: marks of visited targets stay, and no recipe
has failed unless the part fails. -/
structure Walked
    (state state' : BuildState W targets.length)
    (status : Int) : Prop where
  invariant : BuildInvariant state'
  visiting : state'.visiting = state.visiting
  kept : ∀ i, i ∈ state.completed → i ∈ state'.completed
  attempts :
    0 ≤ status → state.attempted = state.completed →
      state'.attempted = state'.completed

namespace Walked

variable {first second third : BuildState W targets.length}
variable {status status' : Int}

theorem rfl
    (invariant : BuildInvariant first) :
    Walked first first status where
  invariant := invariant
  visiting := Eq.refl _
  kept := fun _ member => member
  attempts := fun _ same => same

theorem trans
    (begins : Walked first second status)
    (goesOn : Walked second third status')
    (bothFail : 0 ≤ status' → 0 ≤ status) :
    Walked first third status' where
  invariant := goesOn.invariant
  visiting := goesOn.visiting.trans begins.visiting
  kept := fun i member => goesOn.kept i (begins.kept i member)
  attempts := fun passes same =>
    goesOn.attempts passes (begins.attempts (bothFail passes) same)

theorem fails
    (walked : Walked first second status)
    (negative : status' < 0) :
    Walked first second status' where
  invariant := walked.invariant
  visiting := walked.visiting
  kept := walked.kept
  attempts := fun passes => absurd negative (Int.not_lt.mpr passes)

end Walked

theorem BuildInvariant.print
    {state : BuildState W targets.length}
    (invariant : BuildInvariant state)
    (event : BuildEvent targets.length)
    (silent : event.completes? = none) :
    BuildInvariant (state.print event) := by
  have same : (state.print event).completed = state.completed := by
    rw [BuildState.completed_print, silent]
    exact List.append_nil _
  exact {
    done_iff := fun i => by rw [same]; exact invariant.done_iff i
    nodup := by rw [same]; exact invariant.nodup
    ordered := by rw [same]; exact invariant.ordered
    apart := invariant.apart
  }

theorem walked_print
    {state : BuildState W targets.length}
    {event : BuildEvent targets.length}
    (invariant : BuildInvariant state)
    (silent : event.completes? = none) :
    Walked state (state.print event) (-1) where
  invariant := invariant.print event silent
  visiting := rfl
  kept := fun i member => by
    rw [BuildState.completed_print]
    exact List.mem_append_left _ member
  attempts := fun passes => absurd passes (by decide)

theorem walked_withWorld
    {state : BuildState W targets.length}
    (invariant : BuildInvariant state)
    (world : W)
    (status : Int) :
    Walked state (state.withWorld world) status where
  invariant := {
    done_iff := invariant.done_iff
    nodup := invariant.nodup
    ordered := invariant.ordered
    apart := invariant.apart
  }
  visiting := rfl
  kept := fun _ member => member
  attempts := fun _ same => same

/-- What every call of `build_target` does. -/
structure BuildSpec (build : BuildCall W targets.length) : Prop where
  walked :
    ∀ j state status state', BuildInvariant state →
      build j state = some (status, state') → Walked state state' status
  result :
    ∀ j state status state', BuildInvariant state →
      build j state = some (status, state') →
      (status = 0 ∧ j ∈ state'.completed) ∨ status = -1

variable {build : BuildCall W targets.length}

theorem checkDependency_spec
    {i : Fin targets.length}
    {dep : BuildText}
    {state state' : BuildState W targets.length}
    {status : Int}
    (spec : BuildSpec build)
    (invariant : BuildInvariant state)
    (returns :
      checkDependency answers targets build i dep state =
        some (status, state')) :
    Walked state state' status ∧
      ∀ j, dependencyOf targets dep = .target j → 0 ≤ status →
        j ∈ state'.completed := by
  unfold checkDependency at returns
  cases isDep : dependencyOf targets dep with
  | file path =>
      rw [isDep] at returns
      dsimp only at returns
      refine ⟨?_, fun j other => by cases other⟩
      split at returns
      · cases returns
        exact walked_withWorld invariant _ _
      · cases returns
        have moved := walked_withWorld invariant
          (answers.fileExists path state.world).2 (-1)
        exact moved.trans (walked_print moved.invariant rfl) id
  | missing =>
      rw [isDep] at returns
      cases returns
      exact ⟨walked_print invariant rfl, fun j other => by cases other⟩
  | target j =>
      rw [isDep] at returns
      refine ⟨spec.walked j state status state' invariant returns, ?_⟩
      intro k same passes
      cases same
      rcases spec.result j state status state' invariant returns with
        completes | fails
      · exact completes.2
      · rw [fails] at passes
        exact absurd passes (by decide)

theorem checkDependencyRange_spec
    {i : Fin targets.length}
    {dep : BuildText}
    {state state' : BuildState W targets.length}
    {status : Int}
    (spec : BuildSpec build)
    (invariant : BuildInvariant state)
    (returns :
      checkDependencyRange answers targets build i dep state =
        some (status, state')) :
    Walked state state' status ∧
      ∀ j, dependencyOf targets dep = .target j → 0 ≤ status →
        j ∈ state'.completed := by
  unfold checkDependencyRange at returns
  split at returns
  · next none =>
      cases returns
      refine ⟨.rfl invariant, fun j other => ?_⟩
      rw [none] at other
      cases other
  · split at returns
    · cases returns
      exact ⟨walked_print invariant rfl,
        fun j _ passes => absurd passes (by decide)⟩
    · exact checkDependency_spec spec invariant returns

theorem checkLoop_spec
    {i : Fin targets.length}
    {deps : List BuildText}
    {state state' : BuildState W targets.length}
    {status : Int}
    (spec : BuildSpec build)
    (invariant : BuildInvariant state)
    (returns :
      checkLoop answers targets build i deps state = some (status, state')) :
    Walked state state' status ∧
      (0 ≤ status → ∀ dep ∈ deps, ∀ j,
        dependencyOf targets dep = .target j → j ∈ state'.completed) := by
  induction deps generalizing state with
  | nil =>
      cases returns
      exact ⟨.rfl invariant, fun _ dep member => absurd member
        List.not_mem_nil⟩
  | cons dep deps inductionHypothesis =>
      unfold checkLoop at returns
      split at returns
      · cases returns
      · next first middle checks =>
          obtain ⟨walked, here⟩ :=
            checkDependencyRange_spec spec invariant checks
          split at returns
          · cases returns
            exact ⟨walked.fails (by decide),
              fun passes => absurd passes (by decide)⟩
          · next passed =>
              obtain ⟨goesOn, later⟩ :=
                inductionHypothesis walked.invariant returns
              have passed : 0 ≤ first := Int.not_lt.mp passed
              refine ⟨walked.trans goesOn fun _ => passed, ?_⟩
              intro passes
              rw [List.forall_mem_cons]
              exact ⟨fun j isTarget => goesOn.kept j (here j isTarget passed),
                later passes⟩

theorem checkDependencies_spec
    {i : Fin targets.length}
    {state state' : BuildState W targets.length}
    {status : Int}
    (spec : BuildSpec build)
    (invariant : BuildInvariant state)
    (returns :
      checkDependencies answers targets build i state =
        some (status, state')) :
    Walked state state' status ∧
      (0 ≤ status → ∀ j, Needs targets i j → j ∈ state'.completed) := by
  unfold checkDependencies at returns
  split at returns
  · next isNone =>
      cases returns
      exact ⟨.rfl invariant, fun _ j needs => absurd isNone needs.1⟩
  · split at returns
    · cases returns
    · next first middle loops =>
        obtain ⟨walked, targetsDone⟩ := checkLoop_spec spec invariant loops
        split at returns
        · cases returns
          exact ⟨walked.fails (by decide),
            fun passes => absurd passes (by decide)⟩
        · next passed =>
            have passed : 0 ≤ first := Int.not_lt.mp passed
            cases returns
            split
            · exact ⟨walked.fails (by decide),
                fun passes => absurd passes (by decide)⟩
            · refine ⟨walked.trans (.rfl walked.invariant) fun _ => passed, ?_⟩
              rintro _ j ⟨_, dep, member, isTarget⟩
              exact targetsDone passed dep member j isTarget

theorem BuildInvariant.visit
    {state : BuildState W targets.length}
    {i : Fin targets.length}
    (invariant : BuildInvariant state)
    (open_ : state.done i = false) :
    BuildInvariant (state.visit i) where
  done_iff := invariant.done_iff
  nodup := invariant.nodup
  ordered := invariant.ordered
  apart := by
    intro j isVisited
    by_cases same : j = i
    · rw [same]
      exact open_
    · apply invariant.apart
      rw [← isVisited]
      exact (Function.update_of_ne same _ _).symm

theorem BuildInvariant.leave
    {state : BuildState W targets.length}
    (invariant : BuildInvariant state)
    (i : Fin targets.length) :
    BuildInvariant (state.leave i) where
  done_iff := invariant.done_iff
  nodup := invariant.nodup
  ordered := invariant.ordered
  apart := by
    intro j isVisited
    by_cases same : j = i
    · rw [same] at isVisited
      have left : (state.leave i).visiting i = false := Function.update_self ..
      rw [left] at isVisited
      cases isVisited
    · apply invariant.apart
      rw [← isVisited]
      exact (Function.update_of_ne same _ _).symm

theorem BuildInvariant.finish
    {state : BuildState W targets.length}
    {event : BuildEvent targets.length}
    {i : Fin targets.length}
    (invariant : BuildInvariant state)
    (isVisited : state.visiting i = true)
    (ready : ∀ j, Needs targets i j → j ∈ state.completed)
    (completes : event.completes? = some i) :
    BuildInvariant ((state.print event).finish i) := by
  have more :
      ((state.print event).finish i).completed = state.completed ++ [i] := by
    rw [BuildState.completed_finish, BuildState.completed_print, completes]
    rfl
  have absent : i ∉ state.completed := by
    rw [← invariant.done_iff, invariant.apart i isVisited]
    exact Bool.false_ne_true
  constructor
  · intro j
    rw [more, List.mem_append, List.mem_singleton]
    by_cases same : j = i
    · rw [same]
      exact iff_of_true (Function.update_self ..) (Or.inr rfl)
    · rw [← invariant.done_iff]
      have old : ((state.print event).finish i).done j = state.done j :=
        Function.update_of_ne same _ _
      rw [old]
      exact ⟨Or.inl, fun found => found.resolve_right same⟩
  · rw [more]
    exact List.Nodup.append invariant.nodup (List.nodup_singleton i)
      (by simpa using absent)
  · rw [more]
    exact invariant.ordered.concat ready
  · intro j stillVisited
    by_cases same : j = i
    · rw [same] at stillVisited
      have left : ((state.print event).finish i).visiting i = false :=
        Function.update_self ..
      rw [left] at stillVisited
      cases stillVisited
    · have before : state.visiting j = true := by
        rw [← stillVisited]
        exact (Function.update_of_ne same _ _).symm
      rw [← invariant.apart j before]
      exact Function.update_of_ne same _ _

/-- What `build_target` does with the target itself. -/
structure BuiltItself
    (i : Fin targets.length)
    (state state' : BuildState W targets.length)
    (status : Int) : Prop where
  invariant : BuildInvariant state'
  visiting : state'.visiting = Function.update state.visiting i false
  kept : ∀ j, j ∈ state.completed → j ∈ state'.completed
  attempts :
    0 ≤ status → state.attempted = state.completed →
      state'.attempted = state'.completed
  result : (status = 0 ∧ i ∈ state'.completed) ∨ status = -1

theorem buildItself_spec
    {i : Fin targets.length}
    {state state' : BuildState W targets.length}
    {status : Int}
    (invariant : BuildInvariant state)
    (isVisited : state.visiting i = true)
    (ready : ∀ j, Needs targets i j → j ∈ state.completed)
    (returns : buildItself answers targets i state = (status, state')) :
    BuiltItself i state state' status := by
  unfold buildItself at returns
  dsimp only at returns
  have looked :=
    (walked_withWorld invariant
      (answers.targetCurrent targets[i] state.world).2 0).invariant
  split at returns
  · cases returns
    exact {
      invariant := looked.finish isVisited ready rfl
      visiting := rfl
      kept := fun j member => by simp [member]
      attempts := fun _ same => by
        simp [BuildEvent.attempts?, BuildEvent.completes?, same]
      result := Or.inl ⟨rfl, by simp [BuildEvent.completes?]⟩
    }
  · have ran :=
      (walked_withWorld looked
        (answers.runRecipe targets[i]
          (answers.targetCurrent targets[i] state.world).2).2 0).invariant
    split at returns
    · next passes =>
        cases returns
        exact {
          invariant :=
            (ran.print (.recipe i _) rfl).finish isVisited
              (fun j needs => by
                simpa [BuildEvent.completes?] using ready j needs) rfl
          visiting := rfl
          kept := fun j member => by simp [member]
          attempts := fun _ same => by
            simp [BuildEvent.attempts?, BuildEvent.completes?, same]
          result := Or.inl ⟨rfl, by simp [BuildEvent.completes?]⟩
        }
    · cases returns
      exact {
        invariant :=
          ((ran.print (.recipe i _) rfl).print (.fail i) rfl).leave i
        visiting := rfl
        kept := fun j member => by simp [member]
        attempts := fun passes => absurd passes (by decide)
        result := Or.inr rfl
      }

theorem buildTarget_spec
    (fuel : Nat) :
    BuildSpec (buildTarget answers targets fuel) := by
  induction fuel with
  | zero =>
      constructor <;> intro j state status state' _ returns <;> cases returns
  | succ fuel inductionHypothesis =>
      have both :
          ∀ i state status state', BuildInvariant state →
            buildTarget answers targets (fuel + 1) i state =
              some (status, state') →
            Walked state state' status ∧
              ((status = 0 ∧ i ∈ state'.completed) ∨ status = -1) := by
        intro i state status state' invariant returns
        unfold buildTarget at returns
        by_cases isDone : state.done i = true
        · rw [if_pos isDone] at returns
          cases returns
          exact ⟨.rfl invariant,
            Or.inl ⟨rfl, (invariant.done_iff i).mp isDone⟩⟩
        rw [if_neg isDone] at returns
        have open_ : state.done i = false := by simpa using isDone
        by_cases isVisited : state.visiting i = true
        · rw [if_pos isVisited] at returns
          cases returns
          exact ⟨walked_print invariant rfl, Or.inr rfl⟩
        rw [if_neg isVisited] at returns
        have restored :
            Function.update (state.visit i).visiting i false =
              state.visiting := by
          rw [BuildState.visit, Function.update_idem,
            Function.update_eq_self_iff]
          simpa using isVisited
        split at returns
        · cases returns
        · next first middle checks =>
            obtain ⟨walked, needed⟩ :=
              checkDependencies_spec inductionHypothesis
                (invariant.visit open_) checks
            split at returns
            · cases returns
              refine ⟨?_, Or.inr rfl⟩
              exact {
                invariant := (walked.invariant.print (.fail i) rfl).leave i
                visiting := by
                  rw [← restored, ← walked.visiting]
                  rfl
                kept := fun j member => by
                  simpa [BuildEvent.completes?] using walked.kept j member
                attempts := fun passes => absurd passes (by decide)
              }
            · next passed =>
                have passed : 0 ≤ first := Int.not_lt.mp passed
                have mark : middle.visiting i = true := by
                  rw [walked.visiting]
                  exact Function.update_self ..
                have built :=
                  buildItself_spec walked.invariant mark (needed passed)
                    (Option.some.inj returns)
                refine ⟨?_, built.result⟩
                exact {
                  invariant := built.invariant
                  visiting := by
                    rw [built.visiting, walked.visiting, restored]
                  kept := fun j member => built.kept j (walked.kept j member)
                  attempts := fun passes same =>
                    built.attempts passes (walked.attempts passed same)
                }
      exact {
        walked := fun i state status state' invariant returns =>
          (both i state status state' invariant returns).1
        result := fun i state status state' invariant returns =>
          (both i state status state' invariant returns).2
      }

end Calls

end MyOS
