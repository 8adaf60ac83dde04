import Mathlib.Logic.Function.Basic

namespace MyOS.Lib

/-!
# Routines that wait

A routine runs on a shared state until it ends, faults, or waits.  At a wait it
gives the state away and goes on later in whatever state it then finds.  Run
alone, a routine is a partial function on states; interleaved with others, it
is a list of segments, each of which has to leave an invariant behind.
-/

/-- What a routine has come to at the end of a segment. -/
inductive Outcome (Fault State Result : Type) where
  | done (state : State) (result : Result)
  | fault (state : State) (reason : Fault)
  | wait (state : State) (resume : State → Outcome Fault State Result)

/-- A routine: what its first segment does in a given state. -/
def Routine (Fault State Result : Type) : Type :=
  State → Outcome Fault State Result

variable {Fault State Result Next : Type}

namespace Outcome

/-- Continue with a second routine where the first one ends. -/
def bind
    (next : Result → Routine Fault State Next) :
    Outcome Fault State Result → Outcome Fault State Next
  | done state result => next result state
  | fault state reason => fault state reason
  | wait state resume => wait state (fun later => (resume later).bind next)

theorem bind_done
    (outcome : Outcome Fault State Result) :
    (outcome.bind fun result state => done state result) = outcome := by
  induction outcome with
  | done state result =>
      rfl
  | fault state reason =>
      rfl
  | wait state resume inductionHypothesis =>
      exact congrArg (wait state) (funext inductionHypothesis)

theorem bind_assoc
    {Last : Type}
    {next : Result → Routine Fault State Next}
    {last : Next → Routine Fault State Last}
    (outcome : Outcome Fault State Result) :
    (outcome.bind next).bind last =
      outcome.bind fun result state => (next result state).bind last := by
  induction outcome with
  | done state result =>
      rfl
  | fault state reason =>
      rfl
  | wait state resume inductionHypothesis =>
      exact congrArg (wait state) (funext inductionHypothesis)

/-- Run to the end without interference: waits end in the state they left. -/
def finish :
    Outcome Fault State Result → Except (State × Fault) (State × Result)
  | done state result => .ok (state, result)
  | fault state reason => .error (state, reason)
  | wait state resume => (resume state).finish

end Outcome

namespace Routine

instance : Monad (Routine Fault State) where
  pure result := fun state => .done state result
  bind first next := fun state => (first state).bind next

instance : LawfulMonad (Routine Fault State) :=
  LawfulMonad.mk' (Routine Fault State)
    (fun routine => funext fun state => Outcome.bind_done (routine state))
    (fun _ _ => rfl)
    (fun routine _ _ => funext fun state => Outcome.bind_assoc (routine state))

/-- The current state. -/
def get : Routine Fault State State :=
  fun state => .done state state

/-- Read something off the current state. -/
def gets (read : State → Result) : Routine Fault State Result :=
  fun state => .done state (read state)

/-- Change the state. -/
def modify (change : State → State) : Routine Fault State Unit :=
  fun state => .done (change state) ()

/-- Give up, for ever. -/
def fault (reason : Fault) : Routine Fault State Result :=
  fun state => .fault state reason

/-- Wait once. -/
def yield : Routine Fault State Unit :=
  fun state => .wait state (fun later => .done later ())

/-- Do something for every member of a list, in its order. -/
def forEach
    {Item : Type}
    (body : Item → Routine Fault State Unit) :
    List Item → Routine Fault State Unit
  | [] => pure ()
  | item :: items => do
      body item
      forEach body items

/-- Run to the end without interference. -/
def run
    (routine : Routine Fault State Result)
    (state : State) :
    Except (State × Fault) (State × Result) :=
  (routine state).finish

end Routine

/-!
## Routines on a component
-/

section Component

variable {Whole : Type}

/--
A component of a larger state, with the two equations that later readings of
the state rest on.
-/
structure Component (Whole State : Type) where
  read : Whole → State
  write : State → Whole → Whole
  read_write : ∀ state whole, read (write state whole) = state
  write_read : ∀ whole, write (read whole) whole = whole

/-- An outcome on a component, seen on the larger state. -/
def Outcome.within
    (component : Component Whole State) :
    Outcome Fault State Result → Whole → Outcome Fault Whole Result
  | done state result, whole =>
      done (component.write state whole) result
  | fault state reason, whole =>
      fault (component.write state whole) reason
  | wait state resume, whole =>
      wait (component.write state whole)
        (fun later => (resume (component.read later)).within component later)

/-- A routine on a component leaves the rest of the larger state alone. -/
def Routine.within
    (component : Component Whole State)
    (routine : Routine Fault State Result) :
    Routine Fault Whole Result :=
  fun whole => (routine (component.read whole)).within component whole

end Component

/-!
## Running alone
-/

namespace Outcome

/-- An outcome run alone ends as required, or in a tolerated fault. -/
def Ends
    (tolerated : State → Fault → Prop)
    (post : Result → State → Prop)
    (outcome : Outcome Fault State Result) : Prop :=
  match outcome.finish with
  | .ok (state, result) => post result state
  | .error (state, reason) => tolerated state reason

variable {tolerated : State → Fault → Prop}

theorem Ends.bind
    {post : Next → State → Prop}
    {next : Result → Routine Fault State Next}
    {outcome : Outcome Fault State Result}
    (first :
      outcome.Ends tolerated
        (fun result state => (next result state).Ends tolerated post)) :
    (outcome.bind next).Ends tolerated post := by
  induction outcome with
  | done state result =>
      exact first
  | fault state reason =>
      exact first
  | wait state resume inductionHypothesis =>
      exact inductionHypothesis state first

theorem Ends.mono
    {post weaker : Result → State → Prop}
    {outcome : Outcome Fault State Result}
    (ends : outcome.Ends tolerated post)
    (implies : ∀ result state, post result state → weaker result state) :
    outcome.Ends tolerated weaker := by
  induction outcome with
  | done state result =>
      exact implies result state ends
  | fault state reason =>
      exact ends
  | wait state resume inductionHypothesis =>
      exact inductionHypothesis state ends

theorem Ends.and
    {first second : Result → State → Prop}
    {outcome : Outcome Fault State Result}
    (meetsFirst : outcome.Ends tolerated first)
    (meetsSecond : outcome.Ends tolerated second) :
    outcome.Ends tolerated
      (fun result state => first result state ∧ second result state) := by
  induction outcome with
  | done state result =>
      exact ⟨meetsFirst, meetsSecond⟩
  | fault state reason =>
      exact meetsFirst
  | wait state resume inductionHypothesis =>
      exact inductionHypothesis state meetsFirst meetsSecond

theorem Ends.ok
    {post : Result → State → Prop}
    {outcome : Outcome Fault State Result}
    {state : State}
    {result : Result}
    (ends : outcome.Ends tolerated post)
    (finish : outcome.finish = .ok (state, result)) :
    post result state := by
  unfold Ends at ends
  rw [finish] at ends
  exact ends

theorem Ends.error
    {post : Result → State → Prop}
    {outcome : Outcome Fault State Result}
    {state : State}
    {reason : Fault}
    (ends : outcome.Ends tolerated post)
    (finish : outcome.finish = .error (state, reason)) :
    tolerated state reason := by
  unfold Ends at ends
  rw [finish] at ends
  exact ends

theorem ends_trivially (outcome : Outcome Fault State Result) :
    outcome.Ends (fun _ _ => True) (fun _ _ => True) := by
  unfold Ends
  split
  · exact True.intro
  · exact True.intro

theorem Ends.within
    {Whole : Type}
    {component : Component Whole State}
    {lenient : Whole → Fault → Prop}
    {post : Result → State → Prop}
    {outcome : Outcome Fault State Result}
    {whole : Whole}
    (ends : outcome.Ends tolerated post)
    (write_write :
      ∀ first second,
        component.write second (component.write first whole) =
          component.write second whole)
    (implies :
      ∀ state reason, tolerated state reason →
        lenient (component.write state whole) reason) :
    (outcome.within component whole).Ends lenient
      (fun result later =>
        ∃ state, post result state ∧ later = component.write state whole) := by
  induction outcome generalizing whole with
  | done state result =>
      exact ⟨state, ends, rfl⟩
  | fault state reason =>
      exact implies state reason ends
  | wait state resume inductionHypothesis =>
      have later :
          ((resume (component.read (component.write state whole))).within
              component (component.write state whole)).Ends lenient
            (fun result later =>
              ∃ last, post result last ∧
                later = component.write last (component.write state whole)) := by
        rw [component.read_write]
        apply inductionHypothesis state ends
        · intro first second
          rw [write_write, write_write, write_write]
        · intro last reason isTolerated
          rw [write_write]
          exact implies last reason isTolerated
      apply Ends.mono later
      intro result last ⟨inner, holds, same⟩
      refine ⟨inner, holds, ?_⟩
      rw [same, write_write]

end Outcome

namespace Routine

variable {tolerated : State → Fault → Prop}
variable {post : Next → State → Prop}
variable {state : State}

theorem ends_bind
    {first : Routine Fault State Result}
    {next : Result → Routine Fault State Next}
    {middle : Result → State → Prop}
    (ends : (first state).Ends tolerated middle)
    (rest :
      ∀ result later, middle result later →
        (next result later).Ends tolerated post) :
    ((first >>= next) state).Ends tolerated post := by
  apply Outcome.Ends.bind
  exact ends.mono rest

theorem ends_step
    {first : Routine Fault State Result}
    {next : Result → Routine Fault State Next}
    {changed : State}
    {result : Result}
    (step :
      (first state).Ends tolerated
        (fun value later => later = changed ∧ value = result))
    (rest : (next result changed).Ends tolerated post) :
    ((first >>= next) state).Ends tolerated post := by
  apply ends_bind step
  intro value later ⟨isChanged, isResult⟩
  rw [isChanged, isResult]
  exact rest

theorem ends_done
    {first : Routine Fault State Result}
    {next : Result → Routine Fault State Next}
    {changed : State}
    {result : Result}
    (isDone : first state = .done changed result)
    (rest : (next result changed).Ends tolerated post) :
    ((first >>= next) state).Ends tolerated post := by
  have unfolded : (first >>= next) state = (first state).bind next := rfl
  rw [unfolded, isDone]
  exact rest

theorem ends_get
    {next : State → Routine Fault State Next}
    (rest : (next state state).Ends tolerated post) :
    ((Routine.get >>= next) state).Ends tolerated post :=
  rest

theorem ends_gets
    {read : State → Result}
    {next : Result → Routine Fault State Next}
    (rest : (next (read state) state).Ends tolerated post) :
    ((Routine.gets read >>= next) state).Ends tolerated post :=
  rest

theorem ends_modify
    {change : State → State}
    {next : Unit → Routine Fault State Next}
    (rest : (next () (change state)).Ends tolerated post) :
    ((Routine.modify change >>= next) state).Ends tolerated post :=
  rest

theorem ends_pure
    {result : Result}
    {next : Result → Routine Fault State Next}
    (rest : (next result state).Ends tolerated post) :
    (((pure result : Routine Fault State Result) >>= next) state).Ends
      tolerated post :=
  rest

theorem ends_forEach
    {Item : Type}
    {body : Item → Routine Fault State Unit}
    {items : List Item}
    (invariant : List Item → State → Prop)
    (start : invariant [] state)
    (turn :
      ∀ (before : List Item) (item : Item) (later : State),
        item ∈ items → invariant before later →
          (body item later).Ends tolerated
            (fun _ last => invariant (before ++ [item]) last)) :
    (Routine.forEach body items state).Ends tolerated
      (fun _ last => invariant items last) := by
  have go :
      ∀ (rest before : List Item) (current : State),
        before ++ rest = items → invariant before current →
          (Routine.forEach body rest current).Ends tolerated
            (fun _ last => invariant items last) := by
    intro rest
    induction rest with
    | nil =>
        intro before current whole holds
        rw [List.append_nil] at whole
        exact whole ▸ holds
    | cons item rest inductionHypothesis =>
        intro before current whole holds
        have member : item ∈ items := by
          rw [← whole]
          exact List.mem_append_right before List.mem_cons_self
        apply ends_bind (turn before item current member holds)
        intro _ later holdsLater
        apply inductionHypothesis (before ++ [item]) later _ holdsLater
        rw [List.append_assoc]
        exact whole
  exact go items [] state rfl start

end Routine

/-!
## Running interleaved
-/

/--
What the segments of one thread are held to: the invariant they leave behind,
what is known when one starts, the part of the state that nobody else changes,
the segments that count at all, and what a segment may change.
-/
structure Discipline (State View : Type) where
  invariant : State → Prop
  fresh : State → Prop
  view : State → View
  permitted : State → State → Prop
  frame : State → State → Prop

namespace Outcome

variable {View : Type}

/--
Every wait leaves the invariant behind, as long as the segments are permitted,
and the end meets the postcondition.  Both see the state in which the segment
started.
-/
def Keeps
    (discipline : Discipline State View)
    (post : State → Result → State → Prop) :
    State → Outcome Fault State Result → Prop
  | start, done state result =>
      post start result state
  | _, fault _ _ =>
      True
  | start, wait state resume =>
      discipline.permitted start state →
        discipline.invariant state ∧
        discipline.frame start state ∧
        ∀ later,
          discipline.invariant later →
          discipline.fresh later →
          discipline.view later = discipline.view state →
          (resume later).Keeps discipline post later

variable {discipline : Discipline State View}

theorem Keeps.bind
    {post : State → Next → State → Prop}
    {next : Result → Routine Fault State Next}
    {outcome : Outcome Fault State Result}
    {start : State}
    (first :
      outcome.Keeps discipline
        (fun start result state =>
          (next result state).Keeps discipline post start)
        start) :
    (outcome.bind next).Keeps discipline post start := by
  induction outcome generalizing start with
  | done state result =>
      exact first
  | fault state reason =>
      exact True.intro
  | wait state resume inductionHypothesis =>
      intro permitted
      obtain ⟨invariant, frame, goesOn⟩ := first permitted
      refine ⟨invariant, frame, ?_⟩
      intro later holds fresh same
      exact inductionHypothesis later (goesOn later holds fresh same)

theorem Keeps.mono
    {post weaker : State → Result → State → Prop}
    {outcome : Outcome Fault State Result}
    {start : State}
    (keeps : outcome.Keeps discipline post start)
    (implies :
      ∀ start result state,
        post start result state → weaker start result state) :
    outcome.Keeps discipline weaker start := by
  induction outcome generalizing start with
  | done state result =>
      exact implies start result state keeps
  | fault state reason =>
      exact True.intro
  | wait state resume inductionHypothesis =>
      intro permitted
      obtain ⟨invariant, frame, goesOn⟩ := keeps permitted
      refine ⟨invariant, frame, ?_⟩
      intro later holds fresh same
      exact inductionHypothesis later (goesOn later holds fresh same)

theorem Keeps.within
    {Whole : Type}
    {discipline : Discipline Whole View}
    {component : Component Whole State}
    {post : Whole → Result → Whole → Prop}
    {outcome : Outcome Fault State Result}
    {start whole : Whole}
    (blind :
      ∀ state whole,
        discipline.invariant whole →
        discipline.invariant (component.write state whole))
    (blindView :
      ∀ state whole,
        discipline.view (component.write state whole) =
          discipline.view whole)
    (blindPermitted :
      ∀ start state whole,
        discipline.permitted start (component.write state whole) →
        discipline.permitted start whole)
    (blindFrame :
      ∀ start state whole,
        discipline.frame start whole →
        discipline.frame start (component.write state whole))
    (resumed :
      ∀ later,
        discipline.invariant later →
        discipline.fresh later →
        discipline.view later = discipline.view whole →
        discipline.frame later later)
    (settled :
      discipline.permitted start whole →
        discipline.invariant whole ∧ discipline.frame start whole)
    (now :
      ∀ result state, post start result (component.write state whole))
    (afterWait :
      ∀ later result state,
        discipline.invariant later →
        discipline.fresh later →
        discipline.view later = discipline.view whole →
        post later result (component.write state later)) :
    (outcome.within component whole).Keeps discipline post start := by
  induction outcome generalizing start whole with
  | done state result =>
      exact now result state
  | fault state reason =>
      exact True.intro
  | wait state resume inductionHypothesis =>
      intro permitted
      obtain ⟨invariant, frame⟩ := settled (blindPermitted _ _ _ permitted)
      refine ⟨blind state whole invariant, blindFrame _ _ _ frame, ?_⟩
      intro later holds fresh same
      rw [blindView] at same
      apply inductionHypothesis (component.read later)
      · intro latest latestHolds latestFresh latestSame
        exact resumed latest latestHolds latestFresh (latestSame.trans same)
      · intro _
        exact ⟨holds, resumed later holds fresh same⟩
      · intro result last
        exact afterWait later result last holds fresh same
      · intro latest result last latestHolds latestFresh latestSame
        exact afterWait latest result last latestHolds latestFresh
          (latestSame.trans same)

end Outcome

end MyOS.Lib
