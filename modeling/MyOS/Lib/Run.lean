import Mathlib.Data.List.Infix

namespace MyOS.Lib

/-!
# Finite runs of labelled transition relations

A run lists every step together with the state it was taken in.  Conditions on
steps can therefore speak about the state before the step, and a run of which
every step meets a condition needs an invariant only for such steps.
-/

/-- A finite run from `initial`; the trace grows at its end. -/
inductive Run
    {State Action : Type}
    (step : State → Action → State → Prop)
    (initial : State) :
    List (State × Action) → State → Prop where
  | start :
      Run step initial [] initial
  | next
      {trace : List (State × Action)}
      {current final : State}
      {action : Action}
      (earlier : Run step initial trace current)
      (last : step current action final) :
      Run step initial (trace ++ [(current, action)]) final

/-- Every step of a trace meets a condition on its state and action. -/
def Meets
    {State Action : Type}
    (condition : State → Action → Prop)
    (trace : List (State × Action)) : Prop :=
  ∀ entry ∈ trace, condition entry.1 entry.2

namespace Meets

variable {State Action : Type} {condition : State → Action → Prop}

theorem snoc_iff
    {trace : List (State × Action)}
    {state : State}
    {action : Action} :
    Meets condition (trace ++ [(state, action)]) ↔
      Meets condition trace ∧ condition state action := by
  simp only [Meets, List.mem_append, List.mem_singleton]
  constructor
  · intro meets
    exact ⟨fun entry member => meets entry (Or.inl member),
      meets (state, action) (Or.inr rfl)⟩
  · rintro ⟨meets, last⟩ entry (member | rfl)
    · exact meets entry member
    · exact last

theorem mono
    {weaker : State → Action → Prop}
    {trace : List (State × Action)}
    (meets : Meets condition trace)
    (implies :
      ∀ state action, condition state action → weaker state action) :
    Meets weaker trace :=
  fun entry member => implies entry.1 entry.2 (meets entry member)

theorem trivial_condition (trace : List (State × Action)) :
    Meets (fun _ _ => True) trace :=
  fun _ _ => True.intro

end Meets

namespace Run

variable {State Action : Type}
variable {step : State → Action → State → Prop}
variable {initial : State}

theorem invariant
    {invariant : State → Prop}
    {condition : State → Action → Prop}
    (base : invariant initial)
    (preserve :
      ∀ {current action final},
        invariant current →
        condition current action →
        step current action final →
        invariant final)
    {trace : List (State × Action)}
    {final : State}
    (run : Run step initial trace final)
    (meets : Meets condition trace) :
    invariant final := by
  induction run with
  | start =>
      exact base
  | next earlier last inductionHypothesis =>
      rw [Meets.snoc_iff] at meets
      exact preserve (inductionHypothesis meets.1) meets.2 last

theorem invariant_all
    {invariant : State → Prop}
    (base : invariant initial)
    (preserve :
      ∀ {current action final},
        invariant current →
        step current action final →
        invariant final)
    {trace : List (State × Action)}
    {final : State}
    (run : Run step initial trace final) :
    invariant final :=
  have meets := Meets.trivial_condition trace
  run.invariant base (fun holds _ taken => preserve holds taken) meets

theorem mono
    {other : State → Action → State → Prop}
    (weaker :
      ∀ {current action final},
        step current action final → other current action final)
    {trace : List (State × Action)}
    {final : State}
    (run : Run step initial trace final) :
    Run other initial trace final := by
  induction run with
  | start =>
      exact .start
  | next _ last inductionHypothesis =>
      exact .next inductionHypothesis (weaker last)

theorem meets
    {condition : State → Action → Prop}
    (implied :
      ∀ {current action final},
        step current action final → condition current action)
    {trace : List (State × Action)}
    {final : State}
    (run : Run step initial trace final) :
    Meets condition trace := by
  induction run with
  | start =>
      intro entry member
      simp at member
  | next _ last inductionHypothesis =>
      exact Meets.snoc_iff.mpr ⟨inductionHypothesis, implied last⟩

theorem append
    {middle final : State}
    {first second : List (State × Action)}
    (earlier : Run step initial first middle)
    (later : Run step middle second final) :
    Run step initial (first ++ second) final := by
  induction later with
  | start =>
      simpa using earlier
  | next _ last inductionHypothesis =>
      rw [← List.append_assoc]
      exact .next inductionHypothesis last

theorem cons
    {middle final : State}
    {action : Action}
    {trace : List (State × Action)}
    (first : step initial action middle)
    (later : Run step middle trace final) :
    Run step initial ((initial, action) :: trace) final :=
  (Run.next .start first).append later

theorem earlier
    {state final : State}
    {action : Action}
    {first rest : List (State × Action)}
    (run : Run step initial (first ++ (state, action) :: rest) final) :
    Run step initial first state := by
  generalize isTrace : first ++ (state, action) :: rest = trace at run
  induction run generalizing rest with
  | start => simp at isTrace
  | next before _ inductionHypothesis =>
      rcases List.eq_nil_or_concat rest with rfl | ⟨inner, final, rfl⟩
      · obtain ⟨rfl, same⟩ := List.append_inj' isTrace rfl
        obtain ⟨rfl, _⟩ := Prod.mk.inj (List.cons.inj same).1
        exact before
      · rw [List.concat_eq_append, ← List.cons_append,
          ← List.append_assoc] at isTrace
        exact inductionHypothesis (List.append_inj' isTrace rfl).1

theorem final_unique
    {first second : List (State × Action)}
    {final last : State}
    (run : Run step initial first final)
    (also : Run step initial second last)
    (length : first.length = second.length)
    (deterministic :
      ∀ {current action other final last},
        step current action final → step current other last →
          final = last) :
    final = last := by
  induction run generalizing second last with
  | start =>
      cases also with
      | start => rfl
      | next => simp at length
  | next earlier taken inductionHypothesis =>
      cases also with
      | start => simp at length
      | next alsoEarlier alsoTaken =>
          simp only [List.length_append, List.length_singleton,
            Nat.add_right_cancel_iff] at length
          have same := inductionHypothesis alsoEarlier length
          subst same
          exact deterministic taken alsoTaken

end Run

/-- Execute a list of actions with a partial step function. -/
def runActions
    {State Action : Type}
    (step? : State → Action → Option State) :
    State → List Action → Option State
  | state, [] => some state
  | state, action :: rest =>
      (step? state action).bind fun next => runActions step? next rest

theorem runActions_sound
    {State Action : Type}
    {step? : State → Action → Option State}
    {initial final : State}
    {actions : List Action}
    (accepted : runActions step? initial actions = some final) :
    ∃ trace,
      trace.map Prod.snd = actions ∧
        Run (fun current action next => step? current action = some next)
          initial trace final := by
  induction actions generalizing initial with
  | nil =>
      simp only [runActions, Option.some.injEq] at accepted
      subst accepted
      exact ⟨[], rfl, .start⟩
  | cons action rest inductionHypothesis =>
      simp only [runActions, Option.bind_eq_some_iff] at accepted
      obtain ⟨next, taken, later⟩ := accepted
      obtain ⟨trace, actionsShape, run⟩ := inductionHypothesis later
      refine ⟨(initial, action) :: trace, by simp [actionsShape], ?_⟩
      have first :
          Run (fun current action next => step? current action = some next)
            initial [(initial, action)] next :=
        .next .start taken
      exact first.append run

/-- A partial step function that refuses steps that miss a condition. -/
def guarded
    {State Action : Type}
    (condition : State → Action → Prop)
    [∀ state action, Decidable (condition state action)]
    (step? : State → Action → Option State)
    (state : State)
    (action : Action) : Option State :=
  if condition state action then step? state action else none

theorem runActions_guarded
    {State Action : Type}
    {condition : State → Action → Prop}
    [∀ state action, Decidable (condition state action)]
    {step? : State → Action → Option State}
    {initial final : State}
    {actions : List Action}
    (accepted :
      runActions (guarded condition step?) initial actions = some final) :
    ∃ trace,
      Run (fun current action next => step? current action = some next)
          initial trace final ∧
        Meets condition trace := by
  obtain ⟨trace, _, run⟩ := runActions_sound accepted
  refine ⟨trace, run.mono ?_, run.meets ?_⟩
  · intro current action next taken
    exact (Option.ite_none_right_eq_some.mp taken).2
  · intro current action next taken
    exact (Option.ite_none_right_eq_some.mp taken).1

end MyOS.Lib
