import MyOS.KernelThreadSteps

namespace MyOS

/-!
# The interrupt state of a thread

What a step does to the locks, to `intena` and to the record of a thread's
first `acquire`.  As long as every switch finds in `intena` what the thread
switched to has to restore, a thread's last `release` leaves interrupts as its
first `acquire` found them.
-/

namespace ThreadState

/-- What `push_off` leaves in `intena`. -/
def recorded (s : ThreadState) : Bool :=
  if s.noff = 0 then s.sstatus.sie else s.intena

/-- The running process is about to yield in `sys_trap_handler`. -/
def yieldsInTrap (s : ThreadState) : Bool :=
  (s.traps s.proc).head?.any (fun frame => frame.point == .body .timer) &&
    s.proc.any fun p => s.status p == .running

/-- The entry of the table that the scheduler is about to run. -/
def dispatches? (s : ThreadState) : Option Slot :=
  match s.scheduler with
  | .locked p =>
      if s.proc = none ∧ s.traps none = [] ∧ s.status p = .ready then
        some p
      else
        none
  | _ => none

/-- The thread that a step switches to. -/
def switchTarget? (s : ThreadState) : ThreadAction → Option ThreadId
  | .yield => if s.client?.isSome ∧ s.noff = 0 then some none else none
  | .sleep lk =>
      if s.client?.isSome ∧ s.held = [lk] then some none else none
  | .exit =>
      if s.client?.any (fun p => s.status p != .running) ∧ s.noff = 0 then
        some none
      else
        none
  | .handler => if s.yieldsInTrap then some none else none
  | .schedule => s.dispatches?.map some
  | _ => none

/-- A thread is switched to that has something else to restore. -/
def mixesStates (s : ThreadState) (action : ThreadAction) : Bool :=
  (s.switchTarget? action).any fun target =>
    (s.entry target).any fun enabled => enabled != s.recorded

/--
Every thread that is switched to acquired the first of its locks in the
interrupt state that `intena` records.
-/
def KeepsState (s : ThreadState) (action : ThreadAction) : Prop :=
  s.mixesStates action = false

instance (s : ThreadState) (action : ThreadAction) :
    Decidable (KeepsState s action) :=
  inferInstanceAs (Decidable (_ = false))

/--
The interrupt state follows the thread: interrupts are off while a lock is
held, `noff` counts the locks of the running thread, and a step that releases
its last lock leaves interrupts as its first `acquire` found them.
-/
structure StateFollows (s : ThreadState) : Prop where
  off : s.held ≠ [] → s.sstatus.sie = false
  count : s.noff = s.held.length
  restores :
    ∀ action after enabled, s.Step action after →
      s.held ≠ [] → after.held = [] → s.entry s.proc = some enabled →
        after.sstatus.sie = enabled

end ThreadState

/-- What a step does to the locks and to `intena`. -/
inductive LockEffect
    (s : ThreadState)
    (action : ThreadAction)
    (after : ThreadState) : Prop where
  | keeps
      (held : after.held = s.held)
      (proc : after.proc = s.proc)
      (intena : after.intena = s.intena)
      (entry : after.entry s.proc = s.entry s.proc)
  | acquires
      (held : after.held ≠ [])
      (proc : after.proc = s.proc)
      (intena : after.intena = s.recorded)
      (entry :
        after.entry s.proc =
          if s.held = [] then some s.sstatus.sie else s.entry s.proc)
  | releases
      (held : s.held ≠ [])
      (proc : after.proc = s.proc)
      (intena : after.intena = s.intena)
      (entry : after.entry s.proc = s.entry s.proc)
      (last :
        after.held = [] → after.sstatus.sie = (s.sstatus.sie || s.intena))
  | switches
      (held : after.held ≠ [])
      (target : s.switchTarget? action = some after.proc)
      (intena : after.intena = s.recorded)
      (entry : after.entry after.proc = s.entry after.proc)
  | panics
      (panicked : after.panicked = true)
      (held : after.held ≠ [] ∨ after.held = s.held)

namespace LockEffect

open ThreadState

variable {s m after : ThreadState} {action : ThreadAction} {p : Slot}
variable {lk : LockName}

theorem of_acquire
    (acquired : m.acquire lk = some after)
    (same :
      m.noff = s.noff ∧ m.held = s.held ∧ m.sstatus = s.sstatus ∧
        m.proc = s.proc ∧ m.intena = s.intena ∧ m.entry = s.entry) :
    LockEffect s action after := by
  obtain ⟨noff, held, sstatus, proc, intena, entry⟩ := same
  obtain ⟨_, isAfter⟩ := acquire_eq acquired
  subst isAfter
  refine .acquires (List.cons_ne_nil lk m.held) proc ?_ ?_
  · simp only [pushOff, setSie, recorded, noff, sstatus, intena]
  · simp only [held, proc, entry, sstatus]
    split
    · rw [Function.update_self]
    · rfl

theorem of_release
    (released : m.release lk = some after)
    (counted : LocksCounted s.noff s.held s.sstatus.sie)
    (same :
      m.noff = s.noff ∧ m.held = s.held ∧ m.sstatus = s.sstatus ∧
        m.proc = s.proc ∧ m.intena = s.intena ∧ m.entry = s.entry) :
    LockEffect s action after := by
  obtain ⟨noff, held, sstatus, proc, intena, entry⟩ := same
  obtain ⟨member, isAfter⟩ := release_eq released
  rw [held] at member
  subst isAfter
  refine .releases (List.ne_nil_of_mem member) proc intena ?_ ?_
  · exact congrFun entry s.proc
  · intro last
    have nothing : s.held.erase lk = [] := by
      rw [← held]
      exact last
    have length := List.length_erase_of_mem member
    have positive := List.length_pos_of_mem member
    have count := counted.count
    rw [nothing, List.length_nil] at length
    have zero : s.noff - 1 = 0 := by
      omega
    simp only [popOff, setSie, sstatus, noff, intena, zero, decide_true,
      Bool.true_and]

theorem of_sched
    (intena : m.intena = s.recorded)
    (entry : m.entry none = s.entry none)
    (holds : .process p ∈ m.held)
    (target :
      m.noff = 1 → m.status p ≠ .running →
        s.switchTarget? action = some none) :
    LockEffect s action (m.sched p) := by
  rcases m.sched_cases p with isPanic | ⟨_, one, notRunning, isSwitch⟩
  · rw [isPanic]
    exact .panics rfl (Or.inl (List.ne_nil_of_mem holds))
  · rw [isSwitch]
    exact .switches (List.ne_nil_of_mem holds) (target one notRunning) intena
      entry

theorem of_acquire_sched
    {locked : ThreadState}
    (acquired : m.acquire (.process p) = some locked)
    (same :
      m.noff = s.noff ∧ m.held = s.held ∧ m.sstatus = s.sstatus ∧
        m.proc = s.proc ∧ m.intena = s.intena ∧ m.entry = s.entry)
    (isProc : s.proc = some p) :
    locked.intena = s.recorded ∧ locked.entry none = s.entry none ∧
      locked.held = .process p :: s.held ∧ locked.noff = s.noff + 1 ∧
        locked.status = m.status := by
  obtain ⟨noff, held, sstatus, proc, intena, entry⟩ := same
  obtain ⟨_, isLocked⟩ := acquire_eq acquired
  subst isLocked
  refine ⟨?_, ?_, ?_, ?_, rfl⟩
  · simp only [pushOff, setSie, recorded, noff, sstatus, intena]
  · simp only [held, proc, entry, isProc]
    split
    · exact Function.update_of_ne (Option.some_ne_none p).symm _ _
    · rfl
  · simp only [held]
  · simp only [pushOff, setSie, noff]

theorem of_yield
    (yields : m.yield p = some after)
    (same :
      m.noff = s.noff ∧ m.held = s.held ∧ m.sstatus = s.sstatus ∧
        m.proc = s.proc ∧ m.intena = s.intena ∧ m.entry = s.entry)
    (isProc : s.proc = some p)
    (target : s.noff = 0 → s.switchTarget? action = some none) :
    LockEffect s action after := by
  obtain ⟨locked, acquired, isAfter⟩ := Option.map_eq_some_iff.mp yields
  obtain ⟨intena, entry, held, noff, _⟩ :=
    of_acquire_sched acquired same isProc
  rw [← isAfter]
  apply of_sched (m := locked.setStatus p .ready) intena entry
  · have own : LockName.process p ∈ locked.held := by
      rw [held]
      exact List.mem_cons_self
    exact own
  · intro one _
    have isOne : locked.noff = 1 := one
    apply target
    omega

theorem of_sleep
    (counted : LocksCounted s.noff s.held s.sstatus.sie)
    (client : s.client? = some p)
    (sleeps : s.sleep p lk = some after) :
    LockEffect s (.sleep lk) after := by
  obtain ⟨isProc, _, _⟩ := client?_eq client
  have isClient : s.client?.isSome = true := by
    rw [client]
    rfl
  unfold ThreadState.sleep at sleeps
  split at sleeps
  · rename_i isOwn
    cases sleeps
    rcases (((s.setPoint p .asleepHolding).setStatus p
      .sleeping)).sched_cases p with isPanic | ⟨member, one, _, isSwitch⟩
    · rw [isPanic]
      exact .panics rfl (Or.inr rfl)
    · rw [isSwitch]
      have isOne : s.noff = 1 := one
      have single : s.held = [.process p] := counted.single isOne member
      refine .switches (List.ne_nil_of_mem member) ?_ ?_ rfl
      · simp only [switchTarget?, isClient, single, isOwn, and_self, if_true]
        rfl
      · simp only [recorded, isOne]
        rfl
  · rename_i notOwn
    obtain ⟨locked, acquired, rest⟩ := Option.bind_eq_some_iff.mp sleeps
    obtain ⟨unlocked, released, isAfter⟩ := Option.map_eq_some_iff.mp rest
    obtain ⟨intena, entry, held, noff, _⟩ :=
      of_acquire_sched (s := s) acquired ⟨rfl, rfl, rfl, rfl, rfl, rfl⟩ isProc
    obtain ⟨member, isUnlocked⟩ := release_eq released
    subst isUnlocked
    rw [← isAfter]
    have own : LockName.process p ∈ locked.held.erase lk := by
      apply (List.mem_erase_of_ne (Ne.symm notOwn)).mpr
      rw [held]
      exact List.mem_cons_self
    refine of_sched ?_ ?_ own ?_
    · exact intena
    · exact entry
    intro one _
    have isOne : locked.noff - 1 = 1 := one
    have length : s.held.length = 1 := by
      have count := counted.count
      omega
    have isHeld : lk ∈ s.held := by
      rw [held] at member
      exact (List.mem_cons.mp member).resolve_left notOwn
    obtain ⟨only, isOnly⟩ := List.length_eq_one_iff.mp length
    rw [isOnly] at isHeld
    have single : s.held = [lk] := by
      rw [isOnly, List.mem_singleton.mp isHeld]
    simp only [switchTarget?, isClient, single, and_self, if_true]

theorem of_exit
    (client : s.client? = some p)
    (exits : s.exit p = some after) :
    LockEffect s .exit after := by
  obtain ⟨isProc, _, _⟩ := client?_eq client
  obtain ⟨locked, acquired, isAfter⟩ := Option.map_eq_some_iff.mp exits
  obtain ⟨intena, entry, held, noff, status⟩ :=
    of_acquire_sched (s := s) acquired ⟨rfl, rfl, rfl, rfl, rfl, rfl⟩ isProc
  rw [← isAfter]
  apply of_sched intena entry
  · rw [held]
    exact List.mem_cons_self
  · intro one notRunning
    have zero : s.noff = 0 := by
      omega
    rw [status] at notRunning
    have ready : s.status p ≠ .running := notRunning
    simp [switchTarget?, client, ready, zero]

theorem of_goOn
    (counted : LocksCounted s.noff s.held s.sstatus.sie)
    (goes : s.goOn p = some after) :
    LockEffect s action after := by
  unfold ThreadState.goOn at goes
  split at goes
  · exact of_release goes counted ⟨rfl, rfl, rfl, rfl, rfl, rfl⟩
  · exact of_release goes counted ⟨rfl, rfl, rfl, rfl, rfl, rfl⟩
  · cases goes
    exact .keeps rfl rfl rfl rfl
  · exact of_acquire goes ⟨rfl, rfl, rfl, rfl, rfl, rfl⟩
  · exact of_release goes counted ⟨rfl, rfl, rfl, rfl, rfl, rfl⟩
  · cases goes
    exact .panics rfl (Or.inr rfl)
  · cases goes
  · cases goes

theorem of_schedule
    (fits : LocksFit s)
    (running : s.panicked = false)
    (isScheduler : s.proc = none)
    (outside : s.traps none = [])
    (schedules : s.schedule = some after) :
    LockEffect s .schedule after := by
  have counted := fits.counted
  have holds : s.held = s.scheduler.locks := by
    apply (fits.placed running).own
    unfold locksOf
    rw [isScheduler, outside]
    rfl
  unfold ThreadState.schedule at schedules
  split at schedules
  · cases schedules
    exact .keeps rfl rfl rfl rfl
  · split at schedules
    · exact of_acquire schedules ⟨rfl, rfl, rfl, rfl, rfl, rfl⟩
    · cases schedules
      exact .keeps rfl rfl rfl rfl
  · rename_i p isPoint
    split at schedules
    · rename_i isReady
      cases schedules
      have single : s.held = [.process p] := by
        rw [holds, isPoint]
        rfl
      have some : s.held ≠ [] := by
        rw [single]
        exact List.cons_ne_nil _ _
      have positive := List.length_pos_iff.mpr some
      have count := counted.count
      refine .switches some ?_ ?_ rfl
      · simp only [switchTarget?, dispatches?, isPoint, isScheduler, outside,
          isReady, and_self, if_true, Option.map_some]
        rfl
      -- `intena` is what the scheduler's own `acquire` has recorded.
      · have one : s.noff ≠ 0 := by
          omega
        simp only [recorded, if_neg one]
        rfl
    · exact of_release schedules counted ⟨rfl, rfl, rfl, rfl, rfl, rfl⟩
  · exact of_release schedules counted ⟨rfl, rfl, rfl, rfl, rfl, rfl⟩

theorem of_handler
    (counted : LocksCounted s.noff s.held s.sstatus.sie)
    (handles : s.handler = some after) :
    LockEffect s .handler after := by
  unfold ThreadState.handler at handles
  split at handles
  · cases handles
  rename_i frame outer isTraps
  cases isPoint : frame.point with
  | body irq =>
      cases irq with
      | timer =>
          simp only [isPoint] at handles
          cases isProc : s.proc with
          | none =>
              simp only [isProc] at handles
              cases handles
              exact .keeps rfl rfl rfl rfl
          | some p =>
              simp only [isProc] at handles
              split at handles
              · rename_i isRunning
                apply of_yield handles (s := s) ⟨rfl, rfl, rfl, rfl, rfl, rfl⟩ isProc
                intro _
                have yields : s.yieldsInTrap = true := by
                  unfold yieldsInTrap
                  rw [isTraps, isProc]
                  simp [isPoint, isRunning]
                simp [switchTarget?, yields]
              · cases handles
                exact .keeps rfl rfl rfl rfl
      | device =>
          simp only [isPoint] at handles
          split at handles
          · cases handles
            exact .keeps rfl rfl rfl rfl
          · cases handles
  | yielded =>
      simp only [isPoint] at handles
      cases isProc : s.proc with
      | none =>
          simp only [isProc] at handles
          cases handles
      | some p =>
          simp only [isProc] at handles
          exact of_release handles counted ⟨rfl, rfl, rfl, rfl, rfl, rfl⟩
  | sepcNext =>
      simp only [isPoint] at handles
      cases handles
      exact .keeps rfl rfl rfl rfl
  | sstatusNext =>
      simp only [isPoint] at handles
      cases handles
      exact .keeps rfl rfl rfl rfl
  | returning =>
      simp only [isPoint] at handles
      split at handles
      · cases handles
        exact .keeps rfl rfl rfl rfl
      · cases handles

theorem of_step
    (fits : LocksFit s)
    (taken : s.Step action after) :
    LockEffect s action after := by
  have counted := fits.counted
  unfold ThreadState.Step ThreadState.step? at taken
  split at taken
  · cases taken
  rename_i notPanicked
  have running : s.panicked = false := eq_false_of_ne_true notPanicked
  cases action with
  | interrupt irq =>
      obtain ⟨_, isAfter⟩ := Option.ite_none_right_eq_some.mp taken
      cases isAfter
      have handled : ¬ (true = false ∨ false = true) := by
        decide
      unfold ThreadState.trap
      rw [if_neg handled]
      exact .keeps rfl rfl rfl rfl
  | execute pc x mem =>
      obtain ⟨_, isAfter⟩ := Option.ite_none_right_eq_some.mp taken
      cases isAfter
      exact .keeps rfl rfl rfl rfl
  | acquire lk =>
      obtain ⟨_, acquired⟩ := Option.ite_none_right_eq_some.mp taken
      exact of_acquire acquired ⟨rfl, rfl, rfl, rfl, rfl, rfl⟩
  | release lk =>
      obtain ⟨_, released⟩ := Option.ite_none_right_eq_some.mp taken
      exact of_release released counted ⟨rfl, rfl, rfl, rfl, rfl, rfl⟩
  | wake q =>
      obtain ⟨_, isAfter⟩ := Option.ite_none_right_eq_some.mp taken
      cases isAfter
      exact .keeps rfl rfl rfl rfl
  | yield =>
      obtain ⟨p, client, yields⟩ := Option.bind_eq_some_iff.mp taken
      obtain ⟨isProc, _, _⟩ := client?_eq client
      apply of_yield yields (s := s) ⟨rfl, rfl, rfl, rfl, rfl, rfl⟩ isProc
      intro zero
      simp [switchTarget?, client, zero]
  | sleep lk =>
      obtain ⟨p, client, sleeps⟩ := Option.bind_eq_some_iff.mp taken
      exact of_sleep counted client sleeps
  | zombie =>
      obtain ⟨p, _, isAfter⟩ := Option.map_eq_some_iff.mp taken
      cases isAfter
      exact .keeps rfl rfl rfl rfl
  | exit =>
      obtain ⟨p, client, exits⟩ := Option.bind_eq_some_iff.mp taken
      exact of_exit client exits
  | goOn =>
      obtain ⟨p, _, goes⟩ := Option.bind_eq_some_iff.mp taken
      obtain ⟨_, went⟩ := Option.ite_none_right_eq_some.mp goes
      exact of_goOn counted went
  | usertrap syscall =>
      obtain ⟨p, _, traps⟩ := Option.bind_eq_some_iff.mp taken
      obtain ⟨_, isAfter⟩ := Option.ite_none_right_eq_some.mp traps
      cases isAfter
      exact .keeps rfl rfl rfl rfl
  | usertrapret epc =>
      obtain ⟨p, _, returns⟩ := Option.bind_eq_some_iff.mp taken
      obtain ⟨_, isAfter⟩ := Option.ite_none_right_eq_some.mp returns
      cases isAfter
      exact .keeps rfl rfl rfl rfl
  | schedule =>
      obtain ⟨⟨isScheduler, outside⟩, schedules⟩ :=
        Option.ite_none_right_eq_some.mp taken
      rw [List.isEmpty_iff] at outside
      exact of_schedule fits running isScheduler outside schedules
  | handler =>
      exact of_handler counted taken
  | create q context =>
      obtain ⟨⟨_, notRunning⟩, isAfter⟩ :=
        Option.ite_none_right_eq_some.mp taken
      cases isAfter
      refine .keeps rfl rfl rfl ?_
      exact Function.update_of_ne notRunning _ _
  | reap q =>
      obtain ⟨_, isAfter⟩ := Option.ite_none_right_eq_some.mp taken
      cases isAfter
      exact .keeps rfl rfl rfl rfl

end LockEffect

/-- `intena` is what the running thread found at its first `acquire`. -/
def ThreadState.RecordsOwn (s : ThreadState) : Prop :=
  s.held ≠ [] → ∀ enabled, s.entry s.proc = some enabled → s.intena = enabled

namespace LockEffect

open ThreadState

variable {s after : ThreadState} {action : ThreadAction}

theorem recordsOwn
    (effect : LockEffect s action after)
    (counted : LocksCounted s.noff s.held s.sstatus.sie)
    (records : s.RecordsOwn)
    (keepsState : s.KeepsState action)
    (alive : after.panicked = false) :
    after.RecordsOwn := by
  intro some enabled isEntry
  cases effect with
  | keeps held proc intena entry =>
      rw [held] at some
      rw [proc, entry] at isEntry
      rw [intena]
      exact records some enabled isEntry
  | acquires held proc intena entry =>
      rw [proc, entry] at isEntry
      rw [intena]
      have count := counted.count
      unfold recorded
      by_cases first : s.held = []
      · rw [if_pos first] at isEntry
        have zero : s.noff = 0 := by
          rw [count, first]
          rfl
        rw [if_pos zero]
        exact Option.some.inj isEntry
      · rw [if_neg first] at isEntry
        have positive := List.length_pos_iff.mpr first
        have nonzero : s.noff ≠ 0 := by
          omega
        rw [if_neg nonzero]
        exact records first enabled isEntry
  | releases held proc intena entry last =>
      rw [proc, entry] at isEntry
      rw [intena]
      exact records held enabled isEntry
  | switches held target intena entry =>
      rw [entry] at isEntry
      rw [intena]
      unfold KeepsState mixesStates at keepsState
      rw [target, Option.any_some, isEntry, Option.any_some] at keepsState
      exact (bne_eq_false_iff_eq.mp keepsState).symm
  | panics panicked _ =>
      rw [panicked] at alive
      cases alive

theorem restores
    (effect : LockEffect s action after)
    (counted : LocksCounted s.noff s.held s.sstatus.sie)
    (some : s.held ≠ [])
    (nothing : after.held = []) :
    after.sstatus.sie = s.intena := by
  cases effect with
  | keeps held proc intena entry =>
      exact absurd (held.symm.trans nothing) some
  | acquires held proc intena entry =>
      exact absurd nothing held
  | releases held proc intena entry last =>
      rw [last nothing, counted.off some, Bool.false_or]
  | switches held target intena entry =>
      exact absurd nothing held
  | panics panicked held =>
      rcases held with more | same
      · exact absurd nothing more
      · exact absurd (same.symm.trans nothing) some

end LockEffect

/-- The invariant of the interrupt state. -/
structure StateFits (s : ThreadState) : Prop where
  locks : LocksFit s
  records : s.panicked = false → s.RecordsOwn

namespace ThreadState

variable {s : ThreadState}

theorem Step.notPanicked
    {after : ThreadState}
    {action : ThreadAction}
    (taken : s.Step action after) :
    s.panicked = false := by
  unfold Step step? at taken
  split at taken
  · cases taken
  · rename_i alive
    exact eq_false_of_ne_true alive

theorem stateFollows (fits : StateFits s) : s.StateFollows where
  off := fits.locks.counted.off
  count := fits.locks.counted.count
  restores := by
    intro action after enabled taken some nothing isEntry
    have effect := LockEffect.of_step fits.locks taken
    rw [effect.restores fits.locks.counted some nothing]
    exact fits.records taken.notPanicked some enabled isEntry

/--
The interrupt state follows the thread in every state of every run in which
every thread that is switched to acquired the first of its locks in the
interrupt state that `intena` records at the switch.
-/
theorem stateFollows_of_keepsState
    {hart : Machine}
    {context : ThreadId → Reg → Word}
    {ready : Slot → Bool}
    {trace : List (ThreadState × ThreadAction)}
    {final : ThreadState}
    (run : Lib.Run Step (boot hart context ready) trace final)
    (keepsState : Lib.Meets KeepsState trace) :
    final.StateFollows := by
  have base : StateFits (boot hart context ready) := by
    refine {
      locks := LocksFit.boot hart context ready
      records := ?_
    }
    intro _ some
    exact absurd rfl some
  have fits : StateFits final := by
    refine run.invariant base ?_ keepsState
    intro current action next holds condition taken
    refine {
      locks := holds.locks.step taken
      records := ?_
    }
    intro alive
    have effect := LockEffect.of_step holds.locks taken
    exact effect.recordsOwn holds.locks.counted
      (holds.records taken.notPanicked) condition alive
  exact stateFollows fits

/-- The kernel with one process to run. -/
def bootOne : ThreadState :=
  boot zeroHart (fun _ _ => 0) fun p => p == 0

/--
A process runs, makes a system call, sleeps with a lock and gives the hart to
the scheduler, all with interrupts enabled where no lock is held.
-/
theorem stateFollows_of_keepsState_sleeper :
    ∃ trace final,
      Lib.Run Step bootOne trace final ∧
        Lib.Meets KeepsState trace ∧
        final.held ≠ [] ∧
        final.StateFollows := by
  let actions : List ThreadAction :=
    [.schedule, .schedule, .schedule, .goOn, .usertrapret 0,
      .usertrap true, .acquire .disk, .sleep .disk]
  have reaches :
      (Lib.runActions (Lib.guarded KeepsState step?) bootOne actions).any
        (fun final => !final.held.isEmpty) = true := by
    decide +kernel
  obtain ⟨final, accepted, holds⟩ := (Option.any_eq_true _ _).mp reaches
  obtain ⟨trace, run, keepsState⟩ := Lib.runActions_guarded accepted
  exact ⟨trace, final, run, keepsState, by simpa using holds,
    stateFollows_of_keepsState run keepsState⟩

/--
A process yields at a timer interrupt, with interrupts off; the scheduler, which
acquired the lock of the process with interrupts on, releases it and leaves
them off.
-/
theorem yield_disables_scheduler :
    ¬ ∀ (hart : Machine) (context : ThreadId → Reg → Word)
        (ready : Slot → Bool) (trace : List (ThreadState × ThreadAction))
        (final : ThreadState),
      Lib.Run Step (boot hart context ready) trace final →
        final.StateFollows := by
  intro law
  let actions : List ThreadAction :=
    [.schedule, .schedule, .schedule, .goOn, .usertrapret 0,
      .usertrap false, .yield]
  have reaches :
      (Lib.runActions step? bootOne actions).any (fun final =>
        !final.held.isEmpty &&
          decide (final.entry final.proc = some true) &&
          (final.step? .schedule).any fun after =>
            after.held.isEmpty && !after.sstatus.sie) = true := by
    decide +kernel
  obtain ⟨final, accepted, wrong⟩ := (Option.any_eq_true _ _).mp reaches
  obtain ⟨trace, _, run⟩ := Lib.runActions_sound accepted
  simp only [Bool.and_eq_true, Bool.not_eq_true', decide_eq_true_eq] at wrong
  obtain ⟨⟨holds, isEntry⟩, releases⟩ := wrong
  obtain ⟨after, taken, left⟩ := (Option.any_eq_true _ _).mp releases
  simp only [Bool.and_eq_true, Bool.not_eq_true', List.isEmpty_iff] at left
  obtain ⟨nothing, isOff⟩ := left
  have some : final.held ≠ [] := by
    simpa using holds
  have restored := (law _ _ _ trace final run).restores .schedule after true
    taken some nothing isEntry
  rw [isOff] at restored
  cases restored

end ThreadState

end MyOS
