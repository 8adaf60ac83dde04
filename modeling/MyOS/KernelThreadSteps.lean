import MyOS.KernelThreadLocks

namespace MyOS

/-!
# Every step keeps the locks counted

The parts of `scheduler` and of `sys_trap_handler`, the traps from user mode,
and from them every step of the machine.
-/

namespace LocksFit

open ThreadState

variable {s after : ThreadState} {p : Slot}

theorem moveScheduler
    {held : List LockName}
    (placed : LocksPlaced s.proc s.held s.traps s.point s.scheduler)
    (isScheduler : s.proc = none)
    (outside : s.traps none = [])
    (point : SchedulerPoint)
    (isHeld : held = point.locks) :
    LocksPlaced s.proc held s.traps s.point point := by
  apply placed.move (fun _ _ => rfl) (fun _ _ => rfl)
  · intro notScheduler
    exact absurd isScheduler notScheduler
  · intro locks isLocks
    rw [isScheduler] at isLocks
    unfold locksOf at isLocks
    rw [outside] at isLocks
    rw [isHeld]
    exact Option.some.inj isLocks
  · rw [isScheduler]
    exact nest_outside outside

theorem releaseEntry
    (fits : LocksFit s)
    (running : s.panicked = false)
    (isScheduler : s.proc = none)
    (outside : s.traps none = [])
    (holds : s.held = [.process p])
    (released :
      { s with scheduler := .scan (p.val + 1) }.release (.process p) =
        some after) :
    LocksFit after := by
  have counts : LocksCounted after.noff after.held after.sstatus.sie :=
    LocksCounted.release (s := { s with scheduler := .scan (p.val + 1) })
      fits.counted released
  obtain ⟨_, isAfter⟩ := release_eq released
  subst isAfter
  refine {
    counted := counts
    placed := ?_
  }
  intro _
  have nothing : s.held.erase (.process p) = [] := by
    rw [holds, List.erase_cons_head]
  exact moveScheduler (s := s) (fits.placed running) isScheduler outside
    (.scan (p.val + 1)) nothing

theorem schedule
    (fits : LocksFit s)
    (running : s.panicked = false)
    (isScheduler : s.proc = none)
    (outside : s.traps none = [])
    (schedules : s.schedule = some after) :
    LocksFit after := by
  have placed := fits.placed running
  have holds : s.held = s.scheduler.locks := by
    apply placed.own
    unfold locksOf
    rw [isScheduler, outside]
    rfl
  unfold ThreadState.schedule at schedules
  cases isPoint : s.scheduler with
  | head =>
      simp only [isPoint] at schedules holds
      cases schedules
      refine {
        counted := ?_
        placed := ?_
      }
      · refine {
          count := fits.counted.count
          off := fun some => absurd holds some
        }
      · intro _
        exact moveScheduler (s := s) placed isScheduler outside (.scan 0) holds
  | scan entry =>
      simp only [isPoint] at schedules holds
      split at schedules
      · rename_i isSlot
        have counts : LocksCounted after.noff after.held after.sstatus.sie :=
          LocksCounted.acquire
            (s := { s with scheduler := .locked ⟨entry, isSlot⟩ })
            fits.counted schedules
        obtain ⟨_, isAfter⟩ := acquire_eq schedules
        subst isAfter
        refine {
          counted := counts
          placed := ?_
        }
        intro _
        have one :
            LockName.process ⟨entry, isSlot⟩ :: s.held =
              (SchedulerPoint.locked ⟨entry, isSlot⟩).locks := by
          rw [holds]
          rfl
        exact moveScheduler (s := s) placed isScheduler outside
          (.locked ⟨entry, isSlot⟩) one
      · cases schedules
        refine {
          counted := fits.counted
          placed := ?_
        }
        intro _
        exact moveScheduler (s := s) placed isScheduler outside .head holds
  | locked p =>
      simp only [isPoint] at schedules holds
      split at schedules
      · cases schedules
        refine {
          counted := fits.counted
          placed := ?_
        }
        intro _
        rw [isScheduler] at placed
        exact placed.enter p outside holds
      · exact releaseEntry fits running isScheduler outside holds schedules
  | switched p =>
      simp only [isPoint] at schedules holds
      exact releaseEntry fits running isScheduler outside holds schedules

theorem moveTrap
    {held : List LockName}
    {frames : List TrapFrame}
    (placed : LocksPlaced s.proc s.held s.traps s.point s.scheduler)
    (own :
      ∀ locks,
        locksOf (Function.update s.traps s.proc frames) s.point s.scheduler
            s.proc = some locks →
          held = locks)
    (nest : TrapsNest s.point s.scheduler s.proc frames) :
    LocksPlaced s.proc held (Function.update s.traps s.proc frames) s.point
      s.scheduler := by
  apply placed.move
  · intro t other
    exact Function.update_of_ne other _ _
  · exact fun _ _ => rfl
  · exact fun _ => rfl
  · exact own
  · rw [Function.update_self]
    exact nest

theorem locksOf_trap
    (frame : TrapFrame)
    (outer : List TrapFrame)
    (t : ThreadId) :
    locksOf (Function.update s.traps t (frame :: outer)) s.point s.scheduler
        t = frame.point.locks t := by
  unfold locksOf
  rw [Function.update_self]
  rfl

theorem noLocks
    (fits : LocksFit s)
    (enabled : s.sstatus.sie = true) :
    s.held = [] := by
  by_contra some
  rw [fits.counted.off some] at enabled
  cases enabled

theorem trap
    (fits : LocksFit s)
    (running : s.panicked = false)
    (enabled : s.sstatus.sie = true)
    (irq : Interrupt) :
    LocksFit (s.trap irq) := by
  have handled : ¬ (true = false ∨ false = true) := by
    decide
  unfold ThreadState.trap
  rw [if_neg handled]
  refine {
    counted := ?_
    placed := ?_
  }
  · exact ⟨fits.counted.count, fun _ => rfl⟩
  · intro _
    have placed := fits.placed running
    apply moveTrap (s := s) placed
    · intro locks isLocks
      rw [locksOf_trap] at isLocks
      cases irq with
      | timer =>
          rw [fits.noLocks enabled]
          exact Option.some.inj isLocks
      | device =>
          cases isLocks
    · refine ⟨?_, placed.nest s.proc⟩
      intro locks isLocks
      rw [← placed.own locks isLocks]
      exact fits.noLocks enabled

theorem nest_setTrap
    {frame : TrapFrame}
    {outer : List TrapFrame}
    (placed : LocksPlaced s.proc s.held s.traps s.point s.scheduler)
    (isTraps : s.traps s.proc = frame :: outer)
    (point : TrapPoint) :
    TrapsNest s.point s.scheduler s.proc
      ({ frame with point := point } :: outer) := by
  have nest := placed.nest s.proc
  rw [isTraps] at nest
  exact nest

theorem setTrap
    {frame : TrapFrame}
    {outer : List TrapFrame}
    {point : TrapPoint}
    (placed : LocksPlaced s.proc s.held s.traps s.point s.scheduler)
    (isTraps : s.traps s.proc = frame :: outer)
    (fixes : ∀ locks, point.locks s.proc = some locks → s.held = locks) :
    LocksPlaced s.proc s.held (s.setTrap frame outer point).traps s.point
      s.scheduler := by
  apply moveTrap placed
  · intro locks isLocks
    rw [locksOf_trap] at isLocks
    exact fixes locks isLocks
  · exact nest_setTrap placed isTraps point

theorem setTrap_free
    {frame : TrapFrame}
    {outer : List TrapFrame}
    {point : TrapPoint}
    (placed : LocksPlaced s.proc s.held s.traps s.point s.scheduler)
    (isTraps : s.traps s.proc = frame :: outer)
    (free : s.held = [])
    (isFree : point.locks s.proc = some []) :
    LocksPlaced s.proc s.held (s.setTrap frame outer point).traps s.point
      s.scheduler := by
  apply setTrap placed isTraps
  intro locks isLocks
  rw [isFree] at isLocks
  rw [free]
  exact Option.some.inj isLocks

theorem handler
    (fits : LocksFit s)
    (running : s.panicked = false)
    (handles : s.handler = some after) :
    LocksFit after := by
  have placed := fits.placed running
  unfold ThreadState.handler at handles
  split at handles
  · cases handles
  rename_i frame outer isTraps
  have own :
      ∀ locks, frame.point.locks s.proc = some locks → s.held = locks := by
    intro locks isLocks
    apply placed.own
    unfold locksOf
    rw [isTraps]
    exact isLocks
  cases isPoint : frame.point with
  | body irq =>
      cases irq with
      | timer =>
          simp only [isPoint] at handles own
          have free : s.held = [] := own [] rfl
          cases isProc : s.proc with
          | none =>
              simp only [isProc] at handles
              cases handles
              exact ⟨fits.counted, fun _ => setTrap_free placed isTraps free rfl⟩
          | some p =>
              simp only [isProc] at handles
              split at handles
              · have nest := nest_setTrap placed isTraps .yielded
                rw [isProc] at placed nest
                apply yield (s := s) placed _ _ _ _ _ _ handles
                · exact fits.counted
                · intro t other
                  rw [← isProc] at other
                  exact Function.update_of_ne other _ _
                · exact fun _ _ => rfl
                · rfl
                · rw [← isProc]
                  refine (locksOf_trap ..).trans ?_
                  rw [isProc]
                  rfl
                · simp only [ThreadState.setTrap, isProc,
                    Function.update_self]
                  exact nest
              · cases handles
                exact ⟨fits.counted, fun _ => setTrap_free placed isTraps free rfl⟩
      | device =>
          simp only [isPoint] at handles
          split at handles
          · rename_i free
            cases handles
            exact ⟨fits.counted, fun _ => setTrap_free placed isTraps free rfl⟩
          · cases handles
  | yielded =>
      simp only [isPoint] at handles own
      cases isProc : s.proc with
      | none =>
          simp only [isProc] at handles
          cases handles
      | some p =>
          simp only [isProc] at handles own
          apply releaseOwn handles placed fits.counted isProc (own _ rfl)
          · intro t other
            rw [← isProc] at other
            exact Function.update_of_ne other _ _
          · exact fun _ _ => rfl
          · exact ⟨rfl, rfl, rfl, rfl, rfl⟩
          · intro locks isLocks
            rw [← isProc] at isLocks
            have fixed := (locksOf_trap ..).symm.trans isLocks
            exact (Option.some.inj fixed).symm
          · have nest := nest_setTrap placed isTraps .sepcNext
            rw [isProc] at nest
            simp only [ThreadState.setTrap, isProc, Function.update_self]
            exact nest
  | sepcNext =>
      simp only [isPoint] at handles own
      have free : s.held = [] := own [] rfl
      cases handles
      exact ⟨fits.counted, fun _ => setTrap_free placed isTraps free rfl⟩
  | sstatusNext =>
      simp only [isPoint] at handles own
      have free : s.held = [] := own [] rfl
      cases handles
      refine {
        counted := ?_
        placed := fun _ => setTrap_free placed isTraps free rfl
      }
      exact ⟨fits.counted.count, fun some => absurd free some⟩
  | returning =>
      simp only [isPoint] at handles own
      have free : s.held = [] := own [] rfl
      split at handles
      · cases handles
        have nest := placed.nest s.proc
        rw [isTraps] at nest
        refine {
          counted := ?_
          placed := ?_
        }
        · exact ⟨fits.counted.count, fun some => absurd free some⟩
        · intro _
          apply moveTrap (s := s) placed
          · intro locks isLocks
            unfold locksOf at isLocks
            rw [Function.update_self] at isLocks
            rw [nest.1 locks isLocks]
            exact free
          · exact nest.2
      · cases handles

theorem movePoint
    (placed : LocksPlaced s.proc s.held s.traps s.point s.scheduler)
    (isProc : s.proc = some p)
    (outside : s.traps (some p) = [])
    (free : s.held = [])
    (point : KernelPoint)
    (fixes : ∀ locks, point.locks p = some locks → locks = []) :
    LocksPlaced s.proc s.held s.traps (s.setPoint p point).point
      s.scheduler := by
  apply placed.move (fun _ _ => rfl)
  · intro q notRunning
    apply otherPoints
    intro isP
    rw [isP] at notRunning
    exact notRunning isProc
  · exact fun _ => rfl
  · intro locks isLocks
    rw [isProc] at isLocks
    have fixed := (locksOf_setPoint outside point).symm.trans isLocks
    rw [fixes locks fixed]
    exact free
  · rw [isProc]
    exact nest_outside outside

theorem usertrap
    (fits : LocksFit s)
    (running : s.panicked = false)
    (isProc : s.proc = some p)
    (outside : s.traps (some p) = [])
    (isUser : s.point p = .user)
    (syscall : Bool) :
    LocksFit ((s.setPoint p .kernel).usertrap syscall) := by
  have placed := fits.placed running
  have free : s.held = [] := by
    apply placed.own
    unfold locksOf
    rw [isProc, outside]
    simp only [locksAt, locksOutside, isUser, KernelPoint.locks]
  refine {
    counted := ?_
    placed := ?_
  }
  · exact ⟨fits.counted.count, fun some => absurd free some⟩
  · intro _
    apply movePoint placed isProc outside free .kernel
    intro locks isLocks
    cases isLocks

theorem usertrapret
    (fits : LocksFit s)
    (running : s.panicked = false)
    (isProc : s.proc = some p)
    (outside : s.traps (some p) = [])
    (free : s.held = [])
    (epc : Word) :
    LocksFit ((s.setPoint p .user).usertrapret epc) := by
  have placed := fits.placed running
  refine {
    counted := ?_
    placed := ?_
  }
  · exact ⟨fits.counted.count, fun some => absurd free some⟩
  · intro _
    apply movePoint placed isProc outside free .user
    intro locks isLocks
    exact (Option.some.inj isLocks).symm

theorem create
    (placed : LocksPlaced s.proc s.held s.traps s.point s.scheduler)
    (notRunning : s.proc ≠ some p) :
    LocksPlaced s.proc s.held (Function.update s.traps (some p) [])
      (s.setPoint p .forkret).point s.scheduler := by
  have others :
      ∀ t, t ≠ some p →
        locksOf (Function.update s.traps (some p) [])
            (s.setPoint p .forkret).point s.scheduler t =
          locksOf s.traps s.point s.scheduler t := by
    intro t other
    apply LocksPlaced.locksOf_congr
    · exact Function.update_of_ne other _ _
    · intro q isQ
      apply otherPoints
      intro isP
      rw [isQ, isP] at other
      exact other rfl
    · exact fun _ => rfl
  refine {
    own := ?_
    parked := ?_
    caller := ?_
    nest := ?_
  }
  · intro locks isLocks
    rw [others s.proc notRunning] at isLocks
    exact placed.own locks isLocks
  · intro q parked
    by_cases isP : q = p
    · subst isP
      unfold locksOf
      rw [Function.update_self]
      simp only [locksAt, locksOutside, setPoint, Function.update_self,
        KernelPoint.locks]
    · rw [others (some q) (fun same => isP (Option.some.inj same))]
      exact placed.parked q parked
  · intro q isQ
    rw [others none (Option.some_ne_none p).symm]
    exact placed.caller q isQ
  · intro t
    by_cases isP : t = some p
    · rw [isP, Function.update_self]
      exact True.intro
    · rw [Function.update_of_ne isP]
      apply LocksPlaced.nest_congr (placed.nest t)
      · intro q isQ
        apply otherPoints
        intro same
        rw [isQ, same] at isP
        exact isP rfl
      · exact fun _ => rfl

theorem step
    {action : ThreadAction}
    (fits : LocksFit s)
    (taken : s.Step action after) :
    LocksFit after := by
  unfold ThreadState.Step ThreadState.step? at taken
  split at taken
  · cases taken
  rename_i notPanicked
  have running : s.panicked = false := eq_false_of_ne_true notPanicked
  cases action with
  | interrupt irq =>
      obtain ⟨⟨enabled, _⟩, isAfter⟩ :=
        Option.ite_none_right_eq_some.mp taken
      cases isAfter
      exact fits.trap running enabled irq
  | execute pc x mem =>
      obtain ⟨_, isAfter⟩ := Option.ite_none_right_eq_some.mp taken
      cases isAfter
      exact ⟨fits.counted, fits.placed⟩
  | acquire lk =>
      obtain ⟨may, acquired⟩ := Option.ite_none_right_eq_some.mp taken
      exact fits.acquire may acquired
  | release lk =>
      obtain ⟨may, released⟩ := Option.ite_none_right_eq_some.mp taken
      exact fits.release may released
  | wake q =>
      obtain ⟨_, isAfter⟩ := Option.ite_none_right_eq_some.mp taken
      cases isAfter
      exact ⟨fits.counted, fits.placed⟩
  | yield =>
      obtain ⟨p, client, yields⟩ := Option.bind_eq_some_iff.mp taken
      obtain ⟨isProc, outside, _⟩ := client?_eq client
      have placed := fits.placed running
      rw [isProc] at placed
      apply yield (s := s) placed _ _ _ _ _ _ yields
      · exact fits.counted
      · exact fun _ _ => rfl
      · exact otherPoints s _
      · rfl
      · exact locksOf_setPoint outside _
      · exact nest_outside outside
  | sleep lk =>
      obtain ⟨p, client, sleeps⟩ := Option.bind_eq_some_iff.mp taken
      exact fits.sleep running client sleeps
  | zombie =>
      obtain ⟨p, client, isAfter⟩ := Option.map_eq_some_iff.mp taken
      cases isAfter
      exact ⟨fits.counted, fits.placed⟩
  | exit =>
      obtain ⟨p, client, exits⟩ := Option.bind_eq_some_iff.mp taken
      exact fits.exit running client exits
  | goOn =>
      obtain ⟨p, isProc, goes⟩ := Option.bind_eq_some_iff.mp taken
      obtain ⟨outside, went⟩ := Option.ite_none_right_eq_some.mp goes
      rw [isProc, List.isEmpty_iff] at outside
      exact fits.goOn running isProc outside went
  | usertrap syscall =>
      obtain ⟨p, isProc, traps⟩ := Option.bind_eq_some_iff.mp taken
      obtain ⟨⟨outside, isUser⟩, isAfter⟩ :=
        Option.ite_none_right_eq_some.mp traps
      rw [isProc, List.isEmpty_iff] at outside
      cases isAfter
      exact fits.usertrap running isProc outside isUser syscall
  | usertrapret epc =>
      obtain ⟨p, client, returns⟩ := Option.bind_eq_some_iff.mp taken
      obtain ⟨free, isAfter⟩ := Option.ite_none_right_eq_some.mp returns
      obtain ⟨isProc, outside, _⟩ := client?_eq client
      cases isAfter
      exact fits.usertrapret running isProc outside free epc
  | schedule =>
      obtain ⟨⟨isScheduler, outside⟩, schedules⟩ :=
        Option.ite_none_right_eq_some.mp taken
      rw [List.isEmpty_iff] at outside
      exact fits.schedule running isScheduler outside schedules
  | handler =>
      exact fits.handler running taken
  | create q context =>
      obtain ⟨⟨_, notRunning⟩, isAfter⟩ :=
        Option.ite_none_right_eq_some.mp taken
      cases isAfter
      exact ⟨fits.counted, fun alive => create (fits.placed alive) notRunning⟩
  | reap q =>
      obtain ⟨_, isAfter⟩ := Option.ite_none_right_eq_some.mp taken
      cases isAfter
      exact ⟨fits.counted, fits.placed⟩

theorem boot
    (hart : Machine)
    (context : ThreadId → Reg → Word)
    (ready : Slot → Bool) :
    LocksFit (ThreadState.boot hart context ready) where
  counted := ⟨rfl, fun some => absurd rfl some⟩
  placed := by
    intro _
    refine {
      own := ?_
      parked := ?_
      caller := ?_
      nest := ?_
    }
    · intro locks isLocks
      exact Option.some.inj isLocks
    · intro p _
      rfl
    · intro p isP
      cases isP
    · intro t
      exact True.intro

end LocksFit

end MyOS
