import MyOS.ProcScheduling

namespace MyOS.Kernel

/-!
# Every step keeps the scheduling invariant

First what the switching functions do when the locks are as they should be,
then the steps one by one.
-/

theorem wakeup_undisturbed
    (k : Kernel)
    (chan : Option Channel)
    (slot : Slot) :
    (k.proc slot).Undisturbed ((k.wakeup chan).proc slot) := by
  simp only [wakeup]
  split
  · rename_i woken
    exact ⟨rfl, Or.inr ⟨woken.2.1, rfl⟩, fun _ => ⟨rfl, rfl⟩⟩
  · exact .refl _

theorem wakeup_current
    {k : Kernel}
    (chan : Option Channel)
    {slot : Slot}
    (running : k.cpu.proc = some slot) :
    (k.wakeup chan).proc slot = k.proc slot := by
  simp [wakeup, running]

theorem wakeup_locks
    {k : Kernel}
    {chan : Option Channel}
    {held : List LockName}
    (locks : LocksMatch k.cpu k.locked held) :
    LocksMatch (k.wakeup chan).cpu (k.wakeup chan).locked held :=
  locks.passLock

theorem interruptProc_undisturbed (p : Proc) :
    p.Undisturbed (interruptProc p) := by
  unfold interruptProc
  split
  · by_cases sleeping : p.status = .sleeping
    · exact ⟨rfl, Or.inr ⟨sleeping, by simp [sleeping]⟩,
        fun _ => ⟨rfl, rfl⟩⟩
    · exact ⟨rfl, Or.inl (by simp [sleeping]), fun _ => ⟨rfl, rfl⟩⟩
  · exact .refl _

theorem sched_eq
    {k : Kernel}
    {slot : Slot}
    (locks : LocksMatch k.cpu k.locked [.process slot]) :
    k.sched slot =
      if (k.proc slot).status = .running then
        k.panic .schedRunning
      else
        k.switchToScheduler slot := by
  have isLocked := (locks.locked (.process slot)).mpr (by simp)
  have off : k.cpu.interrupts = false := by
    rw [Bool.eq_false_iff]
    intro on
    have empty := locks.off on
    simp at empty
  simp [sched, isLocked, locks.depth, off]

theorem switchToScheduler_locks
    {k : Kernel}
    {slot : Slot}
    (locks : LocksMatch k.cpu k.locked [.process slot]) :
    LocksMatch (k.switchToScheduler slot).cpu
      (k.switchToScheduler slot).locked [] := by
  have moved :
      LocksMatch { k.cpu with proc := none } k.locked [.process slot] :=
    ⟨locks.locked, locks.nodup, locks.depth, locks.off⟩
  have released := LocksMatch.release
    (k := { k with
      cpu := { k.cpu with proc := none }
      scan := k.scan + 1 }) moved (.process slot) (by simp)
  simpa [switchToScheduler] using released

theorem schedAs_spec
    {k : Kernel}
    {slot : Slot}
    (locks : LocksMatch k.cpu k.locked [.process slot])
    {p : Proc}
    (notRunning : p.status ≠ .running) :
    (k.schedAs slot p).cpu.proc = none ∧
      (k.schedAs slot p).panicked = k.panicked ∧
      (k.schedAs slot p).proc = Function.update k.proc slot p ∧
      LocksMatch (k.schedAs slot p).cpu (k.schedAs slot p).locked [] := by
  have stored :
      LocksMatch (k.setProc slot p).cpu (k.setProc slot p).locked
        [.process slot] := locks
  have switched :
      k.schedAs slot p = (k.setProc slot p).switchToScheduler slot := by
    rw [schedAs, sched_eq stored]
    simp [setProc, notRunning]
  rw [switched]
  exact ⟨rfl, rfl, rfl, switchToScheduler_locks stored⟩

theorem yield_spec
    {k : Kernel}
    (locks : LocksMatch k.cpu k.locked [])
    (slot : Slot)
    (interrupts : Bool)
    (point : Point) :
    ∃ after,
      k.yield slot interrupts point = some after ∧
        after.cpu.proc = none ∧
        after.panicked = k.panicked ∧
        after.proc = Function.update k.proc slot
          { k.proc slot with
            status := .ready
            point := .yielded interrupts point } ∧
        LocksMatch after.cpu after.locked [] := by
  obtain ⟨taken, acquired, sameProc, samePanic, _, takenLocks⟩ :=
    locks.acquire (.process slot) (by simp)
  obtain ⟨left, panicked, stored, free⟩ :=
    schedAs_spec takenLocks
      (p := { taken.proc slot with
        status := .ready
        point := .yielded interrupts point }) (by simp)
  exact ⟨_, by rw [Kernel.yield, acquired]; rfl, left,
    panicked.trans samePanic, stored.trans (by rw [sameProc]), free⟩

theorem sleep_ownLock
    {k : Kernel}
    {lock : LockName}
    (locks : LocksMatch k.cpu k.locked [lock])
    (slot : Slot) :
    ∃ own : Kernel,
      (if lock = .process slot then
          some k
        else
          (k.acquire (.process slot)).map fun k => k.release lock) =
          some own ∧
        own.proc = k.proc ∧
        own.panicked = k.panicked ∧
        LocksMatch own.cpu own.locked [.process slot] := by
  by_cases same : lock = .process slot
  · subst same
    exact ⟨k, by simp, rfl, rfl, locks⟩
  · obtain ⟨taken, acquired, sameProc, samePanic, _, takenLocks⟩ :=
      locks.acquire (.process slot) (by simpa using Ne.symm same)
    refine ⟨taken.release lock, by simp [same, acquired], sameProc,
      samePanic, ?_⟩
    have released := takenLocks.release lock (by simp)
    have erased :
        [.process slot, lock].erase lock = [LockName.process slot] := by
      simp [Ne.symm same]
    rw [erased] at released
    exact released

theorem sleep_spec
    {k : Kernel}
    {lock : LockName}
    (locks : LocksMatch k.cpu k.locked [lock])
    (slot : Slot)
    (chan : Channel)
    (point : Point) :
    ∃ after,
      k.sleep slot chan lock point = some after ∧
        after.cpu.proc = none ∧
        after.panicked = k.panicked ∧
        after.proc = Function.update k.proc slot
          { k.proc slot with
            status := .sleeping
            chan := some chan
            point := .slept lock point } ∧
        LocksMatch after.cpu after.locked [] := by
  obtain ⟨own, isOwn, sameProc, samePanic, ownLocks⟩ :=
    sleep_ownLock locks slot
  obtain ⟨left, panicked, stored, free⟩ :=
    schedAs_spec ownLocks
      (p := { own.proc slot with
        status := .sleeping
        chan := some chan
        point := .slept lock point }) (by simp)
  exact ⟨_, by rw [Kernel.sleep, isOwn]; rfl, left,
    panicked.trans samePanic, stored.trans (by rw [sameProc]), free⟩

theorem held_of_mayLock
    {point : Point}
    {lock : LockName}
    {slot : Slot}
    (may : mayLock point lock = true) :
    point.held slot = [] := by
  unfold mayLock at may
  split at may <;> simp_all [Point.held]

theorem syscall_or_truncating_of_mayLock
    {point : Point}
    {lock : LockName}
    (may : mayLock point lock = true) :
    point = .syscall ∨ point.truncating = true := by
  unfold mayLock at may
  split at may <;> simp_all [Point.truncating]

namespace WellScheduled

variable {awake : Prop} {k : Kernel} {slot : Slot}

theorem currentLocks
    (scheduled : WellScheduled awake k)
    (running : k.cpu.proc = some slot) :
    LocksMatch k.cpu k.locked ((k.proc slot).point.held slot) := by
  have locks := scheduled.locks
  rw [running] at locks
  exact locks

theorem current_running
    (scheduled : WellScheduled awake k)
    (running : k.cpu.proc = some slot)
    (notExiting : (k.proc slot).point.exiting = false) :
    (k.proc slot).status = .running := by
  rcases (scheduled.current running).1 with status | ⟨_, exiting⟩
  · exact status
  · rw [notExiting] at exiting
    cases exiting

theorem fits_of_notExiting
    {p : Proc}
    {current : Prop}
    (status : p.StatusFits slot current)
    (released : p.point.released p.ofile p.cwd)
    (notExiting : p.point.exiting = false) :
    p.Fits slot current awake where
  status := status
  released := fun _ => released
  zombie := by
    intro _ _ exiting
    rw [notExiting] at exiting
    cases exiting

theorem goTo
    (scheduled : WellScheduled awake k)
    (running : k.cpu.proc = some slot)
    {middle : Kernel}
    {p : Proc}
    (same : middle.cpu.proc = k.cpu.proc)
    (locks : LocksMatch middle.cpu middle.locked (p.point.held slot))
    (others :
      ∀ other, other ≠ slot →
        (k.proc other).Undisturbed (middle.proc other))
    (status : p.status = (k.proc slot).status)
    (active : p.point.active slot)
    (exiting : p.point.exiting = (k.proc slot).point.exiting)
    (released : p.point.released p.ofile p.cwd)
    (notTruncating :
      awake → p.point.exiting = true → p.point.truncating = false)
    (child :
      ∀ np, p.point.child = some np →
        (k.proc slot).point.child = some np) :
    WellScheduled awake (middle.setProc slot p) := by
  have self : (middle.setProc slot p).proc slot = p := by simp [setProc]
  refine scheduled.moveOn running (same.trans running) ?_ ?_ ?_ ?_
  · intro other differs
    have rest : (middle.setProc slot p).proc other = middle.proc other := by
      simp [setProc, differs]
    rw [rest]
    exact others other differs
  · rw [self]
    refine {
      status := ?_
      released := fun _ => released
      zombie := ?_
    }
    · rcases (scheduled.current running).1 with isRunning | ⟨isZombie, exits⟩
      · simp [Proc.StatusFits, status, isRunning, active]
      · simp [Proc.StatusFits, status, isZombie, active, exiting, exits]
    · intro isAwake _ isExiting
      have wasExiting := exiting.symm.trans isExiting
      have zombie := ((scheduled.fits slot).zombie isAwake
        (scheduled.current_live running) wasExiting).1
      exact ⟨status.trans zombie, notTruncating isAwake isExiting⟩
  · rw [self]
    exact child
  · rw [self]
    exact locks

theorem giveUp
    (scheduled : WellScheduled awake k)
    (running : k.cpu.proc = some slot)
    {after : Kernel}
    {p : Proc}
    (left : after.cpu.proc = none)
    (stored : after.proc = Function.update k.proc slot p)
    (locks : LocksMatch after.cpu after.locked [])
    (waits : p.status = .ready ∨ p.status = .sleeping)
    (parked : p.point.parked slot)
    (released : p.point.released p.ofile p.cwd)
    (notExiting : awake → p.point.exiting = false)
    (child :
      ∀ np, p.point.child = some np →
        (k.proc slot).point.child = some np) :
    WellScheduled awake after := by
  have self : after.proc slot = p := by simp [stored]
  refine scheduled.leave running left ?_ ?_ ?_ locks
  · intro other differs
    have rest : after.proc other = k.proc other := by simp [stored, differs]
    rw [rest]
    exact .refl _
  · rw [self]
    refine {
      status := ?_
      released := fun _ => released
      zombie := ?_
    }
    · rcases waits with ready | sleeping
      · simp [Proc.StatusFits, ready, parked]
      · simp [Proc.StatusFits, sleeping, parked]
    · intro isAwake _ exiting
      rw [notExiting isAwake] at exiting
      cases exiting
  · rw [self]
    exact child

theorem current_released
    (scheduled : WellScheduled awake k)
    (running : k.cpu.proc = some slot) :
    (k.proc slot).point.released (k.proc slot).ofile (k.proc slot).cwd :=
  (scheduled.fits slot).released (scheduled.current_live running)

theorem notExiting_of_running
    (scheduled : WellScheduled awake k)
    (status : (k.proc slot).status = .running)
    (isAwake : awake) :
    (k.proc slot).point.exiting = false := by
  rw [Bool.eq_false_iff]
  intro exiting
  have zombie := ((scheduled.fits slot).zombie isAwake
    (by simp [Proc.live, status]) exiting).1
  rw [status] at zombie
  cases zombie

theorem held_of_interrupts
    (scheduled : WellScheduled awake k)
    (running : k.cpu.proc = some slot)
    (on : k.cpu.interrupts = true) :
    (k.proc slot).point.held slot = [] :=
  (scheduled.currentLocks running).off on

theorem timer
    (scheduled : WellScheduled awake k)
    {after : Kernel}
    (taken : k.timer = some after) :
    WellScheduled awake after ∧ after.panicked = k.panicked := by
  unfold Kernel.timer at taken
  split at taken
  · rename_i on
    split at taken
    · cases taken
      exact ⟨scheduled, rfl⟩
    · rename_i slot running
      have empty := scheduled.held_of_interrupts running on
      have locks := scheduled.currentLocks running
      rw [empty] at locks
      have off := locks.setInterrupts false
      split at taken
      · rename_i isUser
        obtain ⟨next, isNext, left, panicked, stored, free⟩ :=
          yield_spec off slot false .trapReturn
        rw [isNext] at taken
        cases taken
        refine ⟨?_, panicked⟩
        exact scheduled.giveUp running left stored free (Or.inl rfl)
          ⟨rfl, True.intro⟩ True.intro (fun _ => rfl) (by rintro _ ⟨⟩)
      · split at taken
        · rename_i status
          obtain ⟨next, isNext, left, panicked, stored, free⟩ :=
            yield_spec off slot true (k.proc slot).point
          rw [isNext] at taken
          cases taken
          refine ⟨?_, panicked⟩
          exact scheduled.giveUp running left stored free (Or.inl rfl)
            ⟨empty, (scheduled.current running).2⟩
            (scheduled.current_released running)
            (fun isAwake =>
              scheduled.notExiting_of_running status isAwake)
            (fun _ isChild => isChild)
        · cases taken
          exact ⟨scheduled, rfl⟩
  · cases taken

theorem handle
    (scheduled : WellScheduled awake k)
    (handler : Kernel → Kernel)
    (wakes :
      ∀ (k : Kernel) (slot : Slot),
        (k.proc slot).Undisturbed ((handler k).proc slot))
    (keeps : ∀ k : Kernel, (handler k).cpu.proc = k.cpu.proc)
    (silent : ∀ k : Kernel, (handler k).panicked = k.panicked)
    (passes :
      ∀ (k : Kernel) (held : List LockName), LocksMatch k.cpu k.locked held →
        LocksMatch (handler k).cpu (handler k).locked held)
    {after : Kernel}
    (taken : k.handle handler = some after) :
    WellScheduled awake after ∧ after.panicked = k.panicked := by
  unfold Kernel.handle at taken
  split at taken
  · rename_i on
    have noLock :
        ∀ held, LocksMatch k.cpu k.locked held → held = [] :=
      fun held locks => locks.off on
    have handled :
        ∀ held, LocksMatch k.cpu k.locked held →
          LocksMatch (handler (k.setInterrupts false)).cpu
            (handler (k.setInterrupts false)).locked held := by
      intro held locks
      have empty := noLock held locks
      subst empty
      exact passes _ _ (locks.setInterrupts false)
    have returned :
        ∀ held, LocksMatch k.cpu k.locked held →
          LocksMatch
            ((handler (k.setInterrupts false)).setInterrupts true).cpu
            (handler (k.setInterrupts false)).locked held := by
      intro held locks
      have next := handled held locks
      have empty := noLock held locks
      subst empty
      exact next.setInterrupts true
    have wakesAll := wakes (k.setInterrupts false)
    have same := keeps (k.setInterrupts false)
    have quiet := silent (k.setInterrupts false)
    dsimp only at taken
    split at taken
    · cases taken
      exact ⟨scheduled.quiet same wakesAll returned, quiet⟩
    · rename_i slot running
      split at taken
      · rename_i isUser
        cases taken
        refine ⟨?_, quiet⟩
        have isRunning := scheduled.current_running running
          (by rw [isUser]; rfl)
        have locks := handled _ (scheduled.currentLocks running)
        rw [isUser] at locks
        refine scheduled.goTo running same locks
          (fun other _ => wakesAll other) ?_ True.intro (by rw [isUser]; rfl)
          True.intro (fun _ => by rintro ⟨⟩) (by rintro _ ⟨⟩)
        rcases (wakesAll slot).status with status | ⟨sleeping, _⟩
        · exact status
        · exact absurd (isRunning.symm.trans sleeping) (by rintro ⟨⟩)
      · cases taken
        exact ⟨scheduled.quiet same wakesAll returned, quiet⟩
  · cases taken

theorem deviceInterrupt
    (scheduled : WellScheduled awake k)
    {chan : Channel}
    {after : Kernel}
    (taken : k.handle (fun k => k.wakeup (some chan)) = some after) :
    WellScheduled awake after ∧ after.panicked = k.panicked :=
  scheduled.handle _ (fun k => wakeup_undisturbed k _) (fun _ => rfl)
    (fun _ => rfl) (fun _ _ locks => wakeup_locks locks) taken

theorem interruptKey
    (scheduled : WellScheduled awake k)
    {after : Kernel}
    (taken : k.handle Kernel.interruptKey = some after) :
    WellScheduled awake after ∧ after.panicked = k.panicked := by
  refine scheduled.handle Kernel.interruptKey ?_ (fun _ => rfl)
    (fun _ => rfl) ?_ taken
  · intro k slot
    exact (interruptProc_undisturbed (k.proc slot)).trans
      (wakeup_undisturbed k.interruptProcs (some .console) slot)
  · intro k held locks
    exact wakeup_locks (k := k.interruptProcs) locks.passLock

/-- A point that a process may go on at, keeping its locks. -/
structure Reaches
    (p : Proc)
    (awake : Prop)
    (slot : Slot)
    (point : Point) : Prop where
  held : point.held slot = p.point.held slot
  active : point.active slot
  exiting : point.exiting = p.point.exiting
  released : point.released p.ofile p.cwd
  notTruncating : awake → point.exiting = true → point.truncating = false
  child : ∀ np, point.child = some np → p.point.child = some np

theorem setPoint
    (scheduled : WellScheduled awake k)
    (running : k.cpu.proc = some slot)
    {point : Point}
    (reaches : Reaches (k.proc slot) awake slot point) :
    WellScheduled awake (k.setPoint slot point) := by
  refine scheduled.goTo running rfl ?_ (fun _ _ => .refl _) rfl
    reaches.active reaches.exiting reaches.released reaches.notTruncating
    reaches.child
  have locks := scheduled.currentLocks running
  rw [← reaches.held] at locks
  exact locks

theorem beginExit
    (scheduled : WellScheduled awake k)
    (running : k.cpu.proc = some slot)
    (held : (k.proc slot).point.held slot = [])
    (status : BitVec 32) :
    WellScheduled awake (k.beginExit slot status) := by
  have self :
      (k.beginExit slot status).proc slot =
        { k.proc slot with
          xstate := status
          status := .zombie
          point := .exitFile 0 } := by
    simp [Kernel.beginExit, setProc, recordExit]
  refine scheduled.moveOn running running ?_ ?_ ?_ ?_
  · intro other differs
    have rest : (k.beginExit slot status).proc other = k.proc other := by
      simp [Kernel.beginExit, setProc, recordExit, differs]
    rw [rest]
    exact .refl _
  · rw [self]
    exact {
      status := ⟨rfl, Or.inl ⟨True.intro, True.intro⟩⟩
      released := fun _ i below => absurd below (Nat.not_lt_zero i)
      zombie := fun _ _ _ => ⟨rfl, rfl⟩
    }
  · rw [self]
    rintro _ ⟨⟩
  · rw [self]
    have locks := scheduled.currentLocks running
    rw [held] at locks
    exact locks

theorem takeLock
    (scheduled : WellScheduled awake k)
    (running : k.cpu.proc = some slot)
    (held : (k.proc slot).point.held slot = [])
    {lock : LockName}
    (point : Point)
    (holds : point.held slot = [lock])
    (active : point.active slot)
    (exiting : point.exiting = (k.proc slot).point.exiting)
    (released : point.released (k.proc slot).ofile (k.proc slot).cwd)
    (notTruncating :
      awake → point.exiting = true → point.truncating = false)
    (child :
      ∀ np, point.child = some np → (k.proc slot).point.child = some np)
    {after : Kernel}
    (acquired :
      (k.acquire lock).map (fun next => next.setPoint slot point) =
        some after) :
    WellScheduled awake after ∧ after.panicked = k.panicked := by
  obtain ⟨next, isNext, rfl⟩ := Option.map_eq_some_iff.mp acquired
  have locks := scheduled.currentLocks running
  rw [held] at locks
  obtain ⟨_, sameProc, samePanic, sameCurrent, nextLocks⟩ :=
    locks.of_acquire isNext
  refine ⟨?_, samePanic⟩
  rw [← holds] at nextLocks
  refine scheduled.goTo running sameCurrent nextLocks ?_ (by rw [sameProc])
    active exiting ?_ notTruncating child
  · intro other _
    rw [sameProc]
    exact .refl _
  · rw [sameProc]
    exact released

theorem giveLock
    (scheduled : WellScheduled awake k)
    (running : k.cpu.proc = some slot)
    {lock : LockName}
    (held : (k.proc slot).point.held slot = [lock])
    {point : Point}
    (holdsNone : point.held slot = [])
    (active : point.active slot)
    (exiting : point.exiting = (k.proc slot).point.exiting)
    (released : point.released (k.proc slot).ofile (k.proc slot).cwd)
    (notTruncating :
      awake → point.exiting = true → point.truncating = false)
    (child :
      ∀ np, point.child = some np → (k.proc slot).point.child = some np) :
    WellScheduled awake ((k.release lock).setPoint slot point) := by
  have locks := scheduled.currentLocks running
  rw [held] at locks
  have free := locks.release lock (by simp)
  rw [List.erase_cons_head, ← holdsNone] at free
  exact scheduled.goTo running rfl free (fun _ _ => .refl _) rfl active exiting
    released notTruncating child

theorem lock
    (scheduled : WellScheduled awake k)
    (running : k.cpu.proc = some slot)
    {lock : LockName}
    (may : mayLock (k.proc slot).point lock = true)
    {after : Kernel}
    (acquired :
      (k.acquire lock).map (fun next =>
        next.setPoint slot (.holding lock (k.proc slot).point)) =
        some after) :
    WellScheduled awake after ∧ after.panicked = k.panicked := by
  have active := (scheduled.current running).2
  refine scheduled.takeLock running (held_of_mayLock may)
    (.holding lock (k.proc slot).point) rfl ⟨may, active⟩ rfl
    (scheduled.current_released running) ?_ (fun _ isChild => isChild)
    acquired
  intro isAwake exiting
  exact ((scheduled.fits slot).zombie isAwake
    (scheduled.current_live running) exiting).2

theorem sleep
    (scheduled : WellScheduled awake k)
    (running : k.cpu.proc = some slot)
    {lock : LockName}
    {rest : Point}
    (isHolding : (k.proc slot).point = .holding lock rest)
    {chan : Channel}
    {after : Kernel}
    (slept :
      k.sleep slot chan lock (.holding lock rest) = some after) :
    WellScheduled awake after ∧ after.panicked = k.panicked := by
  have locks := scheduled.currentLocks running
  have active := (scheduled.current running).2
  have released := scheduled.current_released running
  have zombie := (scheduled.fits slot).zombie
  rw [isHolding] at locks active released zombie
  obtain ⟨next, isNext, left, panicked, stored, free⟩ :=
    sleep_spec locks slot chan (.holding lock rest)
  rw [isNext] at slept
  cases slept
  refine ⟨?_, panicked⟩
  refine scheduled.giveUp running left stored free (Or.inr rfl)
    ⟨rfl, active⟩ released ?_ ?_
  · -- A lock is held in a system call or while truncating.
    intro isAwake
    rw [Bool.eq_false_iff]
    intro exiting
    have notTruncating :=
      (zombie isAwake (scheduled.current_live running) exiting).2
    rcases syscall_or_truncating_of_mayLock active.1 with isSyscall | isItrunc
    · simp [Point.exiting, isSyscall] at exiting
    · simp [Point.truncating, isItrunc] at notTruncating
  · intro np isChild
    rw [isHolding]
    exact isChild

theorem unlock
    (scheduled : WellScheduled awake k)
    (running : k.cpu.proc = some slot)
    {lock : LockName}
    {rest : Point}
    (isHolding : (k.proc slot).point = .holding lock rest) :
    WellScheduled awake ((k.release lock).setPoint slot rest) := by
  have active := (scheduled.current running).2
  have released := scheduled.current_released running
  have zombie := (scheduled.fits slot).zombie
  rw [isHolding] at active released zombie
  refine scheduled.giveLock running (by rw [isHolding]; rfl)
    (held_of_mayLock active.1) active.2 (by rw [isHolding]; rfl) released
    ?_ (by rw [isHolding]; exact fun _ isChild => isChild)
  intro isAwake exiting
  exact (zombie isAwake (scheduled.current_live running) exiting).2

theorem wake
    (scheduled : WellScheduled awake k)
    (chan : Option Channel) :
    WellScheduled awake (k.wakeup chan) :=
  scheduled.quiet rfl (wakeup_undisturbed k chan)
    (fun _ locks => wakeup_locks locks)

theorem getCpu
    (scheduled : WellScheduled awake k)
    (idle : k.cpu.proc = none)
    (isReady : (k.proc slot).status = .ready)
    {after : Kernel}
    {p : Proc}
    (runs : after.cpu.proc = some slot)
    (others : ∀ other, other ≠ slot → after.proc other = k.proc other)
    (self : after.proc slot = p)
    (status : p.status = .running)
    (sameFiles : p.ofile = (k.proc slot).ofile ∧ p.cwd = (k.proc slot).cwd)
    (active : p.point.active slot)
    (exiting : p.point.exiting = (k.proc slot).point.exiting)
    (released :
      (k.proc slot).point.released (k.proc slot).ofile (k.proc slot).cwd →
        p.point.released (k.proc slot).ofile (k.proc slot).cwd)
    (child : p.point.child = (k.proc slot).point.child)
    (locks : LocksMatch after.cpu after.locked (p.point.held slot)) :
    WellScheduled awake after := by
  have wasLive : (k.proc slot).live := by simp [Proc.live, isReady]
  refine scheduled.change wasLive (by simp [idle]) ?_ ?_ ?_ ?_ ?_
  · intro other differs isOther
    rw [runs] at isOther
    exact differs (Option.some.inj isOther).symm
  · intro other differs
    rw [others other differs]
    exact .refl _
  · rw [self]
    refine {
      status := by simp [Proc.StatusFits, status, active, runs]
      released := ?_
      zombie := ?_
    }
    · intro _
      rw [sameFiles.1, sameFiles.2]
      exact released ((scheduled.fits slot).released wasLive)
    · intro isAwake _ isExiting
      have zombie := ((scheduled.fits slot).zombie isAwake wasLive
        (exiting.symm.trans isExiting)).1
      rw [isReady] at zombie
      cases zombie
  · rw [self, child]
    exact fun _ isChild => isChild
  · rw [runs]
    rw [← self] at locks
    exact locks

theorem resume
    (scheduled : WellScheduled awake k)
    (idle : k.cpu.proc = none)
    (isReady : (k.proc slot).status = .ready)
    {middle after : Kernel}
    (runs : middle.cpu.proc = some slot)
    (others : ∀ other, other ≠ slot → middle.proc other = k.proc other)
    (self : middle.proc slot = { k.proc slot with status := .running })
    (locks : LocksMatch middle.cpu middle.locked [.process slot])
    (taken : middle.resume slot = some after) :
    WellScheduled awake after ∧ after.panicked = middle.panicked := by
  have parked := (scheduled.fits slot).status
  simp only [Proc.StatusFits, isReady] at parked
  replace parked := parked.2
  have free := locks.release (.process slot) (by simp)
  rw [List.erase_cons_head] at free
  have point : (middle.proc slot).point = (k.proc slot).point := by
    rw [self]
  cases waiting : (k.proc slot).point with
  | forkret =>
      simp only [Kernel.resume, point, waiting] at taken
      cases taken
      refine ⟨?_, rfl⟩
      refine scheduled.getCpu idle isReady
        (p := { k.proc slot with
          status := .running
          point := .user })
        runs ?_ ?_ rfl ⟨rfl, rfl⟩ True.intro (by rw [waiting]; rfl)
        (fun _ => True.intro) (by rw [waiting]; rfl)
        (free.setInterrupts true)
      · intro other differs
        simp [Kernel.setInterrupts, Kernel.setPoint, setProc, differs,
          Kernel.release, popOff, others]
      · simp [Kernel.setInterrupts, Kernel.setPoint, setProc, Kernel.release,
          popOff, self]
  | yielded interrupts rest =>
      simp only [Kernel.resume, point, waiting] at taken
      cases taken
      rw [waiting] at parked
      refine ⟨?_, rfl⟩
      refine scheduled.getCpu idle isReady
        (p := { k.proc slot with
          status := .running
          point := rest })
        runs ?_ ?_ rfl ⟨rfl, rfl⟩ parked.2 (by rw [waiting]; rfl)
        (by rw [waiting]; exact fun released => released)
        (by rw [waiting]; rfl) ?_
      · intro other differs
        simp [Kernel.setInterrupts, Kernel.setPoint, setProc, differs,
          Kernel.release, popOff, others]
      · simp [Kernel.setInterrupts, Kernel.setPoint, setProc, Kernel.release,
          popOff, self]
      · rw [parked.1]
        exact free.setInterrupts _
  | slept lock rest =>
      simp only [Kernel.resume, point, waiting] at taken
      rw [waiting] at parked
      have goes :
          ∀ final : Kernel,
            final.cpu.proc = some slot →
            final.proc = (middle.setProc slot
              { middle.proc slot with
                chan := none
                point := rest }).proc →
            LocksMatch final.cpu final.locked [lock] →
            WellScheduled awake final := by
        intro final finalRuns finalProc finalLocks
        refine scheduled.getCpu idle isReady
          (p := { k.proc slot with
            status := .running
            chan := none
            point := rest })
          finalRuns ?_ ?_ rfl ⟨rfl, rfl⟩ parked.2 (by rw [waiting]; rfl)
          (by rw [waiting]; exact fun released => released)
          (by rw [waiting]; rfl) (by rw [parked.1]; exact finalLocks)
        · intro other differs
          simp [finalProc, setProc, differs, others]
        · simp [finalProc, setProc, self]
      split at taken
      · rename_i isOwn
        cases taken
        subst isOwn
        exact ⟨goes _ runs rfl locks, rfl⟩
      · obtain ⟨_, finalProc, finalPanic, finalCurrent, finalLocks⟩ :=
          LocksMatch.of_acquire
            (k := (middle.setProc slot
              { middle.proc slot with
                chan := none
                point := rest }).release (.process slot))
            free taken
        exact ⟨goes _ (finalCurrent.trans runs) finalProc finalLocks,
          finalPanic⟩
  | _ =>
      rw [waiting] at parked
      exact parked.elim

theorem schedule
    (scheduled : WellScheduled awake k)
    (idle : k.cpu.proc = none)
    {after : Kernel}
    (taken : k.schedule = some after) :
    WellScheduled awake after ∧ after.panicked = k.panicked := by
  have free := scheduled.locks
  rw [idle] at free
  unfold Kernel.schedule at taken
  split at taken
  · rename_i inTable
    obtain ⟨next, acquired, taken⟩ := Option.bind_eq_some_iff.mp taken
    obtain ⟨_, sameProc, samePanic, sameCurrent, nextLocks⟩ :=
      free.of_acquire acquired
    split at taken
    · rename_i isReady
      rw [sameProc] at isReady
      have moved :
          LocksMatch
            { next.cpu with proc := some ⟨k.scan, inTable⟩ }
            next.locked [.process ⟨k.scan, inTable⟩] :=
        ⟨nextLocks.locked, nextLocks.nodup, nextLocks.depth, nextLocks.off⟩
      obtain ⟨result, panicked⟩ :=
        scheduled.resume idle isReady rfl
          (by
            intro other differs
            simp [setStatus, setProc, differs, sameProc])
          (by simp [setStatus, setProc, sameProc]) moved taken
      exact ⟨result, panicked.trans samePanic⟩
    · cases taken
      refine ⟨?_, samePanic⟩
      have released := nextLocks.release (.process ⟨k.scan, inTable⟩)
        (by simp)
      rw [List.erase_cons_head] at released
      exact {
        fits := by
          intro slot
          have fits := scheduled.fits slot
          rw [← sameProc, ← sameCurrent] at fits
          exact fits
        locks := by
          have still :
              (next.release (.process ⟨k.scan, inTable⟩)).cpu.proc = none :=
            sameCurrent.trans idle
          dsimp only
          rw [still]
          exact released
        children := by
          have children := scheduled.children
          rw [← sameProc] at children
          exact children
      }
  · cases taken
    refine ⟨scheduled.quiet rfl (fun _ => .refl _) ?_, rfl⟩
    intro held locks
    have same : held = [] := by
      have depth := locks.depth
      rw [free.depth] at depth
      exact (List.eq_nil_of_length_eq_zero depth.symm)
    subst same
    exact locks.setInterrupts true

end WellScheduled

end MyOS.Kernel
