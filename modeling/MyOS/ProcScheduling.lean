import MyOS.ProcMachine

namespace MyOS

/-!
# What scheduling keeps

In every run the status of a process fits the point of its code and whether it
has the CPU, the locks held are those of the running code, and the child that a
`fork` is working on is still allocated and belongs to that `fork` alone.

The invariant has a parameter.  When it is true the invariant also says that
processes stay zombies throughout `proc_exit`; this part survives only steps
that do not free an inode from there.
-/

namespace Point

/-- The locks that the code of the process in `slot` holds at a point. -/
def held (slot : Slot) : Point → List LockName
  | .waitScan _ => [.process slot]
  | .holding lock _ => [lock]
  | _ => []

/-- The child that a `fork` is working on. -/
def child : Point → Option Slot
  | .forkStack np => some np
  | .forkPagetable np => some np
  | .forkCopy np => some np
  | .forkFile np _ => some np
  | .forkParent np => some np
  | .forkCwd np => some np
  | .forkReady np => some np
  | .holding _ after => after.child
  | .itrunc _ after => after.child
  | .closeFile _ after => after.child
  | .yielded _ after => after.child
  | .slept _ after => after.child
  | _ => none

/-- The process is in `proc_exit`. -/
def exiting : Point → Bool
  | .exitFile _ => true
  | .exitClear _ => true
  | .exitCwd => true
  | .exitCwdClear => true
  | .exitWakeup => true
  | .exitSched => true
  | .exited => true
  | .holding _ after => after.exiting
  | .itrunc _ after => after.exiting
  | .closeFile _ after => after.exiting
  | .yielded _ after => after.exiting
  | .slept _ after => after.exiting
  | _ => false

/-- Code that can be running in `slot`. -/
def active (slot : Slot) : Point → Prop
  | .holding lock after =>
      Kernel.mayLock after lock = true ∧ after.active slot
  | .itrunc _ after => after.held slot = [] ∧ after.active slot
  | .closeFile _ after => after.held slot = [] ∧ after.active slot
  | .forkret => False
  | .yielded _ _ => False
  | .slept _ _ => False
  | .exited => False
  | _ => True

/-- Code of `slot` that waits for the CPU. -/
def parked (slot : Slot) : Point → Prop
  | .forkret => True
  | .yielded _ after => after.held slot = [] ∧ after.active slot
  | .slept lock after => after.held slot = [lock] ∧ after.active slot
  | _ => False

end Point

/-- What `proc_exit` has released when its code is at a point. -/
def Point.released
    (ofile : Nat → Option Nat)
    (cwd : Option Nat) : Point → Prop
  | .exitFile fd => ∀ i < fd, ofile i = none
  | .exitClear fd => ∀ i < fd, ofile i = none
  | .exitCwd => ∀ i < NOFILE, ofile i = none
  | .exitCwdClear => ∀ i < NOFILE, ofile i = none
  | .exitWakeup => (∀ i < NOFILE, ofile i = none) ∧ cwd = none
  | .exitSched => (∀ i < NOFILE, ofile i = none) ∧ cwd = none
  | .exited => (∀ i < NOFILE, ofile i = none) ∧ cwd = none
  | .holding _ after => after.released ofile cwd
  | .itrunc _ after => after.released ofile cwd
  | .closeFile _ after => after.released ofile cwd
  | .yielded _ after => after.released ofile cwd
  | .slept _ after => after.released ofile cwd
  | _ => True

/-- `iput` is freeing the contents of an inode. -/
def Point.truncating : Point → Bool
  | .itrunc _ _ => true
  | .holding _ after => after.truncating
  | .closeFile _ after => after.truncating
  | .yielded _ after => after.truncating
  | .slept _ after => after.truncating
  | _ => false

/-- A process that has been activated and not been reaped. -/
def Proc.live (p : Proc) : Prop :=
  p.status ≠ .free ∧ p.status ≠ .allocated

/-- The status of a process fits its point and whether it has the CPU. -/
def Proc.StatusFits (p : Proc) (slot : Slot) (current : Prop) : Prop :=
  match p.status with
  | .free => ¬ current
  | .allocated => ¬ current
  | .ready => ¬ current ∧ p.point.parked slot
  | .sleeping => ¬ current ∧ p.point.parked slot
  | .running => current ∧ p.point.active slot
  | .zombie =>
      p.point.exiting = true ∧
        (current ∧ p.point.active slot ∨ ¬ current ∧ p.point = .exited)

/-- The invariant of one process. -/
structure Proc.Fits
    (p : Proc)
    (slot : Slot)
    (current awake : Prop) : Prop where
  status : p.StatusFits slot current
  released : p.live → p.point.released p.ofile p.cwd
  zombie :
    awake → p.live → p.point.exiting = true →
      p.status = .zombie ∧ p.point.truncating = false

/-- At most a wakeup has happened to a process. -/
structure Proc.Undisturbed (before after : Proc) : Prop where
  point : after.point = before.point
  status :
    after.status = before.status ∨
      before.status = .sleeping ∧ after.status = .ready
  files : before.live → after.ofile = before.ofile ∧ after.cwd = before.cwd

namespace Proc

theorem Undisturbed.refl (p : Proc) : Undisturbed p p :=
  ⟨rfl, Or.inl rfl, fun _ => ⟨rfl, rfl⟩⟩

theorem Undisturbed.live_iff
    {before after : Proc}
    (undisturbed : Undisturbed before after) :
    after.live ↔ before.live := by
  rcases undisturbed.status with same | ⟨was, is⟩
  · simp only [live, same]
  · simp [live, was, is]

theorem Undisturbed.allocated
    {before after : Proc}
    (undisturbed : Undisturbed before after)
    (allocated : before.status = .allocated) :
    after.status = .allocated := by
  rcases undisturbed.status with same | ⟨was, _⟩
  · rw [same, allocated]
  · rw [was] at allocated
    cases allocated

theorem Undisturbed.trans
    {before middle after : Proc}
    (first : Undisturbed before middle)
    (second : Undisturbed middle after) :
    Undisturbed before after := by
  refine {
    point := second.point.trans first.point
    status := ?_
    files := ?_
  }
  · rcases second.status with same | ⟨was, is⟩
    · rw [same]
      exact first.status
    · rcases first.status with same | ⟨_, ready⟩
      · exact Or.inr ⟨same ▸ was, is⟩
      · rw [ready] at was
        cases was
  · intro isLive
    obtain ⟨sameFiles, sameCwd⟩ := first.files isLive
    obtain ⟨laterFiles, laterCwd⟩ := second.files (first.live_iff.mpr isLive)
    exact ⟨laterFiles.trans sameFiles, laterCwd.trans sameCwd⟩

theorem Fits.undisturbed
    {before after : Proc}
    {slot : Slot}
    {current awake : Prop}
    (fits : before.Fits slot current awake)
    (undisturbed : Undisturbed before after) :
    after.Fits slot current awake := by
  have live := undisturbed.live_iff
  refine {
    status := ?_
    released := ?_
    zombie := ?_
  }
  · have status := fits.status
    rcases undisturbed.status with same | ⟨was, is⟩
    · simp only [StatusFits, same, undisturbed.point]
      exact status
    · simp only [StatusFits, was] at status
      simp only [StatusFits, is, undisturbed.point]
      exact status
  · intro isLive
    have wasLive := live.mp isLive
    obtain ⟨sameFiles, sameCwd⟩ := undisturbed.files wasLive
    rw [undisturbed.point, sameFiles, sameCwd]
    exact fits.released wasLive
  · intro isAwake isLive
    rw [undisturbed.point]
    intro exiting
    obtain ⟨zombie, truncating⟩ := fits.zombie isAwake (live.mp isLive) exiting
    refine ⟨?_, truncating⟩
    rcases undisturbed.status with same | ⟨was, _⟩
    · rw [same, zombie]
    · rw [was] at zombie
      cases zombie

end Proc

namespace Kernel

/-! ## Locks -/

/-- The locks are exactly the listed ones and interrupts are off under them. -/
structure LocksMatch
    (cpu : Cpu)
    (locked : LockName → Bool)
    (held : List LockName) : Prop where
  locked : ∀ lock, locked lock = true ↔ lock ∈ held
  nodup : held.Nodup
  depth : cpu.noff = held.length
  off : cpu.interrupts = true → held = []

namespace LocksMatch

variable {k : Kernel} {held : List LockName}

theorem acquire
    (locks : LocksMatch k.cpu k.locked held)
    (lock : LockName)
    (notHeld : lock ∉ held) :
    ∃ after,
      k.acquire lock = some after ∧
        after.proc = k.proc ∧
        after.panicked = k.panicked ∧
        after.cpu.proc = k.cpu.proc ∧
        LocksMatch after.cpu after.locked (lock :: held) := by
  have isFree : k.locked lock = false := by
    rw [Bool.eq_false_iff]
    intro taken
    exact notHeld ((locks.locked lock).mp taken)
  refine ⟨{ k.pushOff with locked := Function.update k.locked lock true },
    by simp [Kernel.acquire, isFree], rfl, rfl, rfl, ?_⟩
  refine {
    locked := ?_
    nodup := List.nodup_cons.mpr ⟨notHeld, locks.nodup⟩
    depth := ?_
    off := ?_
  }
  · intro other
    by_cases same : other = lock
    · subst same
      simp
    · simp only [Function.update_of_ne same, List.mem_cons, same, false_or]
      exact locks.locked other
  · simp [pushOff, locks.depth]
  · simp [pushOff]

theorem of_acquire
    (locks : LocksMatch k.cpu k.locked held)
    {lock : LockName}
    {after : Kernel}
    (acquired : k.acquire lock = some after) :
    lock ∉ held ∧
      after.proc = k.proc ∧
      after.panicked = k.panicked ∧
      after.cpu.proc = k.cpu.proc ∧
      LocksMatch after.cpu after.locked (lock :: held) := by
  have notHeld : lock ∉ held := by
    intro member
    have taken := (locks.locked lock).mpr member
    simp [Kernel.acquire, taken] at acquired
  obtain ⟨other, isOther, facts⟩ := locks.acquire lock notHeld
  rw [acquired] at isOther
  cases isOther
  exact ⟨notHeld, facts⟩

theorem release
    (locks : LocksMatch k.cpu k.locked held)
    (lock : LockName)
    (isHeld : lock ∈ held) :
    LocksMatch (k.release lock).cpu (k.release lock).locked
      (held.erase lock) where
  locked := by
    intro other
    by_cases same : other = lock
    · subst same
      simp [Kernel.release, popOff, locks.nodup.mem_erase_iff]
    · simp only [Kernel.release, popOff, Function.update_of_ne same,
        List.mem_erase_of_ne same]
      exact locks.locked other
  nodup := locks.nodup.erase lock
  depth := by
    simp [Kernel.release, popOff, locks.depth,
      List.length_erase_of_mem isHeld]
  off := by
    intro on
    have wasOff : k.cpu.interrupts = false := by
      rw [Bool.eq_false_iff]
      intro wasOn
      rw [locks.off wasOn] at isHeld
      simp at isHeld
    simp only [Kernel.release, popOff, wasOff, Bool.false_or,
      Bool.and_eq_true, beq_iff_eq, locks.depth] at on
    refine List.eq_nil_of_length_eq_zero ?_
    rw [List.length_erase_of_mem isHeld]
    exact on.1

theorem passLock
    (locks : LocksMatch k.cpu k.locked held) :
    LocksMatch k.passLock.cpu k.passLock.locked held where
  locked := locks.locked
  nodup := locks.nodup
  depth := by
    simp [Kernel.passLock, pushOff, popOff, locks.depth]
  off := by
    intro on
    simp only [Kernel.passLock, pushOff, popOff, Nat.add_sub_cancel,
      Bool.false_or, Bool.and_eq_true, beq_iff_eq, locks.depth] at on
    exact List.eq_nil_of_length_eq_zero on.1

theorem setInterrupts
    (locks : LocksMatch k.cpu k.locked [])
    (on : Bool) :
    LocksMatch (k.setInterrupts on).cpu (k.setInterrupts on).locked [] where
  locked := locks.locked
  nodup := locks.nodup
  depth := locks.depth
  off := fun _ => rfl

end LocksMatch

/-! ## The invariant -/

/-- The invariant of the whole process table. -/
structure WellScheduled (awake : Prop) (k : Kernel) : Prop where
  fits :
    ∀ slot, (k.proc slot).Fits slot (k.cpu.proc = some slot) awake
  locks :
    LocksMatch k.cpu k.locked
      (match k.cpu.proc with
        | none => []
        | some slot => (k.proc slot).point.held slot)
  children :
    ∀ slot np,
      (k.proc slot).live → (k.proc slot).point.child = some np →
        (k.proc np).status = .allocated ∧
          ∀ other, other ≠ slot → (k.proc other).live →
            (k.proc other).point.child ≠ some np

namespace WellScheduled

variable {awake : Prop} {k : Kernel}

theorem current
    (scheduled : WellScheduled awake k)
    {slot : Slot}
    (running : k.cpu.proc = some slot) :
    ((k.proc slot).status = .running ∨
      (k.proc slot).status = .zombie ∧
        (k.proc slot).point.exiting = true) ∧
      (k.proc slot).point.active slot := by
  have fits := (scheduled.fits slot).status
  unfold Proc.StatusFits at fits
  cases status : (k.proc slot).status <;>
    simp [status, running] at fits ⊢ <;> tauto

theorem rebuild
    (scheduled : WellScheduled awake k)
    {after : Kernel}
    (slot : Slot)
    (replaced : Slot → Prop)
    (was : ∀ other, other ≠ slot → k.cpu.proc ≠ some other)
    (is : ∀ other, other ≠ slot → after.cpu.proc ≠ some other)
    (others :
      ∀ other, other ≠ slot → ¬ replaced other →
        (k.proc other).Undisturbed (after.proc other))
    (replacedFits :
      ∀ other, other ≠ slot → replaced other →
        (after.proc other).Fits other False awake ∧
          ((after.proc other).live →
            (after.proc other).point.child = none) ∧
          ∀ third, third ≠ slot → (k.proc third).live →
            (k.proc third).point.child ≠ some other)
    (fits : (after.proc slot).Fits slot (after.cpu.proc = some slot) awake)
    (child :
      ∀ np, (after.proc slot).live →
        (after.proc slot).point.child = some np →
          np ≠ slot ∧
            (replaced np → (after.proc np).status = .allocated) ∧
            (¬ replaced np →
              (k.proc slot).live ∧ (k.proc slot).point.child = some np))
    (locks :
      LocksMatch after.cpu after.locked
        (match after.cpu.proc with
          | none => []
          | some slot => (after.proc slot).point.held slot))
    (notChild :
      ∀ other, other ≠ slot → (k.proc other).live →
        (k.proc other).point.child ≠ some slot) :
    WellScheduled awake after := by
  have otherChild :
      ∀ other, other ≠ slot → (after.proc other).live →
        ∀ np, (after.proc other).point.child = some np →
          (k.proc other).live ∧ (k.proc other).point.child = some np ∧
            np ≠ slot ∧ ¬ replaced np := by
    intro other differs live np isChild
    by_cases isReplaced : replaced other
    · have noChild := (replacedFits other differs isReplaced).2.1 live
      rw [noChild] at isChild
      cases isChild
    · have undisturbed := others other differs isReplaced
      have wasLive := undisturbed.live_iff.mp live
      rw [undisturbed.point] at isChild
      refine ⟨wasLive, isChild, ?_, ?_⟩
      · rintro rfl
        exact notChild other differs wasLive isChild
      · intro npReplaced
        by_cases isSlot : np = slot
        · subst isSlot
          exact notChild other differs wasLive isChild
        · exact (replacedFits np isSlot npReplaced).2.2 other differs wasLive
            isChild
  refine {
    fits := ?_
    locks := locks
    children := ?_
  }
  · intro other
    by_cases isSlot : other = slot
    · subst isSlot
      exact fits
    · have notCurrent : (after.cpu.proc = some other) = False :=
        eq_false (is other isSlot)
      rw [notCurrent]
      by_cases isReplaced : replaced other
      · exact (replacedFits other isSlot isReplaced).1
      · have before := scheduled.fits other
        rw [eq_false (was other isSlot)] at before
        exact before.undisturbed (others other isSlot isReplaced)
  · intro parent np live isChild
    by_cases isSlot : parent = slot
    · subst isSlot
      obtain ⟨differs, ifReplaced, ifNot⟩ := child np live isChild
      by_cases isReplaced : replaced np
      · refine ⟨ifReplaced isReplaced, ?_⟩
        intro other otherDiffers otherLive otherIs
        exact (otherChild other otherDiffers otherLive np otherIs).2.2.2
          isReplaced
      · obtain ⟨wasLive, wasChild⟩ := ifNot isReplaced
        obtain ⟨allocated, unique⟩ :=
          scheduled.children parent np wasLive wasChild
        refine ⟨(others np differs isReplaced).allocated allocated, ?_⟩
        intro other otherDiffers otherLive otherIs
        obtain ⟨otherWas, otherChild, _⟩ :=
          otherChild other otherDiffers otherLive np otherIs
        exact unique other otherDiffers otherWas otherChild
    · obtain ⟨wasLive, wasChild, npDiffers, notReplaced⟩ :=
        otherChild parent isSlot live np isChild
      obtain ⟨allocated, unique⟩ :=
        scheduled.children parent np wasLive wasChild
      refine ⟨(others np npDiffers notReplaced).allocated allocated, ?_⟩
      intro other otherDiffers otherLive otherIs
      by_cases otherSlot : other = slot
      · subst otherSlot
        obtain ⟨_, _, ifNot⟩ := child np otherLive otherIs
        obtain ⟨slotLive, slotChild⟩ := ifNot notReplaced
        exact unique other otherDiffers slotLive slotChild
      · obtain ⟨otherWas, otherHad, _⟩ :=
          otherChild other otherSlot otherLive np otherIs
        exact unique other otherDiffers otherWas otherHad

theorem notChild
    (scheduled : WellScheduled awake k)
    {slot : Slot}
    (notAllocated : (k.proc slot).status ≠ .allocated)
    (other : Slot)
    (_ : other ≠ slot)
    (live : (k.proc other).live) :
    (k.proc other).point.child ≠ some slot :=
  fun isChild => notAllocated (scheduled.children other slot live isChild).1

theorem change
    (scheduled : WellScheduled awake k)
    {after : Kernel}
    {slot : Slot}
    (wasLive : (k.proc slot).live)
    (was : ∀ other, other ≠ slot → k.cpu.proc ≠ some other)
    (is : ∀ other, other ≠ slot → after.cpu.proc ≠ some other)
    (others :
      ∀ other, other ≠ slot → (k.proc other).Undisturbed (after.proc other))
    (fits : (after.proc slot).Fits slot (after.cpu.proc = some slot) awake)
    (child :
      ∀ np, (after.proc slot).point.child = some np →
        (k.proc slot).point.child = some np)
    (locks :
      LocksMatch after.cpu after.locked
        (match after.cpu.proc with
          | none => []
          | some slot => (after.proc slot).point.held slot)) :
    WellScheduled awake after := by
  refine scheduled.rebuild slot (fun _ => False) was is
    (fun other differs _ => others other differs)
    (fun _ _ isReplaced => isReplaced.elim) fits ?_ locks
    (scheduled.notChild wasLive.2)
  intro np _ isChild
  have wasChild := child np isChild
  refine ⟨?_, fun isReplaced => isReplaced.elim, fun _ => ⟨wasLive, wasChild⟩⟩
  rintro rfl
  exact wasLive.2 (scheduled.children np np wasLive wasChild).1

theorem current_live
    (scheduled : WellScheduled awake k)
    {slot : Slot}
    (running : k.cpu.proc = some slot) :
    (k.proc slot).live := by
  rcases (scheduled.current running).1 with status | ⟨status, _⟩ <;>
    simp [Proc.live, status]

theorem moveOn
    (scheduled : WellScheduled awake k)
    {after : Kernel}
    {slot : Slot}
    (running : k.cpu.proc = some slot)
    (stays : after.cpu.proc = some slot)
    (others :
      ∀ other, other ≠ slot → (k.proc other).Undisturbed (after.proc other))
    (fits : (after.proc slot).Fits slot True awake)
    (child :
      ∀ np, (after.proc slot).point.child = some np →
        (k.proc slot).point.child = some np)
    (locks :
      LocksMatch after.cpu after.locked
        ((after.proc slot).point.held slot)) :
    WellScheduled awake after := by
  refine scheduled.change (scheduled.current_live running) ?_ ?_ others ?_
    child ?_
  · intro other differs isOther
    rw [running] at isOther
    exact differs (Option.some.inj isOther).symm
  · intro other differs isOther
    rw [stays] at isOther
    exact differs (Option.some.inj isOther).symm
  · rw [eq_true stays]
    exact fits
  · rw [stays]
    exact locks

theorem leave
    (scheduled : WellScheduled awake k)
    {after : Kernel}
    {slot : Slot}
    (running : k.cpu.proc = some slot)
    (left : after.cpu.proc = none)
    (others :
      ∀ other, other ≠ slot → (k.proc other).Undisturbed (after.proc other))
    (fits : (after.proc slot).Fits slot False awake)
    (child :
      ∀ np, (after.proc slot).point.child = some np →
        (k.proc slot).point.child = some np)
    (locks : LocksMatch after.cpu after.locked []) :
    WellScheduled awake after := by
  refine scheduled.change (scheduled.current_live running) ?_ ?_ others ?_
    child ?_
  · intro other differs isOther
    rw [running] at isOther
    exact differs (Option.some.inj isOther).symm
  · intro other _
    rw [left]
    rintro ⟨⟩
  · have notCurrent : (none = some slot) = False :=
      eq_false (Option.some_ne_none slot).symm
    rw [left, notCurrent]
    exact fits
  · rw [left]
    exact locks

theorem quiet
    (scheduled : WellScheduled awake k)
    {after : Kernel}
    (same : after.cpu.proc = k.cpu.proc)
    (all : ∀ slot, (k.proc slot).Undisturbed (after.proc slot))
    (locks :
      ∀ held, LocksMatch k.cpu k.locked held →
        LocksMatch after.cpu after.locked held) :
    WellScheduled awake after where
  fits := by
    intro slot
    rw [same]
    exact (scheduled.fits slot).undisturbed (all slot)
  locks := by
    have before := locks _ scheduled.locks
    rw [same]
    cases running : k.cpu.proc with
    | none =>
        rw [running] at before
        exact before
    | some slot =>
        rw [running] at before
        simp only [(all slot).point]
        exact before
  children := by
    intro slot np live isChild
    rw [(all slot).point] at isChild
    obtain ⟨allocated, unique⟩ :=
      scheduled.children slot np ((all slot).live_iff.mp live) isChild
    refine ⟨(all np).allocated allocated, ?_⟩
    intro other differs otherLive
    rw [(all other).point]
    exact unique other differs ((all other).live_iff.mp otherLive)

end WellScheduled

end Kernel

end MyOS
