import MyOS.KernelThreads

namespace MyOS

/-!
# Locks and the interrupt state

`noff` counts the locks that the running thread holds, and interrupts are off
while it holds any.  A thread that is switched out has left exactly one lock
behind, its process's, which the thread that runs next takes over.

`intena` belongs to the hart and not to the thread.  It is what the running
thread found at its first `acquire` as long as every `swtch` happens with the
value that the thread switched to has to restore.
-/

/-- The locks a thread holds at a point of `sys_trap_handler`, if it is fixed. -/
def TrapPoint.locks (t : ThreadId) : TrapPoint → Option (List LockName)
  | .body .timer => some []
  | .body .device => none
  | .yielded => t.map fun p => [.process p]
  | .sepcNext => some []
  | .sstatusNext => some []
  | .returning => some []

/-- The locks the thread of a process holds at a point, if it is fixed. -/
def KernelPoint.locks (p : Slot) : KernelPoint → Option (List LockName)
  | .user => some []
  | .kernel => none
  | .yielded => some [.process p]
  | .asleep _ => some [.process p]
  | .asleepHolding => some [.process p]
  | .relocking _ => some []
  | .forkret => some [.process p]
  | .exited => some [.process p]

/-- The locks that `scheduler` holds. -/
def SchedulerPoint.locks : SchedulerPoint → List LockName
  | .head => []
  | .scan _ => []
  | .locked p => [.process p]
  | .switched p => [.process p]

/-- The locks a thread holds outside traps, if its point fixes them. -/
def locksOutside
    (point : Slot → KernelPoint)
    (scheduler : SchedulerPoint) : ThreadId → Option (List LockName)
  | none => some scheduler.locks
  | some p => (point p).locks p

/-- The locks a thread with the given traps holds, if its point fixes them. -/
def locksAt
    (point : Slot → KernelPoint)
    (scheduler : SchedulerPoint)
    (t : ThreadId) : List TrapFrame → Option (List LockName)
  | [] => locksOutside point scheduler t
  | frame :: _ => frame.point.locks t

/-- The locks a thread holds, if its point fixes them. -/
def locksOf
    (traps : ThreadId → List TrapFrame)
    (point : Slot → KernelPoint)
    (scheduler : SchedulerPoint)
    (t : ThreadId) : Option (List LockName) :=
  locksAt point scheduler t (traps t)

/-- Every trap of a thread interrupted it where it held no lock. -/
def TrapsNest
    (point : Slot → KernelPoint)
    (scheduler : SchedulerPoint)
    (t : ThreadId) : List TrapFrame → Prop
  | [] => True
  | _ :: outer =>
      (∀ locks, locksAt point scheduler t outer = some locks → locks = []) ∧
        TrapsNest point scheduler t outer

/-- `noff` and the interrupt state agree with the locks that are held. -/
structure LocksCounted
    (noff : Int)
    (held : List LockName)
    (sie : Bool) : Prop where
  count : noff = held.length
  off : held ≠ [] → sie = false

/-- The threads hold the locks of their points. -/
structure LocksPlaced
    (proc : ThreadId)
    (held : List LockName)
    (traps : ThreadId → List TrapFrame)
    (point : Slot → KernelPoint)
    (scheduler : SchedulerPoint) : Prop where
  own :
    ∀ locks, locksOf traps point scheduler proc = some locks → held = locks
  parked :
    ∀ p, proc ≠ some p →
      locksOf traps point scheduler (some p) = some [.process p]
  caller :
    ∀ p, proc = some p →
      locksOf traps point scheduler none = some [.process p]
  nest : ∀ t, TrapsNest point scheduler t (traps t)

/-- The invariant of the locks; a panic stops the hart where it is. -/
structure LocksFit (s : ThreadState) : Prop where
  counted : LocksCounted s.noff s.held s.sstatus.sie
  placed :
    s.panicked = false →
      LocksPlaced s.proc s.held s.traps s.point s.scheduler

namespace LocksCounted

variable {s after : ThreadState} {lk : LockName}

theorem acquire
    (counted : LocksCounted s.noff s.held s.sstatus.sie)
    (acquired : s.acquire lk = some after) :
    LocksCounted after.noff after.held after.sstatus.sie := by
  unfold ThreadState.acquire at acquired
  split at acquired
  · cases acquired
  cases acquired
  have count := counted.count
  refine {
    count := ?_
    off := fun _ => rfl
  }
  simp only [ThreadState.pushOff, List.length_cons]
  omega

theorem release
    (counted : LocksCounted s.noff s.held s.sstatus.sie)
    (released : s.release lk = some after) :
    LocksCounted after.noff after.held after.sstatus.sie := by
  unfold ThreadState.release at released
  split at released
  · rename_i member
    cases released
    have count := counted.count
    have isOff : s.sstatus.sie = false :=
      counted.off (List.ne_nil_of_mem member)
    have shorter := List.length_erase_of_mem member
    have some := List.length_pos_of_mem member
    refine {
      count := ?_
      off := ?_
    }
    · simp only [ThreadState.popOff, ThreadState.setSie]
      omega
    · intro others
      have positive : 0 < (s.held.erase lk).length :=
        List.length_pos_iff.mpr others
      have more : s.noff - 1 ≠ 0 := by
        omega
      simp [ThreadState.popOff, ThreadState.setSie, isOff, more]
  · cases released

theorem single
    {p : Slot}
    (counted : LocksCounted s.noff s.held s.sstatus.sie)
    (one : s.noff = 1)
    (member : LockName.process p ∈ s.held) :
    s.held = [.process p] := by
  have count := counted.count
  have length : s.held.length = 1 := by
    omega
  obtain ⟨lock, isOnly⟩ := List.length_eq_one_iff.mp length
  rw [isOnly] at member
  rw [isOnly, List.mem_singleton.mp member]

end LocksCounted

namespace ThreadState

variable {s after : ThreadState} {lk : LockName}

theorem acquire_eq
    (acquired : s.acquire lk = some after) :
    lk ∉ s.held ∧
      after =
        { s.pushOff with
          held := lk :: s.held
          entry :=
            if s.held = [] then
              Function.update s.entry s.proc (some s.sstatus.sie)
            else
              s.entry } := by
  unfold acquire at acquired
  split at acquired
  · cases acquired
  · rename_i free
    exact ⟨free, (Option.some.inj acquired).symm⟩

theorem release_eq
    (released : s.release lk = some after) :
    lk ∈ s.held ∧ after = { s with held := s.held.erase lk }.popOff := by
  unfold release at released
  split at released
  · rename_i member
    exact ⟨member, (Option.some.inj released).symm⟩
  · cases released

theorem sched_cases (s : ThreadState) (p : Slot) :
    s.sched p = s.panic ∨
      LockName.process p ∈ s.held ∧ s.noff = 1 ∧ s.status p ≠ .running ∧
        s.sched p = s.swtch none := by
  unfold sched
  split
  · exact Or.inl rfl
  rename_i holds
  split
  · exact Or.inl rfl
  rename_i one
  split
  · exact Or.inl rfl
  rename_i notRunning
  split
  · exact Or.inl rfl
  · exact Or.inr ⟨Decidable.not_not.mp holds, Decidable.not_not.mp one,
      notRunning, rfl⟩

theorem client?_eq
    {p : Slot}
    (client : s.client? = some p) :
    s.proc = some p ∧ s.traps (some p) = [] ∧ s.point p = .kernel := by
  unfold client? at client
  obtain ⟨isProc, outside⟩ := Option.filter_eq_some_iff.mp client
  simp only [Bool.and_eq_true, List.isEmpty_iff, beq_iff_eq] at outside
  rw [isProc] at outside
  exact ⟨isProc, outside⟩

end ThreadState

namespace LocksPlaced

variable {proc : ThreadId} {held held' : List LockName}
variable {traps traps' : ThreadId → List TrapFrame}
variable {point point' : Slot → KernelPoint}
variable {scheduler scheduler' : SchedulerPoint}

theorem locksOutside_congr
    {t : ThreadId}
    (samePoint : ∀ p, t = some p → point' p = point p)
    (sameScheduler : t = none → scheduler' = scheduler) :
    locksOutside point' scheduler' t = locksOutside point scheduler t := by
  cases t with
  | none =>
      rw [sameScheduler rfl]
      rfl
  | some p =>
      simp only [locksOutside, samePoint p rfl]

theorem locksOf_congr
    {t : ThreadId}
    (sameTraps : traps' t = traps t)
    (samePoint : ∀ p, t = some p → point' p = point p)
    (sameScheduler : t = none → scheduler' = scheduler) :
    locksOf traps' point' scheduler' t = locksOf traps point scheduler t := by
  unfold locksOf
  rw [sameTraps]
  cases traps t with
  | nil =>
      exact locksOutside_congr samePoint sameScheduler
  | cons frame outer =>
      rfl

theorem nest_congr
    {t : ThreadId}
    {frames : List TrapFrame}
    (nest : TrapsNest point scheduler t frames)
    (samePoint : ∀ p, t = some p → point' p = point p)
    (sameScheduler : t = none → scheduler' = scheduler) :
    TrapsNest point' scheduler' t frames := by
  induction frames with
  | nil =>
      exact True.intro
  | cons frame outer inductionHypothesis =>
      refine ⟨?_, inductionHypothesis nest.2⟩
      intro locks isLocks
      apply nest.1
      rw [← isLocks]
      cases outer with
      | nil =>
          exact (locksOutside_congr samePoint sameScheduler).symm
      | cons next rest =>
          rfl

theorem move
    (placed : LocksPlaced proc held traps point scheduler)
    (otherTraps : ∀ t, t ≠ proc → traps' t = traps t)
    (otherPoints : ∀ p, proc ≠ some p → point' p = point p)
    (sameScheduler : proc ≠ none → scheduler' = scheduler)
    (own :
      ∀ locks, locksOf traps' point' scheduler' proc = some locks →
        held' = locks)
    (nest : TrapsNest point' scheduler' proc (traps' proc)) :
    LocksPlaced proc held' traps' point' scheduler' where
  own := own
  parked := by
    intro p notRunning
    rw [← placed.parked p notRunning]
    apply locksOf_congr
    · exact otherTraps _ (Ne.symm notRunning)
    · intro q isQ
      cases isQ
      exact otherPoints p notRunning
    · intro isNone
      cases isNone
  caller := by
    intro p running
    have notScheduler : proc ≠ none := by
      rw [running]
      exact Option.some_ne_none p
    rw [← placed.caller p running]
    apply locksOf_congr
    · exact otherTraps _ (Ne.symm notScheduler)
    · intro q isQ
      cases isQ
    · intro _
      exact sameScheduler notScheduler
  nest := by
    intro t
    by_cases running : t = proc
    · rw [running]
      exact nest
    · rw [otherTraps t running]
      apply nest_congr (placed.nest t)
      · intro p isP
        rw [isP] at running
        exact otherPoints p (Ne.symm running)
      · intro isNone
        rw [isNone] at running
        exact sameScheduler (Ne.symm running)

theorem leave
    {p : Slot}
    (placed : LocksPlaced (some p) held traps point scheduler)
    (otherTraps : ∀ t, t ≠ some p → traps' t = traps t)
    (otherPoints : ∀ q, q ≠ p → point' q = point q)
    (parks : locksOf traps' point' scheduler (some p) = some [.process p])
    (nest : TrapsNest point' scheduler (some p) (traps' (some p)))
    (isHeld : held' = [.process p]) :
    LocksPlaced none held' traps' point' scheduler where
  own := by
    intro locks isLocks
    have before := placed.caller p rfl
    have same :
        locksOf traps' point' scheduler none =
          locksOf traps point scheduler none := by
      apply locksOf_congr
      · exact otherTraps none (Option.some_ne_none p).symm
      · intro q isQ
        cases isQ
      · intro _
        rfl
    rw [same, before] at isLocks
    rw [isHeld]
    exact Option.some.inj isLocks
  parked := by
    intro q _
    by_cases isP : q = p
    · rw [isP]
      exact parks
    · have notRunning : some p ≠ some q := by
        intro same
        exact isP (Option.some.inj same).symm
      rw [← placed.parked q notRunning]
      apply locksOf_congr
      · exact otherTraps _ (Ne.symm notRunning)
      · intro r isR
        cases isR
        exact otherPoints q isP
      · intro isNone
        cases isNone
  caller := by
    intro q isQ
    cases isQ
  nest := by
    intro t
    by_cases isP : t = some p
    · rw [isP]
      exact nest
    · rw [otherTraps t isP]
      apply nest_congr (placed.nest t)
      · intro q isQ
        apply otherPoints
        intro same
        rw [isQ, same] at isP
        exact isP rfl
      · intro _
        rfl

theorem enter
    (placed : LocksPlaced none held traps point scheduler)
    (p : Slot)
    (outside : traps none = [])
    (isHeld : held = [.process p]) :
    LocksPlaced (some p) held traps point (.switched p) where
  own := by
    intro locks isLocks
    have before := placed.parked p (Option.some_ne_none p).symm
    have same :
        locksOf traps point (.switched p) (some p) =
          locksOf traps point scheduler (some p) := by
      apply locksOf_congr rfl
      · intro q _
        rfl
      · intro isNone
        cases isNone
    rw [same, before] at isLocks
    rw [isHeld]
    exact Option.some.inj isLocks
  parked := by
    intro q _
    rw [← placed.parked q (Option.some_ne_none q).symm]
    apply locksOf_congr rfl
    · intro r _
      rfl
    · intro isNone
      cases isNone
  caller := by
    intro q isQ
    cases isQ
    unfold locksOf
    rw [outside]
    rfl
  nest := by
    intro t
    cases t with
    | none =>
        rw [outside]
        exact True.intro
    | some q =>
        apply nest_congr (placed.nest (some q))
        · intro r _
          rfl
        · intro isNone
          cases isNone

end LocksPlaced

namespace LocksFit

open ThreadState

variable {s m after : ThreadState} {p : Slot} {lk : LockName}

theorem sched
    (placed : LocksPlaced (some p) s.held s.traps s.point s.scheduler)
    (counted : LocksCounted m.noff m.held m.sstatus.sie)
    (otherTraps : ∀ t, t ≠ some p → m.traps t = s.traps t)
    (otherPoints : ∀ q, q ≠ p → m.point q = s.point q)
    (sameScheduler : m.scheduler = s.scheduler)
    (parks : locksOf m.traps m.point m.scheduler (some p) = some [.process p])
    (nest : TrapsNest m.point m.scheduler (some p) (m.traps (some p))) :
    LocksFit (m.sched p) := by
  rcases m.sched_cases p with isPanic | ⟨member, one, _, switches⟩
  · rw [isPanic]
    refine {
      counted := counted
      placed := ?_
    }
    intro running
    cases running
  · rw [switches]
    refine {
      counted := counted
      placed := ?_
    }
    intro _
    rw [sameScheduler] at parks nest
    have left : LocksPlaced none m.held m.traps m.point s.scheduler :=
      placed.leave otherTraps otherPoints parks nest
        (counted.single one member)
    rw [← sameScheduler] at left
    exact left

theorem yield
    (placed : LocksPlaced (some p) s.held s.traps s.point s.scheduler)
    (counted : LocksCounted m.noff m.held m.sstatus.sie)
    (otherTraps : ∀ t, t ≠ some p → m.traps t = s.traps t)
    (otherPoints : ∀ q, q ≠ p → m.point q = s.point q)
    (sameScheduler : m.scheduler = s.scheduler)
    (parks : locksOf m.traps m.point m.scheduler (some p) = some [.process p])
    (nest : TrapsNest m.point m.scheduler (some p) (m.traps (some p)))
    (yields : m.yield p = some after) :
    LocksFit after := by
  obtain ⟨locked, acquired, isAfter⟩ := Option.map_eq_some_iff.mp yields
  have counts := counted.acquire acquired
  obtain ⟨_, isLocked⟩ := acquire_eq acquired
  rw [← isAfter]
  subst isLocked
  exact sched placed counts otherTraps otherPoints sameScheduler parks nest

theorem nest_outside
    {point : Slot → KernelPoint}
    {scheduler : SchedulerPoint}
    {t : ThreadId}
    {frames : List TrapFrame}
    (outside : frames = []) :
    TrapsNest point scheduler t frames := by
  rw [outside]
  exact True.intro

theorem otherPoints
    (s : ThreadState)
    (point : KernelPoint) :
    ∀ q, q ≠ p → (s.setPoint p point).point q = s.point q :=
  fun _ notP => Function.update_of_ne notP _ _

theorem locksOf_setPoint
    (outside : s.traps (some p) = [])
    (point : KernelPoint) :
    locksOf (s.setPoint p point).traps (s.setPoint p point).point
        (s.setPoint p point).scheduler (some p) =
      point.locks p := by
  unfold locksOf
  simp only [setPoint, outside, locksAt, locksOutside, Function.update_self]

theorem sleep
    (fits : LocksFit s)
    (running : s.panicked = false)
    (client : s.client? = some p)
    (sleeps : s.sleep p lk = some after) :
    LocksFit after := by
  obtain ⟨isProc, outside, _⟩ := client?_eq client
  have placed := fits.placed running
  rw [isProc] at placed
  unfold ThreadState.sleep at sleeps
  split at sleeps
  · cases sleeps
    apply sched placed
    · exact fits.counted
    · exact fun _ _ => rfl
    · exact otherPoints s _
    · rfl
    · exact locksOf_setPoint outside _
    · exact nest_outside outside
  · obtain ⟨locked, acquired, rest⟩ := Option.bind_eq_some_iff.mp sleeps
    obtain ⟨unlocked, released, isAfter⟩ := Option.map_eq_some_iff.mp rest
    have counts : LocksCounted locked.noff locked.held locked.sstatus.sie :=
      LocksCounted.acquire (s := s.setPoint p (.asleep lk)) fits.counted
        acquired
    have countsAfter := counts.release released
    obtain ⟨_, isLocked⟩ := acquire_eq acquired
    obtain ⟨_, isUnlocked⟩ := release_eq released
    rw [← isAfter]
    subst isUnlocked
    subst isLocked
    apply sched placed
    · exact countsAfter
    · exact fun _ _ => rfl
    · exact otherPoints s _
    · rfl
    · exact locksOf_setPoint outside _
    · exact nest_outside outside

theorem exit
    (fits : LocksFit s)
    (running : s.panicked = false)
    (client : s.client? = some p)
    (exits : s.exit p = some after) :
    LocksFit after := by
  obtain ⟨isProc, outside, _⟩ := client?_eq client
  have placed := fits.placed running
  rw [isProc] at placed
  obtain ⟨locked, acquired, isAfter⟩ := Option.map_eq_some_iff.mp exits
  have counts : LocksCounted locked.noff locked.held locked.sstatus.sie :=
    LocksCounted.acquire (s := s.setPoint p .exited) fits.counted acquired
  obtain ⟨_, isLocked⟩ := acquire_eq acquired
  rw [← isAfter]
  subst isLocked
  apply sched placed
  · exact counts
  · exact fun _ _ => rfl
  · exact otherPoints s _
  · rfl
  · exact locksOf_setPoint outside _
  · exact nest_outside outside

theorem mayLock_locks
    (may : s.mayLock = true) :
    locksOf s.traps s.point s.scheduler s.proc = none := by
  unfold mayLock at may
  rcases Bool.or_eq_true_iff.mp may with client | body
  · obtain ⟨p, isClient⟩ := Option.isSome_iff_exists.mp client
    obtain ⟨isProc, outside, isKernel⟩ := client?_eq isClient
    unfold locksOf
    rw [isProc, outside]
    simp only [locksAt, locksOutside, isKernel, KernelPoint.locks]
  · obtain ⟨frame, isTop, isBody⟩ := (Option.any_eq_true _ _).mp body
    obtain ⟨outer, isTraps⟩ := List.head?_eq_some_iff.mp isTop
    unfold locksOf
    rw [isTraps]
    simp only [locksAt, eq_of_beq isBody, TrapPoint.locks]

theorem anyLocks
    {held : List LockName}
    (placed : LocksPlaced s.proc s.held s.traps s.point s.scheduler)
    (free : locksOf s.traps s.point s.scheduler s.proc = none) :
    LocksPlaced s.proc held s.traps s.point s.scheduler := by
  apply placed.move (fun _ _ => rfl) (fun _ _ => rfl) (fun _ => rfl)
  · intro locks isLocks
    rw [free] at isLocks
    cases isLocks
  · exact placed.nest s.proc

theorem acquire
    (fits : LocksFit s)
    (may : s.mayLock = true)
    (acquired : s.acquire lk = some after) :
    LocksFit after := by
  have counts := fits.counted.acquire acquired
  obtain ⟨_, isAfter⟩ := acquire_eq acquired
  subst isAfter
  refine {
    counted := counts
    placed := ?_
  }
  intro running
  exact anyLocks (s := s) (fits.placed running) (mayLock_locks may)

theorem release
    (fits : LocksFit s)
    (may : s.mayLock = true)
    (released : s.release lk = some after) :
    LocksFit after := by
  have counts := fits.counted.release released
  obtain ⟨_, isAfter⟩ := release_eq released
  subst isAfter
  refine {
    counted := counts
    placed := ?_
  }
  intro running
  exact anyLocks (s := s) (fits.placed running) (mayLock_locks may)

theorem releaseOwn
    (released : m.release (.process p) = some after)
    (placed : LocksPlaced s.proc s.held s.traps s.point s.scheduler)
    (counted : LocksCounted s.noff s.held s.sstatus.sie)
    (isProc : s.proc = some p)
    (owns : s.held = [.process p])
    (otherTraps : ∀ t, t ≠ some p → m.traps t = s.traps t)
    (otherPoints : ∀ q, q ≠ p → m.point q = s.point q)
    (same :
      m.noff = s.noff ∧ m.held = s.held ∧ m.sstatus = s.sstatus ∧
        m.proc = s.proc ∧ m.scheduler = s.scheduler)
    (fixes :
      ∀ locks, locksOf m.traps m.point m.scheduler (some p) = some locks →
        locks = [])
    (nest : TrapsNest m.point m.scheduler (some p) (m.traps (some p))) :
    LocksFit after := by
  obtain ⟨noff, held, sstatus, proc, scheduler⟩ := same
  have counts : LocksCounted after.noff after.held after.sstatus.sie := by
    apply LocksCounted.release _ released
    rw [noff, held, sstatus]
    exact counted
  obtain ⟨_, isAfter⟩ := release_eq released
  subst isAfter
  refine {
    counted := counts
    placed := ?_
  }
  intro _
  have moved :
      LocksPlaced s.proc [] m.traps m.point m.scheduler := by
    apply placed.move
    · rw [isProc]
      exact otherTraps
    · intro q notRunning
      apply otherPoints
      intro isP
      rw [isP] at notRunning
      exact notRunning isProc
    · intro _
      exact scheduler
    · intro locks isLocks
      rw [isProc] at isLocks
      exact (fixes locks isLocks).symm
    · rw [isProc]
      exact nest
  have nothing : m.held.erase (.process p) = [] := by
    rw [held, owns, List.erase_cons_head]
  rw [← proc, ← nothing] at moved
  exact moved

theorem goOn
    (fits : LocksFit s)
    (running : s.panicked = false)
    (isProc : s.proc = some p)
    (outside : s.traps (some p) = [])
    (goes : s.goOn p = some after) :
    LocksFit after := by
  have placed := fits.placed running
  have here :
      locksOf s.traps s.point s.scheduler s.proc = (s.point p).locks p := by
    unfold locksOf
    rw [isProc, outside]
    rfl
  have owns :
      (s.point p).locks p = some [.process p] → s.held = [.process p] := by
    intro fixes
    exact placed.own _ (here.trans fixes)
  have moved :
      ∀ point : KernelPoint, (∀ locks, point.locks p = some locks →
        locks = []) → (s.point p).locks p = some [.process p] →
        (s.setPoint p point).release (.process p) = some after →
          LocksFit after := by
    intro point fixes isOwn released
    have fixed :
        ∀ locks, locksOf (s.setPoint p point).traps (s.setPoint p point).point
            (s.setPoint p point).scheduler (some p) = some locks →
          locks = [] := by
      intro locks isLocks
      rw [locksOf_setPoint outside] at isLocks
      exact fixes locks isLocks
    exact releaseOwn released placed fits.counted isProc (owns isOwn)
      (fun _ _ => rfl) (otherPoints s point) ⟨rfl, rfl, rfl, rfl, rfl⟩ fixed
      (nest_outside outside)
  have free : ∀ locks, KernelPoint.kernel.locks p = some locks →
      locks = [] := by
    intro locks isLocks
    cases isLocks
  have anywhere :
      ∀ held, LocksPlaced s.proc held (s.setPoint p .kernel).traps
        (s.setPoint p .kernel).point (s.setPoint p .kernel).scheduler := by
    intro held
    apply placed.move (fun _ _ => rfl)
    · intro q notRunning
      apply otherPoints
      intro isP
      rw [isP] at notRunning
      exact notRunning isProc
    · intro _
      rfl
    · intro locks isLocks
      rw [isProc] at isLocks
      have free := (locksOf_setPoint outside .kernel).symm.trans isLocks
      cases free
    · rw [isProc]
      exact nest_outside outside
  unfold ThreadState.goOn at goes
  cases isPoint : s.point p with
  | user =>
      simp only [isPoint] at goes
      cases goes
  | kernel =>
      simp only [isPoint] at goes
      cases goes
  | yielded =>
      simp only [isPoint] at goes
      exact moved _ free (by rw [isPoint]; rfl) goes
  | asleep lk =>
      simp only [isPoint] at goes
      apply moved _ _ (by rw [isPoint]; rfl) goes
      intro locks isLocks
      exact (Option.some.inj isLocks).symm
  | asleepHolding =>
      simp only [isPoint] at goes
      cases goes
      exact ⟨fits.counted, fun _ => anywhere s.held⟩
  | relocking lk =>
      simp only [isPoint] at goes
      have counts : LocksCounted after.noff after.held after.sstatus.sie :=
        LocksCounted.acquire (s := s.setPoint p .kernel) fits.counted goes
      obtain ⟨_, isAfter⟩ := acquire_eq goes
      subst isAfter
      exact ⟨counts, fun _ => anywhere _⟩
  | forkret =>
      simp only [isPoint] at goes
      exact moved _ free (by rw [isPoint]; rfl) goes
  | exited =>
      simp only [isPoint] at goes
      cases goes
      refine {
        counted := fits.counted
        placed := ?_
      }
      intro alive
      cases alive

end LocksFit

end MyOS
