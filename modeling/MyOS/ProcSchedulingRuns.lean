import MyOS.ProcSchedulingSteps

namespace MyOS.Kernel

/-!
# Runs keep the scheduling invariant

The steps of `fork`, `exit`, `wait` and the file functions, and the whole step
function.  The only panic of `sched` that a run can reach is the one for a
running process, from the end of `proc_exit`.
-/

/-- `proc_exit` is about to drop the last reference of an unlinked inode. -/
def dropsLastUnlinked (k : Kernel) (slot : Slot) : Bool :=
  match (k.proc slot).point with
  | .exitFile fd =>
      decide (fd < NOFILE) &&
        ((k.proc slot).ofile fd).any fun f =>
          (k.file f).ref == 1 && (k.file f).type == .inode &&
            k.lastUnlinked (k.file f).ip
  | .exitCwd => (k.proc slot).cwd.any k.lastUnlinked
  | _ => false

/-- A step of `proc_exit` drops such a reference. -/
def exitFrees (k : Kernel) : KernelAction → Bool
  | .advance _ => k.cpu.proc.any k.dropsLastUnlinked
  | _ => false

/--
No step of `proc_exit` drops the last reference of a valid inode whose link
count is zero.
-/
def ExitFreesNothing (k : Kernel) (action : KernelAction) : Prop :=
  k.exitFrees action = false

instance (k : Kernel) (action : KernelAction) :
    Decidable (ExitFreesNothing k action) :=
  inferInstanceAs (Decidable (_ = false))

namespace WellScheduled

variable {awake : Prop} {k : Kernel} {slot : Slot}

theorem goToWith
    (scheduled : WellScheduled awake k)
    (running : k.cpu.proc = some slot)
    {after : Kernel}
    {np : Slot}
    {p q : Proc}
    (differs : np ≠ slot)
    (unclaimed :
      ∀ third, third ≠ slot → (k.proc third).live →
        (k.proc third).point.child ≠ some np)
    (same : after.cpu.proc = k.cpu.proc)
    (self : after.proc slot = p)
    (isReplaced : after.proc np = q)
    (others :
      ∀ other, other ≠ slot → other ≠ np →
        after.proc other = k.proc other)
    (npFits : q.Fits np False awake)
    (npChild : q.live → q.point.child = none)
    (locks : LocksMatch after.cpu after.locked (p.point.held slot))
    (status : p.status = (k.proc slot).status)
    (notExiting : (k.proc slot).point.exiting = false)
    (active : p.point.active slot)
    (exiting : p.point.exiting = false)
    (released : p.point.released p.ofile p.cwd)
    (child :
      ∀ c, p.point.child = some c → c = np ∧ q.status = .allocated) :
    WellScheduled awake after := by
  refine scheduled.rebuild slot (fun other => other = np)
    ?_ ?_ ?_ ?_ ?_ ?_ ?_
    (scheduled.notChild (scheduled.current_live running).2)
  · intro other otherDiffers isOther
    rw [running] at isOther
    exact otherDiffers (Option.some.inj isOther).symm
  · intro other otherDiffers isOther
    rw [same, running] at isOther
    exact otherDiffers (Option.some.inj isOther).symm
  · intro other otherDiffers notNp
    rw [others other otherDiffers notNp]
    exact .refl _
  · rintro other _ rfl
    rw [isReplaced]
    exact ⟨npFits, npChild, unclaimed⟩
  · rw [self, same, running]
    refine fits_of_notExiting ?_ released exiting
    simp [Proc.StatusFits, status,
      scheduled.current_running running notExiting, active]
  · intro c _ isChild
    rw [self] at isChild
    obtain ⟨rfl, allocated⟩ := child c isChild
    refine ⟨differs, fun _ => by rw [isReplaced, allocated], ?_⟩
    exact fun notNp => (notNp rfl).elim
  · rw [same, running]
    simp only [self]
    exact locks

theorem fits_of_idle
    (awake : Prop)
    (np : Slot)
    {p : Proc}
    (idle : p.status = .free ∨ p.status = .allocated) :
    p.Fits np False awake ∧ (p.live → p.point.child = none) := by
  have notLive : ¬ p.live := by
    rcases idle with free | allocated
    · simp [Proc.live, free]
    · simp [Proc.live, allocated]
  refine ⟨?_, fun live => (notLive live).elim⟩
  refine {
    status := ?_
    released := fun live => (notLive live).elim
    zombie := fun _ live => (notLive live).elim
  }
  rcases idle with free | allocated
  · simp [Proc.StatusFits, free]
  · simp [Proc.StatusFits, allocated]

theorem fork
    (scheduled : WellScheduled awake k)
    (running : k.cpu.proc = some slot)
    (inSyscall : (k.proc slot).point = .syscall)
    (page : Bool) :
    WellScheduled awake (k.fork slot page) ∧
      (k.fork slot page).panicked = k.panicked := by
  have locks := (scheduled.currentLocks running).passLock
  have passed : WellScheduled awake k.passLock :=
    scheduled.quiet rfl (fun _ => .refl _) (fun _ locks => locks.passLock)
  cases found : k.freeSlot with
  | none =>
      simp only [Kernel.fork, allocproc, found]
      exact ⟨passed, rfl⟩
  | some np =>
      have isFree : (k.proc np).status = .free := by
        have holds := List.find?_some found
        simpa using holds
      have differs : np ≠ slot := by
        rintro rfl
        exact (scheduled.current_live running).1 isFree
      have third :
          ∀ third, third ≠ slot → (k.proc third).live →
            (k.proc third).point.child ≠ some np := by
        intro third _ live isChild
        have allocated := (scheduled.children third np live isChild).1
        rw [isFree] at allocated
        cases allocated
      cases page with
      | false =>
          simp only [Kernel.fork, allocproc, found, Bool.false_eq_true,
            if_false]
          refine ⟨?_, rfl⟩
          have idle := fits_of_idle awake np
            (p := { k.proc np with
              status := .free
              pid := k.nextPid
              killed := false
              xstate := 0
              chan := none
              parent := none
              birth := k.births
              forker := some (k.proc slot).birth }) (Or.inl rfl)
          refine scheduled.goToWith running (p := k.proc slot) differs third
            rfl ?_ ?_ ?_ idle.1 idle.2 locks rfl (by rw [inSyscall]; rfl)
            (scheduled.current running).2 (by rw [inSyscall]; rfl)
            (scheduled.current_released running) ?_
          · simp [setProc, differs.symm, passLock, pushOff, popOff]
          · simp [setProc, passLock, pushOff, popOff]
          · intro other _ notNp
            simp [setProc, notNp, passLock, pushOff, popOff]
          · rw [inSyscall]
            rintro _ ⟨⟩
      | true =>
          simp only [Kernel.fork, allocproc, found, if_true]
          refine ⟨?_, rfl⟩
          have idle := fits_of_idle awake np
            (p := { k.proc np with
              status := .allocated
              pid := k.nextPid
              killed := false
              xstate := 0
              chan := none
              parent := none
              birth := k.births
              forker := some (k.proc slot).birth }) (Or.inr rfl)
          rw [inSyscall] at locks
          refine scheduled.goToWith running
            (p := { k.proc slot with point := .forkStack np }) differs third
            rfl ?_ ?_ ?_ idle.1 idle.2 locks rfl (by rw [inSyscall]; rfl)
            True.intro rfl True.intro ?_
          · simp [Kernel.setPoint, setProc, differs.symm, passLock, pushOff,
              popOff]
          · simp [Kernel.setPoint, setProc, differs, passLock, pushOff,
              popOff]
          · intro other notSlot notNp
            simp [Kernel.setPoint, setProc, notSlot, notNp, passLock, pushOff,
              popOff]
          · intro c isChild
            exact ⟨(Option.some.inj isChild).symm, rfl⟩

theorem sameTable
    (scheduled : WellScheduled awake k)
    {after : Kernel}
    (cpu : after.cpu = k.cpu)
    (locked : after.locked = k.locked)
    (proc : after.proc = k.proc) :
    WellScheduled awake after := by
  refine scheduled.quiet (by rw [cpu]) ?_ ?_
  · rw [proc]
    exact fun _ => .refl _
  · rw [cpu, locked]
    exact fun _ locks => locks

theorem iput
    (scheduled : WellScheduled awake k)
    (running : k.cpu.proc = some slot)
    {point : Point}
    (reaches : Reaches (k.proc slot) awake slot point)
    (holdsNone : point.held slot = [])
    (ip : Nat)
    (keeps : awake → point.exiting = true → k.lastUnlinked ip = false) :
    WellScheduled awake (k.iput slot ip point) := by
  have stored :
      ∀ inode, WellScheduled awake (k.setInode ip inode) :=
    fun inode => scheduled.sameTable rfl rfl rfl
  unfold Kernel.iput
  dsimp only
  split
  · rename_i last
    refine (stored _).setPoint running {
      held := holdsNone.symm.trans reaches.held
      active := ⟨holdsNone, reaches.active⟩
      exiting := reaches.exiting
      released := reaches.released
      notTruncating := ?_
      child := reaches.child
    }
    intro isAwake exiting
    rw [keeps isAwake exiting] at last
    cases last
  · exact (stored _).setPoint running reaches

theorem Reaches.closeFile
    {p : Proc}
    {point : Point}
    (reaches : Reaches p awake slot point)
    (holdsNone : point.held slot = [])
    (f : Nat) :
    Reaches p awake slot (.closeFile f point) where
  held := holdsNone.symm.trans reaches.held
  active := ⟨holdsNone, reaches.active⟩
  exiting := reaches.exiting
  released := reaches.released
  notTruncating := reaches.notTruncating
  child := reaches.child

theorem pipeclose
    (scheduled : WellScheduled awake k)
    {pipe : Nat}
    {writable : Bool}
    {after : Kernel}
    (closed : k.pipeclose pipe writable = some after) :
    WellScheduled awake after ∧ after.panicked = k.panicked ∧
      after.cpu.proc = k.cpu.proc ∧
        ∀ slot, k.cpu.proc = some slot → after.proc slot = k.proc slot := by
  unfold Kernel.pipeclose at closed
  split at closed
  · cases closed
  · have stored :
        ∀ ends, WellScheduled awake (k.setPipe pipe ends) :=
      fun ends => scheduled.sameTable rfl rfl rfl
    dsimp only at closed
    split at closed <;> cases closed
    · exact ⟨(stored _).wake _, rfl, rfl,
        fun slot running => wakeup_current _ running⟩
    · exact ⟨(stored _).wake _, rfl, rfl,
        fun slot running => wakeup_current _ running⟩

theorem fileclose
    (scheduled : WellScheduled awake k)
    (running : k.cpu.proc = some slot)
    {point : Point}
    (reaches : Reaches (k.proc slot) awake slot point)
    (holdsNone : point.held slot = [])
    {f : Nat}
    (keeps :
      awake → point.exiting = true → (k.file f).ref = 1 →
        (k.file f).type = .inode → k.lastUnlinked (k.file f).ip = false)
    {after : Kernel}
    (closed : k.fileclose slot f point = some after) :
    WellScheduled awake after ∧
      (after.panicked = k.panicked ∨
        after.panicked = some .fileclose) := by
  unfold Kernel.fileclose at closed
  dsimp only at closed
  have stored :
      ∀ file, WellScheduled awake (k.setFile f file) :=
    fun file => scheduled.sameTable rfl rfl rfl
  split at closed
  · cases closed
    exact ⟨scheduled.sameTable rfl rfl rfl, Or.inr rfl⟩
  · rename_i referenced
    split at closed
    · cases closed
      exact ⟨(stored _).setPoint running reaches, Or.inl rfl⟩
    · rename_i last
      split at closed
      · rename_i isInode
        cases closed
        refine ⟨?_, Or.inl ?_⟩
        · refine (stored _).iput running (reaches.closeFile holdsNone f) rfl _
            ?_
          intro isAwake exiting
          exact keeps isAwake exiting (by omega) isInode
        · unfold Kernel.iput
          dsimp only
          split <;> rfl
      · obtain ⟨next, isNext, rfl⟩ := Option.map_eq_some_iff.mp closed
        obtain ⟨nextScheduled, panicked, same, self⟩ :=
          (stored _).pipeclose isNext
        refine ⟨?_, Or.inl panicked⟩
        refine nextScheduled.setPoint (same.trans running) ?_
        rw [self slot running]
        exact reaches.closeFile holdsNone f
      · cases closed
        exact ⟨(stored _).setPoint running (reaches.closeFile holdsNone f),
          Or.inl rfl⟩

theorem setFiles
    (scheduled : WellScheduled awake k)
    (running : k.cpu.proc = some slot)
    (inSyscall : (k.proc slot).point = .syscall)
    {p : Proc}
    (status : p.status = (k.proc slot).status)
    (point : p.point = (k.proc slot).point) :
    WellScheduled awake (k.setProc slot p) := by
  have locks := scheduled.currentLocks running
  rw [← point] at locks
  rw [inSyscall] at point
  exact scheduled.goTo running rfl locks (fun _ _ => .refl _) status
    (by rw [point]; exact True.intro) (by rw [point, inSyscall])
    (by rw [point]; exact True.intro) (fun _ => by rw [point]; rintro ⟨⟩)
    (by rw [point]; rintro _ ⟨⟩)

theorem setDescriptor
    (scheduled : WellScheduled awake k)
    (running : k.cpu.proc = some slot)
    (inSyscall : (k.proc slot).point = .syscall)
    (fd : Nat)
    (f : Option Nat) :
    WellScheduled awake (k.setDescriptor slot fd f) :=
  scheduled.setFiles running inSyscall rfl rfl

theorem call
    (scheduled : WellScheduled awake k)
    (running : k.cpu.proc = some slot)
    (inSyscall : (k.proc slot).point = .syscall)
    {systemCall : SystemCall}
    {after : Kernel}
    (called : k.call slot systemCall = some after) :
    WellScheduled awake after ∧
      (after.panicked = k.panicked ∨
        after.panicked = some .fileclose) := by
  have stays :
      ∀ p : Proc, p.point = .syscall → Reaches p awake slot .syscall := by
    intro p point
    exact {
      held := by rw [point]
      active := True.intro
      exiting := by rw [point]
      released := True.intro
      notTruncating := fun _ => by rintro ⟨⟩
      child := by rintro _ ⟨⟩
    }
  cases systemCall with
  | yield =>
      have locks := scheduled.currentLocks running
      rw [inSyscall] at locks
      obtain ⟨next, isNext, left, panicked, stored, free⟩ :=
        yield_spec locks slot false .syscall
      simp only [Kernel.call, isNext] at called
      cases called
      exact ⟨scheduled.giveUp running left stored free (Or.inl rfl)
        ⟨rfl, True.intro⟩ True.intro (fun _ => rfl) (by rintro _ ⟨⟩), Or.inl panicked⟩
  | openFile contents =>
      simp only [Kernel.call] at called
      split at called
      · cases called
        have stored :
            ∀ f file, WellScheduled awake (k.setFile f file) :=
          fun f file => scheduled.sameTable rfl rfl rfl
        exact ⟨(stored _ _).setDescriptor running inSyscall _ _, Or.inl rfl⟩
      · cases called
  | dup fd newfd =>
      simp only [Kernel.call] at called
      split at called
      · split at called
        · cases called
          have stored := fun f =>
            scheduled.setDescriptor running inSyscall newfd (some f)
          exact ⟨(stored _).sameTable rfl rfl rfl, Or.inl rfl⟩
        · cases called
      · cases called
  | close fd =>
      simp only [Kernel.call] at called
      split at called
      · have cleared :
            WellScheduled awake (k.setDescriptor slot fd none) :=
          scheduled.setDescriptor running inSyscall fd none
        exact cleared.fileclose running
          (stays _ (by simp [Kernel.setDescriptor, setProc, inSyscall])) rfl
          (fun _ => by rintro ⟨⟩) called
      · cases called
  | fileclose f =>
      exact scheduled.fileclose running (stays _ inSyscall) rfl
        (fun _ => by rintro ⟨⟩) called
  | openPipe pipe =>
      cases called
      exact ⟨scheduled.sameTable rfl rfl rfl, Or.inl rfl⟩
  | iget ip =>
      simp only [Kernel.call] at called
      split at called <;> cases called
      · exact ⟨scheduled.sameTable rfl rfl rfl, Or.inl rfl⟩
      · exact ⟨scheduled.sameTable rfl rfl rfl, Or.inl rfl⟩
  | idup ip =>
      cases called
      exact ⟨scheduled.sameTable rfl rfl rfl, Or.inl rfl⟩
  | ilock ip nlink =>
      simp only [Kernel.call] at called
      split at called
      · cases called
      · cases called
        exact ⟨scheduled.sameTable rfl rfl rfl, Or.inl rfl⟩
  | setLinks ip nlink =>
      cases called
      exact ⟨scheduled.sameTable rfl rfl rfl, Or.inl rfl⟩
  | iput ip =>
      cases called
      refine ⟨scheduled.iput running (stays _ inSyscall) rfl ip
        (fun _ => by rintro ⟨⟩), Or.inl ?_⟩
      unfold Kernel.iput
      dsimp only
      split <;> rfl
  | setCwd ip =>
      cases called
      exact ⟨scheduled.setFiles running inSyscall rfl rfl, Or.inl rfl⟩

theorem scanSons_zombie
    {sons : List Slot}
    {haveKids : Bool}
    {son : Slot}
    (found : k.scanSons slot sons haveKids = .zombie son) :
    (k.proc son).parent = some slot ∧ (k.proc son).status = .zombie ∧
      k.locked (.process son) = false := by
  induction sons generalizing haveKids with
  | nil =>
      simp [scanSons] at found
  | cons first rest inductionHypothesis =>
      simp only [scanSons] at found
      split at found
      · rename_i isSon
        split at found
        · cases found
        · rename_i free
          split at found
          · rename_i isZombie
            cases found
            exact ⟨isSon, isZombie, by simpa using free⟩
          · exact inductionHypothesis found
      · exact inductionHypothesis found

theorem waitScan
    (scheduled : WellScheduled awake k)
    (running : k.cpu.proc = some slot)
    {copies copied : Bool}
    (atScan : (k.proc slot).point = .waitScan copies)
    {after : Kernel}
    (taken : k.waitScan slot copies copied = some after) :
    WellScheduled awake after ∧ after.panicked = k.panicked := by
  have locks := scheduled.currentLocks running
  rw [atScan] at locks
  have finished :
      WellScheduled awake ((k.release (.process slot)).setPoint slot
        .syscall) :=
    scheduled.giveLock running (by rw [atScan]; rfl) rfl True.intro
      (by rw [atScan]; rfl) True.intro (fun _ => by rintro ⟨⟩) (by rintro _ ⟨⟩)
  unfold Kernel.waitScan at taken
  dsimp only at taken
  split at taken
  · cases taken
  · rename_i son found
    split at taken
    · cases taken
      exact ⟨finished, rfl⟩
    · cases taken
      refine ⟨?_, rfl⟩
      obtain ⟨_, isZombie, notLocked⟩ := scanSons_zombie found
      have differs : son ≠ slot := by
        rintro rfl
        have isLocked := (locks.locked (.process son)).mpr (by simp [Point.held])
        rw [notLocked] at isLocked
        cases isLocked
      have third :
          ∀ third, third ≠ slot → (k.proc third).live →
            (k.proc third).point.child ≠ some son := by
        intro third _ live isChild
        have allocated := (scheduled.children third son live isChild).1
        rw [isZombie] at allocated
        cases allocated
      have idle := fits_of_idle awake son
        (p := { k.proc son with
          status := .free
          pid := 0
          parent := none
          killed := false
          xstate := 0
          chan := none }) (Or.inl rfl)
      have free := locks.release (.process slot)
        (by simp [Point.held])
      simp only [Point.held, List.erase_cons_head] at free
      refine scheduled.goToWith running
        (p := { k.proc slot with point := .syscall }) differs third
        rfl ?_ ?_ ?_ idle.1 idle.2 free rfl (by rw [atScan]; rfl)
        True.intro rfl True.intro (by rintro _ ⟨⟩)
      · simp [Kernel.setPoint, setProc, Kernel.release, popOff, reap,
          recordReaping, differs.symm]
      · simp [Kernel.setPoint, setProc, Kernel.release, popOff, reap,
          recordReaping, differs]
      · intro other notSlot notSon
        simp [Kernel.setPoint, setProc, Kernel.release, popOff, reap,
          recordReaping, notSlot, notSon]
  · split at taken
    · cases taken
      exact ⟨finished, rfl⟩
    · obtain ⟨next, isNext, left, panicked, stored, free⟩ :=
        sleep_spec locks slot (.process slot) (.waitScan copies)
      rw [isNext] at taken
      cases taken
      exact ⟨scheduled.giveUp running left stored free (Or.inr rfl)
        ⟨rfl, True.intro⟩ True.intro (fun _ => rfl) (by rintro _ ⟨⟩), panicked⟩

end WellScheduled

end MyOS.Kernel
