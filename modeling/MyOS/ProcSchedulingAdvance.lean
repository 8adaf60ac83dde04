import MyOS.ProcSchedulingRuns

namespace MyOS.Kernel

/-!
# The running process goes on

The steps between the points of `fork`, `exit` and `wait`, and from them every
step and every run.
-/

/-- What a step leads to when the invariant held before. -/
def Outcome (awake : Prop) (k after : Kernel) : Prop :=
  WellScheduled awake after ∧
      (after.panicked = k.panicked ∨ after.panicked = some .fileclose) ∨
    ¬ awake ∧ after.panicked = some .schedRunning

namespace WellScheduled

variable {awake : Prop} {k : Kernel} {slot : Slot}

theorem outcome
    {after : Kernel}
    (scheduled : WellScheduled awake after)
    (panicked : after.panicked = k.panicked) :
    Outcome awake k after :=
  Or.inl ⟨scheduled, Or.inl panicked⟩

theorem setInterrupts
    (scheduled : WellScheduled awake k)
    (running : k.cpu.proc = some slot)
    (holdsNone : (k.proc slot).point.held slot = []) :
    WellScheduled awake (k.setInterrupts true) := by
  refine scheduled.quiet rfl (fun _ => .refl _) ?_
  intro held locks
  have depth := (scheduled.currentLocks running).depth
  rw [holdsNone, locks.depth] at depth
  have empty := List.eq_nil_of_length_eq_zero depth
  subst empty
  exact locks.setInterrupts true

theorem withChild
    (scheduled : WellScheduled awake k)
    (running : k.cpu.proc = some slot)
    {np : Slot}
    (isChild : (k.proc slot).point.child = some np)
    {after : Kernel}
    (point : Point)
    {q : Proc}
    (same : after.cpu.proc = k.cpu.proc)
    (locks :
      ∀ held, LocksMatch k.cpu k.locked held →
        LocksMatch after.cpu after.locked held)
    (others :
      ∀ other, other ≠ slot → other ≠ np →
        after.proc other = k.proc other)
    (isReplaced : np ≠ slot → after.proc np = q)
    (self :
      np ≠ slot → after.proc slot = { k.proc slot with point := point })
    (held : point.held slot = (k.proc slot).point.held slot)
    (notExiting : (k.proc slot).point.exiting = false)
    (active : point.active slot)
    (exiting : point.exiting = false)
    (released : point.released (k.proc slot).ofile (k.proc slot).cwd)
    (npFits : q.Fits np False awake)
    (npChild : q.live → q.point.child = none)
    (child : ∀ c, point.child = some c → c = np ∧ q.status = .allocated) :
    WellScheduled awake after := by
  have live := scheduled.current_live running
  obtain ⟨allocated, unclaimed⟩ := scheduled.children slot np live isChild
  have differs : np ≠ slot := by
    rintro rfl
    exact live.2 allocated
  have kept := locks _ (scheduled.currentLocks running)
  rw [← held] at kept
  exact scheduled.goToWith running
    (p := { k.proc slot with point := point }) differs unclaimed same
    (self differs) (isReplaced differs) others npFits npChild kept rfl
    notExiting active exiting released child

theorem forkFails
    (scheduled : WellScheduled awake k)
    (running : k.cpu.proc = some slot)
    {np : Slot}
    (isChild : (k.proc slot).point.child = some np)
    (holdsNone : (k.proc slot).point.held slot = [])
    (notExiting : (k.proc slot).point.exiting = false) :
    WellScheduled awake
      ((k.passLock.setStatus np .free).setPoint slot .syscall) := by
  have idle := fits_of_idle awake np
    (p := { k.proc np with status := .free }) (Or.inl rfl)
  refine scheduled.withChild running isChild
    .syscall (q := { k.proc np with status := .free }) rfl
    (fun _ locks => locks.passLock) ?_ ?_ ?_ holdsNone.symm notExiting
    True.intro rfl True.intro idle.1 idle.2 (by rintro _ ⟨⟩)
  · intro other notSlot notNp
    simp [Kernel.setPoint, setStatus, setProc, notSlot, notNp, passLock,
      pushOff, popOff]
  · intro differs
    simp [Kernel.setPoint, setStatus, setProc, differs, passLock, pushOff,
      popOff]
  · intro differs
    simp [Kernel.setPoint, setStatus, setProc, differs.symm, passLock,
      pushOff, popOff]

theorem forkFills
    (scheduled : WellScheduled awake k)
    (running : k.cpu.proc = some slot)
    {np : Slot}
    (isChild : (k.proc slot).point.child = some np)
    {middle : Kernel}
    {q : Proc}
    {point : Point}
    (cpu : middle.cpu = k.cpu)
    (locked : middle.locked = k.locked)
    (stored : middle.proc = Function.update k.proc np q)
    (status : q.status = (k.proc np).status)
    (held : point.held slot = (k.proc slot).point.held slot)
    (notExiting : (k.proc slot).point.exiting = false)
    (active : point.active slot)
    (exiting : point.exiting = false)
    (released : point.released (k.proc slot).ofile (k.proc slot).cwd)
    (child : point.child = some np) :
    WellScheduled awake (middle.setPoint slot point) := by
  have live := scheduled.current_live running
  have allocated := (scheduled.children slot np live isChild).1
  rw [← status] at allocated
  have idle := fits_of_idle awake np (p := q)
    (Or.inr allocated)
  refine scheduled.withChild running isChild _ (q := q) (by
    rw [← cpu]
    rfl) ?_ ?_ ?_ ?_ held notExiting active exiting released idle.1 idle.2 ?_
  · intro held locks
    rw [← cpu, ← locked] at locks
    exact locks
  · intro other notSlot notNp
    simp [Kernel.setPoint, setProc, stored, notSlot, notNp]
  · intro differs
    simp [Kernel.setPoint, setProc, stored, differs]
  · intro differs
    simp [Kernel.setPoint, setProc, stored, differs.symm]
  · intro c isC
    rw [child] at isC
    exact ⟨(Option.some.inj isC).symm, allocated⟩

theorem forkReady
    (scheduled : WellScheduled awake k)
    (running : k.cpu.proc = some slot)
    {np : Slot}
    (atReady : (k.proc slot).point = .forkReady np) :
    WellScheduled awake
      (((k.passLock.recordForking slot np).setProc np
        { k.proc np with
          status := .ready
          point := .forkret }).setPoint slot .syscall) := by
  refine scheduled.withChild running (by rw [atReady]; rfl) .syscall
    (q := { k.proc np with
      status := .ready
      point := .forkret }) rfl
    (fun _ locks => locks.passLock) ?_ ?_ ?_ (by rw [atReady]; rfl)
    (by rw [atReady]; rfl) True.intro rfl True.intro ?_ (fun _ => rfl) (by rintro _ ⟨⟩)
  · intro other notSlot notNp
    simp [Kernel.setPoint, setProc, recordForking, notSlot, notNp, passLock,
      pushOff, popOff]
  · intro differs
    simp [Kernel.setPoint, setProc, recordForking, differs, passLock, pushOff,
      popOff]
  · intro differs
    simp [Kernel.setPoint, setProc, recordForking, differs.symm, passLock,
      pushOff, popOff]
  · exact fits_of_notExiting ⟨fun impossible => impossible, True.intro⟩
      True.intro rfl

theorem exitGoesTo
    (scheduled : WellScheduled awake k)
    (running : k.cpu.proc = some slot)
    {p : Proc}
    (status : p.status = (k.proc slot).status)
    (exiting : (k.proc slot).point.exiting = true)
    (holdsNone : (k.proc slot).point.held slot = [])
    (isExiting : p.point.exiting = true)
    (held : p.point.held slot = [])
    (active : p.point.active slot)
    (notTruncating : p.point.truncating = false)
    (child : p.point.child = none)
    (released : p.point.released p.ofile p.cwd) :
    WellScheduled awake (k.setProc slot p) := by
  have locks := scheduled.currentLocks running
  rw [holdsNone, ← held] at locks
  refine scheduled.goTo running rfl locks (fun _ _ => .refl _) status active
    (isExiting.trans exiting.symm) released (fun _ _ => notTruncating) ?_
  rw [child]
  rintro _ ⟨⟩

theorem exitSched
    (scheduled : WellScheduled awake k)
    (running : k.cpu.proc = some slot)
    (atSched : (k.proc slot).point = .exitSched)
    {after : Kernel}
    (taken :
      (k.acquire (.process slot)).map (fun k =>
        k.schedAs slot { k.proc slot with point := .exited }) =
        some after) :
    Outcome awake k after := by
  obtain ⟨next, isNext, rfl⟩ := Option.map_eq_some_iff.mp taken
  have locks := scheduled.currentLocks running
  rw [atSched] at locks
  obtain ⟨_, sameProc, samePanic, _, nextLocks⟩ := locks.of_acquire isNext
  have released := scheduled.current_released running
  rw [atSched] at released
  rcases (scheduled.current running).1 with isRunning | ⟨isZombie, _⟩
  · -- A process that has slept in `proc_exit` is running again.
    refine Or.inr ⟨?_, ?_⟩
    · intro isAwake
      have notExiting :=
        scheduled.notExiting_of_running isRunning isAwake
      rw [atSched] at notExiting
      cases notExiting
    · have stored :
          LocksMatch
            (next.setProc slot
              { next.proc slot with point := .exited }).cpu
            next.locked [.process slot] := nextLocks
      rw [schedAs, sched_eq stored,
        if_pos (by simp [setProc, sameProc, isRunning])]
      rfl
  · obtain ⟨left, panicked, stored, free⟩ :=
      schedAs_spec nextLocks
        (p := { next.proc slot with point := .exited })
        (by rw [sameProc, isZombie]; rintro ⟨⟩)
    rw [sameProc] at stored left panicked free
    refine Or.inl ⟨?_, Or.inl ?_⟩
    · refine scheduled.leave running (by rw [sameProc]; exact left) ?_ ?_ ?_
        (by rw [sameProc]; exact free)
      · intro other differs
        rw [sameProc, stored, Function.update_of_ne differs]
        exact .refl _
      · rw [sameProc, stored, Function.update_self]
        exact {
          status := by simp [Proc.StatusFits, isZombie, Point.exiting]
          released := fun _ => released
          zombie := fun _ _ _ => ⟨isZombie, rfl⟩
        }
      · rw [sameProc, stored, Function.update_self]
        rintro _ ⟨⟩
    · rw [sameProc]
      exact panicked.trans samePanic

theorem comeBack
    (scheduled : WellScheduled awake k)
    (running : k.cpu.proc = some slot)
    {point : Point}
    (held : point.held slot = [])
    (holdsNone : (k.proc slot).point.held slot = [])
    (active : point.active slot)
    (exiting : point.exiting = (k.proc slot).point.exiting)
    (released : point.released (k.proc slot).ofile (k.proc slot).cwd)
    (truncating :
      (k.proc slot).point.truncating = false → point.truncating = false)
    (child :
      ∀ np, point.child = some np → (k.proc slot).point.child = some np) :
    WellScheduled awake (k.setPoint slot point) := by
  refine scheduled.setPoint running {
    held := held.trans holdsNone.symm
    active := active
    exiting := exiting
    released := released
    notTruncating := ?_
    child := child
  }
  intro isAwake isExiting
  exact truncating ((scheduled.fits slot).zombie isAwake
    (scheduled.current_live running) (exiting.symm.trans isExiting)).2

theorem forkGoesOn
    (scheduled : WellScheduled awake k)
    (running : k.cpu.proc = some slot)
    {point : Point}
    (held : point.held slot = (k.proc slot).point.held slot)
    (active : point.active slot)
    (notExiting : (k.proc slot).point.exiting = false)
    (exiting : point.exiting = false)
    (released : point.released (k.proc slot).ofile (k.proc slot).cwd)
    (child :
      ∀ np, point.child = some np → (k.proc slot).point.child = some np) :
    WellScheduled awake (k.setPoint slot point) := by
  refine scheduled.setPoint running {
    held := held
    active := active
    exiting := exiting.trans notExiting.symm
    released := released
    notTruncating := ?_
    child := child
  }
  intro _ isExiting
  rw [exiting] at isExiting
  cases isExiting

theorem advance
    (scheduled : WellScheduled awake k)
    (running : k.cpu.proc = some slot)
    (freesNothing : awake → k.dropsLastUnlinked slot = false)
    {succeeds : Bool}
    {after : Kernel}
    (taken : k.advance slot succeeds = some after) :
    Outcome awake k after := by
  have released := scheduled.current_released running
  have active := (scheduled.current running).2
  cases at_ : (k.proc slot).point with
  | user =>
      simp [Kernel.advance, at_] at taken
  | syscall =>
      simp [Kernel.advance, at_] at taken
  | holding lock rest =>
      simp [Kernel.advance, at_] at taken
  | forkret =>
      simp [Kernel.advance, at_] at taken
  | yielded interrupts rest =>
      simp [Kernel.advance, at_] at taken
  | slept lock rest =>
      simp [Kernel.advance, at_] at taken
  | exited =>
      simp [Kernel.advance, at_] at taken
  | trapReturn =>
      simp only [Kernel.advance, at_] at taken
      split at taken <;> cases taken
      · exact outcome (scheduled.beginExit running (by rw [at_]; rfl) _) rfl
      · have goesOn : WellScheduled awake (k.setPoint slot .user) :=
          scheduled.forkGoesOn running (by rw [at_]; rfl) True.intro
            (by rw [at_]; rfl) rfl True.intro (by rintro _ ⟨⟩)
        refine outcome (goesOn.setInterrupts running ?_) rfl
        simp [Kernel.setPoint, setProc, Point.held]
  | itrunc ip rest =>
      simp only [Kernel.advance, at_] at taken
      cases taken
      rw [at_] at active released
      have stored :
          ∀ inode, WellScheduled awake (k.setInode ip inode) :=
        fun inode => scheduled.sameTable rfl rfl rfl
      refine ((stored _).comeBack running active.1 ?_ active.2 ?_ released ?_
        ?_).outcome rfl
      · exact congrArg _ at_
      · exact (congrArg Point.exiting at_).symm
      · intro notTruncating
        have truncating := (congrArg Point.truncating at_).symm.trans
          notTruncating
        cases truncating
      · intro np isChild
        exact (congrArg Point.child at_).trans isChild
  | closeFile f rest =>
      simp only [Kernel.advance, at_] at taken
      cases taken
      rw [at_] at active released
      have stored :
          ∀ file, WellScheduled awake (k.setFile f file) :=
        fun file => scheduled.sameTable rfl rfl rfl
      refine ((stored _).comeBack running active.1 ?_ active.2 ?_ released ?_
        ?_).outcome rfl
      · exact congrArg _ at_
      · exact (congrArg Point.exiting at_).symm
      · intro notTruncating
        exact (congrArg Point.truncating at_).symm.trans notTruncating
      · intro np isChild
        exact (congrArg Point.child at_).trans isChild
  | forkStack np =>
      simp only [Kernel.advance, at_] at taken
      split at taken <;> cases taken
      · exact outcome (scheduled.forkGoesOn running (by rw [at_]; rfl)
          True.intro
          (by rw [at_]; rfl) rfl True.intro
          (by rw [at_]; exact fun _ isChild => isChild)) rfl
      · exact outcome (scheduled.forkFails running (by rw [at_]; rfl)
          (by rw [at_]; rfl) (by rw [at_]; rfl)) rfl
  | forkPagetable np =>
      simp only [Kernel.advance, at_] at taken
      split at taken <;> cases taken
      · exact outcome (scheduled.forkGoesOn running (by rw [at_]; rfl)
          True.intro
          (by rw [at_]; rfl) rfl True.intro
          (by rw [at_]; exact fun _ isChild => isChild)) rfl
      · exact outcome (scheduled.forkFails running (by rw [at_]; rfl)
          (by rw [at_]; rfl) (by rw [at_]; rfl)) rfl
  | forkCopy np =>
      simp only [Kernel.advance, at_] at taken
      split at taken <;> cases taken
      · exact outcome (scheduled.forkGoesOn running (by rw [at_]; rfl)
          True.intro
          (by rw [at_]; rfl) rfl True.intro
          (by rw [at_]; exact fun _ isChild => isChild)) rfl
      · exact outcome (scheduled.forkGoesOn running (by rw [at_]; rfl)
          True.intro
          (by rw [at_]; rfl) rfl True.intro (by rintro _ ⟨⟩)) rfl
  | forkFile np fd =>
      simp only [Kernel.advance, at_] at taken
      split at taken
      · split at taken <;> cases taken
        · exact outcome (scheduled.forkGoesOn running (by rw [at_]; rfl)
          True.intro
            (by rw [at_]; rfl) rfl True.intro
            (by rw [at_]; exact fun _ isChild => isChild)) rfl
        · exact outcome (scheduled.forkFills running (by rw [at_]; rfl) rfl rfl rfl
            rfl (by rw [at_]; rfl) (by rw [at_]; rfl) True.intro rfl
            True.intro rfl) rfl
      · cases taken
        exact outcome (scheduled.forkGoesOn running (by rw [at_]; rfl)
          True.intro
          (by rw [at_]; rfl) rfl True.intro
          (by rw [at_]; exact fun _ isChild => isChild)) rfl
  | forkParent np =>
      simp only [Kernel.advance, at_] at taken
      cases taken
      exact outcome (scheduled.forkFills running (by rw [at_]; rfl) rfl rfl rfl
        rfl (by rw [at_]; rfl) (by rw [at_]; rfl) True.intro rfl
        True.intro rfl) rfl
  | forkCwd np =>
      simp only [Kernel.advance, at_] at taken
      split at taken <;> cases taken
      · exact outcome (scheduled.forkGoesOn running (by rw [at_]; rfl)
          True.intro
          (by rw [at_]; rfl) rfl True.intro
          (by rw [at_]; exact fun _ isChild => isChild)) rfl
      · exact outcome (scheduled.forkFills running (by rw [at_]; rfl) rfl rfl rfl
          rfl (by rw [at_]; rfl) (by rw [at_]; rfl) True.intro rfl
          True.intro rfl) rfl
  | forkReady np =>
      simp only [Kernel.advance, at_] at taken
      cases taken
      exact outcome (scheduled.forkReady running at_) rfl
  | waitScan copies =>
      simp only [Kernel.advance, at_] at taken
      obtain ⟨result, panicked⟩ := scheduled.waitScan running at_ taken
      exact result.outcome panicked
  | exitFile fd =>
      simp only [Kernel.advance, at_] at taken
      rw [at_] at released
      have exiting : (k.proc slot).point.exiting = true := by
        rw [at_]
        rfl
      have holdsNone : (k.proc slot).point.held slot = [] := by
        rw [at_]
        rfl
      split at taken
      · rename_i below
        split at taken
        · rename_i empty
          cases taken
          refine outcome (scheduled.exitGoesTo running (p := { k.proc slot with
            point := .exitFile (fd + 1) }) rfl exiting holdsNone rfl rfl
            True.intro rfl rfl ?_) rfl
          intro i isBelow
          rcases Nat.lt_succ_iff_lt_or_eq.mp isBelow with earlier | rfl
          · exact released i earlier
          · exact empty
        · rename_i f opened
          have reaches :
              Reaches (k.proc slot) awake slot (.exitClear fd) := {
            held := holdsNone.symm
            active := True.intro
            exiting := exiting.symm
            released := released
            notTruncating := fun _ _ => rfl
            child := by rintro _ ⟨⟩
          }
          refine Or.inl (scheduled.fileclose running reaches rfl ?_ taken)
          intro isAwake _ last isInode
          have kept := freesNothing isAwake
          simpa [dropsLastUnlinked, at_, below, opened, last, isInode]
            using kept
      · rename_i done
        cases taken
        refine outcome (scheduled.exitGoesTo running (p := { k.proc slot with
          point := .exitCwd }) rfl exiting holdsNone rfl rfl
          True.intro rfl rfl ?_) rfl
        intro i isBelow
        exact released i (by omega)
  | exitClear fd =>
      simp only [Kernel.advance, at_] at taken
      cases taken
      rw [at_] at released
      have cleared :
          (k.setDescriptor slot fd none).setPoint slot (.exitFile (fd + 1)) =
            k.setProc slot { k.proc slot with
              ofile := Function.update (k.proc slot).ofile fd none
              point := .exitFile (fd + 1) } := by
        simp [Kernel.setPoint, Kernel.setDescriptor, setProc]
      rw [cleared]
      refine outcome (scheduled.exitGoesTo running rfl (by rw [at_]; rfl)
        (by rw [at_]; rfl) rfl rfl True.intro rfl rfl ?_) rfl
      intro i isBelow
      by_cases same : i = fd
      · subst same
        exact Function.update_self _ _ _
      · exact (Function.update_of_ne same _ _).trans (released i (by omega))
  | exitCwd =>
      simp only [Kernel.advance, at_] at taken
      rw [at_] at released
      have exiting : (k.proc slot).point.exiting = true := by
        rw [at_]
        rfl
      have holdsNone : (k.proc slot).point.held slot = [] := by
        rw [at_]
        rfl
      split at taken
      · rename_i empty
        cases taken
        exact outcome (scheduled.exitGoesTo running (p := { k.proc slot with
          point := .exitWakeup }) rfl exiting holdsNone rfl rfl
          True.intro rfl rfl ⟨released, empty⟩) rfl
      · rename_i ip isCwd
        cases taken
        have reaches :
            Reaches (k.proc slot) awake slot .exitCwdClear := {
          held := holdsNone.symm
          active := True.intro
          exiting := exiting.symm
          released := released
          notTruncating := fun _ _ => rfl
          child := by rintro _ ⟨⟩
        }
        refine outcome (scheduled.iput running reaches rfl ip ?_) ?_
        · intro isAwake _
          have kept := freesNothing isAwake
          simpa [dropsLastUnlinked, at_, isCwd] using kept
        · unfold Kernel.iput
          dsimp only
          split <;> rfl
  | exitCwdClear =>
      simp only [Kernel.advance, at_] at taken
      cases taken
      rw [at_] at released
      have cleared :
          (k.setCwd slot none).setPoint slot .exitWakeup =
            k.setProc slot { k.proc slot with
              cwd := none
              point := .exitWakeup } := by
        simp [Kernel.setPoint, Kernel.setCwd, setProc]
      rw [cleared]
      exact outcome (scheduled.exitGoesTo running rfl (by rw [at_]; rfl)
        (by rw [at_]; rfl) rfl rfl True.intro rfl rfl
        ⟨released, rfl⟩) rfl
  | exitWakeup =>
      simp only [Kernel.advance, at_] at taken
      cases taken
      rw [at_] at released
      have woken := scheduled.wake ((k.proc slot).parent.map .process)
      have self :=
        wakeup_current ((k.proc slot).parent.map .process) running
      refine outcome (woken.exitGoesTo running rfl ?_ ?_ rfl rfl True.intro rfl rfl
        ?_) rfl
      · rw [self, at_]
        rfl
      · rw [self, at_]
        rfl
      · rw [self]
        exact released
  | exitSched =>
      simp only [Kernel.advance, at_] at taken
      exact scheduled.exitSched running at_ taken

theorem step
    (scheduled : WellScheduled awake k)
    {action : KernelAction}
    (freesNothing : awake → ExitFreesNothing k action)
    {after : Kernel}
    (taken : Step k action after) :
    Outcome awake k after := by
  have quiet :
      WellScheduled awake after ∧ after.panicked = k.panicked →
        Outcome awake k after :=
    fun result => result.1.outcome result.2
  unfold Step step? at taken
  split at taken
  · cases taken
  cases action with
  | schedule =>
      dsimp only at taken
      split at taken
      · rename_i idle
        exact quiet (scheduled.schedule idle taken)
      · cases taken
  | timer =>
      exact quiet (scheduled.timer taken)
  | deviceInterrupt chan =>
      exact quiet (scheduled.deviceInterrupt taken)
  | interruptKey =>
      exact quiet (scheduled.interruptKey taken)
  | ecall =>
      obtain ⟨slot, running, taken⟩ := Option.bind_eq_some_iff.mp taken
      split at taken <;> cases taken
      rename_i isUser
      exact outcome (scheduled.forkGoesOn running (by rw [isUser]; rfl) True.intro
        (by rw [isUser]; rfl) rfl True.intro (by rintro _ ⟨⟩)) rfl
  | advance succeeds =>
      obtain ⟨slot, running, taken⟩ := Option.bind_eq_some_iff.mp taken
      refine scheduled.advance running ?_ taken
      intro isAwake
      have kept := freesNothing isAwake
      simpa [ExitFreesNothing, exitFrees, running] using kept
  | fork page =>
      obtain ⟨slot, running, taken⟩ := Option.bind_eq_some_iff.mp taken
      dsimp only at taken
      split at taken <;> cases taken
      rename_i inSyscall
      exact quiet (scheduled.fork running inSyscall page)
  | exit status =>
      obtain ⟨slot, running, taken⟩ := Option.bind_eq_some_iff.mp taken
      dsimp only at taken
      split at taken <;> cases taken
      rename_i inSyscall
      exact outcome (scheduled.beginExit running (by rw [inSyscall]; rfl)
        status) rfl
  | wait copies =>
      obtain ⟨slot, running, taken⟩ := Option.bind_eq_some_iff.mp taken
      dsimp only at taken
      split at taken
      · rename_i inSyscall
        exact quiet (scheduled.takeLock running (by rw [inSyscall]; rfl)
          (.waitScan copies) rfl True.intro (by rw [inSyscall]; rfl)
          True.intro (fun _ => by rintro ⟨⟩) (by rintro _ ⟨⟩) taken)
      · cases taken
  | call systemCall =>
      obtain ⟨slot, running, taken⟩ := Option.bind_eq_some_iff.mp taken
      dsimp only at taken
      split at taken
      · rename_i inSyscall
        exact Or.inl (scheduled.call running inSyscall taken)
      · cases taken
  | sysReturn =>
      obtain ⟨slot, running, taken⟩ := Option.bind_eq_some_iff.mp taken
      dsimp only at taken
      split at taken <;> cases taken
      rename_i inSyscall
      exact outcome (scheduled.forkGoesOn running (by rw [inSyscall]; rfl) True.intro
        (by rw [inSyscall]; rfl) rfl True.intro (by rintro _ ⟨⟩)) rfl
  | lock lock =>
      obtain ⟨slot, running, taken⟩ := Option.bind_eq_some_iff.mp taken
      split at taken
      · rename_i may
        exact quiet (scheduled.lock running may taken)
      · cases taken
  | sleep chan =>
      obtain ⟨slot, running, taken⟩ := Option.bind_eq_some_iff.mp taken
      dsimp only at taken
      split at taken
      · rename_i lock rest isHolding
        exact quiet (scheduled.sleep running isHolding taken)
      · cases taken
  | wake chan =>
      obtain ⟨slot, running, taken⟩ := Option.bind_eq_some_iff.mp taken
      dsimp only at taken
      split at taken <;> cases taken
      exact outcome (scheduled.wake (some chan)) rfl
  | unlock =>
      obtain ⟨slot, running, taken⟩ := Option.bind_eq_some_iff.mp taken
      dsimp only at taken
      split at taken <;> cases taken
      rename_i lock rest isHolding
      exact outcome (scheduled.unlock running isHolding) rfl

end WellScheduled

theorem boot_scheduled (awake : Prop) : WellScheduled awake boot := by
  have fits :
      ∀ slot, (boot.proc slot).Fits slot False awake := by
    intro slot
    by_cases first : slot = 0
    · refine WellScheduled.fits_of_notExiting ?_ ?_ ?_ <;>
        simp [boot, first, Proc.StatusFits, Point.parked, Point.released,
          Point.exiting]
    · exact (WellScheduled.fits_of_idle awake _
        (Or.inl (by simp [boot, first]))).1
  refine {
    fits := ?_
    locks := ?_
    children := ?_
  }
  · intro slot
    have notCurrent : (boot.cpu.proc = some slot) = False := by
      simp [boot]
    rw [notCurrent]
    exact fits slot
  · exact {
      locked := by simp [boot]
      nodup := List.nodup_nil
      depth := rfl
      off := fun _ => rfl
    }
  · intro slot np _ isChild
    by_cases first : slot = 0 <;>
      simp [boot, first, Point.child] at isChild

theorem Step.notPanicked
    {k after : Kernel}
    {action : KernelAction}
    (taken : Step k action after) :
    k.panicked = none := by
  by_contra panicked
  unfold Step step? at taken
  rw [if_pos panicked] at taken
  cases taken

theorem run_outcome
    (awake : Prop)
    {trace : List (Kernel × KernelAction)}
    {final : Kernel}
    (run : Lib.Run Step boot trace final)
    (freesNothing : awake → Lib.Meets ExitFreesNothing trace) :
    WellScheduled awake final ∧
        (final.panicked = none ∨ final.panicked = some .fileclose) ∨
      ¬ awake ∧ final.panicked = some .schedRunning := by
  induction run with
  | start =>
      exact Or.inl ⟨boot_scheduled awake, Or.inl rfl⟩
  | @next trace current final action earlier last inductionHypothesis =>
      have before := inductionHypothesis
        (fun isAwake => (Lib.Meets.snoc_iff.mp (freesNothing isAwake)).1)
      have notPanicked := Step.notPanicked last
      rcases before with ⟨scheduled, _⟩ | ⟨_, panicked⟩
      · have outcome := scheduled.step
          (fun isAwake => (Lib.Meets.snoc_iff.mp (freesNothing isAwake)).2)
          last
        rw [Outcome, notPanicked] at outcome
        exact outcome
      · rw [notPanicked] at panicked
        cases panicked

end MyOS.Kernel
