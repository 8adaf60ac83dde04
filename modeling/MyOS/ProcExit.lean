import MyOS.ProcTableStep

namespace MyOS

/-!
# Exit is a one-way transition

It is one unless `proc_exit` itself frees an unlinked inode: the disk wait of
the truncation puts the zombie to sleep, and the end of `proc_exit` then finds
itself running.
-/

/-- The files and the directory of a process are released. -/
def Proc.ReleasedAll (p : Proc) : Prop :=
  (∀ fd < NOFILE, p.ofile fd = none) ∧ p.cwd = none

/-- The panics of `sched`, and of the code that follows it in `proc_exit`. -/
def KernelPanic.ofSched : KernelPanic → Bool
  | .schedLock => true
  | .schedLocks => true
  | .schedRunning => true
  | .schedInterruptible => true
  | .exitReturned => true
  | .fileclose => false

namespace Kernel

/--
A process in `proc_exit` is a zombie, whether it has the CPU or gave it up; a
zombie without the CPU has released everything; `sched` has not panicked.
-/
structure ExitSafe (k : Kernel) : Prop where
  zombie :
    ∀ slot, (k.proc slot).live → (k.proc slot).point.exiting = true →
      (k.proc slot).status = .zombie
  released :
    ∀ slot, (k.proc slot).status = .zombie → k.cpu.proc ≠ some slot →
      (k.proc slot).ReleasedAll
  sched :
    ∀ reason, k.panicked = some reason → reason.ofSched = false

/-- A zombie stays one until `wait` frees its slot, released of everything. -/
def ZombiesStay (k after : Kernel) : Prop :=
  ∀ slot, (k.proc slot).status = .zombie →
    (after.proc slot).status = .zombie ∨
      (after.proc slot).status = .free ∧
        (k.proc slot).ReleasedAll ∧
          ∃ parent,
            k.cpu.proc = some parent ∧ k.findSon parent = .zombie slot

theorem WellScheduled.releasedAll
    {awake : Prop}
    {k : Kernel}
    (scheduled : WellScheduled awake k)
    {slot : Slot}
    (isZombie : (k.proc slot).status = .zombie)
    (notCurrent : k.cpu.proc ≠ some slot) :
    (k.proc slot).ReleasedAll := by
  have fits := scheduled.fits slot
  have status := fits.status
  simp only [Proc.StatusFits, isZombie] at status
  have released := fits.released (by simp [Proc.live, isZombie])
  rcases status.2 with ⟨current, _⟩ | ⟨_, exited⟩
  · exact (notCurrent current).elim
  · rw [exited] at released
    exact released

theorem WellScheduled.zombiesStay
    {k after : Kernel}
    (scheduled : WellScheduled True k)
    {action : KernelAction}
    (step : TableStep k action after) :
    ZombiesStay k after := by
  intro slot isZombie
  have kept :
      (k.proc slot).Woken (after.proc slot) →
        (after.proc slot).status = .zombie := by
    rintro (same | ⟨sleeping, _⟩)
    · exact (congrArg (·.status) same).trans isZombie
    · rw [isZombie] at sleeping
      cases sleeping
  cases step with
  | quiet quiet =>
      exact Or.inl (kept (quiet.woken slot))
  | switches other status _ was _ _ others _ _ =>
      by_cases isOther : slot = other
      · subst isOther
        have fits := scheduled.fits slot
        rcases was with running | ready | truncating
        · rw [isZombie] at running
          cases running
        · rw [isZombie] at ready
          cases ready
        · have exiting := fits.status
          simp only [Proc.StatusFits, isZombie] at exiting
          have notTruncating := (fits.zombie True.intro
            (by simp [Proc.live, isZombie]) exiting.1).2
          rw [truncating] at notTruncating
          cases notTruncating
      · exact Or.inl (kept (others slot isOther))
  | exits other xstate _ was others _ _ =>
      by_cases isOther : slot = other
      · subst isOther
        rw [isZombie] at was
        cases was
      · exact Or.inl (kept (others slot isOther))
  | allocates other np status _ _ wasFree _ others _ _ _ _ =>
      by_cases isNp : slot = np
      · subst isNp
        rw [isZombie] at wasFree
        cases wasFree
      · exact Or.inl (kept (others slot isNp))
  | frees np _ was others _ _ =>
      by_cases isNp : slot = np
      · subst isNp
        rw [isZombie] at was
        cases was
      · exact Or.inl (kept (others slot isNp))
  | adopts other np _ _ was _ others _ _ _ =>
      by_cases isNp : slot = np
      · subst isNp
        rw [isZombie] at was
        cases was
      · exact Or.inl (kept (others slot isNp))
  | activates other np _ _ was _ _ others _ _ _ _ =>
      by_cases isNp : slot = np
      · subst isNp
        rw [isZombie] at was
        cases was
      · exact Or.inl (kept (others slot isNp))
  | reaps parent son _ _ _ _ current _ _ found _ _ differs others child _ =>
      by_cases isSon : slot = son
      · subst isSon
        refine Or.inr ⟨congrArg (·.status) child, ?_, parent, current, found⟩
        refine scheduled.releasedAll isZombie ?_
        rw [current]
        exact fun same => differs (Option.some.inj same).symm
      · exact Or.inl (kept (others slot isSon))

/--
In every run in which `proc_exit` frees no unlinked inode, a process that
enters `proc_exit` is a zombie from then on, is reaped only with its files and
directory released, and never fails a check of `sched`.
-/
theorem exit_oneWay_of_freesNothing
    {trace : List (Kernel × KernelAction)}
    {current final : Kernel}
    {action : KernelAction}
    (run : Lib.Run Step boot trace current)
    (last : Step current action final)
    (freesNothing :
      Lib.Meets ExitFreesNothing (trace ++ [(current, action)])) :
    ExitSafe final ∧ ZombiesStay current final := by
  have before := run_outcome True run
    (fun _ => (Lib.Meets.snoc_iff.mp freesNothing).1)
  have after := run_outcome True (run.next last)
    (fun _ => freesNothing)
  rcases before with ⟨scheduled, _⟩ | ⟨impossible, _⟩
  · rcases after with ⟨finalScheduled, panicked⟩ | ⟨impossible, _⟩
    · refine ⟨?_, ?_⟩
      · exact {
          zombie := fun slot live exiting =>
            ((finalScheduled.fits slot).zombie True.intro live exiting).1
          released := fun slot isZombie notCurrent =>
            finalScheduled.releasedAll isZombie notCurrent
          sched := by
            intro reason isReason
            rcases panicked with none | fileclose
            · rw [none] at isReason
              cases isReason
            · rw [fileclose] at isReason
              cases isReason
              rfl
        }
      · exact scheduled.zombiesStay (.of_step scheduled last)
    · exact (impossible True.intro).elim
  · exact (impossible True.intro).elim

/-- The first process is scheduled and forks a child. -/
def forkChild : List KernelAction :=
  .schedule :: .schedule :: .ecall :: .fork true ::
    List.replicate 23 (.advance true)

/-- The running process exits with three open files and a directory. -/
def exitWithThreeFiles : List KernelAction :=
  .exit 7 :: List.replicate 24 (.advance true)

/-- A child exits while its parent waits, and the parent reaps it. -/
theorem exit_oneWay_of_freesNothing_forkWait :
    ∃ trace current final action,
      Lib.Run Step boot trace current ∧
        Step current action final ∧
        Lib.Meets ExitFreesNothing (trace ++ [(current, action)]) ∧
        current.findSon 0 = .zombie 1 ∧
        ExitSafe final ∧ ZombiesStay current final := by
  let actions : List KernelAction :=
    forkChild ++ .wait true :: .advance true :: .schedule :: .ecall ::
      exitWithThreeFiles ++ List.replicate 64 .schedule
  have reaches :
      (Lib.runActions (Lib.guarded ExitFreesNothing step?) boot actions).any
        (fun current =>
          decide (ExitFreesNothing current (.advance true)) &&
            decide (current.findSon 0 = .zombie 1) &&
            (current.step? (.advance true)).isSome) = true := by
    decide +kernel
  obtain ⟨current, accepted, facts⟩ := (Option.any_eq_true _ _).mp reaches
  simp only [Bool.and_eq_true, decide_eq_true_eq] at facts
  obtain ⟨⟨condition, found⟩, isSome⟩ := facts
  obtain ⟨final, last⟩ := Option.isSome_iff_exists.mp isSome
  obtain ⟨trace, run, allMeet⟩ := Lib.runActions_guarded accepted
  have allMeet' := Lib.Meets.snoc_iff.mpr ⟨allMeet, condition⟩
  exact ⟨trace, current, final, .advance true, run, last, allMeet', found,
    exit_oneWay_of_freesNothing run last allMeet'⟩

/-- A file on the inode in the second slot of the inode table. -/
def inodeFile : OpenFile where
  type := .inode
  ref := 1
  readable := true
  writable := true
  pipe := 0
  ip := 1
  off := 0

/--
A process opens a file, unlinks it and exits: the truncation puts it to sleep
and it panics at the end of `proc_exit`.
-/
theorem exit_of_unlinked_panics :
    ¬ ∀ (trace : List (Kernel × KernelAction))
        (current final : Kernel)
        (action : KernelAction),
      Lib.Run Step boot trace current →
        Step current action final →
          ExitSafe final ∧ ZombiesStay current final := by
  intro law
  let actions : List KernelAction :=
    .schedule :: .schedule :: .ecall :: .call (.iget 1) ::
      .call (.ilock 1 1) :: .call (.openFile inodeFile) ::
      .call (.iget 1) :: .call (.setLinks 1 0) :: .call (.iput 1) ::
      .exit 0 :: List.replicate 10 (.advance true) ++
      .lock .disk :: .sleep (.buffer 0) :: .schedule ::
      .deviceInterrupt (.buffer 0) :: List.replicate 64 .schedule ++
      .unlock :: List.replicate 19 (.advance true)
  have panics :
      (Lib.runActions step? boot actions).any (fun current =>
        (current.step? (.advance true)).any fun final =>
          final.panicked == some .schedRunning) = true := by
    decide +kernel
  obtain ⟨current, accepted, next⟩ := (Option.any_eq_true _ _).mp panics
  obtain ⟨final, last, panicked⟩ := (Option.any_eq_true _ _).mp next
  obtain ⟨trace, _, run⟩ := Lib.runActions_sound accepted
  have safe := (law trace current final (.advance true) run last).1
  have notSched := safe.sched .schedRunning (by simpa using panicked)
  cases notSched

end Kernel

end MyOS
