import MyOS.FileDiscipline

namespace MyOS

open Lib

/-!
# The identity of an open file

A file that `sys_open` has bound to an inode stays as it was bound until its
last descriptor is closed, and the reference that the open took is dropped
once, in every run in which no slot is handed out that a sleeping `fileclose`
is still going to clear, and no process opens a file with all of its
descriptors in use.
-/

namespace FileKernel

/-- A reference of an open is with a call of `sys_open` or with a file. -/
def Holds (kernel : FileKernel) (token : Nat) : Prop :=
  (∃ p, kernel.opening p = some token) ∨
    ∃ f bound, kernel.opened f = some bound ∧ bound.reference = token

/--
Files keep what they were bound to while a descriptor refers to them, and the
references of opens are dropped once, when nothing holds them any more.
-/
structure KeepsIdentity (kernel : FileKernel) : Prop where
  shows :
    ∀ f bound, kernel.opened f = some bound → (kernel.file f).Shows bound
  lasts :
    ∀ p fd f, kernel.ofile p fd = some f → kernel.closing p ≠ some f →
      kernel.opened f ≠ none ∨ (kernel.file f).type = .console
  undropped : ∀ token, kernel.Holds token → kernel.drops token = 0
  once :
    ∀ token, token < kernel.opens → ¬ kernel.Holds token →
      kernel.drops token = 1

theorem Fits.keepsIdentity
    {kernel : FileKernel}
    (fits : Fits kernel) :
    KeepsIdentity kernel where
  shows := by
    intro f bound isBound
    exact (fits.shows isBound).1
  lasts := by
    intro p fd f refers notClosing
    by_cases isBound : kernel.opened f = none
    · right
      apply fits.bound _ isBound
      intro zero
      have none := fits.counted f
      rw [zero] at none
      have count :
          referenceCount (liveEntry kernel.ofile kernel.closing) f = 0 := by
        exact_mod_cast none.symm
      apply referenceCount_eq_zero.mp count (p, fd)
      simp only [liveEntry, refers, if_neg notClosing]
    · exact Or.inl isBound
  undropped := by
    intro token held
    rcases held with ⟨p, opening⟩ | ⟨f, bound, isBound, reference⟩
    · have holds :
          holder kernel.opening kernel.opened (.inl p) = some token :=
        opening
      exact fits.custody.undropped holds
    · have holds :
          holder kernel.opening kernel.opened (.inr f) = some token := by
        simp only [holder, Sum.elim_inr, isBound, Option.map_some, reference]
      exact fits.custody.undropped holds
  once := by
    intro token inRange notHeld
    apply fits.custody.once inRange
    intro place holds
    apply notHeld
    cases place with
    | inl p =>
        exact Or.inl ⟨p, holds⟩
    | inr f =>
        obtain ⟨bound, isBound, reference⟩ := Option.map_eq_some_iff.mp holds
        exact Or.inr ⟨f, bound, isBound, reference⟩

end FileKernel

namespace FileMachine

open FileKernel

variable {m next : FileMachine} {action : FileAction} {p : Slot}

/-- The invariant of the machine: waiting calls keep their discipline. -/
structure Kept (m : FileMachine) : Prop where
  fits : Fits m.kernel
  idle : ∀ p, m.waiting p = none → m.kernel.Idle p
  alive : ∀ p resume, m.waiting p = some resume → m.kernel.alive p = true
  resumes :
    ∀ p resume, m.waiting p = some resume →
      ∀ later,
        Fits later →
        later.handed = none →
        later.processFiles p = m.kernel.processFiles p →
        (resume later).Keeps (discipline p) (Returned p) later

/-- The slot that a step hands out. -/
def handedOut (m : FileMachine) (action : FileAction) : Option FileSlot :=
  (m.step? action).bind fun next => next.kernel.handed

/-- A slot whose last `fileclose` is still going on. -/
def isClosing (kernel : FileKernel) (f : FileSlot) : Bool :=
  (List.finRange NPROC).any fun q => kernel.closing q == some f

/-- All descriptors of a process are in use. -/
def isFull (kernel : FileKernel) (p : Slot) : Bool :=
  descriptors.all fun fd => kernel.ofile p fd != none

/-- A step hands out a slot that it must not. -/
def spoils (m : FileMachine) (action : FileAction) : Bool :=
  (m.handedOut action).any fun f =>
    isClosing m.kernel f || isFull m.kernel action.process

/--
When a slot of the file table is handed out, no earlier user of it is still
inside its `fileclose`, and the process has a descriptor for it.
-/
def HandsOutFreely (m : FileMachine) (action : FileAction) : Prop :=
  m.spoils action = false

instance (m : FileMachine) (action : FileAction) :
    Decidable (HandsOutFreely m action) :=
  inferInstanceAs (Decidable (_ = false))

theorem permitted_of_handsOutFreely
    (freely : HandsOutFreely m action)
    (step : Step m action next) :
    (discipline action.process).permitted m.fresh next.kernel := by
  intro f handed
  have taken : m.handedOut action = some f := by
    unfold handedOut
    rw [step]
    exact handed
  unfold HandsOutFreely spoils at freely
  rw [taken, Option.any_some, Bool.or_eq_false_iff] at freely
  constructor
  · intro q closing
    have busy : isClosing m.kernel f = true := by
      apply List.any_eq_true.mpr
      exact ⟨q, List.mem_finRange q, beq_iff_eq.mpr closing⟩
    rw [freely.1] at busy
    cases busy
  · obtain ⟨fd, -, unused⟩ := List.all_eq_false.mp freely.2
    refine ⟨fd, ?_⟩
    by_contra used
    exact unused (bne_iff_ne.mpr used)

namespace Kept

theorem between
    (kept : Kept m)
    (notWaiting : m.waiting p = none)
    (isAlive : m.kernel.alive p = true) :
    Between p m.fresh m.fresh where
  fits := kept.fits
  others := othersSame_refl m.fresh
  quiet := rfl
  alive := isAlive
  idle := ⟨(kept.idle p notWaiting).closing, (kept.idle p notWaiting).opening⟩

theorem call
    (kept : Kept m)
    (notWaiting : m.waiting p = none)
    (isAlive : m.kernel.alive p = true)
    {call : FileCall}
    (isAdmitted : call.admitted m.kernel = true) :
    (call.routine p m.fresh).Keeps (discipline p) (Returned p) m.fresh := by
  have here := kept.between notWaiting isAlive
  cases call with
  | «open» path flags =>
      have opens : Opens p none m.fresh m.fresh := {
        fits := here.fits
        others := here.others
        quiet := here.quiet
        alive := here.alive
        closing := here.idle.closing
        opening := here.idle.opening
        closings := rfl
        table := rfl
      }
      exact opens.sysOpen path flags
  | close fd =>
      exact here.sysClose fd
  | dup oldfd =>
      exact here.sysDup oldfd
  | dup2 oldfd newfd =>
      exact here.sysDup2 oldfd newfd
  | dupfd fd arg =>
      exact here.fcntlDupfd fd arg
  | fork child =>
      have unused : m.kernel.alive child = false := by
        simpa only [FileCall.admitted, Bool.not_eq_true'] using isAdmitted
      exact here.sysFork unused unused
  | exit =>
      exact here.procExit
  | read fd target n =>
      exact here.sysRead fd target n
  | write fd source len =>
      exact here.sysWrite fd source len
  | lseek fd offset whence =>
      exact here.sysLseek fd offset whence
  | chdir path =>
      exact here.sysChdir path
  | mkdir path =>
      exact here.onTree fun cwd => FileSystem.sysMkdir cwd path
  | unlink path =>
      exact here.onTree fun cwd => FileSystem.sysUnlink cwd path
  | rename oldPath newPath =>
      exact here.onTree fun cwd => FileSystem.sysRename cwd oldPath newPath

theorem segment
    (kept : Kept m)
    {outcome : Outcome FsPanic FileKernel Unit}
    (runs : m.segment? action = some outcome) :
    outcome.Keeps (discipline action.process) (Returned action.process)
      m.fresh := by
  cases action with
  | call p call =>
      cases waits : m.waiting p with
      | some resume =>
          simp only [segment?, waits] at runs
          cases runs
      | none =>
          simp only [segment?, waits] at runs
          split at runs
          · next possible =>
              rw [Bool.and_eq_true] at possible
              cases runs
              exact kept.call waits possible.1 possible.2
          · cases runs
  | resume p =>
      obtain ⟨resume, waits, same⟩ := Option.map_eq_some_iff.mp runs
      subst same
      exact kept.resumes p resume waits m.fresh kept.fits rfl rfl

theorem settled
    (kept : Kept m)
    {kernel : FileKernel}
    {waiting : Option (FileKernel → Outcome FsPanic FileKernel Unit)}
    (fits : Fits kernel)
    (others : OthersSame p m.fresh kernel)
    (idle : waiting = none → kernel.Idle p)
    (alive : ∀ resume, waiting = some resume → kernel.alive p = true)
    (resumes :
      ∀ resume, waiting = some resume →
        ∀ later,
          Fits later →
          later.handed = none →
          later.processFiles p = kernel.processFiles p →
          (resume later).Keeps (discipline p) (Returned p) later) :
    Kept
      { m with
        kernel := kernel
        waiting := Function.update m.waiting p waiting } where
  fits := fits
  idle := by
    intro q notWaiting
    change Function.update m.waiting p waiting q = none at notWaiting
    by_cases same : q = p
    · rw [same, Function.update_self] at notWaiting
      rw [same]
      exact idle notWaiting
    · rw [Function.update_of_ne same] at notWaiting
      obtain ⟨closing, opening, -⟩ := others q same
      have before := kept.idle q notWaiting
      exact ⟨closing.trans before.closing, opening.trans before.opening⟩
  alive := by
    intro q resume waits
    change Function.update m.waiting p waiting q = some resume at waits
    by_cases same : q = p
    · rw [same, Function.update_self] at waits
      rw [same]
      exact alive resume waits
    · rw [Function.update_of_ne same] at waits
      have before := kept.alive q resume waits
      obtain ⟨-, -, view⟩ := others q same
      exact (congrArg ProcessFiles.alive (view before)).trans before
  resumes := by
    intro q resume waits later laterFits quiet view
    change Function.update m.waiting p waiting q = some resume at waits
    by_cases same : q = p
    · subst same
      rw [Function.update_self] at waits
      exact resumes resume waits later laterFits quiet view
    · rw [Function.update_of_ne same] at waits
      have before := kept.alive q resume waits
      obtain ⟨-, -, unchanged⟩ := others q same
      exact kept.resumes q resume waits later laterFits quiet
        (view.trans (unchanged before))

theorem step
    (kept : Kept m)
    (freely : HandsOutFreely m action)
    (step : Step m action next) :
    Kept next := by
  have permitted := permitted_of_handsOutFreely freely step
  unfold Step step? at step
  split at step
  · cases step
  · obtain ⟨outcome, runs, settled⟩ := Option.map_eq_some_iff.mp step
    have keeps := kept.segment runs
    subst settled
    cases outcome with
    | done kernel result =>
        obtain ⟨fits, others, idle⟩ := keeps permitted
        apply kept.settled fits others (fun _ => idle)
        · intro resume impossible
          cases impossible
        · intro resume impossible
          cases impossible
    | fault state reason =>
        exact {
          fits := kept.fits
          idle := fun p notWaiting =>
            ⟨(kept.idle p notWaiting).closing,
              (kept.idle p notWaiting).opening⟩
          alive := kept.alive
          resumes := kept.resumes
        }
    | wait kernel resume =>
        obtain ⟨fits, ⟨isAlive, others⟩, goesOn⟩ := keeps permitted
        apply kept.settled fits others
        · intro impossible
          cases impossible
        · intro _ _
          exact isAlive
        · intro same isResume
          cases isResume
          exact goesOn

end Kept

end FileMachine

/-!
## The first process
-/

theorem bootFile_counted
    (f : FileSlot) :
    (bootFile f).ref =
      referenceCount (FileKernel.liveEntry bootOfile fun _ => none) f := by
  have live :
      FileKernel.liveEntry bootOfile (fun _ => none) =
        fun entry => bootOfile entry.1 entry.2 := by
    funext entry
    exact FileKernel.liveEntry_of_idle rfl
  rw [live]
  have refers :
      ∀ p fd, bootOfile p fd = some f ↔
        p.val = 0 ∧ fd.val < 3 ∧ fd.val = f.val := by
    intro p fd
    simp only [bootOfile, Option.ite_none_right_eq_some, Option.some.injEq,
      Fin.ext_iff, Fin.val_castLE, and_assoc]
  by_cases console : f.val < 3
  · have inRange : f.val < NOFILE :=
      Nat.lt_trans console (by decide)
    have one :
        referrers
            (fun entry : Slot × Descriptor => bootOfile entry.1 entry.2) f =
          {((0 : Slot), (⟨f.val, inRange⟩ : Descriptor))} := by
      ext ⟨p, fd⟩
      simp only [mem_referrers, refers, Finset.mem_singleton,
        Prod.mk.injEq, Fin.ext_iff]
      have zero : ((0 : Slot) : Nat) = 0 := rfl
      omega
    have ref : (bootFile f).ref = 1 := by
      simp only [bootFile, console, if_true]
      split <;> rfl
    rw [ref, referenceCount, one, Finset.card_singleton]
    rfl
  · have ref : (bootFile f).ref = 0 := by
      have notFirst : f.val ≠ 0 := by
        omega
      simp only [bootFile, console, notFirst, if_false]
      rfl
    have none :
        referenceCount
          (fun entry : Slot × Descriptor => bootOfile entry.1 entry.2) f =
          0 := by
      apply referenceCount_eq_zero.mpr
      intro entry isEntry
      obtain ⟨-, inRange, same⟩ := (refers entry.1 entry.2).mp isEntry
      omega
    rw [ref, none]
    rfl

theorem bootKernel_fits
    (fs : FileSystem)
    (cwd : Option InodeIndex) :
    (bootKernel fs cwd).Fits where
  shows := by
    intro f bound impossible
    cases impossible
  counted := bootFile_counted
  closed := by
    intro p f impossible
    cases impossible
  unbound := by
    intro f _
    rfl
  bound := by
    have consoles :
        ∀ f, (bootFile f).ref ≠ 0 → (bootFile f).type = .console := by
      decide +kernel
    intro f used _
    exact consoles f used
  dead := by
    intro p isDead
    refine ⟨?_, rfl, rfl⟩
    intro fd
    have other : p.val ≠ 0 := by
      simpa only [bootKernel, beq_eq_false_iff_ne] using isDead
    exact if_neg fun first => other first.1
  custody := by
    refine {
      exclusive := ?_
      inRange := ?_
      undropped := ?_
      once := ?_
      untouched := ?_
    }
    · intro first second token impossible
      cases first <;> cases impossible
    · intro holder token impossible
      cases holder <;> cases impossible
    · intro _ _ _
      rfl
    · intro token impossible
      exact absurd impossible (Nat.not_lt_zero token)
    · intro _ _
      rfl

theorem bootMachine_kept
    (fs : FileSystem)
    (cwd : Option InodeIndex) :
    (bootMachine fs cwd).Kept where
  fits := bootKernel_fits fs cwd
  idle := fun _ _ => ⟨rfl, rfl⟩
  alive := by
    intro p resume impossible
    cases impossible
  resumes := by
    intro p resume impossible
    cases impossible

/-!
## A small file system
-/

/-- A disk inode with at most one block. -/
def smallInode (type nlink size block : Nat) : Dinode where
  type := type
  major := 0
  minor := 0
  nlink := nlink
  size := size
  addrs := fun index => if index.val = 0 then block else 0

/-- A directory block with entries from its beginning on. -/
def direntBlock (entries : List Dirent) : Bytes :=
  fun index =>
    match entries[index / direntSize]? with
    | some entry => entry.bytes (index % direntSize)
    | none => 0

/-- A root directory with two empty files, `a` and `b`. -/
def twoFileDisk (blockno : Nat) : Bytes :=
  if blockno = 32 then
    (smallInode T_FILE 1 0 0).toBlock
      ((smallInode T_FILE 1 0 0).toBlock
        ((smallInode T_DIR 2 64 66).toBlock (fun _ => 0) 1) 2) 3
  else if blockno = 66 then
    direntBlock [
      FileSystem.linkEntry dotName 1,
      FileSystem.linkEntry dotDotName 1,
      FileSystem.linkEntry [97] 2,
      FileSystem.linkEntry [98] 3
    ]
  else
    fun _ => 0

/-- The in-core inodes when the first process has its working directory. -/
def rootOnly (ip : InodeIndex) : Inode where
  toDinode := Dinode.zeroed 0
  dev := ROOTDEV
  inum := if ip.val = 0 then ROOTINO else 0
  ref := if ip.val = 0 then 1 else 0
  valid := false

/-- The file system with the two files after boot. -/
def twoFiles : FileSystem where
  sb := {
    size := FSSIZE
    ninodes := 512
    inodestart := 32
    bmapstart := 64
  }
  disk := twoFileDisk
  inode := rootOnly

/-- The root directory's slot of the in-core inode table. -/
def rootIndex : InodeIndex :=
  ⟨0, by decide⟩

/-- The first process with the two files. -/
def twoFileMachine : FileMachine :=
  bootMachine twoFiles (some rootIndex)

/-- The path `/a` -/
def pathA : List UInt8 := [47, 97]

/-- The path `/b` -/
def pathB : List UInt8 := [47, 98]

/-- The first slot behind the console. -/
def nextSlot : FileSlot :=
  ⟨3, by decide⟩

namespace FileMachine

/--
In every run in which slots are handed out freely, files keep what they were
bound to until their last close, and every reference of an open is dropped
once.
-/
theorem keepsIdentity_of_handsOutFreely
    {fs : FileSystem}
    {cwd : Option InodeIndex}
    {trace : List (FileMachine × FileAction)}
    {final : FileMachine}
    (run : Run Step (bootMachine fs cwd) trace final)
    (freely : Meets HandsOutFreely trace) :
    final.kernel.KeepsIdentity := by
  have kept : Kept final :=
    run.invariant (bootMachine_kept fs cwd)
      (fun holds condition step => holds.step condition step) freely
  exact kept.fits.keepsIdentity

/-- Two processes open `a` at the same time and share it with a third. -/
def sharedOpens : List FileAction :=
  [.call 0 (.fork 1), .call 1 (.open pathA 0), .call 0 (.open pathA 0)] ++
    List.replicate 5 (.resume 0) ++
    List.replicate 4 (.resume 1) ++
    [.call 1 (.dup 3), .call 1 (.fork 2), .call 1 (.close 3),
      .call 1 (.dup2 3 4), .call 1 .exit]

theorem keepsIdentity_of_handsOutFreely_sharedOpens :
    ∃ trace final,
      Run Step twoFileMachine trace final ∧
        (final.kernel.opened nextSlot).isSome ∧
        final.kernel.KeepsIdentity := by
  have reaches :
      (runActions (guarded HandsOutFreely step?) twoFileMachine
        sharedOpens).any
          (fun final => (final.kernel.opened nextSlot).isSome) = true := by
    decide +kernel
  obtain ⟨final, accepted, isBound⟩ := (Option.any_eq_true _ _).mp reaches
  obtain ⟨trace, run, freely⟩ := runActions_guarded accepted
  exact ⟨trace, final, run, isBound,
    keepsIdentity_of_handsOutFreely run freely⟩

/--
A child opens and unlinks `a` and closes it; while it waits for the disk in the
last `fileclose`, its parent opens `b` and gets the same slot.
-/
def overtakenClose : List FileAction :=
  [.call 0 (.fork 1), .call 1 (.open pathA 0)] ++
    List.replicate 5 (.resume 1) ++
    [.call 1 (.unlink pathA)] ++
    List.replicate 7 (.resume 1) ++
    [.call 1 (.close 3), .call 0 (.open pathB 0)] ++
    List.replicate 5 (.resume 0) ++
    List.replicate 4 (.resume 1)

/-- The slot is bound, and shows nothing of what it was bound to. -/
def isWiped (m : FileMachine) : Bool :=
  (m.kernel.opened nextSlot).isSome &&
    (m.kernel.file nextSlot).type == .none

/-- The parent's file is cleared by the child's `fileclose`. -/
theorem overtaken_fileclose_clears_file :
    ¬ ∀ (fs : FileSystem) (cwd : Option InodeIndex)
        (trace : List (FileMachine × FileAction)) (final : FileMachine),
      Run Step (bootMachine fs cwd) trace final →
        final.kernel.KeepsIdentity := by
  intro law
  have reaches :
      (runActions step? twoFileMachine overtakenClose).any isWiped =
        true := by
    decide +kernel
  obtain ⟨final, accepted, wiped⟩ := (Option.any_eq_true _ _).mp reaches
  obtain ⟨trace, _, run⟩ := runActions_sound accepted
  have identity := law twoFiles (some rootIndex) trace final run
  unfold isWiped at wiped
  rw [Bool.and_eq_true] at wiped
  obtain ⟨bound, isBound⟩ := Option.isSome_iff_exists.mp wiped.1
  have type := (identity.shows nextSlot bound isBound).type
  rw [eq_of_beq wiped.2] at type
  cases type

end FileMachine

end MyOS
