import MyOS.FileTableInvariant

namespace MyOS

open Lib

/-!
# What the calls on files keep

Every segment of a call leaves the invariant of the file table behind, changes
nothing that another process relies on, and returns without a reference or a
close in progress.  Segments that hand out a slot which a sleeping `fileclose`
will still clear, or for which there is no descriptor, are left out.
-/

namespace FileKernel

/-- What only the process itself changes. -/
structure ProcessFiles where
  ofile : Descriptor → Option FileSlot
  closing : Option FileSlot
  opening : Option Nat
  alive : Bool

/-- A process's part of the state. -/
def processFiles (kernel : FileKernel) (p : Slot) : ProcessFiles where
  ofile := kernel.ofile p
  closing := kernel.closing p
  opening := kernel.opening p
  alive := kernel.alive p

/-- What a process's segments leave alone of the other processes. -/
def OthersSame (p : Slot) (start kernel : FileKernel) : Prop :=
  ∀ q, q ≠ p →
    kernel.closing q = start.closing q ∧
    kernel.opening q = start.opening q ∧
    (start.alive q = true → kernel.processFiles q = start.processFiles q)

/-- What the segments of a process's calls are held to. -/
def discipline (p : Slot) : Discipline FileKernel ProcessFiles where
  invariant := Fits
  fresh := fun kernel => kernel.handed = none
  view := fun kernel => kernel.processFiles p
  permitted := fun start kernel =>
    ∀ f, kernel.handed = some f →
      (∀ q, start.closing q ≠ some f) ∧ ∃ fd, start.ofile p fd = none
  frame := fun start kernel =>
    kernel.alive p = true ∧ OthersSame p start kernel

/-- A call has returned. -/
structure Idle (kernel : FileKernel) (p : Slot) : Prop where
  closing : kernel.closing p = none
  opening : kernel.opening p = none

/-- What a call leaves behind where it returns. -/
def Returned (p : Slot) (start : FileKernel) (_ : Unit) (kernel : FileKernel) :
    Prop :=
  (discipline p).permitted start kernel →
    Fits kernel ∧ OthersSame p start kernel ∧ kernel.Idle p

/-!
## Points of a call
-/

/-- An assertion that holds across the waits of the file system. -/
structure Lasting
    (p : Slot)
    (assertion : FileKernel → FileKernel → Prop) : Prop where
  settled :
    ∀ {start kernel}, assertion start kernel →
      Fits kernel ∧ (discipline p).frame start kernel
  blind :
    ∀ {start kernel} fs, assertion start kernel →
      assertion start { kernel with fs := fs }
  resumes :
    ∀ {start kernel later}, assertion start kernel →
      Fits later →
      later.handed = none →
      later.processFiles p = kernel.processFiles p →
      assertion later later

variable {p : Slot} {start kernel : FileKernel} {Result Next : Type}

theorem othersSame_refl
    (kernel : FileKernel) :
    OthersSame p kernel kernel := by
  intro q _
  exact ⟨rfl, rfl, fun _ => rfl⟩

theorem othersSame_of_others
    {changed : FileKernel}
    (before : OthersSame p start kernel)
    (others :
      ∀ q, q ≠ p → changed.processFiles q = kernel.processFiles q) :
    OthersSame p start changed := by
  intro q other
  obtain ⟨closing, opening, same⟩ := before q other
  have unchanged := others q other
  refine ⟨?_, ?_, ?_⟩
  · exact (congrArg ProcessFiles.closing unchanged).trans closing
  · exact (congrArg ProcessFiles.opening unchanged).trans opening
  · intro isAlive
    rw [unchanged]
    exact same isAlive

theorem Lasting.keeps
    {assertion : FileKernel → FileKernel → Prop}
    {routine : FsRoutine Result}
    (lasting : Lasting p assertion)
    (here : assertion start kernel) :
    (FileKernel.onFs routine kernel).Keeps (discipline p)
      (fun start _ kernel => assertion start kernel) start := by
  apply Outcome.Keeps.within
  · intro _ _ fits
    exact fits
  · intro _ _
    rfl
  · intro _ _ _ permitted
    exact permitted
  · intro _ _ _ frame
    exact frame
  · intro later fits fresh same
    exact (lasting.settled (lasting.resumes here fits fresh same)).2
  · intro _
    exact lasting.settled here
  · intro result fs
    exact lasting.blind fs here
  · intro later result fs fits fresh same
    exact lasting.blind fs (lasting.resumes here fits fresh same)

theorem Lasting.onFs
    {assertion : FileKernel → FileKernel → Prop}
    {routine : FsRoutine Result}
    {next : Result → FileRoutine Next}
    {post : FileKernel → Next → FileKernel → Prop}
    (lasting : Lasting p assertion)
    (here : assertion start kernel)
    (rest :
      ∀ result {start kernel}, assertion start kernel →
        (next result kernel).Keeps (discipline p) post start) :
    ((FileKernel.onFs routine >>= next) kernel).Keeps (discipline p) post
      start := by
  apply Outcome.Keeps.bind
  apply (lasting.keeps here).mono
  intro start result kernel there
  exact rest result there

theorem keeps_step
    {first : FileRoutine Result}
    {next : Result → FileRoutine Next}
    {post : FileKernel → Next → FileKernel → Prop}
    {result : Result}
    {changed : FileKernel}
    (step : first kernel = .done changed result)
    (rest : (next result changed).Keeps (discipline p) post start) :
    ((first >>= next) kernel).Keeps (discipline p) post start := by
  have unfolded :
      (first >>= next) kernel = (first kernel).bind next :=
    rfl
  rw [unfolded, step]
  exact rest

theorem keeps_get
    {next : FileKernel → FileRoutine Next}
    {post : FileKernel → Next → FileKernel → Prop}
    (rest : (next kernel kernel).Keeps (discipline p) post start) :
    ((Routine.get >>= next) kernel).Keeps (discipline p) post start :=
  rest

theorem keeps_gets
    {read : FileKernel → Result}
    {next : Result → FileRoutine Next}
    {post : FileKernel → Next → FileKernel → Prop}
    (rest : (next (read kernel) kernel).Keeps (discipline p) post start) :
    ((Routine.gets read >>= next) kernel).Keeps (discipline p) post start :=
  rest

theorem keeps_modify
    {change : FileKernel → FileKernel}
    {next : Unit → FileRoutine Next}
    {post : FileKernel → Next → FileKernel → Prop}
    (rest : (next () (change kernel)).Keeps (discipline p) post start) :
    ((Routine.modify change >>= next) kernel).Keeps (discipline p) post
      start :=
  rest

/-- A process between two steps of a call that holds no reference. -/
structure Between (p : Slot) (start kernel : FileKernel) : Prop where
  fits : Fits kernel
  others : OthersSame p start kernel
  quiet : kernel.handed = none
  alive : kernel.alive p = true
  idle : kernel.Idle p

/-- A process between two steps of `sys_open`, with what it holds. -/
structure Opens
    (p : Slot)
    (reference : Option Nat)
    (start kernel : FileKernel) : Prop where
  fits : Fits kernel
  others : OthersSame p start kernel
  quiet : kernel.handed = none
  alive : kernel.alive p = true
  closing : kernel.closing p = none
  opening : kernel.opening p = reference
  closings : kernel.closing = start.closing
  table : kernel.ofile p = start.ofile p

namespace Between

theorem lasting : Lasting p (Between p) where
  settled := by
    intro start kernel here
    exact ⟨here.fits, here.alive, here.others⟩
  blind := by
    intro start kernel fs here
    exact {
      fits := here.fits
      others := here.others
      quiet := here.quiet
      alive := here.alive
      idle := ⟨here.idle.closing, here.idle.opening⟩
    }
  resumes := by
    intro start kernel later here fits quiet same
    refine {
      fits := fits
      others := ?_
      quiet := quiet
      alive := ?_
      idle := ⟨?_, ?_⟩
    }
    · exact othersSame_refl later
    · exact (congrArg ProcessFiles.alive same).trans here.alive
    · exact (congrArg ProcessFiles.closing same).trans here.idle.closing
    · exact (congrArg ProcessFiles.opening same).trans here.idle.opening

theorem returned
    (here : Between p start kernel)
    (result : Unit) :
    Returned p start result kernel :=
  fun _ => ⟨here.fits, here.others, here.idle⟩

theorem onTree
    (call : Option InodeIndex → FsRoutine Int)
    (here : Between p start kernel) :
    (FileCall.onTree p call kernel).Keeps (discipline p) (Returned p)
      start := by
  unfold FileCall.onTree
  apply keeps_get
  apply lasting.onFs here
  intro result start kernel there
  exact there.returned ()

theorem seek
    (here : Between p start kernel)
    (f : FileSlot)
    (move : Nat → Nat) :
    ∃ changed,
      FileKernel.seek f move kernel = .done changed () ∧
        Between p start changed := by
  refine ⟨_, rfl, ?_⟩
  exact {
    fits := here.fits.seek f move
    others := othersSame_of_others here.others fun _ _ => rfl
    quiet := here.quiet
    alive := here.alive
    idle := ⟨here.idle.closing, here.idle.opening⟩
  }

theorem followIp
    {f : FileSlot}
    {next : InodeIndex → FileRoutine Next}
    {post : FileKernel → Next → FileKernel → Prop}
    (rest :
      ∀ ip, (next ip kernel).Keeps (discipline p) post start) :
    ((FileKernel.followIp f >>= next) kernel).Keeps (discipline p) post
      start := by
  have unfolded :
      (FileKernel.followIp f >>= next) kernel =
        (FileKernel.followIp f kernel).bind next :=
    rfl
  rw [unfolded]
  cases ip : (kernel.file f).ip with
  | none =>
      have missing :
          FileKernel.followIp f kernel = .fault kernel .nullInode := by
        simp [FileKernel.followIp, fileAt, Routine.gets, Bind.bind,
          Outcome.bind, ip, Routine.fault]
      rw [missing]
      exact True.intro
  | some inode =>
      have found :
          FileKernel.followIp f kernel = .done kernel inode := by
        simp [FileKernel.followIp, fileAt, Routine.gets, Bind.bind,
          Outcome.bind, ip, pure]
      rw [found]
      exact rest inode

theorem fileread
    (here : Between p start kernel)
    (f : FileSlot)
    (target : FileSystem.ReadTarget)
    (n : Nat) :
    (FileKernel.fileread f target n kernel).Keeps (discipline p)
      (fun start _ kernel => Between p start kernel) start := by
  unfold FileKernel.fileread
  apply keeps_gets
  split
  · exact here
  · apply followIp
    intro ip
    apply lasting.onFs here
    intro _ start kernel here
    apply keeps_gets
    apply followIp
    intro ip
    apply lasting.onFs here
    intro bytes start kernel here
    obtain ⟨moved, step, there⟩ := here.seek f fun off =>
      (off + bytes.length) % uintModulus
    apply keeps_step step
    apply followIp
    intro ip
    apply lasting.onFs there
    intro _ start kernel here
    exact here

theorem filewrite
    (here : Between p start kernel)
    (f : FileSlot)
    (src : Bytes)
    (n : Nat) :
    (FileKernel.filewrite f src n kernel).Keeps (discipline p)
      (fun start _ kernel => Between p start kernel) start := by
  unfold FileKernel.filewrite
  apply keeps_gets
  split
  · exact here
  · apply followIp
    intro ip
    apply lasting.onFs here
    intro _ start kernel here
    apply keeps_gets
    apply followIp
    intro ip
    apply lasting.onFs here
    intro r start kernel here
    split
    · obtain ⟨moved, step, there⟩ := here.seek f fun off =>
        (off + r.toNat) % uintModulus
      apply keeps_step step
      apply followIp
      intro ip
      apply lasting.onFs there
      intro _ start kernel here
      exact here
    · apply followIp
      intro ip
      apply lasting.onFs here
      intro _ start kernel here
      exact here

theorem writeFrom
    (here : Between p start kernel)
    (f : FileSlot)
    (source : Nat → Option UInt8)
    (fuel written left : Nat) :
    (FileKernel.writeFrom f source fuel written left kernel).Keeps
      (discipline p) (Returned p) start := by
  induction fuel generalizing written left start kernel with
  | zero =>
      exact here.returned ()
  | succ fuel inductionHypothesis =>
      unfold FileKernel.writeFrom
      split
      · exact here.returned ()
      · apply keeps_gets
        split
        · apply Outcome.Keeps.bind
          apply (here.filewrite f _ _).mono
          intro start ret kernel here
          split
          · exact inductionHypothesis here _ _
          · exact here.returned ()
        · exact here.returned ()

theorem sysRead
    (here : Between p start kernel)
    (fd : Int)
    (target : FileSystem.ReadTarget)
    (n : Int) :
    (FileKernel.sysRead p fd target n kernel).Keeps (discipline p)
      (Returned p) start := by
  unfold FileKernel.sysRead
  apply keeps_get
  cases kernel.argfd p fd with
  | none =>
      exact here.returned ()
  | some entry =>
      obtain ⟨slot, f⟩ := entry
      dsimp only
      split
      · apply Outcome.Keeps.bind
        apply (here.fileread _ _ _).mono
        intro start _ kernel here
        exact here.returned ()
      · exact here.returned ()

theorem sysWrite
    (here : Between p start kernel)
    (fd : Int)
    (source : Nat → Option UInt8)
    (len : Int) :
    (FileKernel.sysWrite p fd source len kernel).Keeps (discipline p)
      (Returned p) start := by
  unfold FileKernel.sysWrite
  apply keeps_get
  cases kernel.argfd p fd with
  | none =>
      exact here.returned ()
  | some entry =>
      obtain ⟨slot, f⟩ := entry
      dsimp only
      split
      · exact here.writeFrom _ _ _ _ _
      · exact here.returned ()

theorem seek_last
    (here : Between p start kernel)
    (f : FileSlot)
    (move : Nat → Nat) :
    (FileKernel.seek f move kernel).Keeps (discipline p) (Returned p)
      start := by
  obtain ⟨moved, step, there⟩ := here.seek f move
  rw [step]
  exact there.returned ()

theorem sysLseek
    (here : Between p start kernel)
    (fd offset whence : Int) :
    (FileKernel.sysLseek p fd offset whence kernel).Keeps (discipline p)
      (Returned p) start := by
  unfold FileKernel.sysLseek
  apply keeps_get
  cases kernel.argfd p fd with
  | none =>
      exact here.returned ()
  | some entry =>
      obtain ⟨slot, f⟩ := entry
      dsimp only
      split
      · exact here.seek_last _ _
      · split
        · exact here.seek_last _ _
        · split
          · apply followIp
            intro ip
            apply lasting.onFs here
            intro inode start kernel here
            exact here.seek_last _ _
          · exact here.returned ()

theorem setCwd
    (here : Between p start kernel)
    (cwd : Slot → Option InodeIndex) :
    Between p start { kernel with cwd := cwd } where
  fits := here.fits
  others := here.others
  quiet := here.quiet
  alive := here.alive
  idle := ⟨here.idle.closing, here.idle.opening⟩

theorem sysChdir
    (here : Between p start kernel)
    (path : List UInt8) :
    (FileKernel.sysChdir p path kernel).Keeps (discipline p) (Returned p)
      start := by
  unfold FileKernel.sysChdir
  apply keeps_get
  apply lasting.onFs here
  intro found start kernel here
  cases found with
  | none =>
      exact here.returned ()
  | some ip =>
      apply lasting.onFs here
      intro _ start kernel here
      apply lasting.onFs here
      intro inode start kernel here
      split
      · apply (lasting.keeps here).mono
        intro start result kernel here
        exact here.returned result
      · apply lasting.onFs here
        intro _ start kernel here
        apply keeps_get
        cases kernel.cwd p with
        | none =>
            exact True.intro
        | some old =>
            apply lasting.onFs here
            intro _ start kernel here
            exact (here.setCwd _).returned ()

end Between

/-!
## Closing a descriptor
-/

/-- The state with a descriptor gone and its close over. -/
def withoutDescriptor
    (kernel : FileKernel)
    (p : Slot)
    (fd : Descriptor) :
    FileKernel :=
  { kernel with
    ofile :=
      Function.update kernel.ofile p
        (Function.update (kernel.ofile p) fd none)
    closing := Function.update kernel.closing p none }

/-- The state in which `fileclose` is called: the entry may be gone. -/
def withEntry
    (kernel : FileKernel)
    (p : Slot)
    (fd : Descriptor)
    (kept : Option FileSlot) :
    FileKernel :=
  { kernel with
    ofile :=
      Function.update kernel.ofile p
        (Function.update (kernel.ofile p) fd kept) }

theorem withEntry_self
    {fd : Descriptor}
    {kept : Option FileSlot}
    (same : kernel.ofile p fd = kept) :
    kernel.withEntry p fd kept = kernel := by
  unfold withEntry
  rw [← same, Function.update_eq_self, Function.update_eq_self]

/-- A process inside the last `fileclose` of a file. -/
structure Closing
    (p : Slot)
    (fd : Descriptor)
    (f : FileSlot)
    (entries : Descriptor → Option FileSlot)
    (start kernel : FileKernel) : Prop where
  fits : Fits kernel
  others : OthersSame p start kernel
  quiet : kernel.handed = none
  alive : kernel.alive p = true
  closing : kernel.closing p = some f
  opening : kernel.opening p = none
  table : kernel.ofile p = entries
  last : ∀ d, d ≠ fd → entries d ≠ some f
  isKept : entries fd = none ∨ entries fd = some f

/-- `fileclose` has returned to a caller that goes on with the descriptor. -/
structure Closed
    (p : Slot)
    (fd : Descriptor)
    (entries : Descriptor → Option FileSlot)
    (start kernel : FileKernel) : Prop where
  table : kernel.ofile p = entries
  between : Between p start (kernel.withoutDescriptor p fd)

namespace Closing

variable {fd : Descriptor} {f : FileSlot}
variable {entries : Descriptor → Option FileSlot}

theorem lasting : Lasting p (Closing p fd f entries) where
  settled := by
    intro start kernel here
    exact ⟨here.fits, here.alive, here.others⟩
  blind := by
    intro start kernel fs here
    exact {
      fits := here.fits
      others := here.others
      quiet := here.quiet
      alive := here.alive
      closing := here.closing
      opening := here.opening
      table := here.table
      last := here.last
      isKept := here.isKept
    }
  resumes := by
    intro start kernel later here fits quiet same
    refine {
      fits := fits
      others := ?_
      quiet := quiet
      alive := ?_
      closing := ?_
      opening := ?_
      table := ?_
      last := here.last
      isKept := here.isKept
    }
    · exact othersSame_refl later
    · exact (congrArg ProcessFiles.alive same).trans here.alive
    · exact (congrArg ProcessFiles.closing same).trans here.closing
    · exact (congrArg ProcessFiles.opening same).trans here.opening
    · exact (congrArg ProcessFiles.ofile same).trans here.table

theorem clearFile
    (here : Closing p fd f entries start kernel) :
    (FileKernel.clearFile f kernel).Keeps (discipline p)
      (fun start _ kernel => Closed p fd entries start kernel) start := by
  have free : (kernel.file f).ref = 0 :=
    here.fits.closed here.closing
  have still :
      { kernel.file f with
        type := FileType.none, ip := none, off := 0 }.ref =
        (kernel.file f).ref :=
    rfl
  have cleared := here.fits.clear free still
  refine {
    table := here.table
    between := {
      fits := ?_
      others := ?_
      quiet := here.quiet
      alive := here.alive
      idle := ⟨?_, here.opening⟩
    }
  }
  · apply FilesFit.finishClose cleared here.closing
    · rw [here.table]
      exact here.last
    · rw [here.table]
      exact here.isKept
    · exact here.alive
  · apply othersSame_of_others here.others
    intro q other
    simp only [processFiles, withoutDescriptor,
      Function.update_of_ne other]
  · exact Function.update_self ..

end Closing

/-- The ghost state in which a last `fileclose` of an inode waits. -/
def closingState
    (kernel : FileKernel)
    (p : Slot)
    (fd : Descriptor)
    (kept : Option FileSlot)
    (f : FileSlot)
    (drops : Nat → Nat) :
    FileKernel :=
  { kernel.withEntry p fd kept with
    file :=
      Function.update kernel.file f
        { kernel.file f with ref := (kernel.file f).ref - 1 }
    closing := Function.update kernel.closing p (some f)
    opened := Function.update kernel.opened f none
    drops := drops }

theorem Between.beginClose
    {fd : Descriptor}
    {f : FileSlot}
    {kept : Option FileSlot}
    {drops : Nat → Nat}
    (here : Between p start kernel)
    (refers : kernel.ofile p fd = some f)
    (isKept : kept = none ∨ kept = some f)
    (last : (kernel.file f).ref - 1 = 0)
    (drop :
      ∀ bound, kernel.opened f = some bound →
        drops =
          Function.update kernel.drops bound.reference
            (kernel.drops bound.reference + 1))
    (keep : kernel.opened f = none → drops = kernel.drops) :
    Closing p fd f (Function.update (kernel.ofile p) fd kept) start
      (kernel.closingState p fd kept f drops) where
  fits :=
    FilesFit.beginClose here.fits here.idle.closing refers isKept last
      here.alive drop keep
  others := by
    apply othersSame_of_others here.others
    intro q other
    simp only [processFiles, closingState, withEntry,
      Function.update_of_ne other]
  quiet := here.quiet
  alive := here.alive
  closing := Function.update_self ..
  opening := here.idle.opening
  table := Function.update_self ..
  last := by
    intro d descriptor
    rw [Function.update_of_ne descriptor]
    intro wrong
    have nobody := here.fits.only_descriptor here.idle.closing refers last
    apply referenceCount_eq_zero.mp nobody (p, d)
    rw [Function.update_of_ne fun same => descriptor (Prod.mk.inj same).2,
      liveEntry_of_idle here.idle.closing, wrong]
  isKept := by
    rw [Function.update_self]
    exact isKept

theorem Between.drops_carried
    {fd : Descriptor}
    {f : FileSlot}
    (here : Between p start kernel)
    (refers : kernel.ofile p fd = some f)
    (type : (kernel.file f).type = .inode) :
    (∀ bound, kernel.opened f = some bound →
      kernel.countDrop (kernel.carries f) =
        Function.update kernel.drops bound.reference
          (kernel.drops bound.reference + 1)) ∧
    (kernel.opened f = none →
      kernel.countDrop (kernel.carries f) = kernel.drops) := by
  constructor
  · intro bound isBound
    rw [(here.fits.shows isBound).2]
    rfl
  · intro notBound
    have used := here.fits.ref_ne_zero refers here.idle.closing
    have console := here.fits.bound used notBound
    rw [type] at console
    cases console

theorem Between.fileclose
    {fd : Descriptor}
    {f : FileSlot}
    {kept : Option FileSlot}
    (here : Between p start kernel)
    (refers : kernel.ofile p fd = some f)
    (isKept : kept = none ∨ kept = some f) :
    (FileKernel.fileclose p f (kernel.withEntry p fd kept)).Keeps
      (discipline p)
      (fun start _ changed =>
        Closed p fd (Function.update (kernel.ofile p) fd kept) start changed)
      start := by
  unfold FileKernel.fileclose
  apply keeps_gets
  split
  · exact True.intro
  · apply keeps_modify
    apply keeps_gets
    split
    · next last =>
        have isLast : (kernel.file f).ref - 1 = 0 := by
          simpa only [withEntry, Function.update_self] using last
        apply keeps_modify
        split
        · next isInode =>
            have type : (kernel.file f).type = .inode := by
              simpa only [withEntry, Function.update_self] using isInode
            apply Between.followIp
            intro ip
            apply keeps_modify
            have closing := here.beginClose refers isKept isLast
              (here.drops_carried refers type).1
              (here.drops_carried refers type).2
            apply Closing.lasting.onFs closing
            intro _ start kernel there
            exact there.clearFile
        · next notInode =>
            have notBound : kernel.opened f = none := by
              by_contra some
              obtain ⟨bound, isBound⟩ := Option.ne_none_iff_exists'.mp some
              apply notInode
              simpa only [withEntry, Function.update_self] using
                (here.fits.shows isBound).1.type
            have nothing :
                ∀ bound, kernel.opened f = some bound →
                  kernel.drops =
                    Function.update kernel.drops bound.reference
                      (kernel.drops bound.reference + 1) := by
              intro bound isBound
              rw [notBound] at isBound
              cases isBound
            have closing := here.beginClose refers isKept isLast nothing
              fun _ => rfl
            exact closing.clearFile
    · next more =>
        have isMore : (kernel.file f).ref - 1 ≠ 0 := by
          simpa only [withEntry, Function.update_self] using more
        have released := FilesFit.release here.fits here.idle.closing refers
          isMore
        refine {
          table := Function.update_self ..
          between := {
            fits := ?_
            others := ?_
            quiet := here.quiet
            alive := here.alive
            idle := ⟨Function.update_self .., here.idle.opening⟩
          }
        }
        · have closing :
              Function.update kernel.closing p none = kernel.closing := by
            rw [← here.idle.closing, Function.update_eq_self]
          have entries :
              Function.update
                  (Function.update kernel.ofile p
                    (Function.update (kernel.ofile p) fd kept)) p
                  (Function.update
                    (Function.update kernel.ofile p
                      (Function.update (kernel.ofile p) fd kept) p) fd
                    none) =
                Function.update kernel.ofile p
                  (Function.update (kernel.ofile p) fd none) := by
            rw [Function.update_idem, Function.update_self,
              Function.update_idem]
          rw [← closing, ← entries] at released
          exact released
        · apply othersSame_of_others here.others
          intro q other
          simp only [processFiles, withoutDescriptor, withEntry,
            Function.update_of_ne other]

theorem argfd_eq
    {number : Int}
    {fd : Descriptor}
    {f : FileSlot}
    (found : kernel.argfd p number = some (fd, f)) :
    kernel.ofile p fd = some f := by
  unfold argfd at found
  split at found
  · obtain ⟨g, refers, same⟩ := Option.map_eq_some_iff.mp found
    cases same
    exact refers
  · cases found

namespace Between

theorem sysClose
    (here : Between p start kernel)
    (number : Int) :
    (FileKernel.sysClose p number kernel).Keeps (discipline p) (Returned p)
      start := by
  unfold FileKernel.sysClose
  apply keeps_get
  cases found : kernel.argfd p number with
  | none =>
      exact here.returned ()
  | some entry =>
      obtain ⟨fd, f⟩ := entry
      apply keeps_modify
      apply Outcome.Keeps.bind
      apply (here.fileclose (argfd_eq found) (Or.inl rfl)).mono
      intro start _ closed there
      have gone : closed.ofile p fd = none := by
        rw [there.table, Function.update_self]
      have same :
          Function.update closed.ofile p
              (Function.update (closed.ofile p) fd none) =
            closed.ofile := by
        rw [← gone, Function.update_eq_self, Function.update_eq_self]
      have between := there.between
      simp only [withoutDescriptor, same] at between
      exact between.returned ()

theorem shareFile
    {fd old : Descriptor}
    {f : FileSlot}
    (here : Between p start kernel)
    (refers : kernel.ofile p old = some f)
    (unused : kernel.ofile p fd = none) :
    (FileKernel.shareFile p fd f kernel).Keeps (discipline p) (Returned p)
      start := by
  have used := here.fits.ref_ne_zero refers here.idle.closing
  have shared := here.fits.share here.alive here.idle.closing unused used
  have there :
      Between p start
        { kernel with
          ofile :=
            Function.update kernel.ofile p
              (Function.update (kernel.ofile p) fd (some f))
          file :=
            Function.update kernel.file f
              { kernel.file f with ref := (kernel.file f).ref + 1 } } := {
    fits := shared
    others := by
      apply othersSame_of_others here.others
      intro q other
      simp only [processFiles, Function.update_of_ne other]
    quiet := here.quiet
    alive := here.alive
    idle := ⟨here.idle.closing, here.idle.opening⟩
  }
  exact there.returned ()

theorem freeDescriptor_unused
    {fd : Descriptor}
    (free : kernel.freeDescriptor? p = some fd) :
    kernel.ofile p fd = none := by
  have unused := List.find?_some free
  exact eq_of_beq unused

theorem sysDup
    (here : Between p start kernel)
    (number : Int) :
    (FileKernel.sysDup p number kernel).Keeps (discipline p) (Returned p)
      start := by
  unfold FileKernel.sysDup
  apply keeps_get
  cases found : kernel.argfd p number with
  | none =>
      exact here.returned ()
  | some entry =>
      obtain ⟨old, f⟩ := entry
      cases free : kernel.freeDescriptor? p with
      | none =>
          exact here.returned ()
      | some fd =>
          exact here.shareFile (argfd_eq found) (freeDescriptor_unused free)

theorem fcntlDupfd
    (here : Between p start kernel)
    (number arg : Int) :
    (FileKernel.fcntlDupfd p number arg kernel).Keeps (discipline p)
      (Returned p) start := by
  unfold FileKernel.fcntlDupfd
  apply keeps_get
  cases found : kernel.argfd p number with
  | none =>
      exact here.returned ()
  | some entry =>
      obtain ⟨old, f⟩ := entry
      dsimp only
      cases free : descriptors.find? fun (newfd : Descriptor) =>
          decide (arg ≤ newfd.val) && kernel.ofile p newfd == none with
      | none =>
          exact here.returned ()
      | some newfd =>
          dsimp only
          split
          · apply here.shareFile (argfd_eq found)
            have unused := List.find?_some free
            rw [Bool.and_eq_true] at unused
            exact eq_of_beq unused.2
          · exact here.returned ()

theorem sysDup2
    (here : Between p start kernel)
    (oldNumber newNumber : Int) :
    (FileKernel.sysDup2 p oldNumber newNumber kernel).Keeps (discipline p)
      (Returned p) start := by
  unfold FileKernel.sysDup2
  apply keeps_get
  cases found : kernel.argfd p oldNumber with
  | none =>
      exact here.returned ()
  | some entry =>
      obtain ⟨old, f⟩ := entry
      have refers := argfd_eq found
      dsimp only
      split
      · next inRange =>
        split
        · exact here.returned ()
        · next different =>
            cases isOpen : kernel.ofile p ⟨newNumber.toNat, inRange.2⟩ with
            | none =>
                exact here.shareFile refers isOpen
            | some closed =>
                apply Outcome.Keeps.bind
                have closes := here.fileclose isOpen (Or.inr rfl)
                rw [withEntry_self isOpen] at closes
                apply closes.mono
                intro start _ closing there
                apply keeps_modify
                apply keeps_modify
                have refersStill :
                    (closing.withoutDescriptor p
                        ⟨newNumber.toNat, inRange.2⟩).ofile p old =
                      some f := by
                  simp only [withoutDescriptor, Function.update_self,
                    there.table]
                  rw [Function.update_of_ne different,
                    Function.update_of_ne different]
                  exact refers
                apply there.between.shareFile refersStill
                simp only [withoutDescriptor, Function.update_self]
      · exact here.returned ()

theorem exitFile
    (here : Between p start kernel)
    (fd : Descriptor) :
    (FileKernel.exitFile p fd kernel).Keeps (discipline p)
      (fun start _ changed =>
        Between p start changed ∧
          changed.ofile p = Function.update (kernel.ofile p) fd none)
      start := by
  unfold FileKernel.exitFile
  apply keeps_get
  cases isOpen : kernel.ofile p fd with
  | none =>
      refine ⟨here, ?_⟩
      rw [← isOpen, Function.update_eq_self]
  | some f =>
      apply Outcome.Keeps.bind
      have closes := here.fileclose isOpen (Or.inr rfl)
      rw [withEntry_self isOpen] at closes
      apply closes.mono
      intro start _ closing there
      refine ⟨there.between, ?_⟩
      change Function.update closing.ofile p _ p = _
      rw [Function.update_self, there.table, Function.update_idem]

theorem exitFiles
    (here : Between p start kernel)
    (fds : List Descriptor) :
    (Routine.forEach (FileKernel.exitFile p) fds kernel).Keeps (discipline p)
      (fun start _ changed =>
        Between p start changed ∧
          ∀ fd, fd ∈ fds ∨ kernel.ofile p fd = none →
            changed.ofile p fd = none)
      start := by
  induction fds generalizing start kernel with
  | nil =>
      refine ⟨here, ?_⟩
      intro fd gone
      rcases gone with member | none
      · exact absurd member List.not_mem_nil
      · exact none
  | cons fd rest inductionHypothesis =>
      apply Outcome.Keeps.bind
      apply (here.exitFile fd).mono
      intro start _ changed ⟨there, table⟩
      apply (inductionHypothesis there).mono
      intro start _ final ⟨between, gone⟩
      refine ⟨between, ?_⟩
      intro other before
      apply gone
      rw [table]
      by_cases same : other = fd
      · rw [same, Function.update_self]
        exact Or.inr rfl
      · rw [Function.update_of_ne same]
        rcases before with member | none
        · rcases List.mem_cons.mp member with here | later
          · exact absurd here same
          · exact Or.inl later
        · exact Or.inr none

theorem leave
    (here : Between p start kernel)
    (empty : ∀ fd, kernel.ofile p fd = none) :
    Returned p start ()
      { kernel with alive := Function.update kernel.alive p false } := by
  intro _
  refine ⟨?_, ?_, here.idle.closing, here.idle.opening⟩
  · exact here.fits.leave empty here.idle.closing here.idle.opening
  · apply othersSame_of_others here.others
    intro q other
    simp only [processFiles, Function.update_of_ne other]

theorem lasting_empty :
    Lasting p fun start kernel =>
      Between p start kernel ∧ ∀ fd, kernel.ofile p fd = none where
  settled := by
    intro start kernel here
    exact lasting.settled here.1
  blind := by
    intro start kernel fs here
    exact ⟨lasting.blind fs here.1, here.2⟩
  resumes := by
    intro start kernel later here fits quiet same
    refine ⟨lasting.resumes here.1 fits quiet same, ?_⟩
    intro fd
    have table : later.ofile p = kernel.ofile p :=
      congrArg ProcessFiles.ofile same
    rw [table]
    exact here.2 fd

theorem procExit
    (here : Between p start kernel) :
    (FileKernel.procExit p kernel).Keeps (discipline p) (Returned p)
      start := by
  unfold FileKernel.procExit
  apply Outcome.Keeps.bind
  apply (here.exitFiles descriptors).mono
  intro start _ closed ⟨there, gone⟩
  have empty : ∀ fd, closed.ofile p fd = none :=
    fun fd => gone fd (Or.inl (List.mem_finRange fd))
  apply Outcome.Keeps.bind
  unfold FileKernel.leaveFiles
  apply keeps_get
  cases closed.cwd p with
  | none =>
      exact there.leave empty
  | some ip =>
      apply lasting_empty.onFs ⟨there, empty⟩
      intro _ start kernel ⟨here, empty⟩
      exact (here.setCwd _).leave empty

theorem forkFile
    {child : Slot}
    {fd : Descriptor}
    (here : Between p start kernel)
    (unused : start.alive child = false)
    (childAlive : kernel.alive child = true)
    (childIdle : kernel.closing child = none)
    (empty : kernel.ofile child fd = none) :
    ∃ changed,
      FileKernel.forkFile p child fd kernel = .done changed () ∧
      Between p start changed ∧
      changed.alive = kernel.alive ∧
      changed.closing = kernel.closing ∧
      ∀ d, d ≠ fd → changed.ofile child d = kernel.ofile child d := by
  simp only [FileKernel.forkFile, Routine.get, Bind.bind, Outcome.bind]
  cases isOpen : kernel.ofile p fd with
  | none =>
      exact ⟨kernel, rfl, here, rfl, rfl, fun _ _ => rfl⟩
  | some f =>
      have used := here.fits.ref_ne_zero isOpen here.idle.closing
      have shared := here.fits.share childAlive childIdle empty used
      refine ⟨_, rfl, ?_, rfl, rfl, ?_⟩
      · exact {
          fits := shared
          others := by
            intro q different
            obtain ⟨closing, opening, same⟩ := here.others q different
            refine ⟨closing, opening, ?_⟩
            intro isAlive
            have notChild : q ≠ child := by
              intro same
              rw [same, unused] at isAlive
              cases isAlive
            rw [← same isAlive]
            simp only [processFiles, Function.update_of_ne notChild]
          quiet := here.quiet
          alive := here.alive
          idle := ⟨here.idle.closing, here.idle.opening⟩
        }
      · intro d different
        change Function.update kernel.ofile child _ child d = _
        rw [Function.update_self, Function.update_of_ne different]

theorem forkLoop
    {child : Slot}
    {fds : List Descriptor}
    (here : Between p start kernel)
    (unused : start.alive child = false)
    (childAlive : kernel.alive child = true)
    (childIdle : kernel.closing child = none)
    (nodup : fds.Nodup)
    (empty : ∀ fd ∈ fds, kernel.ofile child fd = none) :
    ∃ changed,
      Routine.forEach (FileKernel.forkFile p child) fds kernel =
        .done changed () ∧
      Between p start changed := by
  induction fds generalizing kernel with
  | nil =>
      exact ⟨kernel, rfl, here⟩
  | cons fd rest inductionHypothesis =>
      obtain ⟨notLater, restNodup⟩ := List.nodup_cons.mp nodup
      obtain ⟨changed, step, there, alive, closing, same⟩ :=
        here.forkFile unused childAlive childIdle
          (empty fd List.mem_cons_self)
      have unfolded :
          Routine.forEach (FileKernel.forkFile p child) (fd :: rest) kernel =
            (FileKernel.forkFile p child fd kernel).bind fun _ =>
              Routine.forEach (FileKernel.forkFile p child) rest :=
        rfl
      rw [unfolded, step]
      apply inductionHypothesis there
      · rw [alive]
        exact childAlive
      · rw [closing]
        exact childIdle
      · exact restNodup
      · intro d member
        have different : d ≠ fd := by
          intro same
          rw [same] at member
          exact notLater member
        rw [same d different]
        exact empty d (List.mem_cons_of_mem fd member)

theorem sysFork
    {child : Slot}
    (here : Between p start kernel)
    (unused : start.alive child = false)
    (isStart : kernel.alive child = false) :
    (FileKernel.sysFork p child kernel).Keeps (discipline p) (Returned p)
      start := by
  obtain ⟨noEntry, notClosing, notOpening⟩ := here.fits.dead isStart
  have other : child ≠ p := by
    intro same
    rw [same, here.alive] at isStart
    cases isStart
  have started :
      Between p start
        { kernel with
          alive := Function.update kernel.alive child true } := {
    fits := here.fits.start child
    others := by
      intro q different
      obtain ⟨closing, opening, same⟩ := here.others q different
      refine ⟨closing, opening, ?_⟩
      intro isAlive
      have notChild : q ≠ child := by
        intro same
        rw [same, unused] at isAlive
        cases isAlive
      rw [← same isAlive]
      simp only [processFiles, Function.update_of_ne notChild]
    quiet := here.quiet
    alive := by
      change Function.update kernel.alive child true p = true
      rw [Function.update_of_ne other.symm]
      exact here.alive
    idle := ⟨here.idle.closing, here.idle.opening⟩
  }
  obtain ⟨shared, loop, there⟩ :=
    started.forkLoop unused (Function.update_self ..) notClosing
      (List.nodup_finRange NOFILE) (fun fd _ => noEntry fd)
  unfold FileKernel.sysFork
  apply keeps_modify
  unfold FileKernel.forkFiles
  apply keeps_step loop
  apply keeps_get
  cases shared.cwd p with
  | none =>
      exact there.returned ()
  | some ip =>
      apply lasting.onFs there
      intro _ start kernel here
      exact (here.setCwd _).returned ()

end Between

/-!
## Opening a file
-/

namespace Opens

variable {reference : Option Nat}

theorem lasting : Lasting p (Opens p reference) where
  settled := by
    intro start kernel here
    exact ⟨here.fits, here.alive, here.others⟩
  blind := by
    intro start kernel fs here
    exact {
      fits := here.fits
      others := here.others
      quiet := here.quiet
      alive := here.alive
      closing := here.closing
      opening := here.opening
      closings := here.closings
      table := here.table
    }
  resumes := by
    intro start kernel later here fits quiet same
    refine {
      fits := fits
      others := ?_
      quiet := quiet
      alive := ?_
      closing := ?_
      opening := ?_
      closings := rfl
      table := rfl
    }
    · exact othersSame_refl later
    · exact (congrArg ProcessFiles.alive same).trans here.alive
    · exact (congrArg ProcessFiles.closing same).trans here.closing
    · exact (congrArg ProcessFiles.opening same).trans here.opening

theorem returned
    (here : Opens p none start kernel) :
    Returned p start () kernel :=
  fun _ => ⟨here.fits, here.others, here.closing, here.opening⟩

theorem takeReference
    {next : Unit → FileRoutine Next}
    {post : FileKernel → Next → FileKernel → Prop}
    (here : Opens p none start kernel)
    (rest :
      ∀ {token changed}, Opens p (some token) start changed →
        (next () changed).Keeps (discipline p) post start) :
    ((FileKernel.takeReference p >>= next) kernel).Keeps (discipline p) post
      start := by
  apply keeps_modify
  apply rest
  exact {
    fits := here.fits.takeReference here.alive here.opening
    others := by
      apply othersSame_of_others here.others
      intro q other
      simp only [processFiles, Function.update_of_ne other]
    quiet := here.quiet
    alive := here.alive
    closing := here.closing
    opening := Function.update_self ..
    closings := here.closings
    table := here.table
  }

theorem dropOpening
    {token : Nat}
    {next : Unit → FileRoutine Next}
    {post : FileKernel → Next → FileKernel → Prop}
    (here : Opens p (some token) start kernel)
    (rest :
      ∀ {changed}, Opens p none start changed →
        (next () changed).Keeps (discipline p) post start) :
    ((FileKernel.dropOpening p >>= next) kernel).Keeps (discipline p) post
      start := by
  apply keeps_modify
  apply rest
  have dropped := here.fits.dropOpening here.opening
  have counted :
      kernel.countDrop (kernel.opening p) =
        Function.update kernel.drops token (kernel.drops token + 1) := by
    rw [here.opening]
    rfl
  rw [← counted] at dropped
  exact {
    fits := dropped
    others := by
      apply othersSame_of_others here.others
      intro q other
      simp only [processFiles, Function.update_of_ne other]
    quiet := here.quiet
    alive := here.alive
    closing := here.closing
    opening := Function.update_self ..
    closings := here.closings
    table := here.table
  }

end Opens

/-- The call holds a reference as long as it has an inode. -/
def OpensFor
    (p : Slot)
    (start : FileKernel)
    (found : Option InodeIndex)
    (kernel : FileKernel) : Prop :=
  ∃ reference,
    reference.isSome = found.isSome ∧ Opens p reference start kernel

namespace Opens

theorem lockExisting
    {token : Nat}
    (here : Opens p (some token) start kernel)
    (ip : InodeIndex)
    (flags : Nat) :
    (FileKernel.lockExisting p ip flags kernel).Keeps (discipline p)
      (OpensFor p) start := by
  unfold FileKernel.lockExisting
  apply lasting.onFs here
  intro _ start kernel here
  apply lasting.onFs here
  intro inode start kernel here
  split
  · apply here.dropOpening
    intro kernel here
    apply lasting.onFs here
    intro _ start kernel here
    exact ⟨none, rfl, here⟩
  · exact ⟨some token, rfl, here⟩

theorem createFile
    (here : Opens p none start kernel)
    (dp : InodeIndex)
    (name : List UInt8) :
    (FileKernel.createFile p dp name kernel).Keeps (discipline p)
      (OpensFor p) start := by
  unfold FileKernel.createFile
  apply lasting.onFs here
  intro parent start kernel here
  apply lasting.onFs here
  intro ip start kernel here
  apply here.takeReference
  intro token kernel here
  apply lasting.onFs here
  intro _ start kernel here
  apply lasting.onFs here
  intro _ start kernel here
  apply lasting.onFs here
  intro _ start kernel here
  apply lasting.onFs here
  intro inode start kernel here
  apply lasting.onFs here
  intro linked start kernel here
  split
  · apply here.dropOpening
    intro kernel here
    apply lasting.onFs here
    intro _ start kernel here
    apply lasting.onFs here
    intro _ start kernel here
    exact ⟨none, rfl, here⟩
  · apply lasting.onFs here
    intro _ start kernel here
    exact ⟨some token, rfl, here⟩

theorem openInode
    (here : Opens p none start kernel)
    (path : List UInt8)
    (flags : Nat) :
    (FileKernel.openInode p path flags kernel).Keeps (discipline p)
      (OpensFor p) start := by
  unfold FileKernel.openInode
  apply keeps_get
  split
  · apply lasting.onFs here
    intro found start kernel here
    cases found with
    | none =>
        exact ⟨none, rfl, here⟩
    | some entry =>
        obtain ⟨dp, name⟩ := entry
        apply lasting.onFs here
        intro _ start kernel here
        apply lasting.onFs here
        intro found start kernel here
        cases found with
        | none =>
            exact here.createFile dp name
        | some entry =>
            obtain ⟨ip, offset⟩ := entry
            apply here.takeReference
            intro token kernel here
            apply lasting.onFs here
            intro _ start kernel here
            split
            · apply here.dropOpening
              intro kernel here
              apply lasting.onFs here
              intro _ start kernel here
              exact ⟨none, rfl, here⟩
            · exact here.lockExisting ip flags
  · apply lasting.onFs here
    intro found start kernel here
    cases found with
    | none =>
        exact ⟨none, rfl, here⟩
    | some ip =>
        apply here.takeReference
        intro token kernel here
        exact here.lockExisting ip flags

end Opens

/-- A segment that hands a slot out where it must not. -/
def Spoiled (p : Slot) (start kernel : FileKernel) : Prop :=
  ∃ f, kernel.handed = some f ∧
    ((∃ q, start.closing q = some f) ∨ ∀ fd, start.ofile p fd ≠ none)

namespace Spoiled

theorem not_permitted
    (here : Spoiled p start kernel) :
    ¬ (discipline p).permitted start kernel := by
  intro permitted
  obtain ⟨f, handed, busy | full⟩ := here
  · obtain ⟨q, closing⟩ := busy
    exact (permitted f handed).1 q closing
  · obtain ⟨fd, unused⟩ := (permitted f handed).2
    exact full fd unused

theorem onFs
    {routine : FsRoutine Result}
    {next : Result → FileRoutine Next}
    {post : FileKernel → Next → FileKernel → Prop}
    (here : Spoiled p start kernel)
    (rest :
      ∀ result {kernel}, Spoiled p start kernel →
        (next result kernel).Keeps (discipline p) post start) :
    ((FileKernel.onFs routine >>= next) kernel).Keeps (discipline p) post
      start := by
  apply Outcome.Keeps.bind
  unfold FileKernel.onFs Routine.within
  cases routine (fsComponent.read kernel) with
  | done fs result =>
      exact rest result here
  | fault state reason =>
      exact True.intro
  | wait fs resume =>
      intro permitted
      exact absurd permitted (not_permitted here)

theorem last
    {routine : FsRoutine Unit}
    (here : Spoiled p start kernel) :
    (FileKernel.onFs routine kernel).Keeps (discipline p) (Returned p)
      start := by
  unfold FileKernel.onFs Routine.within
  cases routine (fsComponent.read kernel) with
  | done fs result =>
      exact fun permitted => absurd permitted (not_permitted here)
  | fault state reason =>
      exact True.intro
  | wait fs resume =>
      exact fun permitted => absurd permitted (not_permitted here)

theorem fileclose
    {f : FileSlot}
    {next : Unit → FileRoutine Next}
    {post : FileKernel → Next → FileKernel → Prop}
    (here : Spoiled p start kernel)
    (rest :
      ∀ {kernel}, Spoiled p start kernel →
        (next () kernel).Keeps (discipline p) post start) :
    ((FileKernel.fileclose p f >>= next) kernel).Keeps (discipline p) post
      start := by
  apply Outcome.Keeps.bind
  unfold FileKernel.fileclose
  apply keeps_gets
  split
  · exact True.intro
  · apply keeps_modify
    apply keeps_gets
    split
    · apply keeps_modify
      split
      · apply Between.followIp
        intro ip
        apply keeps_modify
        apply onFs
        · exact here
        · intro _ kernel here
          exact rest here
      · exact rest here
    · exact rest here

end Spoiled

theorem keeps_last
    {routine : FsRoutine Unit}
    (fits : Fits kernel)
    (isAlive : kernel.alive p = true)
    (others : OthersSame p start kernel)
    (idle : kernel.Idle p) :
    (FileKernel.onFs routine kernel).Keeps (discipline p) (Returned p)
      start := by
  apply Outcome.Keeps.within
  · intro _ _ holds
    exact holds
  · intro _ _
    rfl
  · intro _ _ _ permitted
    exact permitted
  · intro _ _ _ within
    exact within
  · intro later _ _ same
    exact ⟨(congrArg ProcessFiles.alive same).trans isAlive,
      othersSame_refl later⟩
  · intro _
    exact ⟨fits, isAlive, others⟩
  · intro _ fs _
    exact ⟨fits, others, idle.closing, idle.opening⟩
  · intro later _ fs holds _ same _
    refine ⟨holds, othersSame_refl later, ?_, ?_⟩
    · exact (congrArg ProcessFiles.closing same).trans idle.closing
    · exact (congrArg ProcessFiles.opening same).trans idle.opening

theorem filealloc_none
    (full : kernel.freeFile? = none) :
    filealloc kernel = .done kernel none := by
  simp only [filealloc, Routine.get, Bind.bind, Outcome.bind, full]
  rfl

/-- The state behind `filealloc`. -/
def handOut (kernel : FileKernel) (f : FileSlot) : FileKernel :=
  { kernel with
    file := Function.update kernel.file f { kernel.file f with ref := 1 }
    handed := some f }

/-- The state behind `fdalloc`. -/
def giveDescriptor
    (kernel : FileKernel)
    (p : Slot)
    (fd : Descriptor)
    (f : FileSlot) :
    FileKernel :=
  { kernel with
    ofile :=
      Function.update kernel.ofile p
        (Function.update (kernel.ofile p) fd (some f)) }

theorem filealloc_some
    {f : FileSlot}
    (free : kernel.freeFile? = some f) :
    filealloc kernel = .done (kernel.handOut f) (some f) := by
  simp only [filealloc, Routine.get, Bind.bind, Outcome.bind, free]
  rfl

theorem fdalloc_none
    {f : FileSlot}
    (full : kernel.freeDescriptor? p = none) :
    fdalloc p f kernel = .done kernel none := by
  simp only [fdalloc, Routine.get, Bind.bind, Outcome.bind, full]
  rfl

theorem fdalloc_some
    {fd : Descriptor}
    {f : FileSlot}
    (room : kernel.freeDescriptor? p = some fd) :
    fdalloc p f kernel = .done (kernel.giveDescriptor p fd f) (some fd) := by
  simp only [fdalloc, Routine.get, Bind.bind, Outcome.bind, room]
  rfl

/-- What `sys_open` makes of a slot, up to the offset. -/
def filled (file : FileObject) (ip : InodeIndex) (flags off : Nat) :
    FileObject :=
  { file with
    type := .inode
    ip := some ip
    off := off
    readable := !hasFlag flags O_WRONLY
    writable := opensToWrite flags }

/-- Where a new descriptor starts. -/
def startOffset (flags : Nat) (inode : Inode) : Nat :=
  if hasFlag flags O_APPEND ∧ inode.type = T_FILE then inode.size else 0

theorem fillFile_eq
    (f : FileSlot)
    (ip : InodeIndex)
    (flags : Nat) :
    fillFile f ip flags kernel =
      .done
        { kernel with
          file :=
            Function.update kernel.file f
              (filled (kernel.file f) ip flags
                (startOffset flags (kernel.fs.inode ip))) }
        () := by
  have unfolded :
      fillFile f ip flags kernel =
        (if hasFlag flags O_APPEND ∧
            (kernel.fs.inode ip).type = T_FILE then
          setFile f fun file => { file with off := (kernel.fs.inode ip).size }
        else
          pure ())
          { kernel with
            file :=
              Function.update kernel.file f
                (filled (kernel.file f) ip flags 0) } :=
    rfl
  rw [unfolded]
  unfold startOffset
  split
  · simp only [setFile, Routine.modify, Function.update_self,
      Function.update_idem, filled]
  · rfl

theorem freeDescriptor_full
    (full : kernel.freeDescriptor? p = none)
    (fd : Descriptor) :
    kernel.ofile p fd ≠ none := by
  intro unused
  have isUsed := List.find?_eq_none.mp full fd (List.mem_finRange fd)
  rw [unused] at isUsed
  exact isUsed rfl

theorem freeFile_free
    {f : FileSlot}
    (free : kernel.freeFile? = some f) :
    (kernel.file f).ref = 0 := by
  have unused := List.find?_some free
  exact eq_of_beq unused

namespace Opens

/-- The state in which `sys_open` has bound a slot. -/
def boundState
    (kernel : FileKernel)
    (p : Slot)
    (fd : Descriptor)
    (f : FileSlot)
    (file : FileObject)
    (bound : Opening) :
    FileKernel :=
  { kernel with
    file := Function.update kernel.file f file
    ofile :=
      Function.update kernel.ofile p
        (Function.update (kernel.ofile p) fd (some f))
    opened := Function.update kernel.opened f (some bound)
    carries := Function.update kernel.carries f (some bound.reference)
    opening := Function.update kernel.opening p none
    handed := some f }

theorem bind
    {token : Nat}
    {fd : Descriptor}
    {f : FileSlot}
    {file : FileObject}
    {bound : Opening}
    (here : Opens p (some token) start kernel)
    (free : (kernel.file f).ref = 0)
    (notBusy : ∀ q, kernel.closing q ≠ some f)
    (unused : kernel.ofile p fd = none)
    (shows : file.Shows bound)
    (first : file.ref = 1)
    (reference : bound.reference = token)
    (ip : InodeIndex) :
    (FileKernel.onFs (FileSystem.iunlock ip)
        (boundState kernel p fd f file bound)).Keeps
      (discipline p) (Returned p) start := by
  have held : kernel.opening p = some bound.reference := by
    rw [here.opening, reference]
  have fits :=
    here.fits.bind here.alive here.closing unused free notBusy held shows
      first
  apply keeps_last
  · exact fits
  · exact here.alive
  · apply othersSame_of_others here.others
    intro q other
    simp only [processFiles, boundState, Function.update_of_ne other]
  · exact ⟨here.closing, Function.update_self ..⟩

theorem openFile
    {token : Nat}
    (here : Opens p (some token) start kernel)
    (ip : InodeIndex)
    (flags : Nat) :
    (FileKernel.openFile p ip flags kernel).Keeps (discipline p)
      (Returned p) start := by
  unfold FileKernel.openFile
  apply Outcome.Keeps.bind
  cases free : kernel.freeFile? with
  | none =>
      rw [filealloc_none free]
      apply here.dropOpening
      intro kernel here
      apply (lasting.keeps here).mono
      intro start _ kernel here
      exact here.returned
  | some f =>
      rw [filealloc_some free]
      apply Outcome.Keeps.bind
      cases room : kernel.freeDescriptor? p with
      | none =>
          have spoiled : Spoiled p start (kernel.handOut f) := by
            refine ⟨f, rfl, Or.inr ?_⟩
            intro fd
            rw [← here.table]
            exact freeDescriptor_full room fd
          have still : (kernel.handOut f).freeDescriptor? p = none :=
            room
          rw [fdalloc_none still]
          apply spoiled.fileclose
          intro kernel spoiled
          apply keeps_modify
          apply Spoiled.onFs
          · exact spoiled
          · intro _ kernel spoiled
            exact fun permitted => absurd permitted spoiled.not_permitted
      | some fd =>
          have still : (kernel.handOut f).freeDescriptor? p = some fd :=
            room
          rw [fdalloc_some still]
          apply keeps_step (fillFile_eq f ip flags)
          generalize
            startOffset flags
              (((kernel.handOut f).giveDescriptor p fd f).fs.inode ip) = off
          apply keeps_modify
          by_cases busy : ∃ q, start.closing q = some f
          · apply Spoiled.last
            exact ⟨f, rfl, Or.inl busy⟩
          · have notBusy : ∀ q, kernel.closing q ≠ some f := by
              intro q closing
              rw [here.closings] at closing
              exact busy ⟨q, closing⟩
            have shows :
                (filled { kernel.file f with ref := 1 } ip flags off).Shows {
                  reference := token
                  ip := ip
                  off := off
                  readable := !hasFlag flags O_WRONLY
                  writable := opensToWrite flags
                } :=
              ⟨rfl, rfl, rfl, rfl, rfl⟩
            have bound := here.bind (freeFile_free free) notBusy
              (Between.freeDescriptor_unused room) shows rfl rfl ip
            convert bound using 2
            simp only [handOut, giveDescriptor, boundState, openingOf,
              here.opening, filled, Function.update_self,
              Function.update_idem]

theorem sysOpen
    (here : Opens p none start kernel)
    (path : List UInt8)
    (flags : Nat) :
    (FileKernel.sysOpen p path flags kernel).Keeps (discipline p)
      (Returned p) start := by
  unfold FileKernel.sysOpen
  apply Outcome.Keeps.bind
  apply (here.openInode path flags).mono
  intro start found kernel ⟨reference, isHeld, here⟩
  cases found with
  | none =>
      cases reference with
      | none =>
          exact here.returned
      | some token =>
          cases isHeld
  | some ip =>
      cases reference with
      | none =>
          cases isHeld
      | some token =>
          apply lasting.onFs here
          intro inode start kernel here
          split
          · apply lasting.onFs here
            intro _ start kernel here
            exact here.openFile ip flags
          · exact here.openFile ip flags

end Opens

end FileKernel

end MyOS
