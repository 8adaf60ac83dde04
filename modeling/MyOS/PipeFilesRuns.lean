import MyOS.FileIdentity
import MyOS.PipeFilesBooks

namespace MyOS

open Lib
open Routine

/-!
# Runs of system calls on files and pipes

Every system call that returns keeps the books; what the file system does in a
call leaves them alone.  So they are right between the calls of every run.
-/

namespace PipeKernel

/-- The invariant between two system calls. -/
structure Books (kernel : PipeKernel) : Prop where
  counts :
    CountsFit kernel.files.file kernel.files.ofile kernel.files.alive
  ends : EndsFit kernel.files.file kernel.pipeOf kernel.pipes

/-- A panic ends a run. -/
def anyPanic (_ : PipeKernel) (_ : FsPanic) : Prop :=
  True

/-- Another file system under the same tables. -/
def withFs (kernel : PipeKernel) (fs : FileSystem) : PipeKernel :=
  { kernel with files := { kernel.files with fs := fs } }

variable {kernel : PipeKernel} {p : Slot} {fd : Descriptor} {f : FileSlot}

/-!
## Routines of the file layer
-/

theorem onFiles_done
    {Result : Type}
    {routine : FileRoutine Result}
    {files : FileKernel}
    {result : Result}
    (isDone : routine kernel.files = .done files result) :
    onFiles routine kernel = .done { kernel with files := files } result := by
  have unfolded :
      onFiles routine kernel =
        (routine kernel.files).within filesComponent kernel :=
    rfl
  rw [unfolded, isDone]
  rfl

theorem ends_onFiles
    {Result : Type}
    {routine : FileRoutine Result}
    {post : Result → FileKernel → Prop}
    (ends : (routine kernel.files).Ends (fun _ _ => True) post) :
    (onFiles routine kernel).Ends anyPanic
      (fun result later =>
        ∃ files, post result files ∧
          later = { kernel with files := files }) := by
  apply Outcome.Ends.within ends
  · intro _ _
    rfl
  · intro _ _ _
    exact True.intro

theorem ends_onFs
    {Result : Type}
    (routine : FsRoutine Result) :
    (onFiles (FileKernel.onFs routine) kernel).Ends anyPanic
      (fun _ later => ∃ fs, later = kernel.withFs fs) := by
  have alone :
      (FileKernel.onFs routine kernel.files).Ends (fun _ _ => True)
        (fun _ later => ∃ fs, True ∧ later = { kernel.files with fs := fs }) := by
    apply Outcome.Ends.within (Outcome.ends_trivially _)
    · intro _ _
      rfl
    · intro _ _ _
      exact True.intro
  apply (ends_onFiles alone).mono
  rintro _ later ⟨files, ⟨fs, _, isFiles⟩, isLater⟩
  refine ⟨fs, ?_⟩
  rw [isLater, isFiles]
  rfl

/-- The tables that the books look at are the same. -/
structure SameTables (files later : FileKernel) : Prop where
  file : later.file = files.file
  ofile : later.ofile = files.ofile
  alive : later.alive = files.alive

/-- A routine of the file layer that leaves the tables alone. -/
def Quiet {Result : Type} (routine : FileRoutine Result) : Prop :=
  ∀ files,
    (routine files).Ends (fun _ _ => True)
      (fun _ later => SameTables files later)

namespace Quiet

variable {Result Next : Type}

theorem pure (result : Result) :
    Quiet (Pure.pure result : FileRoutine Result) :=
  fun _ => ⟨rfl, rfl, rfl⟩

theorem bind
    {first : FileRoutine Result}
    {next : Result → FileRoutine Next}
    (quiet : Quiet first)
    (rest : ∀ result, Quiet (next result)) :
    Quiet (first >>= next) := by
  intro files
  apply ends_bind (quiet files)
  intro result later same
  apply (rest result later).mono
  intro _ final after
  exact ⟨after.file.trans same.file, after.ofile.trans same.ofile,
    after.alive.trans same.alive⟩

theorem get : Quiet (Routine.get : FileRoutine FileKernel) :=
  fun _ => ⟨rfl, rfl, rfl⟩

theorem onFs (routine : FsRoutine Result) :
    Quiet (FileKernel.onFs routine) := by
  intro files
  have alone :
      (FileKernel.onFs routine files).Ends (fun _ _ => True)
        (fun _ later => ∃ fs, True ∧ later = { files with fs := fs }) := by
    apply Outcome.Ends.within (Outcome.ends_trivially _)
    · intro _ _
      rfl
    · intro _ _ _
      exact True.intro
  apply alone.mono
  rintro _ later ⟨fs, _, isLater⟩
  rw [isLater]
  exact ⟨rfl, rfl, rfl⟩

theorem takeReference : Quiet (FileKernel.takeReference p) :=
  fun _ => ⟨rfl, rfl, rfl⟩

theorem dropOpening : Quiet (FileKernel.dropOpening p) :=
  fun _ => ⟨rfl, rfl, rfl⟩

theorem lockExisting (ip : InodeIndex) (flags : Nat) :
    Quiet (FileKernel.lockExisting p ip flags) := by
  apply bind (onFs _)
  intro _
  apply bind (onFs _)
  intro inode
  split
  · apply bind dropOpening
    intro _
    apply bind (onFs _)
    intro _
    exact pure _
  · exact pure _

theorem createFile (dp : InodeIndex) (name : List UInt8) :
    Quiet (FileKernel.createFile p dp name) := by
  apply bind (onFs _)
  intro parent
  apply bind (onFs _)
  intro ip
  apply bind takeReference
  intro _
  apply bind (onFs _)
  intro _
  apply bind (onFs _)
  intro _
  apply bind (onFs _)
  intro _
  apply bind (onFs _)
  intro inode
  apply bind (onFs _)
  intro linked
  split
  · apply bind dropOpening
    intro _
    apply bind (onFs _)
    intro _
    apply bind (onFs _)
    intro _
    exact pure _
  · apply bind (onFs _)
    intro _
    exact pure _

theorem openInode (path : List UInt8) (flags : Nat) :
    Quiet (FileKernel.openInode p path flags) := by
  apply bind get
  intro kernel
  split
  · apply bind (onFs _)
    intro parent
    cases parent with
    | none =>
        exact pure _
    | some found =>
        obtain ⟨dp, name⟩ := found
        apply bind (onFs _)
        intro _
        apply bind (onFs _)
        intro entry
        cases entry with
        | none =>
            exact createFile dp name
        | some existing =>
            obtain ⟨ip, off⟩ := existing
            apply bind takeReference
            intro _
            apply bind (onFs _)
            intro _
            split
            · apply bind dropOpening
              intro _
              apply bind (onFs _)
              intro _
              exact pure _
            · exact lockExisting ip flags
  · apply bind (onFs _)
    intro found
    cases found with
    | none =>
        exact pure _
    | some ip =>
        apply bind takeReference
        intro _
        exact lockExisting ip flags

theorem leaveFiles : Quiet (FileKernel.leaveFiles p) := by
  apply bind get
  intro kernel
  cases kernel.cwd p with
  | none =>
      exact pure _
  | some ip =>
      apply bind (onFs _)
      intro _ _
      exact ⟨rfl, rfl, rfl⟩

end Quiet

theorem Books.quiet
    {Result : Type}
    {routine : FileRoutine Result}
    (books : Books kernel)
    (quiet : Quiet routine) :
    (onFiles routine kernel).Ends anyPanic
      (fun _ later =>
        Books later ∧ SameTables kernel.files later.files ∧
          later.pipeOf = kernel.pipeOf ∧ later.pipes = kernel.pipes) := by
  apply (ends_onFiles (quiet kernel.files)).mono
  rintro _ later ⟨files, same, isLater⟩
  rw [isLater]
  refine ⟨⟨?_, ?_⟩, same, rfl, rfl⟩
  · dsimp only
    rw [same.file, same.ofile, same.alive]
    exact books.counts
  · dsimp only
    rw [same.file]
    exact books.ends

/-!
## Closing a file
-/

/-- What `fileclose` has done to the tables. -/
structure Closed (f : FileSlot) (kernel later : PipeKernel) : Prop where
  ref : (later.files.file f).ref = (kernel.files.file f).ref - 1
  others :
    ∀ g, g ≠ f → (later.files.file g).ref = (kernel.files.file g).ref
  ofile : later.files.ofile = kernel.files.ofile
  alive : later.files.alive = kernel.files.alive
  ends : EndsFit later.files.file later.pipeOf later.pipes

/-- The state after a file has been changed. -/
def withFile
    (kernel : PipeKernel)
    (f : FileSlot)
    (object : FileObject) : PipeKernel :=
  { kernel with
    files :=
      { kernel.files with
        file := Function.update kernel.files.file f object } }

/-- The file of a slot that `fileclose` has cleared. -/
def cleared (object : FileObject) : FileObject :=
  { object with type := .none, ip := none, off := 0 }

/-- A file after its last reference has gone. -/
def unreferenced (object : FileObject) : FileObject :=
  { object with ref := object.ref - 1 }

theorem Closed.of_file
    {later : PipeKernel}
    {object : FileObject}
    (file :
      later.files.file = Function.update kernel.files.file f object)
    (ref : object.ref = (kernel.files.file f).ref - 1)
    (ofile : later.files.ofile = kernel.files.ofile)
    (alive : later.files.alive = kernel.files.alive)
    (ends :
      EndsFit (Function.update kernel.files.file f object) later.pipeOf
        later.pipes) :
    Closed f kernel later where
  ref := by
    rw [file, Function.update_self]
    exact ref
  others := by
    intro g different
    rw [file, Function.update_of_ne different]
  ofile := ofile
  alive := alive
  ends := by
    rw [file]
    exact ends

/-- What `fileclose` has done before it clears the slot. -/
structure ClosedEnd (f : FileSlot) (kernel later : PipeKernel) : Prop where
  file :
    later.files.file =
      Function.update kernel.files.file f
        (unreferenced (kernel.files.file f))
  ofile : later.files.ofile = kernel.files.ofile
  alive : later.files.alive = kernel.files.alive
  ends :
    EndsFit
      (Function.update kernel.files.file f
        (cleared (unreferenced (kernel.files.file f))))
      later.pipeOf later.pipes

theorem ClosedEnd.clear
    {later : PipeKernel}
    (closed : ClosedEnd f kernel later) :
    (onFiles (FileKernel.setFile f cleared) later).Ends anyPanic
      (fun _ final => Closed f kernel final) := by
  have same :
      Function.update later.files.file f (cleared (later.files.file f)) =
        Function.update kernel.files.file f
          (cleared (unreferenced (kernel.files.file f))) := by
    rw [closed.file, Function.update_self, Function.update_idem]
  have isDone :
      onFiles (FileKernel.setFile f cleared) later =
        .done (later.withFile f (cleared (later.files.file f))) () :=
    rfl
  rw [isDone]
  exact Closed.of_file same rfl closed.ofile closed.alive closed.ends

theorem followIp_ends :
    (onFiles (FileKernel.followIp f) kernel).Ends anyPanic
      (fun _ later => later = kernel) := by
  have follows :
      (FileKernel.followIp f kernel.files).Ends (fun _ _ => True)
        (fun _ later => later = kernel.files) := by
    unfold FileKernel.followIp
    apply ends_gets
    cases (kernel.files.file f).ip with
    | none =>
        exact True.intro
    | some ip =>
        rfl
  apply (ends_onFiles follows).mono
  rintro _ later ⟨files, isFiles, isLater⟩
  rw [isLater, isFiles]

theorem closeLast_ends
    (ends : EndsFit kernel.files.file kernel.pipeOf kernel.pipes)
    (last : (kernel.files.file f).ref - 1 = 0) :
    (closeLast f (kernel.files.file f)
      (kernel.withFile f (unreferenced (kernel.files.file f)))).Ends anyPanic
      (fun _ later => ClosedEnd f kernel later) := by
  have positive : 0 < (kernel.files.file f).ref := by
    omega
  have emptied :
      (kernel.files.file f).type ≠ .pipe →
        EndsFit
          (Function.update kernel.files.file f
            (cleared (unreferenced (kernel.files.file f))))
          kernel.pipeOf kernel.pipes :=
    fun notPipe =>
      ends.replace notPipe FileType.noConfusion (fun _ => rfl)
  unfold closeLast
  split
  next isInode =>
    have notPipe : (kernel.files.file f).type ≠ .pipe := by
      rw [isInode]
      decide
    have follows :
        (onFiles (FileKernel.followIp f)
          (kernel.withFile f (unreferenced (kernel.files.file f)))).Ends
            anyPanic
            (fun _ later =>
              later =
                kernel.withFile f (unreferenced (kernel.files.file f))) :=
      followIp_ends
    apply ends_bind follows
    intro inode later isLater
    rw [isLater]
    apply (ends_onFs _).mono
    rintro _ final ⟨fs, isFinal⟩
    rw [isFinal]
    exact ⟨rfl, rfl, rfl, emptied notPipe⟩
  next notInode =>
    split
    next isPipe =>
      apply ends_get
      have read :
          (kernel.withFile f
            (unreferenced (kernel.files.file f))).pipeOf f =
            kernel.pipeOf f :=
        rfl
      rw [read]
      cases page : kernel.pipeOf f with
      | none =>
          exact True.intro
      | some pi =>
          refine ⟨rfl, rfl, rfl, ?_⟩
          have isEnd :
              IsEnd kernel.files.file kernel.pipeOf f pi
                (kernel.files.file f).writable :=
            ⟨positive, isPipe, page, rfl⟩
          exact ends.close isEnd rfl
    next notPipe =>
      exact ⟨rfl, rfl, rfl, emptied notPipe⟩

theorem fileclose_ends
    (ends : EndsFit kernel.files.file kernel.pipeOf kernel.pipes) :
    (fileclose f kernel).Ends anyPanic
      (fun _ later => Closed f kernel later) := by
  have reads :
      onFiles (FileKernel.fileAt f) kernel =
        .done kernel (kernel.files.file f) :=
    rfl
  have drops :
      onFiles (FileKernel.setFile f unreferenced) kernel =
        .done
          (kernel.withFile f (unreferenced (kernel.files.file f))) () :=
    rfl
  unfold fileclose
  apply ends_done reads
  split
  · exact True.intro
  next positive =>
    apply ends_done drops
    split
    next last =>
      apply ends_bind (closeLast_ends ends last)
      intro _ later closed
      exact closed.clear
    next more =>
      have recounted :
          EndsFit
            (Function.update kernel.files.file f
              (unreferenced (kernel.files.file f)))
            kernel.pipeOf kernel.pipes := by
        apply ends.recount
        · omega
        · omega
      exact Closed.of_file rfl rfl rfl rfl recounted

/-!
## Calls on descriptors
-/

/-- The state after a descriptor has been changed. -/
def withOfile
    (kernel : PipeKernel)
    (p : Slot)
    (fd : Descriptor)
    (value : Option FileSlot) : PipeKernel :=
  { kernel with
    files :=
      { kernel.files with
        ofile :=
          Function.update kernel.files.ofile p
            (Function.update (kernel.files.ofile p) fd value) } }

theorem setOfile_done
    {value : Option FileSlot} :
    onFiles (FileKernel.setOfile p fd value) kernel =
      .done (kernel.withOfile p fd value) () :=
  rfl

theorem Books.closed
    {later : PipeKernel}
    (books : Books kernel)
    (refers : kernel.files.ofile p fd = some f)
    (closed : Closed f kernel later) :
    Books (later.withOfile p fd none) where
  counts := by
    have counts := books.counts.detach refers closed.ref closed.others
    have ofile :
        (later.withOfile p fd none).files.ofile =
          Function.update kernel.files.ofile p
            (Function.update (kernel.files.ofile p) fd none) := by
      unfold withOfile
      rw [closed.ofile]
    have alive :
        (later.withOfile p fd none).files.alive = kernel.files.alive :=
      closed.alive
    rw [ofile, alive]
    exact counts
  ends := closed.ends

theorem Books.closed_after
    {later : PipeKernel}
    (books : Books kernel)
    (refers : kernel.files.ofile p fd = some f)
    (closed : Closed f (kernel.withOfile p fd none) later) :
    Books later where
  counts := by
    have counts := books.counts.detach refers closed.ref closed.others
    rw [closed.ofile, closed.alive]
    exact counts
  ends := closed.ends

theorem Books.share
    {q : Slot}
    {old : Descriptor}
    (books : Books kernel)
    (isAlive : kernel.files.alive p = true)
    (refers : kernel.files.ofile q old = some f)
    (unused : kernel.files.ofile p fd = none) :
    Books
      ((kernel.withOfile p fd (some f)).withFile f
        { kernel.files.file f with ref := (kernel.files.file f).ref + 1 }) where
  counts := by
    apply books.counts.attach isAlive unused
    · dsimp only [withFile, withOfile]
      rw [Function.update_self]
    · intro g different
      dsimp only [withFile, withOfile]
      rw [Function.update_of_ne different]
  ends := by
    have positive := books.counts.ref_pos refers
    apply books.ends.recount positive
    omega

theorem keeps_onFiles
    {Result : Type}
    {routine : FileRoutine Result}
    (keeps :
      (routine kernel.files).Ends (fun _ _ => True)
        (fun _ files => Books { kernel with files := files })) :
    (onFiles routine kernel).Ends anyPanic (fun _ later => Books later) := by
  apply (ends_onFiles keeps).mono
  rintro _ later ⟨files, books, isLater⟩
  rw [isLater]
  exact books

theorem sysDup_ends
    (books : Books kernel)
    (isAlive : kernel.files.alive p = true)
    (number : Int) :
    (onFiles (FileKernel.sysDup p number) kernel).Ends anyPanic
      (fun _ later => Books later) := by
  apply keeps_onFiles
  unfold FileKernel.sysDup
  apply ends_get
  cases found : kernel.files.argfd p number with
  | none =>
      exact books
  | some entry =>
      obtain ⟨old, f⟩ := entry
      cases free : kernel.files.freeDescriptor? p with
      | none =>
          exact books
      | some fd =>
          exact books.share isAlive (FileKernel.argfd_eq found)
            (FileKernel.Between.freeDescriptor_unused free)

theorem fcntlDupfd_ends
    (books : Books kernel)
    (isAlive : kernel.files.alive p = true)
    (number arg : Int) :
    (onFiles (FileKernel.fcntlDupfd p number arg) kernel).Ends anyPanic
      (fun _ later => Books later) := by
  apply keeps_onFiles
  unfold FileKernel.fcntlDupfd
  apply ends_get
  cases found : kernel.files.argfd p number with
  | none =>
      exact books
  | some entry =>
      obtain ⟨old, f⟩ := entry
      dsimp only
      cases free : descriptors.find? fun (newfd : Descriptor) =>
          decide (arg ≤ newfd.val) && kernel.files.ofile p newfd == none with
      | none =>
          exact books
      | some newfd =>
          dsimp only
          split
          · have unused := List.find?_some free
            rw [Bool.and_eq_true] at unused
            exact books.share isAlive (FileKernel.argfd_eq found)
              (eq_of_beq unused.2)
          · exact books

theorem sysClose_ends
    (books : Books kernel)
    (number : Int) :
    (sysClose p number kernel).Ends anyPanic (fun _ later => Books later) := by
  unfold sysClose
  apply ends_get
  cases found : kernel.files.argfd p number with
  | none =>
      exact books
  | some entry =>
      obtain ⟨fd, f⟩ := entry
      apply ends_done setOfile_done
      have ends :
          EndsFit (kernel.withOfile p fd none).files.file kernel.pipeOf
            kernel.pipes :=
        books.ends
      apply (fileclose_ends ends).mono
      intro _ later closed
      exact books.closed_after (FileKernel.argfd_eq found) closed

theorem sysDup2_ends
    (books : Books kernel)
    (isAlive : kernel.files.alive p = true)
    (oldNumber newNumber : Int) :
    (sysDup2 p oldNumber newNumber kernel).Ends anyPanic
      (fun _ later => Books later) := by
  unfold sysDup2
  apply ends_get
  cases found : kernel.files.argfd p oldNumber with
  | none =>
      exact books
  | some entry =>
      obtain ⟨old, f⟩ := entry
      have refers := FileKernel.argfd_eq found
      dsimp only
      split
      next inRange =>
        split
        · exact books
        next different =>
          cases isOpen : kernel.files.ofile p ⟨newNumber.toNat, inRange.1⟩ with
          | none =>
              exact books.share isAlive refers isOpen
          | some g =>
              apply ends_bind (fileclose_ends books.ends)
              intro _ later closed
              apply ends_done setOfile_done
              apply (books.closed isOpen closed).share
              · exact (congrFun closed.alive p).trans isAlive
              · have still :
                    (later.withOfile p ⟨newNumber.toNat, inRange.1⟩
                      none).files.ofile p old = later.files.ofile p old := by
                  dsimp only [withOfile]
                  rw [Function.update_self, Function.update_of_ne different]
                rw [still, closed.ofile]
                exact refers
              · dsimp only [withOfile]
                rw [Function.update_self, Function.update_self]
      · exact books

/-!
## `fork`, `exit` and `exec`
-/

theorem forkFile_ends
    {child : Slot}
    (books : Books kernel)
    (isAlive : kernel.files.alive child = true)
    (unused : kernel.files.ofile child fd = none) :
    (FileKernel.forkFile p child fd kernel.files).Ends (fun _ _ => True)
      (fun _ files =>
        Books { kernel with files := files } ∧
          files.alive = kernel.files.alive ∧
          ∀ d, d ≠ fd → files.ofile child d = kernel.files.ofile child d) := by
  unfold FileKernel.forkFile
  apply ends_get
  cases isOpen : kernel.files.ofile p fd with
  | none =>
      exact ⟨books, rfl, fun _ _ => rfl⟩
  | some f =>
      refine ⟨books.share isAlive isOpen unused, rfl, ?_⟩
      intro d different
      dsimp only [withFile, withOfile]
      rw [Function.update_self, Function.update_of_ne different]

theorem forkLoop_ends
    {child : Slot}
    (books : Books kernel)
    (isAlive : kernel.files.alive child = true)
    {fds : List Descriptor}
    (distinct : fds.Nodup)
    (unused : ∀ fd ∈ fds, kernel.files.ofile child fd = none) :
    (Routine.forEach (FileKernel.forkFile p child) fds kernel.files).Ends
      (fun _ _ => True)
      (fun _ files => Books { kernel with files := files }) := by
  induction fds generalizing kernel with
  | nil =>
      exact books
  | cons fd fds inductionHypothesis =>
      obtain ⟨notLater, distinct⟩ := List.nodup_cons.mp distinct
      apply ends_bind
        (forkFile_ends books isAlive (unused fd List.mem_cons_self))
      intro _ files ⟨after, alive, others⟩
      apply inductionHypothesis after
      · rw [alive]
        exact isAlive
      · exact distinct
      · intro d member
        have different : d ≠ fd := by
          intro same
          rw [same] at member
          exact notLater member
        rw [others d different]
        exact unused d (List.mem_cons_of_mem fd member)

theorem sysFork_ends
    {child : Slot}
    (books : Books kernel)
    (isFree : kernel.files.alive child = false) :
    (onFiles (FileKernel.sysFork p child) kernel).Ends anyPanic
      (fun _ later => Books later) := by
  apply keeps_onFiles
  unfold FileKernel.sysFork
  apply ends_modify
  have started :
      Books { kernel with
        files :=
          { kernel.files with
            alive := Function.update kernel.files.alive child true } } :=
    ⟨books.counts.start child, books.ends⟩
  unfold FileKernel.forkFiles
  apply ends_bind
    (forkLoop_ends started (Function.update_self ..)
      (List.nodup_finRange NOFILE)
      (fun fd _ => books.counts.dead isFree fd))
  intro _ files after
  apply ends_get
  cases files.cwd p with
  | none =>
      exact after
  | some ip =>
      apply ends_bind (Quiet.onFs (FileSystem.idup ip) files)
      intro _ later same
      constructor
      · dsimp only
        rw [same.file, same.ofile, same.alive]
        exact after.counts
      · dsimp only
        rw [same.file]
        exact after.ends

theorem exitFile_ends
    (books : Books kernel) :
    (exitFile p fd kernel).Ends anyPanic
      (fun _ later =>
        Books later ∧ later.files.ofile p fd = none ∧
          ∀ d, kernel.files.ofile p d = none →
            later.files.ofile p d = none) := by
  unfold exitFile
  apply ends_get
  cases isOpen : kernel.files.ofile p fd with
  | none =>
      exact ⟨books, isOpen, fun _ unused => unused⟩
  | some f =>
      apply ends_bind (fileclose_ends books.ends)
      intro _ later closed
      rw [setOfile_done]
      refine ⟨books.closed isOpen closed, ?_, ?_⟩
      · dsimp only [withOfile]
        rw [Function.update_self, Function.update_self]
      · intro d unused
        dsimp only [withOfile]
        rw [Function.update_self, closed.ofile]
        by_cases same : d = fd
        · rw [same, Function.update_self]
        · rw [Function.update_of_ne same]
          exact unused

theorem exitLoop_ends
    (books : Books kernel)
    (fds : List Descriptor) :
    (Routine.forEach (exitFile p) fds kernel).Ends anyPanic
      (fun _ later =>
        Books later ∧ (∀ fd ∈ fds, later.files.ofile p fd = none) ∧
          ∀ d, kernel.files.ofile p d = none →
            later.files.ofile p d = none) := by
  induction fds generalizing kernel with
  | nil =>
      exact ⟨books, fun _ member => absurd member List.not_mem_nil,
        fun _ unused => unused⟩
  | cons fd fds inductionHypothesis =>
      apply ends_bind (exitFile_ends books)
      intro _ middle ⟨after, closed, stay⟩
      apply (inductionHypothesis after).mono
      intro _ later ⟨final, rest, remain⟩
      refine ⟨final, ?_, fun d unused => remain d (stay d unused)⟩
      intro d member
      rcases List.mem_cons.mp member with same | member
      · rw [same]
        exact remain fd closed
      · exact rest d member

theorem procExit_ends
    (books : Books kernel) :
    (procExit p kernel).Ends anyPanic (fun _ later => Books later) := by
  unfold procExit
  apply ends_bind (exitLoop_ends books descriptors)
  intro _ emptied ⟨books, closed, _⟩
  apply ends_bind (books.quiet Quiet.leaveFiles)
  intro _ left ⟨books, same, _, _⟩
  have none : ∀ fd, left.files.ofile p fd = none := by
    intro fd
    rw [same.ofile]
    exact closed fd (List.mem_finRange fd)
  exact ⟨books.counts.leave none, books.ends⟩

/-!
## `open` and `pipe`
-/

/-- The state behind `filealloc`. -/
def handOut (kernel : PipeKernel) (f : FileSlot) : PipeKernel :=
  { kernel with files := kernel.files.handOut f }

theorem filealloc_done
    (free : kernel.files.freeFile? = some f) :
    onFiles FileKernel.filealloc kernel =
      .done (kernel.handOut f) (some f) :=
  onFiles_done (FileKernel.filealloc_some free)

theorem fdalloc_done
    (room : kernel.files.freeDescriptor? p = some fd) :
    onFiles (FileKernel.fdalloc p f) kernel =
      .done (kernel.withOfile p fd (some f)) (some fd) :=
  onFiles_done (FileKernel.fdalloc_some room)

theorem fdalloc_full
    (full : kernel.files.freeDescriptor? p = none) :
    onFiles (FileKernel.fdalloc p f) kernel = .done kernel none :=
  onFiles_done (FileKernel.fdalloc_none full)

theorem Books.opened
    {object : FileObject}
    (books : Books kernel)
    (isAlive : kernel.files.alive p = true)
    (isFree : (kernel.files.file f).ref = 0)
    (unused : kernel.files.ofile p fd = none)
    (first : object.ref = 1)
    (notPipe : object.type ≠ .pipe) :
    Books ((kernel.withOfile p fd (some f)).withFile f object) where
  counts := by
    apply books.counts.attach isAlive unused
    · dsimp only [withFile, withOfile]
      rw [Function.update_self, first, isFree]
      rfl
    · intro g different
      dsimp only [withFile, withOfile]
      rw [Function.update_of_ne different]
  ends := by
    apply books.ends.replace (books.ends.not_pipe isFree) notPipe
    intro isZero
    rw [first] at isZero
    cases isZero

/-- The state in which `sys_open` has filled a file in. -/
def filled
    (kernel : PipeKernel)
    (f : FileSlot)
    (ip : InodeIndex)
    (flags off : Nat) : PipeKernel :=
  kernel.withFile f
    (FileKernel.filled (kernel.files.file f) ip flags off)

theorem Books.filled
    (books : Books kernel)
    (isAlive : kernel.files.alive p = true)
    (isFree : (kernel.files.file f).ref = 0)
    (unused : kernel.files.ofile p fd = none)
    (ip : InodeIndex)
    (flags off : Nat) :
    Books
      (((kernel.handOut f).withOfile p fd (some f)).filled f ip flags off) := by
  have first :
      (FileKernel.filled ((kernel.files.handOut f).file f) ip flags
        off).ref = 1 := by
    dsimp only [FileKernel.filled, FileKernel.handOut]
    rw [Function.update_self]
  have opened := books.opened isAlive isFree unused first FileType.noConfusion
  have file :
      (((kernel.handOut f).withOfile p fd (some f)).filled f ip flags
          off).files.file =
        Function.update kernel.files.file f
          (FileKernel.filled ((kernel.files.handOut f).file f) ip flags off) :=
    Function.update_idem ..
  constructor
  · rw [file]
    exact opened.counts
  · rw [file]
    exact opened.ends

theorem Books.handedOut
    (books : Books kernel)
    (isFree : (kernel.files.file f).ref = 0) :
    EndsFit (kernel.handOut f).files.file (kernel.handOut f).pipeOf
      (kernel.handOut f).pipes := by
  apply books.ends.replace (books.ends.not_pipe isFree)
  · exact books.ends.not_pipe isFree
  · intro isZero
    cases isZero

theorem Books.handedBack
    {later : PipeKernel}
    (books : Books kernel)
    (isFree : (kernel.files.file f).ref = 0)
    (closed : Closed f (kernel.handOut f) later) :
    Books later := by
  have refs :
      ∀ g, (later.files.file g).ref = (kernel.files.file g).ref := by
    intro g
    by_cases same : g = f
    · rw [same, closed.ref, isFree]
      dsimp only [handOut, FileKernel.handOut]
      rw [Function.update_self]
      rfl
    · rw [closed.others g same]
      dsimp only [handOut, FileKernel.handOut]
      rw [Function.update_of_ne same]
  have counts := books.counts.of_refs refs
  refine ⟨?_, closed.ends⟩
  rw [closed.ofile, closed.alive]
  exact counts

theorem openFile_ends
    (books : Books kernel)
    (isAlive : kernel.files.alive p = true)
    (ip : InodeIndex)
    (flags : Nat) :
    (openFile p ip flags kernel).Ends anyPanic
      (fun _ later => Books later) := by
  unfold openFile
  cases free : kernel.files.freeFile? with
  | none =>
      apply ends_done (onFiles_done (FileKernel.filealloc_none free))
      apply (books.quiet (Quiet.onFs _)).mono
      intro _ later after
      exact after.1
  | some f =>
      have isFree := FileKernel.freeFile_free free
      apply ends_done (filealloc_done free)
      dsimp only
      cases room : (kernel.handOut f).files.freeDescriptor? p with
      | none =>
          apply ends_done (fdalloc_full room)
          apply ends_bind (fileclose_ends (books.handedOut isFree))
          intro _ later closed
          have after := books.handedBack isFree closed
          apply (after.quiet (Quiet.onFs _)).mono
          intro _ final final
          exact final.1
      | some fd =>
          apply ends_done (fdalloc_done room)
          apply ends_done (onFiles_done (FileKernel.fillFile_eq f ip flags))
          have unused : kernel.files.ofile p fd = none :=
            FileKernel.Between.freeDescriptor_unused room
          apply
            ((books.filled isAlive isFree unused ip flags _).quiet
              (Quiet.onFs _)).mono
          intro _ final final
          exact final.1

theorem Books.quiet_then
    {Result Next : Type}
    {routine : FileRoutine Result}
    {next : Result → PipeRoutine Next}
    {post : Next → PipeKernel → Prop}
    (books : Books kernel)
    (isAlive : kernel.files.alive p = true)
    (quiet : Quiet routine)
    (rest :
      ∀ result {later : PipeKernel}, Books later →
        later.files.alive p = true →
          (next result later).Ends anyPanic post) :
    ((onFiles routine >>= next) kernel).Ends anyPanic post := by
  apply ends_bind (books.quiet quiet)
  intro result later ⟨after, same, _, _⟩
  apply rest result after
  rw [same.alive]
  exact isAlive

seal FileSystem.itrunc in
theorem sysOpen_ends
    (books : Books kernel)
    (isAlive : kernel.files.alive p = true)
    (path : List UInt8)
    (flags : Nat) :
    (sysOpen p path flags kernel).Ends anyPanic
      (fun _ later => Books later) := by
  unfold sysOpen
  apply books.quiet_then isAlive (Quiet.openInode path flags)
  intro found kernel books isAlive
  cases found with
  | none =>
      exact books
  | some ip =>
      apply books.quiet_then isAlive (Quiet.onFs (FileSystem.inodeAt ip))
      intro inode kernel books isAlive
      split
      · apply books.quiet_then isAlive (Quiet.onFs (FileSystem.itrunc ip))
        intro _ kernel books isAlive
        exact openFile_ends books isAlive ip flags
      · exact openFile_ends books isAlive ip flags

/-- The state in which `sys_pipe` has filled a file in. -/
def pipeFilled
    (kernel : PipeKernel)
    (f : FileSlot)
    (page : Nat)
    (writable : Bool) : PipeKernel :=
  { kernel.withFile f
      { kernel.files.file f with
        type := .pipe
        readable := !writable
        writable := writable } with
    pipeOf := Function.update kernel.pipeOf f (some page) }

theorem fillPipe_done
    (page : Nat)
    (writable : Bool) :
    fillPipe f page writable kernel =
      .done (kernel.pipeFilled f page writable) () :=
  rfl

/-- The state in which `sys_pipe` has made the pipe. -/
def withPipe (kernel : PipeKernel) (page : Nat) : PipeKernel :=
  { kernel with
    pipes :=
      Function.update kernel.pipes page
        (some { readopen := true, writeopen := true }) }

/-- A file that `sys_pipe` has filled in. -/
def pipeObject (object : FileObject) (writable : Bool) : FileObject :=
  { object with
    type := .pipe
    ref := 1
    readable := !writable
    writable := writable }

/-- The state in which `sys_pipe` has filled both files in. -/
def piped
    (kernel : PipeKernel)
    (page : Nat)
    (rf wf : FileSlot) : PipeKernel :=
  ((((kernel.withPipe page).handOut rf).handOut wf).pipeFilled rf page
    false).pipeFilled wf page true

theorem piped_file
    {rf wf : FileSlot}
    (page : Nat)
    (different : wf ≠ rf) :
    (kernel.piped page rf wf).files.file =
      Function.update
        (Function.update kernel.files.file rf
          (pipeObject (kernel.files.file rf) false))
        wf (pipeObject (kernel.files.file wf) true) := by
  funext g
  by_cases isWf : g = wf
  · subst isWf
    simp [piped, pipeFilled, withFile, withPipe, handOut, FileKernel.handOut,
      pipeObject, different]
  · by_cases isRf : g = rf
    · subst isRf
      simp [piped, pipeFilled, withFile, withPipe, handOut,
        FileKernel.handOut, pipeObject, isWf]
    · simp [piped, pipeFilled, withFile, withPipe, handOut,
        FileKernel.handOut, isWf, isRf]

theorem Books.piped
    {page : Nat}
    {rf wf : FileSlot}
    {rfd wfd : Descriptor}
    (books : Books kernel)
    (isAlive : kernel.files.alive p = true)
    (isFree : kernel.pipes page = none)
    (freeReader : (kernel.files.file rf).ref = 0)
    (freeWriter : (kernel.files.file wf).ref = 0)
    (different : wf ≠ rf)
    (unusedReader : kernel.files.ofile p rfd = none)
    (unusedWriter :
      ((kernel.piped page rf wf).withOfile p rfd
        (some rf)).files.ofile p wfd = none) :
    Books
      (((kernel.piped page rf wf).withOfile p rfd (some rf)).withOfile p wfd
        (some wf)) where
  counts := by
    have reader :
        CountsFit
          (Function.update kernel.files.file rf
            (pipeObject (kernel.files.file rf) false))
          (Function.update kernel.files.ofile p
            (Function.update (kernel.files.ofile p) rfd (some rf)))
          kernel.files.alive := by
      apply books.counts.attach isAlive unusedReader
      · rw [Function.update_self, freeReader]
        rfl
      · intro g other
        rw [Function.update_of_ne other]
    dsimp only [withOfile]
    rw [piped_file page different]
    apply reader.attach isAlive unusedWriter
    · rw [Function.update_self, Function.update_of_ne different, freeWriter]
      rfl
    · intro g other
      rw [Function.update_of_ne other]
  ends := by
    dsimp only [withOfile]
    rw [piped_file page different]
    exact books.ends.create freeReader freeWriter different isFree
      ⟨Int.one_pos, rfl, rfl⟩ ⟨Int.one_pos, rfl, rfl⟩

theorem sysPipe_ends
    {page : Nat}
    (books : Books kernel)
    (isAlive : kernel.files.alive p = true)
    (isFree : kernel.pipes page = none) :
    (sysPipe p page kernel).Ends anyPanic
      (fun succeeded later => succeeded = true → Books later) := by
  unfold sysPipe
  have makes :
      (Routine.modify fun kernel =>
          { kernel with
            pipes :=
              Function.update kernel.pipes page
                (some { readopen := true, writeopen := true }) } :
          PipeRoutine Unit) kernel =
        .done (kernel.withPipe page) () :=
    rfl
  apply ends_done makes
  cases first : (kernel.withPipe page).files.freeFile? with
  | none =>
      apply ends_done (onFiles_done (FileKernel.filealloc_none first))
      exact Bool.noConfusion
  | some rf =>
      have freeReader : (kernel.files.file rf).ref = 0 :=
        FileKernel.freeFile_free first
      apply ends_done (filealloc_done first)
      dsimp only
      cases second :
          ((kernel.withPipe page).handOut rf).files.freeFile? with
      | none =>
          apply ends_done (onFiles_done (FileKernel.filealloc_none second))
          exact Bool.noConfusion
      | some wf =>
          obtain ⟨different, freeWriter⟩ :
              wf ≠ rf ∧ (kernel.files.file wf).ref = 0 := by
            have isZero := FileKernel.freeFile_free second
            dsimp only [handOut, FileKernel.handOut] at isZero
            by_cases same : wf = rf
            · rw [same, Function.update_self] at isZero
              cases isZero
            · rw [Function.update_of_ne same] at isZero
              exact ⟨same, isZero⟩
          apply ends_done (filealloc_done second)
          dsimp only
          apply ends_done (fillPipe_done page false)
          apply ends_done (fillPipe_done page true)
          cases room : (kernel.piped page rf wf).files.freeDescriptor? p with
          | none =>
              apply ends_done (fdalloc_full room)
              exact Bool.noConfusion
          | some rfd =>
              apply ends_done (fdalloc_done room)
              dsimp only
              cases last :
                  ((kernel.piped page rf wf).withOfile p rfd
                    (some rf)).files.freeDescriptor? p with
              | none =>
                  apply ends_done (fdalloc_full last)
                  exact Bool.noConfusion
              | some wfd =>
                  apply ends_done (fdalloc_done last)
                  intro _
                  exact books.piped isAlive isFree freeReader freeWriter
                    different
                    (FileKernel.Between.freeDescriptor_unused room)
                    (FileKernel.Between.freeDescriptor_unused last)

/-!
## Runs
-/

theorem Books.step
    {later : PipeKernel}
    {action : Slot × PipeCall}
    (books : Books kernel)
    (step : Step kernel action later) :
    Books later := by
  obtain ⟨p, call⟩ := action
  have ends :
      kernel.files.alive p = true → call.admitted kernel = true →
        (call.routine p kernel).Ends anyPanic
          (fun succeeded later => succeeded = true → Books later) := by
    intro isAlive admitted
    cases call with
    | «open» path flags =>
        apply ends_bind (sysOpen_ends books isAlive path flags)
        exact fun _ _ after _ => after
    | pipe page =>
        exact sysPipe_ends books isAlive (eq_of_beq admitted)
    | dup number =>
        apply ends_bind (sysDup_ends books isAlive number)
        exact fun _ _ after _ => after
    | dup2 oldNumber newNumber =>
        apply ends_bind (sysDup2_ends books isAlive oldNumber newNumber)
        exact fun _ _ after _ => after
    | dupfd number arg =>
        apply ends_bind (fcntlDupfd_ends books isAlive number arg)
        exact fun _ _ after _ => after
    | close number =>
        apply ends_bind (sysClose_ends books number)
        exact fun _ _ after _ => after
    | fork child =>
        cases child with
        | none =>
            exact fun _ => books
        | some child =>
            have isFree : kernel.files.alive child = false := by
              simpa [PipeCall.admitted] using admitted
            apply ends_bind (sysFork_ends books isFree)
            exact fun _ _ after _ => after
    | exec path reads =>
        apply ends_get
        apply ends_bind (books.quiet (Quiet.onFs _))
        exact fun _ _ after _ => after.1
    | exit =>
        apply ends_bind (procExit_ends books)
        exact fun _ _ after _ => after
  unfold Step step? at step
  split at step
  next admitted =>
    rw [Bool.and_eq_true] at admitted
    split at step
    next after finish =>
      cases step
      exact (ends admitted.1 admitted.2).ok finish rfl
    · cases step
    · cases step
  · cases step

theorem bootFile_ref (f : FileSlot) :
    (bootFile f).ref = if f.val < 3 then 1 else 0 := by
  unfold bootFile
  split
  next isZero =>
    rw [if_pos (by omega)]
    rfl
  · split
    · rfl
    · rfl

theorem bootOfile_iff
    (entry : Slot × Descriptor)
    (f : FileSlot) :
    bootOfile entry.1 entry.2 = some f ↔
      entry.1.val = 0 ∧ entry.2.val < 3 ∧ entry.2.val = f.val := by
  unfold bootOfile
  split
  next isConsole =>
    rw [Option.some.injEq, Fin.ext_iff, Fin.val_castLE]
    simp only [isConsole, true_and]
  next notConsole =>
    constructor
    · intro impossible
      cases impossible
    · rintro ⟨first, isConsole, _⟩
      exact absurd ⟨first, isConsole⟩ notConsole

theorem boot_counted (f : FileSlot) :
    (bootFile f).ref =
      referenceCount
        (fun entry : Slot × Descriptor => bootOfile entry.1 entry.2) f := by
  rw [bootFile_ref]
  split
  next isConsole =>
    have only :
        referrers
            (fun entry : Slot × Descriptor => bootOfile entry.1 entry.2) f =
          {(⟨0, by decide⟩, ⟨f.val, by unfold NOFILE; omega⟩)} := by
      ext entry
      rw [mem_referrers, bootOfile_iff, Finset.mem_singleton, Prod.ext_iff,
        Fin.ext_iff, Fin.ext_iff]
      dsimp only
      constructor
      · rintro ⟨first, _, same⟩
        exact ⟨first, same⟩
      · rintro ⟨first, same⟩
        exact ⟨first, by omega, same⟩
    rw [referenceCount, only, Finset.card_singleton]
    rfl
  next notConsole =>
    have none :
        referenceCount
            (fun entry : Slot × Descriptor => bootOfile entry.1 entry.2) f =
          0 := by
      apply referenceCount_eq_zero.mpr
      intro entry refers
      obtain ⟨_, isConsole, same⟩ := (bootOfile_iff entry f).mp refers
      omega
    rw [none]
    rfl

theorem boot_noEnd
    (f : FileSlot)
    (page : Nat)
    (writable : Bool) :
    ¬ IsEnd bootFile (fun _ => none) f page writable := by
  rintro ⟨_, _, isPage, _⟩
  cases isPage

theorem boot_books
    (fs : FileSystem)
    (cwd : Option InodeIndex) :
    Books (boot fs cwd) where
  counts := {
    counted := boot_counted
    dead := by
      intro p isDead fd
      have notFirst : p.val ≠ 0 := by
        intro first
        have isAlive : (boot fs cwd).files.alive p = true :=
          beq_iff_eq.mpr first
        rw [isAlive] at isDead
        cases isDead
      exact if_neg (fun console => notFirst console.1)
  }
  ends := {
    empty := by
      intro f isZero
      have isZero : (bootFile f).ref = 0 := isZero
      have type : (bootFile f).type = .none := by
        rw [bootFile_ref] at isZero
        unfold bootFile
        split at isZero
        · cases isZero
        next notConsole =>
          rw [if_neg (by omega), if_neg notConsole]
          rfl
      exact type
    single := by
      intro f _ page writable isEnd _
      exact absurd isEnd (boot_noEnd f page writable)
    flags := by
      intro page ends impossible
      cases impossible
    freed := by
      intro page
      exact ⟨fun _ f writable => boot_noEnd f page writable, fun _ => rfl⟩
  }

theorem Books.exact (books : Books kernel) : Exact kernel where
  counted := books.counts.counted
  unused := by
    intro f isZero p fd refers
    have positive := books.counts.ref_pos refers
    rw [isZero] at positive
    exact absurd positive (Int.lt_irrefl 0)
  readers := fun _ _ isPipe => books.ends.flags isPipe false
  writers := fun _ _ isPipe => books.ends.flags isPipe true
  freed := books.ends.freed

/--
In every run of system calls the reference counts count the descriptors, and
the flags of a pipe say which of its ends are referred to.
-/
theorem exact_of_run
    {fs : FileSystem}
    {cwd : Option InodeIndex}
    {trace : List (PipeKernel × (Slot × PipeCall))}
    {final : PipeKernel}
    (run : Run Step (boot fs cwd) trace final) :
    Exact final := by
  have books : Books final :=
    run.invariant_all (boot_books fs cwd) fun holds taken => holds.step taken
  exact books.exact

/--
A pipe is shared with a child; the parent leaves the reading end to the child,
and the child, after it has opened a file over its writing end, exits.
-/
def sharedPipe : List (Slot × PipeCall) :=
  [(0, .pipe 5), (0, .fork (some 1)), (0, .dup 4), (0, .close 3),
    (0, .close 4), (1, .close 4), (1, .open pathA 0), (1, .dup2 3 4),
    (1, .exec pathA [(0, 64)]), (1, .dupfd 4 7), (1, .exit)]

theorem exact_of_run_sharedPipe :
    ∃ trace final,
      Run Step (boot twoFiles (some rootIndex)) trace final ∧
        (final.pipes 5).any (fun ends =>
          !ends.readopen && ends.writeopen) = true ∧
        Exact final := by
  have reaches :
      (runActions step? (boot twoFiles (some rootIndex)) sharedPipe).any
        (fun final => (final.pipes 5).any fun ends =>
          !ends.readopen && ends.writeopen) = true := by
    decide +kernel
  obtain ⟨final, accepted, isOpen⟩ := (Option.any_eq_true _ _).mp reaches
  obtain ⟨trace, _, run⟩ := runActions_sound accepted
  exact ⟨trace, final, run, isOpen, exact_of_run run⟩

end PipeKernel

end MyOS
