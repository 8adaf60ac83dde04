import MyOS.FileCalls
import MyOS.Lib.References
import Mathlib.Data.Fintype.Prod

namespace MyOS

open Lib

/-!
# Pipes in the file table

The file table together with the pipes that its files refer to.  `fileclose`
closes an end of a pipe, `sys_pipe` makes one, and the calls that use
`fileclose` are given again on the larger state.  The calls run one after the
other: a step is a whole call, from the trap to the return.
-/

/-- The file kernel, `f->pipe` of every file, and the pipes. -/
structure PipeKernel where
  files : FileKernel
  pipeOf : FileSlot → Option Nat
  /-- The pages that hold a pipe which has not been freed. -/
  pipes : Nat → Option PipeEnds

/-- A routine on files and pipes. -/
abbrev PipeRoutine (Result : Type) : Type :=
  Routine FsPanic PipeKernel Result

/-- The program file as `sys_exec` reads it: any intervals, in any number. -/
def FileSystem.execReads (ip : InodeIndex) : List (Nat × Nat) → FsRoutine Unit
  | [] => pure ()
  | read :: rest => do
      let _ ← FileSystem.readi ip .kernel read.1 read.2
      execReads ip rest

/-- `sys_exec` on the file system. -/
def FileSystem.sysExec
    (cwd : Option InodeIndex)
    (path : List UInt8)
    (reads : List (Nat × Nat)) :
    FsRoutine Int := do
  match ← FileSystem.namei cwd path with
  | none => return -1
  | some ip =>
      FileSystem.ilock ip
      execReads ip reads
      FileSystem.iunlockput ip
      return 0

namespace PipeKernel

/-- The file kernel inside the larger state. -/
def filesComponent : Component PipeKernel FileKernel where
  read := fun kernel => kernel.files
  write := fun files kernel => { kernel with files := files }
  read_write := fun _ _ => rfl
  write_read := fun _ => rfl

/-- A routine of the file layer. -/
def onFiles {Result : Type} (routine : FileRoutine Result) :
    PipeRoutine Result :=
  routine.within filesComponent

/-- `pipeclose`; the page is freed with its second end. -/
def pipeclose (page : Option Nat) (writable : Bool) : PipeRoutine Unit :=
  match page with
  | none => Routine.fault .nullInode
  | some pi =>
      Routine.modify fun kernel =>
        { kernel with
          pipes :=
            Function.update kernel.pipes pi
              ((kernel.pipes pi).bind fun ends =>
                let ends :=
                  if writable then
                    { ends with writeopen := false }
                  else
                    { ends with readopen := false }
                if ends.readopen = false ∧ ends.writeopen = false then
                  none
                else
                  some ends) }

/-- What `fileclose` gives back with the last reference. -/
def closeLast (f : FileSlot) (copy : FileObject) : PipeRoutine Unit := do
  if copy.type = .inode then
    let ip ← onFiles (FileKernel.followIp f)
    onFiles (FileKernel.onFs (FileSystem.iput ip))
  else if copy.type = .pipe then
    let kernel ← Routine.get
    pipeclose (kernel.pipeOf f) copy.writable

def fileclose (f : FileSlot) : PipeRoutine Unit := do
  let copy ← onFiles (FileKernel.fileAt f)
  if copy.ref < 1 then
    Routine.fault .fileclose
  else
    onFiles (FileKernel.setFile f fun file => { file with ref := file.ref - 1 })
    if copy.ref - 1 = 0 then
      closeLast f copy
      onFiles (FileKernel.setFile f fun file =>
        { file with type := .none, ip := none, off := 0 })

/-- `sys_open` from where it allocates a file. -/
def openFile (p : Slot) (ip : InodeIndex) (flags : Nat) :
    PipeRoutine Unit := do
  match ← onFiles FileKernel.filealloc with
  | none => onFiles (FileKernel.onFs (FileSystem.iunlockput ip))
  | some f =>
      match ← onFiles (FileKernel.fdalloc p f) with
      | none =>
          fileclose f
          onFiles (FileKernel.onFs (FileSystem.iunlock ip))
      | some _ =>
          onFiles (FileKernel.fillFile f ip flags)
          onFiles (FileKernel.onFs (FileSystem.iunlock ip))

def sysOpen (p : Slot) (path : List UInt8) (flags : Nat) :
    PipeRoutine Unit := do
  match ← onFiles (FileKernel.openInode p path flags) with
  | none => return ()
  | some ip =>
      let inode ← onFiles (FileKernel.onFs (FileSystem.inodeAt ip))
      if hasFlag flags O_TRUNC ∧ inode.type = T_FILE ∧
          opensToWrite flags then
        onFiles (FileKernel.onFs (FileSystem.itrunc ip))
      openFile p ip flags

def sysClose (p : Slot) (fd : Int) : PipeRoutine Unit := do
  let kernel ← Routine.get
  match kernel.files.argfd p fd with
  | none => return ()
  | some (slot, f) =>
      onFiles (FileKernel.setOfile p slot none)
      fileclose f

def sysDup2 (p : Slot) (oldfd newfd : Int) : PipeRoutine Unit := do
  let kernel ← Routine.get
  match kernel.files.argfd p oldfd with
  | none => return ()
  | some (old, f) =>
      if inRange : newfd.toNat < NOFILE ∧ 0 ≤ newfd then
        let new : Descriptor := ⟨newfd.toNat, inRange.1⟩
        if old = new then
          return ()
        else
          match kernel.files.ofile p new with
          | none => onFiles (FileKernel.shareFile p new f)
          | some closed =>
              fileclose closed
              onFiles (FileKernel.setOfile p new none)
              onFiles (FileKernel.shareFile p new f)
      else
        return ()

/-- A turn of the loop of `proc_exit` over the descriptors. -/
def exitFile (p : Slot) (fd : Descriptor) : PipeRoutine Unit := do
  let kernel ← Routine.get
  match kernel.files.ofile p fd with
  | none => return ()
  | some f =>
      fileclose f
      onFiles (FileKernel.setOfile p fd none)

/-- `proc_exit` -/
def procExit (p : Slot) : PipeRoutine Unit := do
  Routine.forEach (exitFile p) descriptors
  onFiles (FileKernel.leaveFiles p)
  onFiles (Routine.modify fun kernel =>
    { kernel with alive := Function.update kernel.alive p false })

/-- A file of `sys_pipe` is filled in. -/
def fillPipe (f : FileSlot) (page : Nat) (writable : Bool) :
    PipeRoutine Unit := do
  onFiles (FileKernel.setFile f fun file =>
    { file with
      type := .pipe
      readable := !writable
      writable := writable })
  Routine.modify fun kernel =>
    { kernel with pipeOf := Function.update kernel.pipeOf f (some page) }

/--
`sys_pipe` with a page from `kalloc`; the result says whether the call has
succeeded.  What a failing call does after that is not modelled.
-/
def sysPipe (p : Slot) (page : Nat) : PipeRoutine Bool := do
  Routine.modify fun kernel =>
    { kernel with
      pipes :=
        Function.update kernel.pipes page
          (some { readopen := true, writeopen := true }) }
  match ← onFiles FileKernel.filealloc with
  | none => return false
  | some rf =>
      match ← onFiles FileKernel.filealloc with
      | none => return false
      | some wf =>
          fillPipe rf page false
          fillPipe wf page true
          match ← onFiles (FileKernel.fdalloc p rf) with
          | none => return false
          | some _ =>
              match ← onFiles (FileKernel.fdalloc p wf) with
              | none => return false
              | some _ => return true

end PipeKernel

/-- A system call on files and pipes. -/
inductive PipeCall where
  | open (path : List UInt8) (flags : Nat)
  | pipe (page : Nat)
  | dup (oldfd : Int)
  | dup2 (oldfd newfd : Int)
  | dupfd (fd arg : Int)
  | close (fd : Int)
  /-- `sys_fork`; it returns before it copies descriptors if it has no child. -/
  | fork (child : Option Slot)
  | exec (path : List UInt8) (reads : List (Nat × Nat))
  | exit

namespace PipeCall

open PipeKernel

/-- The kernel's code for a call; the result is false where `pipe` fails. -/
def routine (p : Slot) : PipeCall → PipeRoutine Bool
  | .open path flags => do
      sysOpen p path flags
      return true
  | pipe page => sysPipe p page
  | dup oldfd => do
      onFiles (FileKernel.sysDup p oldfd)
      return true
  | dup2 oldfd newfd => do
      sysDup2 p oldfd newfd
      return true
  | dupfd fd arg => do
      onFiles (FileKernel.fcntlDupfd p fd arg)
      return true
  | close fd => do
      sysClose p fd
      return true
  | fork none => return true
  | fork (some child) => do
      onFiles (FileKernel.sysFork p child)
      return true
  | exec path reads => do
      let kernel ← Routine.get
      let _ ←
        onFiles (FileKernel.onFs
          (FileSystem.sysExec (kernel.files.cwd p) path reads))
      return true
  | exit => do
      procExit p
      return true

/--
`fork` needs an unused slot of the process table, and `kalloc` gives a page
that holds no pipe.
-/
def admitted (kernel : PipeKernel) : PipeCall → Bool
  | fork (some child) => !kernel.files.alive child
  | pipe page => kernel.pipes page == none
  | _ => true

end PipeCall

namespace PipeKernel

/-- A process makes a system call, which returns, and a `pipe` succeeds. -/
def step?
    (kernel : PipeKernel)
    (action : Slot × PipeCall) : Option PipeKernel :=
  if kernel.files.alive action.1 && action.2.admitted kernel then
    match (action.2.routine action.1).run kernel with
    | .ok (after, true) => some after
    | .ok (_, false) => none
    | .error _ => none
  else
    none

/-- The graph of `step?`. -/
def Step
    (kernel : PipeKernel)
    (action : Slot × PipeCall)
    (after : PipeKernel) : Prop :=
  kernel.step? action = some after

/-- The first process, on any file system and with any working directory. -/
def boot (fs : FileSystem) (cwd : Option InodeIndex) : PipeKernel where
  files := bootKernel fs cwd
  pipeOf := fun _ => none
  pipes := fun _ => none

/-- An open file refers to an end of a pipe. -/
def RefersTo
    (kernel : PipeKernel)
    (f : FileSlot)
    (page : Nat)
    (writable : Bool) : Prop :=
  0 < (kernel.files.file f).ref ∧ (kernel.files.file f).type = .pipe ∧
    kernel.pipeOf f = some page ∧
    (kernel.files.file f).writable = writable

/-- The number of descriptors of all processes that point to a file. -/
def descriptorCount (kernel : PipeKernel) (f : FileSlot) : Nat :=
  referenceCount
    (fun entry : Slot × Descriptor => kernel.files.ofile entry.1 entry.2) f

/--
The reference counts are exact, and the flags of the pipes say which ends are
referred to.
-/
structure Exact (kernel : PipeKernel) : Prop where
  counted : ∀ f, (kernel.files.file f).ref = kernel.descriptorCount f
  unused :
    ∀ f, (kernel.files.file f).ref = 0 →
      ∀ p fd, kernel.files.ofile p fd ≠ some f
  readers :
    ∀ page ends, kernel.pipes page = some ends →
      (ends.readopen = true ↔ ∃ f, kernel.RefersTo f page false)
  writers :
    ∀ page ends, kernel.pipes page = some ends →
      (ends.writeopen = true ↔ ∃ f, kernel.RefersTo f page true)
  freed :
    ∀ page, kernel.pipes page = none ↔
      ∀ f writable, ¬ kernel.RefersTo f page writable

end PipeKernel

end MyOS
