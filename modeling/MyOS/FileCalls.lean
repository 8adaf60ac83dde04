import MyOS.FileTable
import MyOS.Lib.Run

namespace MyOS

open Lib

/-!
# Processes and their file calls

Any number of processes call the file layer.  A step runs one process from its
call, or from the disk wait it was in, to its next wait or its return; a panic
stops the machine.
-/

/-- A system call on files. -/
inductive FileCall where
  | open (path : List UInt8) (flags : Nat)
  | close (fd : Int)
  | dup (oldfd : Int)
  | dup2 (oldfd newfd : Int)
  | dupfd (fd arg : Int)
  | fork (child : Slot)
  | exit
  | read (fd : Int) (target : FileSystem.ReadTarget) (n : Int)
  | write (fd : Int) (source : Nat → Option UInt8) (len : Int)
  | lseek (fd offset whence : Int)
  | chdir (path : List UInt8)
  | mkdir (path : List UInt8)
  | unlink (path : List UInt8)
  | rename (oldPath newPath : List UInt8)

namespace FileCall

/-- A call that changes nothing but the file system. -/
def onTree
    (p : Slot)
    (call : Option InodeIndex → FsRoutine Int) :
    FileRoutine Unit := do
  let kernel ← Routine.get
  let _ ← FileKernel.onFs (call (kernel.cwd p))

/-- The kernel's code for a call. -/
def routine (p : Slot) : FileCall → FileRoutine Unit
  | .open path flags => FileKernel.sysOpen p path flags
  | close fd => FileKernel.sysClose p fd
  | dup oldfd => FileKernel.sysDup p oldfd
  | dup2 oldfd newfd => FileKernel.sysDup2 p oldfd newfd
  | dupfd fd arg => FileKernel.fcntlDupfd p fd arg
  | fork child => FileKernel.sysFork p child
  | exit => FileKernel.procExit p
  | read fd target n => FileKernel.sysRead p fd target n
  | write fd source len => FileKernel.sysWrite p fd source len
  | lseek fd offset whence => FileKernel.sysLseek p fd offset whence
  | chdir path => FileKernel.sysChdir p path
  | mkdir path => onTree p fun cwd => FileSystem.sysMkdir cwd path
  | unlink path => onTree p fun cwd => FileSystem.sysUnlink cwd path
  | rename oldPath newPath =>
      onTree p fun cwd => FileSystem.sysRename cwd oldPath newPath

/-- `fork` needs an unused slot of the process table. -/
def admitted (kernel : FileKernel) : FileCall → Bool
  | fork child => !kernel.alive child
  | _ => true

end FileCall

/-- What the machine does next. -/
inductive FileAction where
  | call (p : Slot) (call : FileCall)
  | resume (p : Slot)

/-- The process that an action runs. -/
def FileAction.process : FileAction → Slot
  | call p _ => p
  | resume p => p

/-- The kernel with the calls that wait for the disk. -/
structure FileMachine where
  kernel : FileKernel
  waiting : Slot → Option (FileKernel → Outcome FsPanic FileKernel Unit)
  panicked : Bool

namespace FileMachine

/-- The kernel as a segment finds it. -/
def fresh (m : FileMachine) : FileKernel :=
  { m.kernel with handed := none }

/-- Put away what a segment of a process has come to. -/
def settle
    (m : FileMachine)
    (p : Slot) :
    Outcome FsPanic FileKernel Unit → FileMachine
  | .done kernel _ =>
      { m with
        kernel := kernel
        waiting := Function.update m.waiting p none }
  | .fault _ _ =>
      { m with
        kernel := m.fresh
        panicked := true }
  | .wait kernel resume =>
      { m with
        kernel := kernel
        waiting := Function.update m.waiting p (some resume) }

/-- The segment that an action runs, where it is possible. -/
def segment? (m : FileMachine) :
    FileAction → Option (Outcome FsPanic FileKernel Unit)
  | .call p call =>
      match m.waiting p with
      | some _ => none
      | none =>
          if m.kernel.alive p && call.admitted m.kernel then
            some (call.routine p m.fresh)
          else
            none
  | .resume p => (m.waiting p).map fun resume => resume m.fresh

/-- One step of the machine. -/
def step? (m : FileMachine) (action : FileAction) : Option FileMachine :=
  if m.panicked then
    none
  else
    (m.segment? action).map (m.settle action.process)

/-- The steps of the machine as a relation. -/
def Step (m : FileMachine) (action : FileAction) (next : FileMachine) : Prop :=
  m.step? action = some next

end FileMachine

/-- A file of the first process that is the console. -/
def consoleFile (readable writable : Bool) : FileObject where
  type := .console
  ref := 1
  readable := readable
  writable := writable
  ip := none
  off := 0

/-- An unused slot of the file table. -/
def unusedFile : FileObject where
  type := .none
  ref := 0
  readable := false
  writable := false
  ip := none
  off := 0

/-- The file table after `userinit`, with the console in three slots. -/
def bootFile (f : FileSlot) : FileObject :=
  if f.val = 0 then
    consoleFile true false
  else if f.val < 3 then
    consoleFile false true
  else
    unusedFile

theorem descriptors_fit : NOFILE ≤ NFILE := by
  decide

/-- The descriptors after `userinit`. -/
def bootOfile (p : Slot) (fd : Descriptor) : Option FileSlot :=
  if p.val = 0 ∧ fd.val < 3 then
    some (Fin.castLE descriptors_fit fd)
  else
    none

/-- The first process, on any file system and with any working directory. -/
def bootKernel (fs : FileSystem) (cwd : Option InodeIndex) : FileKernel where
  fs := fs
  file := bootFile
  ofile := bootOfile
  cwd := fun p => if p.val = 0 then cwd else none
  alive := fun p => p.val == 0
  closing := fun _ => none
  opening := fun _ => none
  opened := fun _ => none
  carries := fun _ => none
  opens := 0
  drops := fun _ => 0
  handed := none

/-- The first slot of the file table. -/
def FileKernel.firstFile : FileSlot :=
  ⟨0, (by decide : 0 < NFILE)⟩

/-- The first process. -/
def FileKernel.firstSlot : Slot :=
  ⟨0, (by decide : 0 < NPROC)⟩

/-- The machine when the first process starts. -/
def bootMachine (fs : FileSystem) (cwd : Option InodeIndex) : FileMachine where
  kernel := bootKernel fs cwd
  waiting := fun _ => none
  panicked := false

end MyOS
