import Mathlib.Data.List.FinRange
import Mathlib.Logic.Function.Basic
import MyOS.Param

namespace MyOS

/-!
# The process table and the CPU

The process table, the spinlocks of the one CPU, and the reference counts of
open files, in-core inodes and pipes, with the functions of `spinlock.c`,
`proc.c`, `sysproc.c` and `file.c` that change them.

A process inside the kernel is described by the point its code has reached.
Ghost components number the processes ever allocated and record what `fork`,
`exit` and `wait` did.
-/

/-- Slots of the process table. -/
abbrev Slot := Fin NPROC

instance (n : Nat) : OfNat Slot n where
  ofNat := ⟨n % NPROC, Nat.mod_lt n (by decide)⟩

/-- `enum task_status`. -/
inductive TaskStatus where
  | free
  | allocated
  | ready
  | running
  | sleeping
  | zombie
  deriving Repr, DecidableEq

/-- The addresses that processes sleep on. -/
inductive Channel where
  | process (slot : Slot)
  | buffer (index : Nat)
  | descriptors
  | console
  | pipeRead (pipe : Nat)
  | pipeWrite (pipe : Nat)
  deriving Repr, DecidableEq

/-- The spinlocks of the kernel. -/
inductive LockName where
  | process (slot : Slot)
  | disk
  | pipe (pipe : Nat)
  deriving Repr, DecidableEq

/-- The point that the kernel code of a process has reached. -/
inductive Point where
  | user
  /-- `usertrap_finish`. -/
  | trapReturn
  /-- In a system call, with no lock held. -/
  | syscall
  /-- Holding a lock of a driver or a pipe. -/
  | holding (lock : LockName) (after : Point)
  /-- `iput` is freeing the contents of an inode. -/
  | itrunc (ip : Nat) (after : Point)
  /-- `fileclose` is about to reset the file. -/
  | closeFile (f : Nat) (after : Point)
  | forkStack (np : Slot)
  | forkPagetable (np : Slot)
  | forkCopy (np : Slot)
  | forkFile (np : Slot) (fd : Nat)
  | forkParent (np : Slot)
  | forkCwd (np : Slot)
  | forkReady (np : Slot)
  /-- `sys_wait` at the top of its loop, holding the lock of the caller. -/
  | waitScan (copies : Bool)
  | exitFile (fd : Nat)
  | exitClear (fd : Nat)
  | exitCwd
  | exitCwdClear
  | exitWakeup
  | exitSched
  /-- Switched out before the first run. -/
  | forkret
  /-- Switched out by `yield`; from a kernel trap interrupts come back on. -/
  | yielded (interrupts : Bool) (after : Point)
  /-- Switched out by `sleep`, which will take the lock again. -/
  | slept (lock : LockName) (after : Point)
  /-- Switched out by `proc_exit`. -/
  | exited
  deriving Repr, DecidableEq

/-- A slot of the process table, with the point of its kernel code. -/
structure Proc where
  status : TaskStatus
  pid : BitVec 32
  parent : Option Slot
  xstate : BitVec 32
  chan : Option Channel
  killed : Bool
  ofile : Nat → Option Nat
  cwd : Option Nat
  point : Point
  /-- Ghost: the number of the process in the slot. -/
  birth : Nat
  /-- Ghost: the number of the process that called `fork` for it. -/
  forker : Option Nat

/-- `struct cpu` and the interrupt enable bit. -/
structure Cpu where
  proc : Option Slot
  noff : Nat
  intena : Bool
  interrupts : Bool
  deriving Repr, DecidableEq

/-- The types of open files. -/
inductive FileType where
  | none
  | inode
  | console
  | pipe
  deriving Repr, DecidableEq

/-- `struct file`. -/
structure OpenFile where
  type : FileType
  ref : Int
  readable : Bool
  writable : Bool
  pipe : Nat
  ip : Nat
  off : Nat
  deriving Repr, DecidableEq

/-- The fields of an in-core inode that decide what `iput` does. -/
structure InodeSlot where
  ref : Int
  valid : Bool
  nlink : Int
  deriving Repr, DecidableEq

/-- The open ends of a pipe. -/
structure PipeEnds where
  readopen : Bool
  writeopen : Bool
  deriving Repr, DecidableEq

/-- The panics of the modelled code. -/
inductive KernelPanic where
  | schedLock
  | schedLocks
  | schedRunning
  | schedInterruptible
  | fileclose
  | exitReturned
  deriving Repr, DecidableEq

/-- Ghost: a successful `fork`. -/
structure Forking where
  parent : Nat
  child : Nat
  pid : BitVec 32
  deriving Repr, DecidableEq

/-- Ghost: a `wait` that returned a child. -/
structure Reaping where
  caller : Nat
  child : Nat
  pid : BitVec 32
  xstate : BitVec 32
  deriving Repr, DecidableEq

/-- The state of the kernel. -/
structure Kernel where
  cpu : Cpu
  locked : LockName → Bool
  proc : Slot → Proc
  file : Nat → OpenFile
  inode : Nat → InodeSlot
  pipe : Nat → PipeEnds
  /-- The loop variable of `scheduler`. -/
  scan : Nat
  nextPid : BitVec 32
  panicked : Option KernelPanic
  /-- Ghost: how many processes have been allocated. -/
  births : Nat
  forked : List Forking
  exits : List (Nat × BitVec 32)
  reaped : List Reaping

namespace Kernel

/-- Change one slot of the process table. -/
def setProc (k : Kernel) (slot : Slot) (p : Proc) : Kernel :=
  { k with proc := Function.update k.proc slot p }

/-- Let the code of a process go on at a point. -/
def setPoint (k : Kernel) (slot : Slot) (point : Point) : Kernel :=
  k.setProc slot { k.proc slot with point := point }

/-- Set the status of a process. -/
def setStatus (k : Kernel) (slot : Slot) (status : TaskStatus) : Kernel :=
  k.setProc slot { k.proc slot with status := status }

/-- Set the interrupt enable bit. -/
def setInterrupts (k : Kernel) (on : Bool) : Kernel :=
  { k with cpu := { k.cpu with interrupts := on } }

/-- Stop with a message. -/
def panic (k : Kernel) (reason : KernelPanic) : Kernel :=
  { k with panicked := some reason }

/-! ## spinlock.c -/

/-- `push_off`. -/
def pushOff (k : Kernel) : Kernel :=
  { k with
    cpu := { k.cpu with
      noff := k.cpu.noff + 1
      intena := if k.cpu.noff = 0 then k.cpu.interrupts else k.cpu.intena
      interrupts := false } }

/-- `pop_off`. -/
def popOff (k : Kernel) : Kernel :=
  { k with
    cpu := { k.cpu with
      noff := k.cpu.noff - 1
      interrupts :=
        k.cpu.interrupts || (k.cpu.noff - 1 == 0 && k.cpu.intena) } }

/-- `acquire`: `none` is spinning for ever, as nobody else can run. -/
def acquire (k : Kernel) (lock : LockName) : Option Kernel :=
  if k.locked lock then
    none
  else
    some { k.pushOff with locked := Function.update k.locked lock true }

/-- `release`. -/
def release (k : Kernel) (lock : LockName) : Kernel :=
  { k with locked := Function.update k.locked lock false }.popOff

/-- An `acquire` and a `release` of the same free lock. -/
def passLock (k : Kernel) : Kernel :=
  k.pushOff.popOff

/-! ## proc.c and sleep -/

/-- `wakeup`: every other process that sleeps on the channel gets ready. -/
def wakeup (k : Kernel) (chan : Option Channel) : Kernel :=
  { k.passLock with
    proc := fun slot =>
      if k.cpu.proc ≠ some slot ∧ (k.proc slot).status = .sleeping ∧
          (k.proc slot).chan = chan then
        { k.proc slot with status := .ready }
      else
        k.proc slot }

/-- The code of `scheduler` between the switch to it and its next `acquire`. -/
def switchToScheduler (k : Kernel) (slot : Slot) : Kernel :=
  { k with
    cpu := { k.cpu with proc := none }
    scan := k.scan + 1 }.release (.process slot)

/-- `sched`, called by the process in `slot`. -/
def sched (k : Kernel) (slot : Slot) : Kernel :=
  if k.locked (.process slot) = false then
    k.panic .schedLock
  else if k.cpu.noff ≠ 1 then
    k.panic .schedLocks
  else if (k.proc slot).status = .running then
    k.panic .schedRunning
  else if k.cpu.interrupts then
    k.panic .schedInterruptible
  else
    k.switchToScheduler slot

/-- A process stores into its own slot and calls `sched`. -/
def schedAs (k : Kernel) (slot : Slot) (p : Proc) : Kernel :=
  (k.setProc slot p).sched slot

/-- `yield`, with what the process does when it gets the CPU back. -/
def yield
    (k : Kernel)
    (slot : Slot)
    (interrupts : Bool)
    (after : Point) : Option Kernel :=
  (k.acquire (.process slot)).map fun k =>
    k.schedAs slot
      { k.proc slot with
        status := .ready
        point := .yielded interrupts after }

/-- `sleep`, up to the switch to the scheduler. -/
def sleep
    (k : Kernel)
    (slot : Slot)
    (chan : Channel)
    (lock : LockName)
    (after : Point) : Option Kernel :=
  (if lock = .process slot then
      some k
    else
      (k.acquire (.process slot)).map fun k => k.release lock).map fun k =>
    k.schedAs slot
      { k.proc slot with
        status := .sleeping
        chan := some chan
        point := .slept lock after }

/-- What a process does first when the scheduler switches to it. -/
def resume (k : Kernel) (slot : Slot) : Option Kernel :=
  match (k.proc slot).point with
  | .forkret =>
      some (((k.release (.process slot)).setPoint slot .user).setInterrupts
        true)
  | .yielded interrupts after =>
      let k := (k.release (.process slot)).setPoint slot after
      some (k.setInterrupts (k.cpu.interrupts || interrupts))
  | .slept lock after =>
      let k := k.setProc slot
        { k.proc slot with
          chan := none
          point := after }
      if lock = .process slot then
        some k
      else
        (k.release (.process slot)).acquire lock
  | .exited => some (k.panic .exitReturned)
  | _ => none

/-- One round of the loop of `scheduler`. -/
def schedule (k : Kernel) : Option Kernel :=
  if inTable : k.scan < NPROC then
    let slot : Slot := ⟨k.scan, inTable⟩
    (k.acquire (.process slot)).bind fun k =>
      if (k.proc slot).status = .ready then
        let k := k.setStatus slot .running
        { k with cpu := { k.cpu with proc := some slot } }.resume slot
      else
        some { k.release (.process slot) with scan := k.scan + 1 }
  else
    some { k.setInterrupts true with scan := 0 }

/-- The first free slot of the process table. -/
def freeSlot (k : Kernel) : Option Slot :=
  (List.finRange NPROC).find? fun slot => (k.proc slot).status = .free

/--
`allocproc`, called by the process with number `forker`; `page` says whether
there is a page for the trapframe.
-/
def allocproc
    (k : Kernel)
    (forker : Nat)
    (page : Bool) : Option Slot × Kernel :=
  match k.freeSlot with
  | none => (none, k.passLock)
  | some np =>
      let k := { k.passLock with
        nextPid := k.nextPid + 1
        births := k.births + 1 }.setProc np
          { k.proc np with
            status := if page then .allocated else .free
            pid := k.nextPid
            killed := false
            xstate := 0
            chan := none
            parent := none
            birth := k.births
            forker := some forker }
      (if page then some np else none, k)

/-! ## file.c and iput -/

/-- `filealloc`: the first free slot of the file table. -/
def filealloc (k : Kernel) : Option Nat :=
  (List.range NFILE).find? fun f => (k.file f).ref = 0

/-- `fdalloc`: the first free descriptor of a process. -/
def fdalloc (k : Kernel) (slot : Slot) : Option Nat :=
  (List.range NOFILE).find? fun fd => (k.proc slot).ofile fd = none

/-- Change one slot of the file table. -/
def setFile (k : Kernel) (f : Nat) (file : OpenFile) : Kernel :=
  { k with file := Function.update k.file f file }

/-- Change one in-core inode. -/
def setInode (k : Kernel) (ip : Nat) (inode : InodeSlot) : Kernel :=
  { k with inode := Function.update k.inode ip inode }

/-- Change the ends of a pipe. -/
def setPipe (k : Kernel) (pipe : Nat) (ends : PipeEnds) : Kernel :=
  { k with pipe := Function.update k.pipe pipe ends }

/-- Set a descriptor of a process. -/
def setDescriptor
    (k : Kernel)
    (slot : Slot)
    (fd : Nat)
    (f : Option Nat) : Kernel :=
  k.setProc slot
    { k.proc slot with ofile := Function.update (k.proc slot).ofile fd f }

/-- Set the current directory of a process. -/
def setCwd (k : Kernel) (slot : Slot) (cwd : Option Nat) : Kernel :=
  k.setProc slot { k.proc slot with cwd := cwd }

/-- `filedup`. -/
def filedup (k : Kernel) (f : Nat) : Kernel :=
  k.setFile f { k.file f with ref := (k.file f).ref + 1 }

/-- `idup`. -/
def idup (k : Kernel) (ip : Nat) : Kernel :=
  k.setInode ip { k.inode ip with ref := (k.inode ip).ref + 1 }

/-- `iput` drops the last reference of an inode that has no links left. -/
def lastUnlinked (k : Kernel) (ip : Nat) : Bool :=
  (k.inode ip).ref == 1 && (k.inode ip).valid && (k.inode ip).nlink == 0

/-- `iput`, up to the truncation of an unlinked inode. -/
def iput (k : Kernel) (slot : Slot) (ip : Nat) (after : Point) : Kernel :=
  let ref := (k.inode ip).ref - 1
  if k.lastUnlinked ip then
    (k.setInode ip { k.inode ip with ref := ref }).setPoint slot
      (.itrunc ip after)
  else
    (k.setInode ip
      { k.inode ip with
        ref := ref
        valid := (k.inode ip).valid && ref != 0 }).setPoint slot after

/-- `pipeclose`. -/
def pipeclose (k : Kernel) (pipe : Nat) (writable : Bool) : Option Kernel :=
  if k.locked (.pipe pipe) then
    none
  else
    let ends := k.pipe pipe
    if writable then
      some ((k.setPipe pipe { ends with writeopen := false }).wakeup
        (some (.pipeRead pipe)))
    else
      some ((k.setPipe pipe { ends with readopen := false }).wakeup
        (some (.pipeWrite pipe)))

/-- `fileclose`, up to the reset of the file. -/
def fileclose
    (k : Kernel)
    (slot : Slot)
    (f : Nat)
    (after : Point) : Option Kernel :=
  let file := k.file f
  if file.ref < 1 then
    some (k.panic .fileclose)
  else
    let k := k.setFile f { file with ref := file.ref - 1 }
    if 0 < file.ref - 1 then
      some (k.setPoint slot after)
    else
      match file.type with
      | .inode => some (k.iput slot file.ip (.closeFile f after))
      | .pipe =>
          (k.pipeclose file.pipe file.writable).map fun k =>
            k.setPoint slot (.closeFile f after)
      | _ => some (k.setPoint slot (.closeFile f after))

end Kernel

end MyOS
