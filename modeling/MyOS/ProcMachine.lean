import MyOS.Lib.Run
import MyOS.ProcTable

namespace MyOS

/-!
# Runs of the kernel

One step is what the CPU does between two points at which an interrupt may be
taken; code that runs with a lock held or with interrupts off is one step.
`fork`, `exit` and `wait` follow the source.  The other system calls may make
their calls of the file and inode functions, take locks and sleep in any order.
-/

/-- What the other system calls do. -/
inductive SystemCall where
  /-- `yield` from `consgetc`. -/
  | yield
  /-- `filealloc` and `fdalloc`, and setting up the file. -/
  | openFile (contents : OpenFile)
  /-- Put a file into another descriptor and `filedup` it. -/
  | dup (fd newfd : Nat)
  | close (fd : Nat)
  | fileclose (f : Nat)
  /-- `pipealloc`. -/
  | openPipe (pipe : Nat)
  /-- `iget` of an inode that has a slot, or into a free slot. -/
  | iget (ip : Nat)
  | idup (ip : Nat)
  /-- `ilock` of an inode that was not valid. -/
  | ilock (ip : Nat) (nlink : Int)
  /-- A new link count, by `create`, `unlink`, `mkdir` or `rename`. -/
  | setLinks (ip : Nat) (nlink : Int)
  | iput (ip : Nat)
  /-- The second half of `chdir`. -/
  | setCwd (ip : Nat)
  deriving Repr, DecidableEq

/-- What can happen next. -/
inductive KernelAction where
  | schedule
  | timer
  /-- A device interrupt that wakes a channel. -/
  | deviceInterrupt (chan : Channel)
  /-- Ctrl-C on the console. -/
  | interruptKey
  | ecall
  | fork (page : Bool)
  | exit (status : BitVec 32)
  | wait (copies : Bool)
  /-- The running process goes on; the flag is for what can fail. -/
  | advance (succeeds : Bool)
  | call (systemCall : SystemCall)
  | lock (lock : LockName)
  | sleep (chan : Channel)
  | wake (chan : Channel)
  | unlock
  | sysReturn
  deriving Repr, DecidableEq

/-- What the loop over the process table in `sys_wait` finds. -/
inductive ScanResult where
  /-- It waits for a lock that is never released. -/
  | stuck
  | zombie (son : Slot)
  | noZombie (haveKids : Bool)
  deriving Repr, DecidableEq

namespace Kernel

/-- The loop over the process table in `sys_wait`. -/
def scanSons
    (k : Kernel)
    (slot : Slot) : List Slot → Bool → ScanResult
  | [], haveKids => .noZombie haveKids
  | son :: rest, haveKids =>
      if (k.proc son).parent = some slot then
        if k.locked (.process son) then
          .stuck
        else if (k.proc son).status = .zombie then
          .zombie son
        else
          k.scanSons slot rest true
      else
        k.scanSons slot rest haveKids

/-- What `sys_wait` of the process in `slot` finds. -/
def findSon (k : Kernel) (slot : Slot) : ScanResult :=
  k.scanSons slot (List.finRange NPROC) false

/-- Ghost: `wait` returns a child. -/
def recordReaping (k : Kernel) (slot son : Slot) : Kernel :=
  let reaping : Reaping := {
    caller := (k.proc slot).birth
    child := (k.proc son).birth
    pid := (k.proc son).pid
    xstate := (k.proc son).xstate }
  { k with reaped := k.reaped ++ [reaping] }

/-- Ghost: `fork` has made a child. -/
def recordForking (k : Kernel) (slot np : Slot) : Kernel :=
  let forking : Forking := {
    parent := (k.proc slot).birth
    child := (k.proc np).birth
    pid := (k.proc np).pid }
  { k with forked := k.forked ++ [forking] }

/-- Ghost: a process exits. -/
def recordExit (k : Kernel) (slot : Slot) (status : BitVec 32) : Kernel :=
  { k with exits := k.exits ++ [((k.proc slot).birth, status)] }

/-- `sys_wait` frees the slot of a child. -/
def reap (k : Kernel) (slot son : Slot) : Kernel :=
  (k.recordReaping slot son).setProc son
    { k.proc son with
      status := .free
      pid := 0
      parent := none
      killed := false
      xstate := 0
      chan := none }

/-- `sys_wait` from the top of its loop. -/
def waitScan
    (k : Kernel)
    (slot : Slot)
    (copies copied : Bool) : Option Kernel :=
  let finish (k : Kernel) : Kernel :=
    (k.release (.process slot)).setPoint slot .syscall
  match k.findSon slot with
  | .stuck => none
  | .zombie son =>
      if copies && !copied then
        some (finish k)
      else
        some (finish (k.reap slot son))
  | .noZombie haveKids =>
      if !haveKids || (k.proc slot).killed then
        some (finish k)
      else
        k.sleep slot (.process slot) (.process slot) (.waitScan copies)

/-- `proc_exit` up to its loop over the descriptors. -/
def beginExit (k : Kernel) (slot : Slot) (status : BitVec 32) : Kernel :=
  (k.recordExit slot status).setProc slot
    { k.proc slot with
      xstate := status
      status := .zombie
      point := .exitFile 0 }

/-- The running process goes on. -/
def advance (k : Kernel) (slot : Slot) (succeeds : Bool) : Option Kernel :=
  let p := k.proc slot
  match p.point with
  | .trapReturn =>
      if p.killed then
        some (k.beginExit slot (-1))
      else
        some ((k.setPoint slot .user).setInterrupts true)
  | .itrunc ip after =>
      -- The contents are freed; the slot is given up if it is still unused.
      let inode := k.inode ip
      some ((k.setInode ip
        { inode with valid := inode.valid && inode.ref != 0 }).setPoint
          slot after)
  | .closeFile f after =>
      some ((k.setFile f
        { k.file f with
          type := .none
          ip := 0
          off := 0 }).setPoint slot after)
  | .forkStack np =>
      if succeeds then
        some (k.setPoint slot (.forkPagetable np))
      else
        some ((k.passLock.setStatus np .free).setPoint slot .syscall)
  | .forkPagetable np =>
      if succeeds then
        some (k.setPoint slot (.forkCopy np))
      else
        some ((k.passLock.setStatus np .free).setPoint slot .syscall)
  | .forkCopy np =>
      if succeeds then
        some (k.setPoint slot (.forkFile np 0))
      else
        -- The child stays allocated: the source recovers nothing here.
        some (k.setPoint slot .syscall)
  | .forkFile np fd =>
      if fd < NOFILE then
        match p.ofile fd with
        | none => some (k.setPoint slot (.forkFile np (fd + 1)))
        | some f =>
            some (((k.setDescriptor np fd (some f)).filedup f).setPoint
              slot (.forkFile np (fd + 1)))
      else
        some (k.setPoint slot (.forkParent np))
  | .forkParent np =>
      some ((k.setProc np { k.proc np with parent := some slot }).setPoint
        slot (.forkCwd np))
  | .forkCwd np =>
      match p.cwd with
      | none => some (k.setPoint slot (.forkReady np))
      | some ip =>
          some (((k.idup ip).setCwd np (some ip)).setPoint slot
            (.forkReady np))
  | .forkReady np =>
      -- The context of the child was set up before; nobody could switch to it.
      some (((k.passLock.recordForking slot np).setProc np
        { k.proc np with
          status := .ready
          point := .forkret }).setPoint slot .syscall)
  | .waitScan copies => k.waitScan slot copies succeeds
  | .exitFile fd =>
      if fd < NOFILE then
        match p.ofile fd with
        | none => some (k.setPoint slot (.exitFile (fd + 1)))
        | some f => k.fileclose slot f (.exitClear fd)
      else
        some (k.setPoint slot .exitCwd)
  | .exitClear fd =>
      some ((k.setDescriptor slot fd none).setPoint slot
        (.exitFile (fd + 1)))
  | .exitCwd =>
      match p.cwd with
      | none => some (k.setPoint slot .exitWakeup)
      | some ip => some (k.iput slot ip .exitCwdClear)
  | .exitCwdClear =>
      some ((k.setCwd slot none).setPoint slot .exitWakeup)
  | .exitWakeup =>
      some ((k.wakeup (p.parent.map .process)).setPoint slot .exitSched)
  | .exitSched =>
      (k.acquire (.process slot)).map fun k =>
        k.schedAs slot { k.proc slot with point := .exited }
  | _ => none

/-- One call of another system call. -/
def call (k : Kernel) (slot : Slot) : SystemCall → Option Kernel
  | .yield => k.yield slot false .syscall
  | .openFile contents =>
      match k.filealloc, k.fdalloc slot with
      | some f, some fd =>
          some ((k.setFile f { contents with ref := 1 }).setDescriptor
            slot fd (some f))
      | _, _ => none
  | .dup fd newfd =>
      match (k.proc slot).ofile fd with
      | some f =>
          if newfd < NOFILE ∧ (k.proc slot).ofile newfd = none then
            some ((k.setDescriptor slot newfd (some f)).filedup f)
          else
            none
      | none => none
  | .close fd =>
      match (k.proc slot).ofile fd with
      | some f => (k.setDescriptor slot fd none).fileclose slot f .syscall
      | none => none
  | .fileclose f => k.fileclose slot f .syscall
  | .openPipe pipe =>
      some (k.setPipe pipe
        { readopen := true
          writeopen := true })
  | .iget ip =>
      if 0 < (k.inode ip).ref then
        some (k.idup ip)
      else
        some (k.setInode ip
          { k.inode ip with
            ref := 1
            valid := false })
  | .idup ip => some (k.idup ip)
  | .ilock ip nlink =>
      if (k.inode ip).valid then
        none
      else
        some (k.setInode ip
          { k.inode ip with
            valid := true
            nlink := nlink })
  | .setLinks ip nlink =>
      some (k.setInode ip { k.inode ip with nlink := nlink })
  | .iput ip => some (k.iput slot ip .syscall)
  | .setCwd ip => some (k.setCwd slot (some ip))

/-- `sys_fork` up to the allocation of the kernel stack. -/
def fork (k : Kernel) (slot : Slot) (page : Bool) : Kernel :=
  match k.allocproc (k.proc slot).birth page with
  | (none, k) => k
  | (some np, k) => k.setPoint slot (.forkStack np)

/-- `sys_wait` up to its loop. -/
def wait (k : Kernel) (slot : Slot) (copies : Bool) : Option Kernel :=
  (k.acquire (.process slot)).map fun k =>
    k.setPoint slot (.waitScan copies)

/-- A locked section may start here: in a system call or in `itrunc`. -/
def mayLock : Point → LockName → Bool
  | .syscall, .disk => true
  | .syscall, .pipe _ => true
  | .itrunc _ _, .disk => true
  | _, _ => false

/-- The timer interrupt. -/
def timer (k : Kernel) : Option Kernel :=
  if k.cpu.interrupts then
    match k.cpu.proc with
    | none => some k
    | some slot =>
        if (k.proc slot).point = .user then
          (k.setInterrupts false).yield slot false .trapReturn
        else if (k.proc slot).status = .running then
          (k.setInterrupts false).yield slot true (k.proc slot).point
        else
          some k
  else
    none

/-- An interrupt handler that runs and returns to what it interrupted. -/
def handle (k : Kernel) (handler : Kernel → Kernel) : Option Kernel :=
  if k.cpu.interrupts then
    let after := handler (k.setInterrupts false)
    match k.cpu.proc with
    | none => some (after.setInterrupts true)
    | some slot =>
        if (k.proc slot).point = .user then
          some (after.setPoint slot .trapReturn)
        else
          some (after.setInterrupts true)
  else
    none

/-- What Ctrl-C does to a process. -/
def interruptProc (p : Proc) : Proc :=
  if 1 < p.pid.toInt ∧ p.status ≠ .free ∧ p.status ≠ .zombie then
    { p with
      killed := true
      status := if p.status = .sleeping then .ready else p.status }
  else
    p

/-- The loop of `consoleintr` on Ctrl-C. -/
def interruptProcs (k : Kernel) : Kernel :=
  { k.passLock with proc := fun slot => interruptProc (k.proc slot) }

/-- `consoleintr` on Ctrl-C. -/
def interruptKey (k : Kernel) : Kernel :=
  k.interruptProcs.wakeup (some .console)

/-- The running process acts. -/
def running (k : Kernel) (act : Slot → Option Kernel) : Option Kernel :=
  k.cpu.proc.bind act

/-- The running process acts in a system call. -/
def inSyscall (k : Kernel) (act : Slot → Option Kernel) : Option Kernel :=
  k.running fun slot =>
    if (k.proc slot).point = .syscall then act slot else none

/-- The running process acts while it holds a lock. -/
def inLock
    (k : Kernel)
    (act : Slot → LockName → Point → Option Kernel) : Option Kernel :=
  k.running fun slot =>
    match (k.proc slot).point with
    | .holding lock after => act slot lock after
    | _ => none

/-- One step of the kernel. -/
def step? (k : Kernel) (action : KernelAction) : Option Kernel :=
  if k.panicked ≠ none then
    none
  else
    match action with
    | .schedule => if k.cpu.proc = none then k.schedule else none
    | .timer => k.timer
    | .deviceInterrupt chan => k.handle fun k => k.wakeup (some chan)
    | .interruptKey => k.handle interruptKey
    | .ecall =>
        k.running fun slot =>
          if (k.proc slot).point = .user then
            some (k.setPoint slot .syscall)
          else
            none
    | .fork page => k.inSyscall fun slot => some (k.fork slot page)
    | .exit status => k.inSyscall fun slot => some (k.beginExit slot status)
    | .wait copies => k.inSyscall fun slot => k.wait slot copies
    | .advance succeeds => k.running fun slot => k.advance slot succeeds
    | .call systemCall => k.inSyscall fun slot => k.call slot systemCall
    | .sysReturn =>
        k.inSyscall fun slot => some (k.setPoint slot .trapReturn)
    | .lock lock =>
        k.running fun slot =>
          if mayLock (k.proc slot).point lock then
            (k.acquire lock).map fun after =>
              after.setPoint slot (.holding lock (k.proc slot).point)
          else
            none
    | .sleep chan =>
        k.inLock fun slot lock after =>
          k.sleep slot chan lock (.holding lock after)
    | .wake chan => k.inLock fun _ _ _ => some (k.wakeup (some chan))
    | .unlock =>
        k.inLock fun slot lock after =>
          some ((k.release lock).setPoint slot after)

/-- The step relation of the kernel. -/
def Step : Kernel → KernelAction → Kernel → Prop :=
  fun k action next => k.step? action = some next

/-- The console file that `userinit` opens. -/
def consoleFile (readable : Bool) : OpenFile where
  type := .console
  ref := 1
  readable := readable
  writable := !readable
  pipe := 0
  ip := 0
  off := 0

/-- The kernel after `userinit`, about to enter `scheduler`. -/
def boot : Kernel where
  cpu := {
    proc := none
    noff := 0
    intena := false
    interrupts := false }
  locked := fun _ => false
  proc := fun slot =>
    if slot = 0 then {
      status := .ready
      pid := 1
      parent := none
      xstate := 0
      chan := none
      killed := false
      ofile := fun fd => if fd < 3 then some fd else none
      cwd := some 0
      point := .forkret
      birth := 0
      forker := none }
    else {
      status := .free
      pid := 0
      parent := none
      xstate := 0
      chan := none
      killed := false
      ofile := fun _ => none
      cwd := none
      point := .forkret
      birth := 0
      forker := none }
  file := fun f =>
    if f < 3 then
      consoleFile (f == 0)
    else
      { consoleFile false with
        type := .none
        ref := 0
        writable := false }
  inode := fun ip => {
    ref := if ip = 0 then 1 else 0
    valid := false
    nlink := 0 }
  pipe := fun _ => { readopen := false, writeopen := false }
  scan := NPROC
  nextPid := 2
  panicked := none
  births := 1
  forked := []
  exits := []
  reaped := []

end Kernel

end MyOS
