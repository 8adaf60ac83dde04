import MyOS.KernelVector
import MyOS.Lib.Run
import MyOS.ProcTable

namespace MyOS

/-!
# Kernel threads, interrupts and traps

The scheduler's thread and the kernel threads of the processes share one hart
and its `struct cpu`.  A step is one of the functions of `spinlock.c`,
`proc.c` and `trap.c` up to the next point at which another thread can run or
an interrupt can be taken; a lock is held with interrupts off, so that a
function that takes and releases locks is divided only where it holds none or
calls `swtch`.

Every trap from supervisor mode has a frame on the stack of the thread that it
interrupted.  Ghost components record what was interrupted, and the interrupt
state in which every thread acquired the first of the locks it holds.
-/

/-- A kernel thread: of a process, or the scheduler's. -/
abbrev ThreadId := Option Slot

/-- The bits of `sstatus` that traps use. -/
structure Sstatus where
  sie : Bool
  spie : Bool
  spp : Bool
  deriving Repr, DecidableEq

/-- The interrupts that the kernel tells apart. -/
inductive Interrupt where
  | timer
  | device
  deriving Repr, DecidableEq

/-- How far `sys_trap_handler` has come. -/
inductive TrapPoint where
  /-- In the switch over the interrupts. -/
  | body (irq : Interrupt)
  /-- In `yield`, after `sched`. -/
  | yielded
  /-- Before `w_sepc(sepc)`. -/
  | sepcNext
  /-- Before `w_sstatus(sstatus)`. -/
  | sstatusNext
  /-- Before the loads and the `sret` of `sys_trap_vector`. -/
  | returning
  deriving Repr, DecidableEq

/--
A trap from supervisor mode that has not returned: the handler's local
variables, where its frame is, and the program counter and registers that were
interrupted.
-/
structure TrapFrame where
  point : TrapPoint
  sepc : Word
  sstatus : Sstatus
  base : Word
  pc : Word
  x : Reg → Word

/-- Where the thread of a process is, traps apart. -/
inductive KernelPoint where
  | user
  /-- In kernel code outside the functions below. -/
  | kernel
  /-- In `yield`, after `sched`. -/
  | yielded
  /-- In `sleep(chan, lk)`, after `sched`. -/
  | asleep (lk : LockName)
  /-- In `sleep(chan, &p->lock)`, after `sched`. -/
  | asleepHolding
  /-- In `sleep(chan, lk)`, before `acquire(lk)`. -/
  | relocking (lk : LockName)
  /-- At the beginning of `forkret`. -/
  | forkret
  /-- In `proc_exit`, after `sched`. -/
  | exited
  deriving Repr, DecidableEq

/-- Where the loop of `scheduler` is. -/
inductive SchedulerPoint where
  /-- Before `intr_on`. -/
  | head
  /-- Before `acquire(&p->lock)` for the given entry of the table. -/
  | scan (p : Nat)
  | locked (p : Slot)
  /-- After `swtch` has returned. -/
  | switched (p : Slot)
  deriving Repr, DecidableEq

/-- The hart, its `struct cpu` and the threads. -/
structure ThreadState where
  hart : Machine
  sstatus : Sstatus
  noff : Int
  intena : Bool
  /-- `c->proc`; none while the scheduler runs. -/
  proc : ThreadId
  /-- The locks whose `locked` is 1. -/
  held : List LockName
  status : Slot → TaskStatus
  context : ThreadId → Reg → Word
  traps : ThreadId → List TrapFrame
  point : Slot → KernelPoint
  scheduler : SchedulerPoint
  panicked : Bool
  /-- Whether interrupts were enabled at a thread's first `acquire`. -/
  entry : ThreadId → Option Bool

/-- What happens next. -/
inductive ThreadAction where
  /-- An interrupt is taken in supervisor mode. -/
  | interrupt (irq : Interrupt)
  /-- Instructions that change registers and memory. -/
  | execute (pc : Word) (x : Reg → Word) (mem : Word → Word)
  | acquire (lk : LockName)
  | release (lk : LockName)
  /-- `wakeup` finds a sleeping process. -/
  | wake (q : Slot)
  | yield
  | sleep (lk : LockName)
  /-- `proc_exit` sets the status. -/
  | zombie
  /-- `proc_exit` calls `sched`. -/
  | exit
  /-- The code after `sched` in `yield` and `sleep`, or `forkret`. -/
  | goOn
  /-- A trap from user mode; a system call enables interrupts. -/
  | usertrap (syscall : Bool)
  | usertrapret (epc : Word)
  /-- The next part of the loop of `scheduler`. -/
  | schedule
  /-- The next part of `sys_trap_handler`. -/
  | handler
  /-- A new process is made ready. -/
  | create (q : Slot) (context : Reg → Word)
  /-- The table entry of a process that has exited becomes free. -/
  | reap (q : Slot)

/-- The registers that `swtch` stores and loads. -/
def contextRegs : List Reg :=
  [.s0, .s1, .s2, .s3, .s4, .s5, .s6, .s7, .s8, .s9, .s10, .s11, .ra, .sp]

namespace ThreadState

/-- `intr_on` and `intr_off` -/
def setSie (s : ThreadState) (sie : Bool) : ThreadState :=
  { s with sstatus := { s.sstatus with sie := sie } }

/-- `push_off` -/
def pushOff (s : ThreadState) : ThreadState :=
  { s.setSie false with
    intena := if s.noff = 0 then s.sstatus.sie else s.intena
    noff := s.noff + 1 }

/-- `pop_off` -/
def popOff (s : ThreadState) : ThreadState :=
  { s.setSie (s.sstatus.sie || decide (s.noff - 1 = 0) && s.intena) with
    noff := s.noff - 1 }

/-- `acquire(lk)`; on the only hart a lock that is held is waited for forever. -/
def acquire (s : ThreadState) (lk : LockName) : Option ThreadState :=
  if lk ∈ s.held then
    none
  else
    some
      { s.pushOff with
        held := lk :: s.held
        entry :=
          if s.held = [] then
            Function.update s.entry s.proc (some s.sstatus.sie)
          else
            s.entry }

/-- `release(lk)` of a lock that is held. -/
def release (s : ThreadState) (lk : LockName) : Option ThreadState :=
  if lk ∈ s.held then
    some { s with held := s.held.erase lk }.popOff
  else
    none

/-- `swtch` from the running thread to another. -/
def swtch (s : ThreadState) (target : ThreadId) : ThreadState :=
  { s with
    context := Function.update s.context s.proc s.hart.x
    hart :=
      { s.hart with
        x := fun reg =>
          if reg ∈ contextRegs then s.context target reg else s.hart.x reg
        pc := s.context target .ra }
    proc := target }

/-- A kernel panic. -/
def panic (s : ThreadState) : ThreadState :=
  { s with panicked := true }

/-- `sched()` -/
def sched (s : ThreadState) (p : Slot) : ThreadState :=
  if LockName.process p ∉ s.held then
    s.panic
  else if s.noff ≠ 1 then
    s.panic
  else if s.status p = .running then
    s.panic
  else if s.sstatus.sie then
    s.panic
  else
    s.swtch none

/-- Replace the status of a process. -/
def setStatus
    (s : ThreadState)
    (p : Slot)
    (status : TaskStatus) : ThreadState :=
  { s with status := Function.update s.status p status }

/-- Move the thread of a process. -/
def setPoint
    (s : ThreadState)
    (p : Slot)
    (point : KernelPoint) : ThreadState :=
  { s with point := Function.update s.point p point }

/-- Move the innermost trap of the running thread. -/
def setTrap
    (s : ThreadState)
    (frame : TrapFrame)
    (outer : List TrapFrame)
    (point : TrapPoint) : ThreadState :=
  { s with
    traps :=
      Function.update s.traps s.proc ({ frame with point := point } :: outer) }

/-- `yield()` up to `swtch`. -/
def yield (s : ThreadState) (p : Slot) : Option ThreadState :=
  (s.acquire (.process p)).map fun s => (s.setStatus p .ready).sched p

/-- `sleep(chan, lk)` up to `swtch`. -/
def sleep
    (s : ThreadState)
    (p : Slot)
    (lk : LockName) : Option ThreadState :=
  if lk = .process p then
    some (((s.setPoint p .asleepHolding).setStatus p .sleeping).sched p)
  else
    ((s.setPoint p (.asleep lk)).acquire (.process p)).bind fun s =>
      (s.release lk).map fun s => (s.setStatus p .sleeping).sched p

/-- The last two lines of `proc_exit`, up to `swtch`. -/
def exit (s : ThreadState) (p : Slot) : Option ThreadState :=
  ((s.setPoint p .exited).acquire (.process p)).map fun s => s.sched p

/-- What a process does when `swtch` has returned to it. -/
def goOn (s : ThreadState) (p : Slot) : Option ThreadState :=
  match s.point p with
  | .yielded => (s.setPoint p .kernel).release (.process p)
  | .asleep lk => (s.setPoint p (.relocking lk)).release (.process p)
  | .asleepHolding => some (s.setPoint p .kernel)
  | .relocking lk => (s.setPoint p .kernel).acquire lk
  | .forkret => (s.setPoint p .kernel).release (.process p)
  | .exited => some s.panic
  | .user => none
  | .kernel => none

/-- `scheduler`, to the next point at which it can be interrupted. -/
def schedule (s : ThreadState) : Option ThreadState :=
  match s.scheduler with
  | .head => some { s.setSie true with scheduler := .scan 0 }
  | .scan p =>
      if isSlot : p < NPROC then
        { s with scheduler := .locked ⟨p, isSlot⟩ }.acquire
          (.process ⟨p, isSlot⟩)
      else
        some { s with scheduler := .head }
  | .locked p =>
      if s.status p = .ready then
        some ({ s.setStatus p .running with
          scheduler := .switched p }.swtch (some p))
      else
        { s with scheduler := .scan (p.val + 1) }.release (.process p)
  | .switched p =>
      { s with scheduler := .scan (p.val + 1) }.release (.process p)

/-- All traps that have not returned. -/
def frames (s : ThreadState) : List TrapFrame :=
  s.traps none ++ (List.finRange NPROC).flatMap fun p => s.traps (some p)

/-- Two frames do not overlap. -/
def apart (first second : Word) : Bool :=
  decide (256 ≤ (first - second).toNat ∧ 256 ≤ (second - first).toNat)

/-- The stack has room for a frame. -/
def hasRoom (s : ThreadState) : Bool :=
  s.frames.all fun frame => apart s.hart.frameBase frame.base

/-- The running code is not user code. -/
def inKernel (s : ThreadState) : Bool :=
  match s.proc with
  | none => true
  | some p => !(s.traps s.proc).isEmpty || s.point p != .user

/--
An interrupt in supervisor mode: the hart saves the program counter and the
interrupt state, `sys_trap_vector` saves the registers, and `sys_trap_handler`
reads the control registers and checks them.
-/
def trap (s : ThreadState) (irq : Interrupt) : ThreadState :=
  let sstatus : Sstatus :=
    { sie := false, spie := s.sstatus.sie, spp := true }
  let hart := { s.hart with csr := Function.update s.hart.csr .sepc s.hart.pc }
  let frame : TrapFrame :=
    { point := .body irq
      sepc := hart.csr .sepc
      sstatus := sstatus
      base := hart.frameBase
      pc := s.hart.pc
      x := s.hart.x }
  let after :=
    { s with
      hart := vectorEntry hart
      sstatus := sstatus
      traps := Function.update s.traps s.proc (frame :: s.traps s.proc) }
  if sstatus.spp = false ∨ sstatus.sie = true then after.panic else after

/-- The next part of `sys_trap_handler`, and the return from it. -/
def handler (s : ThreadState) : Option ThreadState :=
  match s.traps s.proc with
  | [] => none
  | frame :: outer =>
      match frame.point with
      | .body .timer =>
          match s.proc with
          | none => some (s.setTrap frame outer .sepcNext)
          | some p =>
              if s.status p = .running then
                (s.setTrap frame outer .yielded).yield p
              else
                some (s.setTrap frame outer .sepcNext)
      | .body .device =>
          if s.held = [] then
            some (s.setTrap frame outer .sepcNext)
          else
            none
      | .yielded =>
          match s.proc with
          | none => none
          | some p =>
              (s.setTrap frame outer .sepcNext).release (.process p)
      | .sepcNext =>
          some
            { s.setTrap frame outer .sstatusNext with
              hart :=
                { s.hart with
                  csr := Function.update s.hart.csr .sepc frame.sepc } }
      | .sstatusNext =>
          some
            { s.setTrap frame outer .returning with sstatus := frame.sstatus }
      | .returning =>
          -- Compiled C code returns with the stack pointer it was called with.
          if s.hart.x .sp = frame.base then
            some
              { s with
                hart := vectorExit s.hart
                sstatus :=
                  { sie := s.sstatus.spie, spie := true, spp := false }
                traps := Function.update s.traps s.proc outer }
          else
            none

/-- The slots of a frame on the stack. -/
def frameSlots (base : Word) : List Word :=
  (List.range 32).map fun slot => base + BitVec.ofNat 64 (8 * slot)

/-- Code that leaves the frames on the stacks alone. -/
def execute
    (s : ThreadState)
    (pc : Word)
    (x : Reg → Word)
    (mem : Word → Word) : Option ThreadState :=
  if s.frames.all fun frame =>
      (frameSlots frame.base).all fun address =>
        mem address == s.hart.mem address then
    some { s with hart := { s.hart with pc := pc, x := x, mem := mem } }
  else
    none

/-- The running process, where it executes kernel code outside any trap. -/
def client? (s : ThreadState) : Option Slot :=
  s.proc.filter fun p => (s.traps s.proc).isEmpty && s.point p == .kernel

/-- The running code may be a function that takes and releases locks. -/
def mayLock (s : ThreadState) : Bool :=
  s.client?.isSome ||
    (s.traps s.proc).head?.any fun frame => frame.point == .body .device

/-- A trap from user mode. -/
def usertrap (s : ThreadState) (syscall : Bool) : ThreadState :=
  { s with
    hart := { s.hart with csr := Function.update s.hart.csr .sepc s.hart.pc }
    sstatus := { sie := syscall, spie := s.sstatus.sie, spp := false } }

/-- `usertrapret` and the return to user mode. -/
def usertrapret (s : ThreadState) (epc : Word) : ThreadState :=
  { s with
    hart :=
      { s.hart with
        csr := Function.update s.hart.csr .sepc epc
        pc := epc }
    sstatus := { sie := true, spie := true, spp := false } }

/-- One step. -/
def step? (s : ThreadState) (action : ThreadAction) : Option ThreadState :=
  if s.panicked then
    none
  else
    match action with
    | .interrupt irq =>
        if s.sstatus.sie = true ∧ s.inKernel = true ∧ s.hasRoom = true then
          some (s.trap irq)
        else
          none
    | .execute pc x mem => s.execute pc x mem
    | .acquire lk => if s.mayLock then s.acquire lk else none
    | .release lk => if s.mayLock then s.release lk else none
    | .wake q =>
        if LockName.process q ∈ s.held ∧ s.status q = .sleeping then
          some (s.setStatus q .ready)
        else
          none
    | .yield =>
        s.client?.bind fun p => (s.setPoint p .yielded).yield p
    | .sleep lk => s.client?.bind fun p => s.sleep p lk
    | .zombie => s.client?.map fun p => s.setStatus p .zombie
    | .exit => s.client?.bind fun p => s.exit p
    | .goOn =>
        s.proc.bind fun p =>
          if (s.traps s.proc).isEmpty then s.goOn p else none
    | .usertrap syscall =>
        s.proc.bind fun p =>
          if (s.traps s.proc).isEmpty ∧ s.point p = .user then
            some ((s.setPoint p .kernel).usertrap syscall)
          else
            none
    | .usertrapret epc =>
        s.client?.bind fun p =>
          if s.held = [] then
            some ((s.setPoint p .user).usertrapret epc)
          else
            none
    | .schedule =>
        if s.proc = none ∧ (s.traps none).isEmpty then s.schedule else none
    | .handler => s.handler
    | .create q context =>
        if s.status q = .free ∧ s.proc ≠ some q then
          some
            { (s.setPoint q .forkret).setStatus q .ready with
              context := Function.update s.context (some q) context
              traps := Function.update s.traps (some q) []
              entry := Function.update s.entry (some q) none }
        else
          none
    | .reap q =>
        if s.status q = .zombie ∧ s.proc ≠ some q then
          some (s.setStatus q .free)
        else
          none

/-- The graph of `step?`. -/
def Step
    (s : ThreadState)
    (action : ThreadAction)
    (after : ThreadState) : Prop :=
  s.step? action = some after

/-- The kernel when it calls `scheduler`, with the given processes ready. -/
def boot
    (hart : Machine)
    (context : ThreadId → Reg → Word)
    (ready : Slot → Bool) : ThreadState where
  hart := hart
  sstatus := { sie := true, spie := true, spp := false }
  noff := 0
  intena := true
  proc := none
  held := []
  status := fun p => if ready p then .ready else .free
  context := context
  traps := fun _ => []
  point := fun _ => .forkret
  scheduler := .head
  panicked := false
  entry := fun _ => none

/-- A hart with zeros in its registers and memory. -/
def zeroHart : Machine where
  x := fun _ => 0
  f := fun _ => 0
  fcsr := 0
  csr := fun _ => 0
  pc := 0
  mem := fun _ => 0

end ThreadState

end MyOS
