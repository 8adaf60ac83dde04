import MyOS.Lib.Run
import MyOS.ProcTable

namespace MyOS

/-!
# Pipes

`pipewrite`, `piperead` and `pipeclose` on one pipe, called by the processes of
the table.  The kernel has one CPU and holds the pipe's lock with interrupts
off, so that a step runs from where the lock is taken to where it is released,
by a return or by `sleep`.

A ghost component records every byte that was stored, with the call that stored
it, and every byte that was taken out.
-/

/-- Bytes of a pipe's ring. -/
def PIPESIZE : Nat := 512

/-- `nread` and `nwrite` are 32 bits wide. -/
def counterModulus : Nat := 0x100000000

/-- User addresses are computed in 64 bits. -/
def addressModulus : Nat := 0x10000000000000000

/-- A call of `pipewrite`; `call` numbers the calls in their order. -/
structure PipeWrite where
  call : Nat
  kernelBuf : Nat → UInt8
  n : Int

/--
A call of `piperead`; `present` says which pages the process's page table maps
with `PTE_V`.
-/
structure PipeRead where
  addr : Nat
  n : Int
  present : Nat → Bool

/-- What `walk` finds for a byte of the caller's memory. -/
inductive PageLookup where
  | present
  /-- There is no entry, or it is not valid. -/
  | absent
  /-- The address is out of range: the kernel panics. -/
  | outOfRange
  deriving Repr, DecidableEq

/-- `walk(p->pagetable, PGROUNDDOWN(addr + i), 0)` -/
def PipeRead.walk (read : PipeRead) (i : Nat) : PageLookup :=
  let page := pgRoundDown ((read.addr + i) % addressModulus)
  if MAXVA ≤ page then
    .outOfRange
  else if read.present page then
    .present
  else
    .absent

/-- A stored byte: the one at `index` of a call's buffer. -/
structure PipeByte where
  write : PipeWrite
  index : Nat

/-- The byte itself. -/
def PipeByte.value (byte : PipeByte) : UInt8 :=
  byte.write.kernelBuf byte.index

/-- The addresses that the pipe's callers sleep on. -/
inductive PipeChannel where
  | nread
  | nwrite
  deriving Repr, DecidableEq

/-- Where a process is with respect to the pipe. -/
inductive PipePoint where
  /-- Not inside `pipewrite` or `piperead`. -/
  | client
  /-- In the loop of `pipewrite`, at its `sleep`. -/
  | writing (write : PipeWrite) (i : Nat)
  /-- In the first loop of `piperead`, at its `sleep`. -/
  | reading (read : PipeRead)

namespace PipePoint

/-- The process is outside the two functions. -/
def isClient : PipePoint → Bool
  | .client => true
  | _ => false

/-- What a sleeping process sleeps on. -/
def channel? : PipePoint → Option PipeChannel
  | .client => none
  | .writing _ _ => some .nwrite
  | .reading _ => some .nread

/-- The write that a process is in, with the number of bytes it has stored. -/
def write? : PipePoint → Option (PipeWrite × Nat)
  | .writing write i => some (write, i)
  | _ => none

/-- The process is inside a call that its file for this end was passed to. -/
def uses (point : PipePoint) (writable : Bool) : Bool :=
  point.channel? == some (if writable then .nwrite else .nread)

end PipePoint

/-- A call and what it returned. -/
inductive PipeReturn where
  | write (process : Slot) (write : PipeWrite) (result : Int)
  | read (process : Slot) (read : PipeRead) (result : Int)

/-- `struct pipe` and its callers. -/
structure PipeState where
  data : Nat → UInt8
  nread : Nat
  nwrite : Nat
  readopen : Bool
  writeopen : Bool
  /-- A panic inside the functions: the lock is held for ever. -/
  locked : Bool
  /-- The page of the pipe has been freed. -/
  freed : Bool
  killed : Slot → Bool
  point : Slot → PipePoint
  asleep : Slot → Bool
  /-- What the last step returned from. -/
  returned : Option PipeReturn
  writes : Nat
  put : List PipeByte
  taken : List UInt8

/-- What happens next. -/
inductive PipeAction where
  | pipewrite (process : Slot) (kernelBuf : Nat → UInt8) (n : Int)
  | piperead (process : Slot) (read : PipeRead)
  /-- A process goes on after its `sleep`. -/
  | resume (process : Slot)
  /-- The last reference to the file of one end is closed. -/
  | pipeclose (writable : Bool)
  /-- `consoleintr` kills a process: a sleeping one becomes ready. -/
  | kill (process : Slot)
  /-- A process outside the pipe's functions is replaced by a new one. -/
  | allocproc (process : Slot)

namespace PipeState

/-- `pi->nwrite - pi->nread` -/
def count (s : PipeState) : Nat :=
  (s.nwrite + counterModulus - s.nread) % counterModulus

/-- `wakeup(chan)` -/
def wakeup (s : PipeState) (chan : PipeChannel) : PipeState :=
  { s with
    asleep := fun process =>
      s.asleep process && (s.point process).channel? != some chan }

/-- `sleep` on the channel of the point at which the call goes on. -/
def sleepAt
    (s : PipeState)
    (process : Slot)
    (point : PipePoint) : PipeState :=
  { s with
    point := Function.update s.point process point
    asleep := Function.update s.asleep process true
    returned := none }

/-- A call releases the lock and returns. -/
def leave
    (s : PipeState)
    (process : Slot)
    (result : PipeReturn) : PipeState :=
  { s with
    point := Function.update s.point process .client
    returned := some result }

/-- A byte enters the ring. -/
def store (s : PipeState) (byte : PipeByte) : PipeState :=
  { s with
    data := Function.update s.data (s.nwrite % PIPESIZE) byte.value
    nwrite := (s.nwrite + 1) % counterModulus
    put := s.put ++ [byte] }

/-- The oldest byte leaves the ring. -/
def takeOut (s : PipeState) : PipeState :=
  { s with
    nread := (s.nread + 1) % counterModulus
    taken := s.taken ++ [s.data (s.nread % PIPESIZE)] }

/-- The loop of `pipewrite` with `left` more bytes to store, from the `i`th. -/
def pipewriteLoop
    (process : Slot)
    (write : PipeWrite) : Nat → Nat → PipeState → PipeState
  | 0, i, s =>
      (s.wakeup .nread).leave process (.write process write i)
  | left + 1, i, s =>
      if s.killed process then
        s.leave process (.write process write (-1))
      else if s.readopen = false then
        s.leave process (.write process write (-1))
      else if s.count = PIPESIZE then
        (s.wakeup .nread).sleepAt process (.writing write i)
      else
        pipewriteLoop process write left (i + 1) (s.store ⟨write, i⟩)

/-- `pipewrite` from the head of its loop with `i` bytes stored. -/
def pipewrite
    (s : PipeState)
    (process : Slot)
    (write : PipeWrite)
    (i : Nat) : PipeState :=
  pipewriteLoop process write (write.n - i).toNat i s

/-- The second loop of `piperead` with `left` more bytes to read. -/
def pipereadLoop
    (process : Slot)
    (read : PipeRead) : Nat → Nat → PipeState → PipeState
  | 0, i, s =>
      (s.wakeup .nwrite).leave process (.read process read i)
  | left + 1, i, s =>
      if s.nwrite = s.nread then
        (s.wakeup .nwrite).leave process (.read process read i)
      else
        match read.walk i with
        | .present => pipereadLoop process read left (i + 1) s.takeOut
        | .absent => s.leave process (.read process read (-1))
        | .outOfRange => { s with locked := true, returned := none }

/-- `piperead` from the head of its first loop. -/
def piperead
    (s : PipeState)
    (process : Slot)
    (read : PipeRead) : PipeState :=
  if s.nwrite = s.nread then
    if s.killed process then
      s.leave process (.read process read (-1))
    else if s.writeopen = false then
      s.leave process (.read process read 0)
    else
      (s.wakeup .nwrite).sleepAt process (.reading read)
  else
    pipereadLoop process read read.n.toNat 0 s

/-- A woken process takes the lock again and checks whether it was killed. -/
def resume (s : PipeState) (process : Slot) : Option PipeState :=
  if s.asleep process then
    none
  else
    match s.point process with
    | .client => none
    | .writing write i =>
        if s.killed process then
          some (s.leave process (.write process write (-1)))
        else
          some (s.pipewrite process write i)
    | .reading read =>
        if s.killed process then
          some (s.leave process (.read process read (-1)))
        else
          some (s.piperead process read)

/-- `pipeclose` up to its test of both ends. -/
def closeEnd (s : PipeState) (writable : Bool) : PipeState :=
  if writable then
    ({ s with writeopen := false, returned := none }).wakeup .nread
  else
    ({ s with readopen := false, returned := none }).wakeup .nwrite

/-- `kfree(pi)` if no end is open. -/
def freeClosed (s : PipeState) : PipeState :=
  if s.readopen = false ∧ s.writeopen = false then
    { s with freed := true }
  else
    s

/-- `pipeclose(pi, writable)` -/
def pipeclose (s : PipeState) (writable : Bool) : PipeState :=
  (s.closeEnd writable).freeClosed

/-- The file for this end is still open. -/
def isOpen (s : PipeState) (writable : Bool) : Bool :=
  if writable then s.writeopen else s.readopen

/-- A process is inside a call that its file for this end was passed to. -/
def inUse (s : PipeState) (writable : Bool) : Bool :=
  (List.finRange NPROC).any fun process => (s.point process).uses writable

/--
One step.  A call is passed a file that is open, and keeps a reference to it
until it returns; `fileclose` closes an end when it drops the last reference.
-/
def step? (s : PipeState) (action : PipeAction) : Option PipeState :=
  if s.locked then
    none
  else
    match action with
    | .pipewrite process kernelBuf n =>
        if (s.point process).isClient ∧ s.isOpen true then
          some (({ s with writes := s.writes + 1 }).pipewrite process
            ⟨s.writes, kernelBuf, n⟩ 0)
        else
          none
    | .piperead process read =>
        if (s.point process).isClient ∧ s.isOpen false then
          some (s.piperead process read)
        else
          none
    | .resume process => s.resume process
    | .pipeclose writable =>
        if s.isOpen writable ∧ s.inUse writable = false then
          some (s.pipeclose writable)
        else
          none
    | .kill process =>
        some
          { s with
            killed := Function.update s.killed process true
            asleep := Function.update s.asleep process false
            returned := none }
    | .allocproc process =>
        if (s.point process).isClient then
          some
            { s with
              killed := Function.update s.killed process false
              returned := none }
        else
          none

/-- The graph of `step?`. -/
def Step (s : PipeState) (action : PipeAction) (after : PipeState) : Prop :=
  s.step? action = some after

/-- The pipe that `sys_pipe` makes on a page with any content. -/
def create (data : Nat → UInt8) : PipeState where
  data := data
  nread := 0
  nwrite := 0
  readopen := true
  writeopen := true
  locked := false
  freed := false
  killed := fun _ => false
  point := fun _ => .client
  asleep := fun _ => false
  returned := none
  writes := 0
  put := []
  taken := []

/-- The bytes that one call of `pipewrite` has stored. -/
def entered (s : PipeState) (call : Nat) : List PipeByte :=
  s.put.filter fun byte => byte.write.call == call

/--
The pipe is a bounded first-in first-out channel, in which a read of at least
`least` bytes returns 0 only at the end of the stream.
-/
structure FifoChannel (s : PipeState) (least : Int) : Prop where
  fifo : s.taken <+: s.put.map PipeByte.value
  order :
    ∀ call, ∃ write stored,
      write.call = call ∧
        s.entered call = (List.range stored).map (PipeByte.mk write)
  whole :
    ∀ process write result,
      s.returned = some (.write process write result) → 0 ≤ result →
        s.entered write.call =
          (List.range result.toNat).map (PipeByte.mk write)
  bounded : s.count ≤ PIPESIZE
  ends :
    ∀ process read,
      s.returned = some (.read process read 0) → least ≤ read.n →
        s.nwrite = s.nread ∧ s.writeopen = false

/-- While the lock is free nobody sleeps that has something to do. -/
def NoLostWakeup (s : PipeState) : Prop :=
  s.locked = false →
    ∀ process, s.asleep process = true →
      ((s.point process).channel? = some .nread →
          s.nwrite = s.nread ∧ s.writeopen = true) ∧
        ((s.point process).channel? = some .nwrite →
          s.count = PIPESIZE ∧ s.readopen = true)

/-- A writer is asleep. -/
def writerAsleep (s : PipeState) : Bool :=
  (List.finRange NPROC).any fun process =>
    s.asleep process && (s.point process).uses true

/-- The read takes at least one byte and then finds a page that is absent. -/
def stopsShort (s : PipeState) (read : PipeRead) : Bool :=
  (List.range (min read.n.toNat s.count)).any fun i =>
    decide (0 < i) && decide (read.walk i = .absent) &&
      (List.range i).all fun j => decide (read.walk j = .present)

/-- The branch that goes wrong is taken. -/
def forgetsWriter (s : PipeState) : PipeAction → Bool
  | .piperead _ read => s.writerAsleep && s.stopsShort read
  | .resume process =>
      match s.point process with
      | .reading read =>
          s.writerAsleep && !s.killed process && s.stopsShort read
      | _ => false
  | _ => false

/--
While a writer sleeps, no read that has taken a byte finds a page of its buffer
absent.
-/
def RemembersWriter (s : PipeState) (action : PipeAction) : Prop :=
  s.forgetsWriter action = false

instance (s : PipeState) (action : PipeAction) :
    Decidable (RemembersWriter s action) :=
  inferInstanceAs (Decidable (_ = false))

end PipeState

end MyOS
