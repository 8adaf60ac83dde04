import MyOS.Lib.Run
import MyOS.VirtioDisk

namespace MyOS

/-!
# The buffer cache

The functions of `bio.c` over the driver, and the steps of any number of
processes that call them.  The kernel has one CPU and a process inside these
functions gives it up only where `virtio_disk_rw` sleeps, so that a step runs
from one wait to the next.

Every caller of `bwrite` has stored into the buffer since it was last given the
CPU; a step of `bwrite` starts with that store.
-/

/-- What happens next. -/
inductive DiskAction where
  | bread (process blockno : Nat)
  /-- The process stores new bytes into the buffer and calls `bwrite`. -/
  | bwrite (process : Nat) (b : BufferIndex) (data : Block)
  | brelse (process : Nat) (b : BufferIndex)
  /-- A process goes on after a wait in `virtio_disk_rw`. -/
  | resume (process : Nat)
  /-- The device reads an entry of the available ring. -/
  | fetch
  /-- The device serves a request. -/
  | serve (head : DescIndex)
  /-- The interrupt of the device is handled. -/
  | interrupt

/-- A process was given the buffer by `bread`. -/
def BufferRef.uses
    (process : Nat)
    (b : BufferIndex)
    (ref : BufferRef) : Bool :=
  ref.process == process && ref.b == b

namespace DiskState

/-- `binit`'s list: every buffer is inserted at the head. -/
def binit : List BufferIndex :=
  (List.finRange NBUF).foldl (fun list b => b :: list) []

/-- `bget`, with the buffer that it returns; none is its panic. -/
def bget
    (s : DiskState)
    (dev blockno : Nat) : Option (BufferIndex × DiskState) :=
  match s.lru.find? fun b =>
      (s.buf b).dev == dev && (s.buf b).blockno == blockno with
  | some b =>
      some (b, s.setBuf b { s.buf b with refcnt := (s.buf b).refcnt + 1 })
  | none =>
      (s.lru.reverse.find? fun b => (s.buf b).refcnt == 0).map fun b =>
        (b, s.setBuf b
          { s.buf b with
            dev := dev
            blockno := blockno
            valid := false
            refcnt := 1 })

/-- `bread(ROOTDEV, blockno)` up to its return or its wait for the disk. -/
def bread (s : DiskState) (process blockno : Nat) : DiskState :=
  match s.bget ROOTDEV blockno with
  | none => s.panic .noBuffers
  | some (b, s) =>
      let s := { s with refs := ⟨process, b, blockno⟩ :: s.refs }
      if (s.buf b).valid then
        s
      else
        (s.setBuf b { s.buf b with valid := true }).diskRw process ⟨b, false⟩

/-- `bwrite(b)` after a store of its caller, up to its wait for the disk. -/
def bwrite
    (s : DiskState)
    (process : Nat)
    (b : BufferIndex)
    (data : Block) : DiskState :=
  let s :=
    { s.setBuf b { s.buf b with data := data } with
      content := Function.update s.content (s.buf b).blockno data }
  s.diskRw process ⟨b, true⟩

/-- `brelse(b)` -/
def brelse (s : DiskState) (process : Nat) (b : BufferIndex) : DiskState :=
  let refcnt := (s.buf b).refcnt - 1
  { s.setBuf b { s.buf b with refcnt := refcnt } with
    lru := if refcnt = 0 then b :: s.lru.erase b else s.lru
    refs := s.refs.eraseP (BufferRef.uses process b) }

/--
One step.  A process calls these functions with blocks of the device and with
buffers that `bread` has given it and that it has not released.
-/
def step? (s : DiskState) (action : DiskAction) : Option DiskState :=
  if s.panicked.isSome then
    none
  else
    match action with
    | .bread process blockno =>
        if s.point process = .client ∧ blockno < FSSIZE then
          some (s.bread process blockno)
        else
          none
    | .bwrite process b data =>
        if s.point process = .client ∧
            s.refs.any (BufferRef.uses process b) then
          some (s.bwrite process b data)
        else
          none
    | .brelse process b =>
        if s.point process = .client ∧
            s.refs.any (BufferRef.uses process b) then
          some (s.brelse process b)
        else
          none
    | .resume process => s.resume process
    | .fetch => s.fetch
    | .serve head => s.serve head
    | .interrupt => some s.virtioDiskIntr

/-- The graph of `step?`. -/
def Step (s : DiskState) (action : DiskAction) (after : DiskState) : Prop :=
  s.step? action = some after

/-- The kernel before the first use of the cache of a disk. -/
def boot (image : Nat → Block) : DiskState where
  buf := fun _ =>
    { valid := false
      disk := false
      dev := 0
      blockno := 0
      refcnt := 0
      data := fun _ => 0 }
  lru := binit
  free := fun _ => true
  desc := fun _ => ⟨.null, 0, 0, zeroDesc⟩
  req := fun _ => ⟨0, 0, 0⟩
  info := fun _ => ⟨none, 0⟩
  availRing := fun _ => zeroDesc
  availIdx := 0
  usedRing := fun _ => zeroDesc
  postedIdx := 0
  usedIdx := 0
  fetchedIdx := 0
  inFlight := []
  disk := image
  point := fun _ => .client
  asleep := fun _ => false
  refs := []
  content := image
  phase := fun _ => .completed
  panicked := none

/-- The call of a process whose request the device has not served. -/
def unserved? (s : DiskState) (process : Nat) : Option DiskCall :=
  (s.point process).unserved? s.phase

/-- A process waits in `bread` for the buffer. -/
def isReading (s : DiskState) (process : Nat) (b : BufferIndex) : Bool :=
  decide ((s.point process).call? = some ⟨b, false⟩)

/-- The buffer's disk read has not completed. -/
def isLoading (s : DiskState) (b : BufferIndex) : Bool :=
  s.refs.any fun ref =>
    decide (ref.b = b ∧ s.unserved? ref.process = some ⟨b, false⟩)

/-- `bread` has returned the buffer and it has not been released. -/
def Returned (s : DiskState) (ref : BufferRef) : Prop :=
  ref ∈ s.refs ∧ s.isReading ref.process ref.b = false

/-- `bread` is about to find its block in a slot that is still loading. -/
def hitsLoading (s : DiskState) (blockno : Nat) : Bool :=
  (List.finRange NBUF).any fun b =>
    (s.buf b).dev == ROOTDEV && (s.buf b).blockno == blockno && s.isLoading b

/-- A process is about to leave `virtio_disk_rw` before its own completion. -/
def leavesEarly (s : DiskState) (process : Nat) : Bool :=
  match s.point process with
  | .completion call idx =>
      !(s.buf call.b).disk && decide (s.phase idx.head ≠ .completed)
  | _ => false

/-- The branch that goes wrong is taken. -/
def goesWrong (s : DiskState) : DiskAction → Bool
  | .bread _ blockno => s.hitsLoading blockno
  | .resume process => s.leavesEarly process
  | _ => false

/--
No `bread` finds its block in a slot whose disk read has not completed, and no
process leaves `virtio_disk_rw` before its own request has completed.
-/
def WaitsForOwn (s : DiskState) (action : DiskAction) : Prop :=
  s.goesWrong action = false

instance (s : DiskState) (action : DiskAction) :
    Decidable (WaitsForOwn s action) :=
  inferInstanceAs (Decidable (_ = false))

end DiskState

end MyOS
