import Mathlib.Data.List.FinRange
import Mathlib.Logic.Function.Basic
import MyOS.Param

namespace MyOS

/-!
# The disk driver and the device

The structures of `virtio_disk.c` and of the buffers it works on, the driver's
functions between two waits, and the device that serves the requests it has
read from the available ring in any order.

A ghost component records which processes use which buffers, what was last
written to every block through the cache, and how far each request has come.
-/

/-- Number of descriptors in the queue. -/
def NUM : Nat := 8

/-- The descriptor continues in the next one. -/
def VRING_DESC_F_NEXT : Nat := 1

/-- The device writes the memory of the descriptor. -/
def VRING_DESC_F_WRITE : Nat := 2

/-- Read a block from the disk. -/
def VIRTIO_BLK_T_IN : Nat := 0

/-- Write a block to the disk. -/
def VIRTIO_BLK_T_OUT : Nat := 1

/-- The indices of both rings are 16 bits wide. -/
def ringModulus : Nat := 0x10000

/-- The bytes of a disk block. -/
abbrev Block := Fin BSIZE → UInt8

/-- Slots of the buffer cache. -/
abbrev BufferIndex := Fin NBUF

/-- Slots of the descriptor table. -/
abbrev DescIndex := Fin NUM

/-- The descriptor that a zero index names. -/
def zeroDesc : DescIndex := ⟨0, by decide⟩

/-- The head of the second request after the driver's start. -/
def secondHead : DescIndex := ⟨3, by decide⟩

/-- The slot that the first `bread` after the start recycles. -/
def firstBuffer : BufferIndex := ⟨0, by decide⟩

/-- `struct buf`, without the links of the cache's list. -/
structure Buf where
  valid : Bool
  disk : Bool
  dev : Nat
  blockno : Nat
  refcnt : Nat
  data : Block

/-- The memory that the driver gives the device access to. -/
inductive DmaAddress where
  | null
  /-- `&disk_req[head]` -/
  | request (head : DescIndex)
  /-- `b->data` -/
  | data (b : BufferIndex)
  /-- `&disk.info[head].status` -/
  | status (head : DescIndex)
  deriving Repr, DecidableEq

/-- `struct virtq_desc` -/
structure VirtqDesc where
  addr : DmaAddress
  len : Nat
  flags : Nat
  next : DescIndex
  deriving Repr, DecidableEq

/-- `struct virtio_blk_req` -/
structure VirtioBlkReq where
  type : Nat
  reserved : Nat
  sector : Nat
  deriving Repr, DecidableEq

/-- An entry of `disk.info`. -/
structure RequestInfo where
  b : Option BufferIndex
  status : Nat
  deriving Repr, DecidableEq

/-- The local array `idx` of `virtio_disk_rw`. -/
structure RequestChain where
  head : DescIndex
  data : DescIndex
  status : DescIndex
  deriving Repr, DecidableEq

/-- The arguments of `virtio_disk_rw`. -/
structure DiskCall where
  b : BufferIndex
  write : Bool
  deriving Repr, DecidableEq

/-- Where a process is in `virtio_disk_rw`. -/
inductive DiskPoint where
  /-- Not inside it. -/
  | client
  /-- In the loop around `alloc3_desc`. -/
  | descriptors (call : DiskCall)
  /-- In the loop that waits for `b->disk` to become zero. -/
  | completion (call : DiskCall) (idx : RequestChain)
  deriving Repr, DecidableEq

/-- The addresses that the driver sleeps on. -/
inductive DiskChannel where
  /-- `&disk.free[0]` -/
  | descriptors
  | buffer (b : BufferIndex)
  deriving Repr, DecidableEq

/-- How far a request has come. -/
inductive RequestPhase where
  | submitted
  /-- The device has moved the data and posted the request. -/
  | served
  /-- The interrupt handler has seen it. -/
  | completed
  deriving Repr, DecidableEq

/-- What stops the kernel. -/
inductive DiskPanic where
  /-- `bget: no buffers` -/
  | noBuffers
  /-- `free_desc 2` -/
  | freeDesc
  /-- `virtio_disk_intr status` -/
  | status
  /-- The handler stores through a null buffer pointer. -/
  | nullBuffer
  deriving Repr, DecidableEq

/-- A process uses the buffer that `bread` gave it for a block. -/
structure BufferRef where
  process : Nat
  b : BufferIndex
  blockno : Nat
  deriving Repr, DecidableEq

/-- The buffer cache, the driver, the device and the processes. -/
structure DiskState where
  buf : BufferIndex → Buf
  /-- `bcache.head`'s list, from `head.next` to `head.prev`. -/
  lru : List BufferIndex
  free : DescIndex → Bool
  desc : DescIndex → VirtqDesc
  /-- The static array `disk_req`. -/
  req : DescIndex → VirtioBlkReq
  info : DescIndex → RequestInfo
  availRing : Nat → DescIndex
  availIdx : Nat
  usedRing : Nat → DescIndex
  /-- `used->idx`, written by the device. -/
  postedIdx : Nat
  /-- `disk.used_idx`, written by the driver. -/
  usedIdx : Nat
  /-- The available ring's index up to which the device has read. -/
  fetchedIdx : Nat
  /-- The requests that the device has read and not served. -/
  inFlight : List DescIndex
  disk : Nat → Block
  point : Nat → DiskPoint
  asleep : Nat → Bool
  refs : List BufferRef
  content : Nat → Block
  phase : DescIndex → RequestPhase
  panicked : Option DiskPanic

namespace DiskPoint

/-- What a process inside `virtio_disk_rw` was called with. -/
def call? : DiskPoint → Option DiskCall
  | .client => none
  | .descriptors call => some call
  | .completion call _ => some call

/-- The call of a process whose request the device has not served. -/
def unserved? (phase : DescIndex → RequestPhase) : DiskPoint → Option DiskCall
  | .client => none
  | .descriptors call => some call
  | .completion call idx =>
      if phase idx.head = .submitted then some call else none

/-- What a sleeping process sleeps on. -/
def channel? : DiskPoint → Option DiskChannel
  | .client => none
  | .descriptors _ => some .descriptors
  | .completion call _ => some (.buffer call.b)

end DiskPoint

/-- The header that `virtio_disk_rw` writes for a request. -/
def DiskCall.request (call : DiskCall) (blockno : Nat) : VirtioBlkReq where
  type := if call.write then VIRTIO_BLK_T_OUT else VIRTIO_BLK_T_IN
  reserved := 0
  sector := blockno * (BSIZE / 512) % 0x100000000

namespace RequestChain

/-- The three descriptors of a request. -/
def toList (idx : RequestChain) : List DescIndex :=
  [idx.head, idx.data, idx.status]

/-- What `virtio_disk_rw` writes into the first descriptor. -/
def headDesc (idx : RequestChain) : VirtqDesc where
  addr := .request idx.head
  len := 16
  flags := VRING_DESC_F_NEXT
  next := idx.data

/-- What `virtio_disk_rw` writes into the second descriptor. -/
def dataDesc (idx : RequestChain) (call : DiskCall) : VirtqDesc where
  addr := .data call.b
  len := BSIZE
  flags := (if call.write then 0 else VRING_DESC_F_WRITE) ||| VRING_DESC_F_NEXT
  next := idx.status

/-- What `virtio_disk_rw` writes into the third descriptor. -/
def statusDesc (idx : RequestChain) : VirtqDesc where
  addr := .status idx.head
  len := 1
  flags := VRING_DESC_F_WRITE
  next := zeroDesc

/-- The descriptor table after `virtio_disk_rw` has written a request. -/
def write
    (idx : RequestChain)
    (call : DiskCall)
    (desc : DescIndex → VirtqDesc) : DescIndex → VirtqDesc :=
  Function.update
    (Function.update (Function.update desc idx.head idx.headDesc)
      idx.data (idx.dataDesc call))
    idx.status idx.statusDesc

end RequestChain

namespace DiskState

def panic (s : DiskState) (reason : DiskPanic) : DiskState :=
  { s with panicked := some reason }

def setBuf (s : DiskState) (b : BufferIndex) (buffer : Buf) : DiskState :=
  { s with buf := Function.update s.buf b buffer }

def setPoint (s : DiskState) (process : Nat) (point : DiskPoint) : DiskState :=
  { s with point := Function.update s.point process point }

/-- `sleep(chan, &disk.vdisk_lock)` at a point that names the channel. -/
def sleepAt (s : DiskState) (process : Nat) (point : DiskPoint) : DiskState :=
  { s with
    point := Function.update s.point process point
    asleep := Function.update s.asleep process true }

/-- `wakeup(chan)` -/
def wakeup (s : DiskState) (chan : DiskChannel) : DiskState :=
  { s with
    asleep := fun process =>
      s.asleep process && decide ((s.point process).channel? ≠ some chan) }

/-- One round of the outer loop of `alloc3_desc`. -/
def allocDesc (free : DescIndex → Bool) :
    Option (DescIndex × (DescIndex → Bool)) :=
  ((List.finRange NUM).find? free).map fun i =>
    (i, Function.update free i false)

/-- `alloc3_desc`; when it fails it has put back what it took. -/
def alloc3Desc (free : DescIndex → Bool) :
    Option (RequestChain × (DescIndex → Bool)) :=
  (allocDesc free).bind fun (head, free) =>
    (allocDesc free).bind fun (data, free) =>
      (allocDesc free).map fun (status, free) =>
        (⟨head, data, status⟩, free)

/-- `free_desc` -/
def freeDesc (s : DiskState) (i : DescIndex) : DiskState :=
  if s.free i then
    s.panic .freeDesc
  else
    { s with
      desc := Function.update s.desc i ⟨.null, 0, 0, zeroDesc⟩
      free := Function.update s.free i true }.wakeup .descriptors

/--
`free_chain`; a descriptor that was freed already stops it, so it goes round at
most once for every descriptor and once more.
-/
def freeChain : Nat → DiskState → DescIndex → DiskState
  | 0, s, _ => s
  | rounds + 1, s, i =>
      let flag := (s.desc i).flags
      let nxt := (s.desc i).next
      let s := s.freeDesc i
      if s.panicked.isSome then
        s
      else if flag &&& VRING_DESC_F_NEXT ≠ 0 then
        freeChain rounds s nxt
      else
        s

/-- The middle of `virtio_disk_rw`: the request is written and announced. -/
def submit
    (s : DiskState)
    (call : DiskCall)
    (idx : RequestChain)
    (free : DescIndex → Bool) : DiskState :=
  { s with
    free := free
    req :=
      Function.update s.req idx.head (call.request (s.buf call.b).blockno)
    desc := idx.write call s.desc
    buf := Function.update s.buf call.b { s.buf call.b with disk := true }
    info := Function.update s.info idx.head ⟨some call.b, 0⟩
    availRing := Function.update s.availRing (s.availIdx % NUM) idx.head
    availIdx := (s.availIdx + 1) % ringModulus
    phase := Function.update s.phase idx.head .submitted }

/-- `virtio_disk_rw` up to its next `sleep`. -/
def diskRw (s : DiskState) (process : Nat) (call : DiskCall) : DiskState :=
  match alloc3Desc s.free with
  | none => s.sleepAt process (.descriptors call)
  | some (idx, free) =>
      (s.submit call idx free).sleepAt process (.completion call idx)

/-- A process that is not asleep goes on inside `virtio_disk_rw`. -/
def resume (s : DiskState) (process : Nat) : Option DiskState :=
  if s.asleep process then
    none
  else
    match s.point process with
    | .client => none
    | .descriptors call => some (s.diskRw process call)
    | .completion call idx =>
        if (s.buf call.b).disk then
          some (s.sleepAt process (.completion call idx))
        else
          let s :=
            { s with
              info :=
                Function.update s.info idx.head
                  { s.info idx.head with b := none } }
          some ((freeChain (NUM + 1) s idx.head).setPoint process .client)

/-- The loop of `virtio_disk_intr` over the posted requests. -/
def intrLoop : Nat → DiskState → DiskState
  | 0, s => s
  | rounds + 1, s =>
      let id := s.usedRing (s.usedIdx % NUM)
      if (s.info id).status ≠ 0 then
        s.panic .status
      else
        match (s.info id).b with
        | none => s.panic .nullBuffer
        | some b =>
            let s :=
              (s.setBuf b { s.buf b with disk := false }).wakeup (.buffer b)
            intrLoop rounds
              { s with
                usedIdx := (s.usedIdx + 1) % ringModulus
                phase := Function.update s.phase id .completed }

/-- `virtio_disk_intr` -/
def virtioDiskIntr (s : DiskState) : DiskState :=
  intrLoop ((s.postedIdx + ringModulus - s.usedIdx) % ringModulus) s

/-- The device reads the next entry of the available ring. -/
def fetch (s : DiskState) : Option DiskState :=
  if s.fetchedIdx = s.availIdx then
    none
  else
    some { s with
      inFlight := s.inFlight ++ [s.availRing (s.fetchedIdx % NUM)]
      fetchedIdx := (s.fetchedIdx + 1) % ringModulus }

/-- The device moves a block between the disk and a buffer. -/
def transfer
    (s : DiskState)
    (request : VirtioBlkReq)
    (b : BufferIndex) : DiskState :=
  let blockno := request.sector / (BSIZE / 512)
  if request.type = VIRTIO_BLK_T_IN then
    s.setBuf b { s.buf b with data := s.disk blockno }
  else
    { s with disk := Function.update s.disk blockno (s.buf b).data }

/-- The device serves a request that it has read, and posts it. -/
def serve (s : DiskState) (head : DescIndex) : Option DiskState :=
  let data := (s.desc head).next
  let status := (s.desc data).next
  if head ∈ s.inFlight then
    match (s.desc head).addr, (s.desc data).addr, (s.desc status).addr with
    | .request r, .data b, .status i =>
        let s := s.transfer (s.req r) b
        some { s with
          info := Function.update s.info i { s.info i with status := 0 }
          usedRing := Function.update s.usedRing (s.postedIdx % NUM) head
          postedIdx := (s.postedIdx + 1) % ringModulus
          inFlight := s.inFlight.erase head
          phase := Function.update s.phase head .served }
    | _, _, _ => none
  else
    none

end DiskState

end MyOS
