import MyOS.BufferCache
import MyOS.Lib.LinkedRing

namespace MyOS

open MyOS.Lib

/-!
# The buffer pool's list

`binit`, `bget` and `brelse` of `bio.c` with the links of the buffers, and the
calls of any users one after the other.  Ghost fields record which results of
`bget` are outstanding and when a buffer was last released.
-/

/-- The fields of `struct buf` that `bget` and `brelse` use. -/
structure PoolBuf where
  valid : Bool
  dev : BitVec 32
  blockno : BitVec 32
  refcnt : BitVec 32

/-- `bcache` -/
structure BufferPool where
  buf : BufferIndex → PoolBuf
  links : Links BufferIndex

/-- A buffer of the zeroed memory of the kernel. -/
def zeroedBuf : PoolBuf where
  valid := false
  dev := 0
  blockno := 0
  refcnt := 0

namespace BufferPool

/-- Store into one buffer. -/
def setBuf
    (pool : BufferPool)
    (b : BufferIndex)
    (buffer : PoolBuf) : BufferPool :=
  { pool with buf := Function.update pool.buf b buffer }

/-- The buffer holds the block. -/
def holdsBlock
    (pool : BufferPool)
    (dev blockno : BitVec 32)
    (b : BufferIndex) : Bool :=
  (pool.buf b).dev == dev && (pool.buf b).blockno == blockno

/-- Nobody uses the buffer. -/
def unreferenced (pool : BufferPool) (b : BufferIndex) : Bool :=
  (pool.buf b).refcnt == 0

/-- The buffer with one more user. -/
def retain (pool : BufferPool) (b : BufferIndex) : BufferPool :=
  let buffer := pool.buf b
  pool.setBuf b { buffer with refcnt := buffer.refcnt + 1 }

/-- The buffer for another block, with one user. -/
def reassign
    (pool : BufferPool)
    (dev blockno : BitVec 32)
    (b : BufferIndex) : BufferPool :=
  pool.setBuf b
    { pool.buf b with
      dev := dev
      blockno := blockno
      valid := false
      refcnt := 1 }

/-- `binit` -/
def binit (pool : BufferPool) : BufferPool :=
  { pool with
    links := (List.finRange NBUF).foldl Links.insertFront pool.links.clear }

/--
`bget`, with the buffer that it returns; no buffer is its panic, and there is
no result when a loop over the list does not come back to the sentinel.
-/
def bget
    (pool : BufferPool)
    (dev blockno : BitVec 32) : Option (Option (BufferIndex × BufferPool)) :=
  let links := pool.links
  (Links.search links.next (pool.holdsBlock dev blockno) (NBUF + 1)
      (links.next none)).bind fun hit =>
    match hit with
    | some b => some (some (b, pool.retain b))
    | none =>
        (Links.search links.prev pool.unreferenced (NBUF + 1)
            (links.prev none)).map fun free =>
          free.map fun b => (b, pool.reassign dev blockno b)

/-- `brelse` -/
def brelse (pool : BufferPool) (b : BufferIndex) : BufferPool :=
  let buffer := pool.buf b
  let pool := pool.setBuf b { buffer with refcnt := buffer.refcnt - 1 }
  if buffer.refcnt - 1 = 0 then
    let links := pool.links.unlink b
    let links := links.setNext (some b) (links.next none)
    let links := links.setPrev (links.next none) (some b)
    let links := links.setPrev (some b) none
    { pool with links := links.setNext none (some b) }
  else
    pool

end BufferPool

/-- A call of a user of the pool. -/
inductive PoolAction where
  | bget (dev blockno : BitVec 32)
  | brelse (b : BufferIndex)

/-- The pool with the history of its use. -/
structure PoolState where
  pool : BufferPool
  /-- The results of `bget` that are outstanding, for each buffer. -/
  held : BufferIndex → Nat
  /-- `bget` has returned the buffer. -/
  assigned : BufferIndex → Bool
  clock : Nat
  /-- When the buffer was last released; 0 if never. -/
  lastRelease : BufferIndex → Nat
  panicked : Bool

namespace PoolState

/-- The pool after `binit`; the memory is zeroed, but for any links. -/
def boot (links : Links BufferIndex) : PoolState where
  pool := BufferPool.binit ⟨fun _ => zeroedBuf, links⟩
  held := fun _ => 0
  assigned := fun _ => false
  clock := 0
  lastRelease := fun _ => 0
  panicked := false

/-- The history after a result of `bget`. -/
def take
    (s : PoolState)
    (result : BufferIndex × BufferPool) : PoolState :=
  { s with
    pool := result.2
    held := Function.update s.held result.1 (s.held result.1 + 1)
    assigned := Function.update s.assigned result.1 true }

/-- The history after `brelse`. -/
def release (s : PoolState) (b : BufferIndex) : PoolState :=
  { s with
    pool := s.pool.brelse b
    held := Function.update s.held b (s.held b - 1)
    clock := s.clock + 1
    lastRelease := Function.update s.lastRelease b (s.clock + 1) }

/-- A call: `bget` of a block other than (0, 0), `brelse` of a held buffer. -/
inductive Step : PoolState → PoolAction → PoolState → Prop where
  | bget
      {s : PoolState}
      {dev blockno : BitVec 32}
      {result : BufferIndex × BufferPool}
      (running : s.panicked = false)
      (nonzero : ¬ (dev = 0 ∧ blockno = 0))
      (returned : s.pool.bget dev blockno = some (some result)) :
      Step s (.bget dev blockno) (s.take result)
  | noBuffers
      {s : PoolState}
      {dev blockno : BitVec 32}
      (running : s.panicked = false)
      (nonzero : ¬ (dev = 0 ∧ blockno = 0))
      (panics : s.pool.bget dev blockno = some none) :
      Step s (.bget dev blockno) { s with panicked := true }
  | brelse
      {s : PoolState}
      {b : BufferIndex}
      (running : s.panicked = false)
      (held : 0 < s.held b) :
      Step s (.brelse b) (s.release b)

end PoolState

end MyOS
