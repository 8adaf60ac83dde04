import MyOS.Lib.Bytes
import MyOS.Lib.Resumption
import MyOS.Param

namespace MyOS

open Lib

/-!
# Blocks and inodes

The block allocator of `bio.c` and the inode layer of `fs.c`, as routines that
wait for the disk.  The block layer is taken at its contract: a buffer shows
the last bytes stored in its block.  A block that is in the cache is read
without a wait; the schedules in which nobody else runs at a wait cover this.
-/

/-- Direct block pointers of an inode. -/
def NDIRECT : Nat := 11

/-- Pointers in an indirect block. -/
def NINDIRECT : Nat := BSIZE / 4

/-- Blocks behind a double-indirect block. -/
def NDINDIRECT : Nat := NINDIRECT * NINDIRECT

/-- Blocks of the largest file. -/
def MAXFILE : Nat := NDIRECT + NINDIRECT + NDINDIRECT

/-- Bits of a bitmap block. -/
def BPB : Nat := BSIZE * 8

/-- `sizeof(struct dinode)` -/
def dinodeSize : Nat := 64

/-- Inodes of an inode block. -/
def IPB : Nat := BSIZE / dinodeSize

/-- `T_DIR`, the type of a directory. -/
def T_DIR : Nat := 1

/-- `T_FILE`, the type of a regular file. -/
def T_FILE : Nat := 2

/-- `uint` is 32 bits wide. -/
def uintModulus : Nat := 0x100000000

/-- `short` is 16 bits wide; link counts are kept as their bit patterns. -/
def shortModulus : Nat := 0x10000

/-- An index into `addrs`. -/
abbrev AddrIndex : Type := Fin 13

/-- `addrs[NDIRECT]`, the indirect block. -/
def indirectIndex : AddrIndex := ⟨11, by decide⟩

/-- `addrs[NDIRECT + 1]`, the double-indirect block. -/
def doubleIndex : AddrIndex := ⟨12, by decide⟩

/-- A direct pointer. -/
def directIndex (bn : Nat) (inRange : bn < NDIRECT) : AddrIndex :=
  ⟨bn, Nat.lt_trans inRange (by decide)⟩

/-- `struct dinode`, the inode as it is on the disk. -/
structure Dinode where
  type : Nat
  major : Nat
  minor : Nat
  nlink : Nat
  size : Nat
  addrs : AddrIndex → Nat

namespace Dinode

/-- The inode in a block of the inode area. -/
def ofBlock (block : Bytes) (slot : Nat) : Dinode where
  type := block.le16 (slot * dinodeSize)
  major := block.le16 (slot * dinodeSize + 2)
  minor := block.le16 (slot * dinodeSize + 4)
  nlink := block.le16 (slot * dinodeSize + 6)
  size := block.le32 (slot * dinodeSize + 8)
  addrs := fun index => block.le32 (slot * dinodeSize + 12 + 4 * index)

/-- The bytes of an inode, four fields of two and fourteen of four bytes. -/
def bytes (dinode : Dinode) : Bytes :=
  fun index =>
    if index < 2 then Bytes.ofNat dinode.type index
    else if index < 4 then Bytes.ofNat dinode.major (index - 2)
    else if index < 6 then Bytes.ofNat dinode.minor (index - 4)
    else if index < 8 then Bytes.ofNat dinode.nlink (index - 6)
    else if index < 12 then Bytes.ofNat dinode.size (index - 8)
    else
      Bytes.ofNat (dinode.addrs (Fin.ofNat 13 ((index - 12) / 4)))
        ((index - 12) % 4)

/-- Store an inode in its slot of a block. -/
def toBlock (dinode : Dinode) (block : Bytes) (slot : Nat) : Bytes :=
  block.put (slot * dinodeSize) dinodeSize dinode.bytes

/-- What `memset` leaves of an inode, with the type that is set then. -/
def zeroed (type : Nat) : Dinode where
  type := type
  major := 0
  minor := 0
  nlink := 0
  size := 0
  addrs := fun _ => 0

end Dinode

/-- `struct inode`, with the fields of the disk inode cached in it. -/
structure Inode extends Dinode where
  dev : Nat
  inum : Nat
  ref : Int
  valid : Bool

/-- A slot of the in-core inode table. -/
abbrev InodeIndex : Type := Fin NINODE

/-- The fields of `struct superblock` that the kernel uses. -/
structure Superblock where
  size : Nat
  ninodes : Nat
  inodestart : Nat
  bmapstart : Nat

/-- The disk as the buffer cache shows it, and the in-core inodes. -/
structure FileSystem where
  sb : Superblock
  disk : Nat → Bytes
  inode : InodeIndex → Inode

/-- The panics of the file system. -/
inductive FsPanic where
  | bmapOutOfRange
  | ballocOutOfBlocks
  | bfreeFreeBlock
  | igetNoInodes
  | ilockNoType
  | iunlock
  | iallocNoInodes
  | dirlookupNotDirectory
  | dirlookupReadError
  | dirlinkReadi
  | unlinkWritei
  | renameUnlinkTarget
  | renameUnlinkOld
  | fileclose
  /-- A null `ip` is followed. -/
  | nullInode
  deriving Repr, DecidableEq

/-- A routine of the file system. -/
abbrev FsRoutine (Result : Type) : Type :=
  Routine FsPanic FileSystem Result

namespace FileSystem

/-- What the buffer of a block holds. -/
def contents (blockno : Nat) : FsRoutine Bytes :=
  Routine.gets fun fs => fs.disk blockno

/-- Change the bytes of a block in its buffer. -/
def store (blockno : Nat) (change : Bytes → Bytes) : FsRoutine Unit :=
  Routine.modify fun fs =>
    { fs with
      disk := Function.update fs.disk blockno (change (fs.disk blockno)) }

/-- `bread`: the contents after the wait. -/
def bread (blockno : Nat) : FsRoutine Bytes := do
  Routine.yield
  contents blockno

/-- `bwrite`: the buffer's bytes are in the block already. -/
def bwrite (_blockno : Nat) : FsRoutine Unit :=
  Routine.yield

/-- An in-core inode. -/
def inodeAt (ip : InodeIndex) : FsRoutine Inode :=
  Routine.gets fun fs => fs.inode ip

/-- Change an in-core inode. -/
def setInode (ip : InodeIndex) (change : Inode → Inode) : FsRoutine Unit :=
  Routine.modify fun fs =>
    { fs with inode := Function.update fs.inode ip (change (fs.inode ip)) }

/-- The superblock, read at boot. -/
def superblock : FsRoutine Superblock :=
  Routine.gets fun fs => fs.sb

/-- `for (i = 0; i < count; i++)` -/
def forUpTo (body : Nat → FsRoutine Unit) : Nat → FsRoutine Unit
  | 0 => pure ()
  | count + 1 => do
      forUpTo body count
      body count

/-!
## `bio.c`: the block allocator
-/

/-- `BMAP_BLOCK(b, sb)`, the bitmap block of a block. -/
def bmapBlock (sb : Superblock) (b : Nat) : Nat :=
  b / BPB + sb.bmapstart

/-- The first clear bit from `bi` on, below a limit. -/
def firstClear (bits : Bytes) (limit : Nat) : Nat → Nat → Option Nat
  | 0, _ => none
  | fuel + 1, bi =>
      if limit ≤ bi then
        none
      else if bits.bit bi then
        firstClear bits limit fuel (bi + 1)
      else
        some bi

def bzero (bno : Nat) : FsRoutine Unit := do
  let _ ← bread bno
  store bno fun block => block.put 0 BSIZE fun _ => 0
  bwrite bno

/-- `balloc` from the bitmap block of block `b` on. -/
def ballocFrom : Nat → Nat → FsRoutine Nat
  | 0, _ => Routine.fault .ballocOutOfBlocks
  | fuel + 1, b => do
      let sb ← superblock
      let bits ← bread (bmapBlock sb b)
      match firstClear bits (min BPB (sb.size - b)) BPB 0 with
      | some bi =>
          store (bmapBlock sb b) fun bits => bits.setBit bi
          bwrite (bmapBlock sb b)
          bzero (b + bi)
          return b + bi
      | none =>
          ballocFrom fuel (b + BPB)

def balloc : FsRoutine Nat := do
  let sb ← superblock
  ballocFrom ((sb.size + BPB - 1) / BPB) 0

def bfree (b : Nat) : FsRoutine Unit := do
  let sb ← superblock
  let bits ← bread (bmapBlock sb b)
  if bits.bit (b % BPB) then
    store (bmapBlock sb b) fun bits => bits.clearBit (b % BPB)
    bwrite (bmapBlock sb b)
  else
    Routine.fault .bfreeFreeBlock

/-!
## `fs.c`: the block tree of an inode
-/

/-- Entry `index` of an indirect block. -/
def entry (block : Bytes) (index : Nat) : Nat :=
  block.le32 (4 * index)

/-- Store an entry of an indirect block. -/
def setEntry (block : Bytes) (index value : Nat) : Bytes :=
  block.put (4 * index) 4 (Bytes.ofNat value)

/-- `if ((addr = ip->addrs[index]) == 0) addr = ip->addrs[index] = balloc();` -/
def bmapAddr (ip : InodeIndex) (index : AddrIndex) : FsRoutine Nat := do
  let inode ← inodeAt ip
  if inode.addrs index = 0 then
    let addr ← balloc
    setInode ip fun inode =>
      { inode with addrs := Function.update inode.addrs index addr }
    return addr
  else
    return inode.addrs index

/-- `if ((addr = a[index]) == 0) { addr = a[index] = balloc(); bwrite(bp); }` -/
def bmapEntry (blockno index : Nat) : FsRoutine Nat := do
  let block ← bread blockno
  if entry block index = 0 then
    let addr ← balloc
    store blockno fun block => setEntry block index addr
    bwrite blockno
    return addr
  else
    return entry block index

def bmap (ip : InodeIndex) (bn : Nat) : FsRoutine Nat :=
  if isDirect : bn < NDIRECT then
    bmapAddr ip (directIndex bn isDirect)
  else if bn - NDIRECT < NINDIRECT then do
    let addr ← bmapAddr ip indirectIndex
    bmapEntry addr (bn - NDIRECT)
  else if bn - NDIRECT - NINDIRECT < NDINDIRECT then do
    let rest := bn - NDIRECT - NINDIRECT
    let addr ← bmapAddr ip doubleIndex
    let addr2 ← bmapEntry addr (rest / NINDIRECT)
    bmapEntry addr2 (rest % NINDIRECT)
  else
    Routine.fault .bmapOutOfRange

def iupdate (ip : InodeIndex) : FsRoutine Unit := do
  let sb ← superblock
  let inode ← inodeAt ip
  let blockno := sb.inodestart + inode.inum / IPB
  let _ ← bread blockno
  let inode ← inodeAt ip
  store blockno fun block => inode.toDinode.toBlock block (inode.inum % IPB)
  bwrite blockno

/-- `if (ip->addrs[index]) { bfree(ip->addrs[index]); ip->addrs[index] = 0; }` -/
def itruncAddr (ip : InodeIndex) (index : AddrIndex) : FsRoutine Unit := do
  let inode ← inodeAt ip
  if inode.addrs index ≠ 0 then
    bfree (inode.addrs index)
    setInode ip fun inode =>
      { inode with addrs := Function.update inode.addrs index 0 }

/-- `if (a[i]) bfree(a[i]);` for every entry of an indirect block. -/
def itruncEntries (blockno : Nat) : FsRoutine Unit :=
  forUpTo
    (fun i => do
      let block ← contents blockno
      if entry block i ≠ 0 then
        bfree (entry block i))
    NINDIRECT

/-- The loop of `itrunc` over the blocks behind a double-indirect block. -/
def itruncSecond (blockno : Nat) : FsRoutine Unit :=
  forUpTo
    (fun i => do
      let block ← contents blockno
      if entry block i ≠ 0 then
        let second := entry block i
        let _ ← bread second
        itruncEntries second
        let block ← contents blockno
        bfree (entry block i))
    NINDIRECT

/-- An indirect block: what it points to is freed, then the block itself. -/
def itruncTree
    (ip : InodeIndex)
    (index : AddrIndex)
    (entries : Nat → FsRoutine Unit) :
    FsRoutine Unit := do
  let inode ← inodeAt ip
  if inode.addrs index ≠ 0 then
    let _ ← bread (inode.addrs index)
    entries (inode.addrs index)
    let inode ← inodeAt ip
    bfree (inode.addrs index)
    setInode ip fun inode =>
      { inode with addrs := Function.update inode.addrs index 0 }

def itrunc (ip : InodeIndex) : FsRoutine Unit := do
  forUpTo
    (fun i =>
      if isDirect : i < NDIRECT then
        itruncAddr ip (directIndex i isDirect)
      else
        pure ())
    NDIRECT
  itruncTree ip indirectIndex itruncEntries
  itruncTree ip doubleIndex itruncSecond
  setInode ip fun inode => { inode with size := 0 }
  iupdate ip

/-!
## `fs.c`: the contents of an inode
-/

/-- Where `readi` copies to; `copyout` accepts some of the chunks. -/
inductive ReadTarget where
  | kernel
  | user (copyout : Nat → Nat → Bool)

/-- The chunk `copyout` is called with is stored. -/
def ReadTarget.accepts : ReadTarget → Nat → Nat → Bool
  | kernel, _, _ => true
  | user copyout, tot, m => copyout tot m

/-- The bytes of one turn of the loops of `readi` and `writei`. -/
def chunk (off rest : Nat) : Nat :=
  min (BSIZE - off % BSIZE) rest

/-- The loop of `readi`; `rest` is `n - tot`. -/
def readiFrom (ip : InodeIndex) (target : ReadTarget) :
    Nat → Nat → Nat → Nat → FsRoutine (List UInt8)
  | 0, _, _, _ => pure []
  | fuel + 1, tot, off, rest =>
      if rest = 0 then
        pure []
      else do
        let blockno ← bmap ip (off / BSIZE)
        let block ← bread blockno
        let m := chunk off rest
        if target.accepts tot m then
          let bytes ← readiFrom ip target fuel (tot + m) (off + m) (rest - m)
          return block.slice (off % BSIZE) m ++ bytes
        else
          return []

/-- `readi`; the bytes that were copied, as many as it returns. -/
def readi (ip : InodeIndex) (target : ReadTarget) (off n : Nat) :
    FsRoutine (List UInt8) := do
  let inode ← inodeAt ip
  if inode.size < off ∨ (off + n) % uintModulus < off then
    return []
  else if inode.size < (off + n) % uintModulus then
    readiFrom ip target (inode.size - off) 0 off (inode.size - off)
  else
    readiFrom ip target n 0 off n

/-- The loop of `writei`; `rest` is `n - tot`. -/
def writeiFrom (ip : InodeIndex) (src : Bytes) :
    Nat → Nat → Nat → Nat → FsRoutine Unit
  | 0, _, _, _ => pure ()
  | fuel + 1, tot, off, rest =>
      if rest = 0 then
        pure ()
      else do
        let blockno ← bmap ip (off / BSIZE)
        let _ ← bread blockno
        let m := chunk off rest
        store blockno fun block =>
          block.put (off % BSIZE) m fun index => src (tot + index)
        bwrite blockno
        writeiFrom ip src fuel (tot + m) (off + m) (rest - m)

/-- `writei` from its loop on. -/
def writeiBody (ip : InodeIndex) (src : Bytes) (off n : Nat) :
    FsRoutine Int := do
  writeiFrom ip src n 0 off n
  let inode ← inodeAt ip
  if inode.size < off + n then
    setInode ip fun inode => { inode with size := off + n }
    iupdate ip
  return n

/-- The checks at the head of `writei`. -/
def writeiRefuses (off n : Nat) : Bool :=
  (off + n) % uintModulus < off ∨ MAXFILE * BSIZE < (off + n) % uintModulus

/-- The zeros that fill a gap, 128 at most at a time. -/
def gapChunk (size off : Nat) : Nat :=
  min (off - size) 128

/--
`writei` writes zeros up to `off` by calling itself at the end of the file,
where there is no gap any more.
-/
def fillGap (ip : InodeIndex) (off : Nat) : Nat → FsRoutine Bool
  | 0 => pure true
  | fuel + 1 => do
      let inode ← inodeAt ip
      if inode.size < off then
        let gap := gapChunk inode.size off
        if writeiRefuses inode.size gap then
          return false
        else
          let _ ← writeiBody ip (fun _ => 0) inode.size gap
          fillGap ip off fuel
      else
        return true

def writei (ip : InodeIndex) (src : Bytes) (off n : Nat) : FsRoutine Int :=
  if writeiRefuses off n then
    pure (-1)
  else if n = 0 then
    pure 0
  else do
    let filled ← fillGap ip off uintModulus
    if filled then
      writeiBody ip src off n
    else
      return -1

/-!
## `fs.c`: the table of in-core inodes
-/

/-- The slots of the table in the order of its scan. -/
def inodeIndices : List InodeIndex :=
  List.finRange NINODE

/-- The slot that already holds an inode. -/
def cached? (fs : FileSystem) (dev inum : Nat) : Option InodeIndex :=
  inodeIndices.find? fun ip =>
    0 < (fs.inode ip).ref && (fs.inode ip).dev == dev &&
      (fs.inode ip).inum == inum

/-- The first slot without references. -/
def empty? (fs : FileSystem) : Option InodeIndex :=
  inodeIndices.find? fun ip => (fs.inode ip).ref == 0

def idup (ip : InodeIndex) : FsRoutine InodeIndex := do
  setInode ip fun inode => { inode with ref := inode.ref + 1 }
  return ip

def iget (dev inum : Nat) : FsRoutine InodeIndex := do
  let fs ← Routine.get
  match fs.cached? dev inum with
  | some ip => idup ip
  | none =>
      match fs.empty? with
      | some ip =>
          setInode ip fun inode =>
            { inode with dev := dev, inum := inum, ref := 1, valid := false }
          return ip
      | none =>
          Routine.fault .igetNoInodes

def ilock (ip : InodeIndex) : FsRoutine Unit := do
  let sb ← superblock
  let inode ← inodeAt ip
  if inode.valid = false then
    let block ← bread (sb.inodestart + inode.inum / IPB)
    setInode ip fun inode =>
      { inode with
        toDinode := Dinode.ofBlock block (inode.inum % IPB)
        valid := true }
  let inode ← inodeAt ip
  if inode.type = 0 then
    Routine.fault .ilockNoType

def iunlock (ip : InodeIndex) : FsRoutine Unit := do
  let inode ← inodeAt ip
  if inode.ref < 1 then
    Routine.fault .iunlock

def iput (ip : InodeIndex) : FsRoutine Unit := do
  setInode ip fun inode => { inode with ref := inode.ref - 1 }
  let inode ← inodeAt ip
  if inode.ref = 0 ∧ inode.valid = true ∧ inode.nlink = 0 then
    itrunc ip
    setInode ip fun inode => { inode with type := 0 }
    iupdate ip
  let inode ← inodeAt ip
  if inode.ref = 0 then
    setInode ip fun inode => { inode with valid := false }

def iunlockput (ip : InodeIndex) : FsRoutine Unit := do
  iunlock ip
  iput ip

/-- `ialloc` from `inum` on. -/
def iallocFrom (dev type : Nat) : Nat → Nat → FsRoutine InodeIndex
  | 0, _ => Routine.fault .iallocNoInodes
  | fuel + 1, inum => do
      let sb ← superblock
      let blockno := sb.inodestart + inum / IPB
      let block ← bread blockno
      if (Dinode.ofBlock block (inum % IPB)).type = 0 then
        store blockno fun block =>
          (Dinode.zeroed type).toBlock block (inum % IPB)
        bwrite blockno
        iget dev inum
      else
        iallocFrom dev type fuel (inum + 1)

def ialloc (dev type : Nat) : FsRoutine InodeIndex := do
  let sb ← superblock
  iallocFrom dev type (sb.ninodes - 1) 1

end FileSystem

end MyOS
