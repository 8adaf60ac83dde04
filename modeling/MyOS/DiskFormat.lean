import MyOS.InodeLayer

namespace MyOS

open Lib

/-!
# The layout of the disk

The constants that `mkfs.c` lays an image out by, what the inode area and the
bitmap of a disk say, and that an inode is read back as it was stored.
-/

/-- Inodes on the disk. -/
def NINODES : Nat := 512

/-- The first block of the inode area. -/
def INODE_START : Nat := 32

/-- Blocks of the inode area. -/
def INODE_BLOCKS : Nat := (NINODES + IPB - 1) / IPB

/-- The first block of the bitmap. -/
def BMAP_START : Nat := INODE_START + INODE_BLOCKS

/-- Blocks of the bitmap. -/
def BMAP_BLOCKS : Nat := (FSSIZE + BPB - 1) / BPB

/-- The block of the root directory. -/
def ROOT_BLOCK : Nat := BMAP_START + BMAP_BLOCKS

/-- The first block that is given to files and other directories. -/
def FIRST_DATA_BLOCK : Nat := ROOT_BLOCK + 1

/-- The superblock of an image. -/
def imageSuperblock : Superblock where
  size := FSSIZE
  ninodes := NINODES
  inodestart := INODE_START
  bmapstart := BMAP_START

theorem BSIZE_eq : BSIZE = 1024 := rfl

theorem NDIRECT_eq : NDIRECT = 11 := rfl

theorem NINDIRECT_eq : NINDIRECT = 256 := by decide

theorem NDINDIRECT_eq : NDINDIRECT = 65536 := by decide

theorem MAXFILE_eq : MAXFILE = 65803 := by decide

theorem BPB_eq : BPB = 8192 := by decide

theorem IPB_eq : IPB = 16 := by decide

theorem dinodeSize_eq : dinodeSize = 64 := rfl

theorem NINODES_eq : NINODES = 512 := rfl

theorem FSSIZE_eq : FSSIZE = 16384 := rfl

theorem INODE_START_eq : INODE_START = 32 := rfl

theorem BMAP_START_eq : BMAP_START = 64 := by decide

theorem ROOT_BLOCK_eq : ROOT_BLOCK = 66 := by decide

/-- The blocks of a disk. -/
abbrev Disk : Type := Nat → Bytes

namespace Disk

/-- The block of the inode area that holds an inode. -/
def inodeBlock (inum : Nat) : Nat :=
  INODE_START + inum / IPB

/-- An inode as it is on the disk. -/
def dinode (disk : Disk) (inum : Nat) : Dinode :=
  Dinode.ofBlock (disk (inodeBlock inum)) (inum % IPB)

/-- The block of the bitmap that has a block's bit. -/
def bitmapBlock (b : Nat) : Nat :=
  b / BPB + BMAP_START

/-- The bitmap has the bit of a block set. -/
def marked (disk : Disk) (b : Nat) : Bool :=
  decide (b < FSSIZE) && (disk (bitmapBlock b)).bit (b % BPB)

/-- Set the bit of a block. -/
def mark (disk : Disk) (b : Nat) : Disk :=
  Function.update disk (bitmapBlock b)
    ((disk (bitmapBlock b)).setBit (b % BPB))

/-- Clear the bit of a block. -/
def unmark (disk : Disk) (b : Nat) : Disk :=
  Function.update disk (bitmapBlock b)
    ((disk (bitmapBlock b)).clearBit (b % BPB))

/-- Fill a block with zeros. -/
def blank (disk : Disk) (b : Nat) : Disk :=
  Function.update disk b ((disk b).put 0 BSIZE fun _ => 0)

/-- Store an inode on the disk. -/
def setDinode (disk : Disk) (inum : Nat) (dinode : Dinode) : Disk :=
  Function.update disk (inodeBlock inum)
    (dinode.toBlock (disk (inodeBlock inum)) (inum % IPB))

end Disk

namespace Dinode

/-- Every field has a value that its type can hold. -/
structure Fits (dinode : Dinode) : Prop where
  type : dinode.type < shortModulus
  major : dinode.major < shortModulus
  minor : dinode.minor < shortModulus
  nlink : dinode.nlink < shortModulus
  size : dinode.size < uintModulus
  addrs : ∀ index, dinode.addrs index < uintModulus

theorem le16_bytes
    (dinode : Dinode)
    (offset : Nat)
    {value : Nat}
    (bound : value < shortModulus)
    (first : dinode.bytes offset = Bytes.ofNat value 0)
    (second : dinode.bytes (offset + 1) = Bytes.ofNat value 1) :
    dinode.bytes.le16 offset = value := by
  have bytes : dinode.bytes.le16 offset = (Bytes.ofNat value).le16 0 := by
    simp only [Bytes.le16, first, second]
  rw [bytes, Bytes.le16_ofNat]
  exact Nat.mod_eq_of_lt bound

theorem le32_bytes
    {dinode : Dinode}
    {offset value : Nat}
    (bound : value < uintModulus)
    (field :
      ∀ place, place < 4 →
        dinode.bytes (offset + place) = Bytes.ofNat value place) :
    dinode.bytes.le32 offset = value := by
  have bytes : dinode.bytes.le32 offset = (Bytes.ofNat value).le32 0 := by
    simp only [Bytes.le32, Bytes.le16, Nat.add_assoc]
    rw [field 1 (by decide), field 2 (by decide), field 3 (by decide)]
    rw [← field 0 (by decide), Nat.add_zero]
  rw [bytes, Bytes.le32_ofNat]
  exact Nat.mod_eq_of_lt bound

theorem bytes_addrs
    (dinode : Dinode)
    (index : AddrIndex)
    {place : Nat}
    (inside : place < 4) :
    dinode.bytes (12 + 4 * index + place) =
      Bytes.ofNat (dinode.addrs index) place := by
  have quotient : (12 + 4 * index.val + place - 12) / 4 = index.val := by
    omega
  have rest : (12 + 4 * index.val + place - 12) % 4 = place := by
    omega
  have same : Fin.ofNat 13 index.val = index := by
    apply Fin.ext
    exact Nat.mod_eq_of_lt index.isLt
  unfold bytes
  rw [if_neg (by omega), if_neg (by omega), if_neg (by omega),
    if_neg (by omega), if_neg (by omega), quotient, rest, same]

theorem ofBlock_bytes
    {dinode : Dinode}
    (fits : dinode.Fits) :
    ofBlock dinode.bytes 0 = dinode := by
  have type := le16_bytes dinode 0 fits.type rfl rfl
  have major := le16_bytes dinode 2 fits.major rfl rfl
  have minor := le16_bytes dinode 4 fits.minor rfl rfl
  have nlink := le16_bytes dinode 6 fits.nlink rfl rfl
  have size : dinode.bytes.le32 8 = dinode.size := by
    apply le32_bytes fits.size
    intro place inside
    unfold bytes
    rw [if_neg (by omega), if_neg (by omega), if_neg (by omega),
      if_neg (by omega), if_pos (by omega), Nat.add_sub_cancel_left]
  have addrs :
      (fun index : AddrIndex => dinode.bytes.le32 (12 + 4 * index)) =
        dinode.addrs := by
    funext index
    apply le32_bytes (fits.addrs index)
    intro place inside
    exact dinode.bytes_addrs index inside
  cases dinode
  simp only [ofBlock, Nat.zero_mul, Nat.zero_add]
  simp only [type, major, minor, nlink, size, addrs]

theorem ofBlock_toBlock
    {dinode : Dinode}
    (fits : dinode.Fits)
    (block : Bytes)
    (slot : Nat) :
    ofBlock (dinode.toBlock block slot) slot = dinode := by
  have field16 :
      ∀ offset, offset + 2 ≤ dinodeSize →
        (dinode.toBlock block slot).le16 (slot * dinodeSize + offset) =
          dinode.bytes.le16 offset := by
    intro offset inside
    unfold toBlock
    rw [Bytes.le16_put_inside (by omega) (by omega), Nat.add_sub_cancel_left]
  have field32 :
      ∀ offset, offset + 4 ≤ dinodeSize →
        (dinode.toBlock block slot).le32 (slot * dinodeSize + offset) =
          dinode.bytes.le32 offset := by
    intro offset inside
    unfold toBlock
    rw [Bytes.le32_put_inside (by omega) (by omega), Nat.add_sub_cancel_left]
  have zero := field16 0 (by decide)
  rw [Nat.add_zero] at zero
  have copied :
      ofBlock (dinode.toBlock block slot) slot = ofBlock dinode.bytes 0 := by
    unfold ofBlock
    rw [zero, field16 2 (by decide), field16 4 (by decide),
      field16 6 (by decide), field32 8 (by decide)]
    simp only [Nat.zero_mul, Nat.zero_add, mk.injEq, true_and]
    funext index
    rw [Nat.add_assoc]
    apply field32
    have bound := index.isLt
    simp only [dinodeSize_eq]
    omega
  rw [copied]
  exact ofBlock_bytes fits

theorem ofBlock_toBlock_of_ne
    {dinode : Dinode}
    {block : Bytes}
    {slot other : Nat}
    (different : other ≠ slot) :
    ofBlock (dinode.toBlock block slot) other = ofBlock block other := by
  have apart :
      other * dinodeSize + dinodeSize ≤ slot * dinodeSize ∨
        slot * dinodeSize + dinodeSize ≤ other * dinodeSize := by
    simp only [dinodeSize_eq]
    omega
  have field16 :
      ∀ offset, offset + 2 ≤ dinodeSize →
        (dinode.toBlock block slot).le16 (other * dinodeSize + offset) =
          block.le16 (other * dinodeSize + offset) := by
    intro offset inside
    apply Bytes.le16_put_outside
    omega
  have field32 :
      ∀ offset, offset + 4 ≤ dinodeSize →
        (dinode.toBlock block slot).le32 (other * dinodeSize + offset) =
          block.le32 (other * dinodeSize + offset) := by
    intro offset inside
    apply Bytes.le32_put_outside
    omega
  have zero := field16 0 (by decide)
  rw [Nat.add_zero] at zero
  unfold ofBlock
  rw [zero, field16 2 (by decide), field16 4 (by decide),
    field16 6 (by decide), field32 8 (by decide)]
  simp only [mk.injEq, true_and]
  funext index
  rw [Nat.add_assoc]
  apply field32
  have bound := index.isLt
  simp only [dinodeSize_eq]
  omega

end Dinode

/-!
## What a change of the disk leaves alone
-/

namespace Disk

variable {disk later : Disk} {b c inum : Nat}

theorem inodeBlock_lt
    (inRange : inum < NINODES) :
    inodeBlock inum < BMAP_START := by
  rw [NINODES_eq] at inRange
  simp only [inodeBlock, INODE_START_eq, IPB_eq, BMAP_START_eq]
  omega

theorem le_inodeBlock : INODE_START ≤ inodeBlock inum :=
  Nat.le_add_right _ _

theorem bitmapBlock_lt
    (inRange : b < FSSIZE) :
    bitmapBlock b < ROOT_BLOCK := by
  rw [FSSIZE_eq] at inRange
  simp only [bitmapBlock, BPB_eq, BMAP_START_eq, ROOT_BLOCK_eq]
  omega

theorem le_bitmapBlock (b : Nat) : BMAP_START ≤ bitmapBlock b :=
  Nat.le_add_left _ _

theorem BMAP_START_lt_ROOT_BLOCK : BMAP_START < ROOT_BLOCK := by
  decide

theorem marked_congr
    (disk : Disk)
    (same :
      ∀ c, BMAP_START ≤ c → c < ROOT_BLOCK → later c = disk c) :
    later.marked = disk.marked := by
  funext b
  unfold marked
  by_cases inRange : b < FSSIZE
  · rw [same _ (le_bitmapBlock b) (bitmapBlock_lt inRange)]
  · simp only [inRange, decide_false, Bool.false_and]

theorem dinode_congr
    (same : later (inodeBlock inum) = disk (inodeBlock inum)) :
    later.dinode inum = disk.dinode inum := by
  unfold dinode
  rw [same]

theorem marked_mark
    (inRange : b < FSSIZE) :
    (disk.mark b).marked = Function.update disk.marked b true := by
  funext c
  unfold marked mark
  by_cases same : c = b
  · rw [same, Function.update_self, Function.update_self, Bytes.bit_setBit]
    simp only [inRange, decide_true, beq_self_eq_true, Bool.true_or,
      Bool.and_true]
  · rw [Function.update_of_ne same]
    by_cases block : bitmapBlock c = bitmapBlock b
    · rw [block, Function.update_self, Bytes.bit_setBit]
      have bit : (b % BPB == c % BPB) = false := by
        rw [beq_eq_false_iff_ne]
        intro rest
        apply same
        simp only [bitmapBlock] at block
        rw [← Nat.div_add_mod b BPB, ← Nat.div_add_mod c BPB, rest,
          Nat.add_right_cancel block]
      rw [bit, Bool.false_or]
    · rw [Function.update_of_ne block]

theorem marked_unmark :
    (disk.unmark b).marked = Function.update disk.marked b false := by
  funext c
  unfold marked unmark
  by_cases same : c = b
  · rw [same, Function.update_self, Function.update_self, Bytes.bit_clearBit]
    simp only [bne_self_eq_false, Bool.false_and, Bool.and_false]
  · rw [Function.update_of_ne same]
    by_cases block : bitmapBlock c = bitmapBlock b
    · rw [block, Function.update_self, Bytes.bit_clearBit]
      have bit : (b % BPB != c % BPB) = true := by
        rw [bne_iff_ne]
        intro rest
        apply same
        simp only [bitmapBlock] at block
        rw [← Nat.div_add_mod b BPB, ← Nat.div_add_mod c BPB, rest,
          Nat.add_right_cancel block]
      rw [bit, Bool.true_and]
    · rw [Function.update_of_ne block]

theorem mark_of_ne
    (other : c ≠ bitmapBlock b) :
    disk.mark b c = disk c :=
  Function.update_of_ne other ..

theorem unmark_of_ne
    (other : c ≠ bitmapBlock b) :
    disk.unmark b c = disk c :=
  Function.update_of_ne other ..

theorem dinode_setDinode
    {dinode : Dinode}
    (fits : dinode.Fits) :
    (disk.setDinode inum dinode).dinode =
      Function.update disk.dinode inum dinode := by
  funext other
  unfold Disk.dinode setDinode
  by_cases same : other = inum
  · rw [same, Function.update_self, Function.update_self]
    exact Dinode.ofBlock_toBlock fits _ _
  · rw [Function.update_of_ne same]
    by_cases block : inodeBlock other = inodeBlock inum
    · rw [block, Function.update_self]
      apply Dinode.ofBlock_toBlock_of_ne
      intro rest
      apply same
      simp only [inodeBlock] at block
      rw [← Nat.div_add_mod other IPB, ← Nat.div_add_mod inum IPB, rest,
        Nat.add_left_cancel block]
    · rw [Function.update_of_ne block]

end Disk

end MyOS
