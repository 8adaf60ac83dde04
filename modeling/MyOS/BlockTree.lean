import Mathlib.Tactic.DeriveFintype
import MyOS.DiskFormat

namespace MyOS

open Lib

/-!
# The block tree of an inode

The positions at which an inode refers to blocks, the block number at each of
them, and the bytes of a file as the tree leads to them.  What a position says
depends on the indirect blocks above it and on nothing else.
-/

/-- A position that holds a block number: in `addrs`, or in a block. -/
inductive Position where
  | addr (index : AddrIndex)
  | child (parent : Position) (index : Nat)
  deriving DecidableEq

namespace Position

/-- The positions of indirect blocks. -/
def isIndex : Position → Bool
  | addr index => index == indirectIndex || index == doubleIndex
  | child (addr index) _ => index == doubleIndex
  | child (child _ _) _ => false

/-- The position of a file's block. -/
def ofBlock (bn : Nat) : Position :=
  if isDirect : bn < NDIRECT then
    addr (directIndex bn isDirect)
  else if bn - NDIRECT < NINDIRECT then
    child (addr indirectIndex) (bn - NDIRECT)
  else
    child (child (addr doubleIndex) ((bn - NDIRECT - NINDIRECT) / NINDIRECT))
      ((bn - NDIRECT - NINDIRECT) % NINDIRECT)

section Cases

variable {bn : Nat}

theorem ofBlock_direct
    (isDirect : bn < NDIRECT) :
    ofBlock bn = addr (directIndex bn isDirect) :=
  dif_pos isDirect

theorem ofBlock_indirect
    (notDirect : ¬ bn < NDIRECT)
    (isIndirect : bn - NDIRECT < NINDIRECT) :
    ofBlock bn = child (addr indirectIndex) (bn - NDIRECT) := by
  unfold ofBlock
  rw [dif_neg notDirect, if_pos isIndirect]

theorem ofBlock_double
    (notDirect : ¬ bn < NDIRECT)
    (notIndirect : ¬ bn - NDIRECT < NINDIRECT) :
    ofBlock bn =
      child
        (child (addr doubleIndex) ((bn - NDIRECT - NINDIRECT) / NINDIRECT))
        ((bn - NDIRECT - NINDIRECT) % NINDIRECT) := by
  unfold ofBlock
  rw [dif_neg notDirect, if_neg notIndirect]

theorem isIndex_direct
    (isDirect : bn < NDIRECT) :
    (addr (directIndex bn isDirect)).isIndex = false := by
  have small : bn < 11 := isDirect
  have notIndirect : directIndex bn isDirect ≠ indirectIndex := by
    intro same
    have value : bn = 11 := congrArg Fin.val same
    omega
  have notDouble : directIndex bn isDirect ≠ doubleIndex := by
    intro same
    have value : bn = 12 := congrArg Fin.val same
    omega
  simp only [isIndex, Bool.or_eq_false_iff, beq_eq_false_iff_ne]
  exact ⟨notIndirect, notDouble⟩

theorem isIndex_ofBlock (bn : Nat) : (ofBlock bn).isIndex = false := by
  by_cases isDirect : bn < NDIRECT
  · rw [ofBlock_direct isDirect]
    exact isIndex_direct isDirect
  · by_cases isIndirect : bn - NDIRECT < NINDIRECT
    · rw [ofBlock_indirect isDirect isIndirect]
      rfl
    · rw [ofBlock_double isDirect isIndirect]
      rfl

/-- The block of a file that is at a position. -/
def toBlock : Position → Nat
  | addr index => index
  | child (addr _) index => NDIRECT + index
  | child (child _ outer) inner =>
      NDIRECT + NINDIRECT + outer * NINDIRECT + inner

theorem toBlock_ofBlock (bn : Nat) : (ofBlock bn).toBlock = bn := by
  by_cases isDirect : bn < NDIRECT
  · rw [ofBlock_direct isDirect]
    rfl
  · by_cases isIndirect : bn - NDIRECT < NINDIRECT
    · rw [ofBlock_indirect isDirect isIndirect]
      simp only [toBlock]
      omega
    · rw [ofBlock_double isDirect isIndirect]
      simp only [toBlock]
      have split :=
        Nat.div_add_mod (bn - NDIRECT - NINDIRECT) NINDIRECT
      rw [Nat.mul_comm] at split
      omega

theorem ofBlock_injective
    {first second : Nat}
    (same : ofBlock first = ofBlock second) :
    first = second := by
  rw [← toBlock_ofBlock first, ← toBlock_ofBlock second, same]

end Cases

end Position

namespace Disk

/-- The block number at a position of an inode; 0 where there is none. -/
def pointer (disk : Disk) (dinode : Dinode) : Position → Nat
  | .addr index => dinode.addrs index
  | .child parent index =>
      if parent.isIndex = true ∧ index < NINDIRECT ∧
          disk.pointer dinode parent ≠ 0 then
        FileSystem.entry (disk (disk.pointer dinode parent)) index
      else
        0

/-- A byte of a file. -/
def byteAt (disk : Disk) (dinode : Dinode) (place : Nat) : UInt8 :=
  disk (disk.pointer dinode (.ofBlock (place / BSIZE))) (place % BSIZE)

variable {disk later : Disk} {dinode changed : Dinode}
variable {position : Position}

theorem pointer_child
    {parent : Position}
    {index : Nat}
    (isIndex : parent.isIndex = true)
    (inRange : index < NINDIRECT)
    (present : disk.pointer dinode parent ≠ 0) :
    disk.pointer dinode (.child parent index) =
      FileSystem.entry (disk (disk.pointer dinode parent)) index := by
  have reached :
      parent.isIndex = true ∧ index < NINDIRECT ∧
        disk.pointer dinode parent ≠ 0 :=
    ⟨isIndex, inRange, present⟩
  exact if_pos reached

theorem pointer_parent
    {parent : Position}
    {index : Nat}
    (present : disk.pointer dinode (.child parent index) ≠ 0) :
    parent.isIndex = true ∧ index < NINDIRECT ∧
      disk.pointer dinode parent ≠ 0 := by
  by_cases reached :
      parent.isIndex = true ∧ index < NINDIRECT ∧
        disk.pointer dinode parent ≠ 0
  · exact reached
  · have none : disk.pointer dinode (.child parent index) = 0 := by
      unfold pointer
      exact if_neg reached
    exact absurd none present

theorem pointer_eq_zero
    (empty : ∀ index, dinode.addrs index = 0) :
    disk.pointer dinode position = 0 := by
  induction position with
  | addr index =>
      exact empty index
  | child parent index inductionHypothesis =>
      unfold pointer
      apply if_neg
      intro reached
      exact reached.2.2 inductionHypothesis

theorem pointer_congr
    (addrs : changed.addrs = dinode.addrs)
    (same :
      ∀ above : Position, above.isIndex = true →
        disk.pointer dinode above ≠ 0 →
        later (disk.pointer dinode above) =
          disk (disk.pointer dinode above)) :
    later.pointer changed position = disk.pointer dinode position := by
  induction position with
  | addr index =>
      exact congrFun addrs index
  | child parent index inductionHypothesis =>
      unfold pointer
      rw [inductionHypothesis]
      by_cases reached :
          parent.isIndex = true ∧ index < NINDIRECT ∧
            disk.pointer dinode parent ≠ 0
      · rw [if_pos reached, if_pos reached, same parent reached.1 reached.2.2]
      · rw [if_neg reached, if_neg reached]

/-- A block with nothing but zeros. -/
def Blank (block : Bytes) : Prop :=
  ∀ place, place < BSIZE → block place = 0

theorem entry_blank
    {block : Bytes}
    {index : Nat}
    (blank : Blank block)
    (inRange : index < NINDIRECT) :
    FileSystem.entry block index = 0 := by
  rw [NINDIRECT_eq] at inRange
  simp only [Blank, BSIZE_eq] at blank
  simp only [FileSystem.entry, Bytes.le32, Bytes.le16]
  rw [blank _ (by omega), blank _ (by omega), blank _ (by omega),
    blank _ (by omega)]
  rfl

theorem entry_setEntry
    {block : Bytes}
    {index value : Nat}
    (bound : value < uintModulus) :
    FileSystem.entry (FileSystem.setEntry block index value) index =
      value := by
  unfold FileSystem.entry FileSystem.setEntry
  rw [Bytes.le32_put_inside (Nat.le_refl _) (Nat.le_refl _), Nat.sub_self,
    Bytes.le32_ofNat]
  exact Nat.mod_eq_of_lt bound

theorem entry_setEntry_of_ne
    {block : Bytes}
    {index other value : Nat}
    (different : other ≠ index) :
    FileSystem.entry (FileSystem.setEntry block index value) other =
      FileSystem.entry block other := by
  unfold FileSystem.entry FileSystem.setEntry
  apply Bytes.le32_put_outside
  omega

theorem pointer_setAddr
    {index : AddrIndex}
    {b : Nat}
    (empty : dinode.addrs index = 0)
    (blank : Blank (disk b)) :
    disk.pointer
        { dinode with addrs := Function.update dinode.addrs index b } =
      Function.update (disk.pointer dinode) (.addr index) b := by
  funext position
  induction position with
  | addr other =>
      by_cases same : other = index
      · rw [same, Function.update_self]
        exact Function.update_self ..
      · rw [Function.update_of_ne (fun equal => same (Position.addr.inj equal))]
        exact Function.update_of_ne same ..
  | child parent place inductionHypothesis =>
      rw [Function.update_of_ne (by intro equal; cases equal)]
      unfold pointer
      rw [inductionHypothesis]
      by_cases here : parent = .addr index
      · have none : ¬ disk.pointer dinode (.addr index) ≠ 0 :=
          not_not_intro empty
        rw [here, Function.update_self]
        rw [if_neg (c := _ ∧ _ ∧ disk.pointer dinode (.addr index) ≠ 0)
          (fun reached => none reached.2.2)]
        split
        · next reached => exact entry_blank blank reached.2.1
        · rfl
      · rw [Function.update_of_ne here]

theorem pointer_setEntry
    {parent : Position}
    {index b : Nat}
    (isIndex : parent.isIndex = true)
    (inRange : index < NINDIRECT)
    (present : disk.pointer dinode parent ≠ 0)
    (empty : disk.pointer dinode (.child parent index) = 0)
    (single :
      ∀ other, disk.pointer dinode other = disk.pointer dinode parent →
        other = parent)
    (bound : b < uintModulus)
    (blank : Blank (disk b))
    (other : b ≠ disk.pointer dinode parent) :
    Disk.pointer
        (Function.update disk (disk.pointer dinode parent)
          (FileSystem.setEntry (disk (disk.pointer dinode parent)) index b))
        dinode =
      Function.update (disk.pointer dinode) (.child parent index) b := by
  funext position
  induction position with
  | addr place =>
      rw [Function.update_of_ne (by intro equal; cases equal)]
      rfl
  | child above place inductionHypothesis =>
      unfold pointer
      rw [inductionHypothesis]
      by_cases attached : above = .child parent index
      · -- The new block itself has no entries.
        have different :
            Position.child (.child parent index) place ≠
              .child parent index := by
          intro equal
          have sizes := congrArg sizeOf (Position.child.inj equal).1
          simp only [Position.child.sizeOf_spec] at sizes
          omega
        have none :
            disk.pointer dinode (.child (.child parent index) place) = 0 := by
          by_contra present
          exact (pointer_parent present).2.2 empty
        rw [attached, Function.update_of_ne different, Function.update_self,
          Function.update_of_ne other, none]
        split
        · next reached => exact entry_blank blank reached.2.1
        · rfl
      · rw [Function.update_of_ne attached]
        by_cases here : above = parent
        · rw [here, Function.update_self]
          by_cases same : place = index
          · rw [same, if_pos ⟨isIndex, inRange, present⟩, Function.update_self]
            exact entry_setEntry bound
          · rw [Function.update_of_ne
              (fun equal => same (Position.child.inj equal).2)]
            rw [entry_setEntry_of_ne same]
            rfl
        · rw [Function.update_of_ne
            (fun equal => here (Position.child.inj equal).1)]
          by_cases shared :
              disk.pointer dinode above = disk.pointer dinode parent
          · exact absurd (single above shared) here
          · rw [Function.update_of_ne shared]
            rfl

end Disk

end MyOS
