import MyOS.BlockTree
import MyOS.Lib.Ownership

namespace MyOS

open Lib

/-!
# The owners of the blocks

Every marked block behind the metadata is referred to from one position of one
inode.  The inodes are taken as the kernel knows them; the copy of one of them
on the disk may lag behind.
-/

namespace Disk

/-- The block number at a position of one of the inodes. -/
def references (disk : Disk) (m : Nat → Dinode) (holder : Nat × Position) :
    Nat :=
  disk.pointer (m holder.1) holder.2

end Disk

/-- Give an inode other addresses. -/
def setAddrs (m : Nat → Dinode) (inum : Nat) (addrs : AddrIndex → Nat) :
    Nat → Dinode :=
  Function.update m inum { m inum with addrs := addrs }

/-- What the disk says about the inodes that the kernel knows. -/
structure DiskFits
    (disk : Disk)
    (m : Nat → Dinode)
    (lagging loose : Option Nat) : Prop where
  owned :
    Ownership (disk.references m) disk.marked (fun b => b < ROOT_BLOCK)
      FSSIZE loose
  stored :
    ∀ {inum}, inum < NINODES → lagging ≠ some inum →
      disk.dinode inum = m inum
  fits : ∀ inum, (m inum).Fits
  free :
    ∀ {inum}, (m inum).type = 0 ∨ NINODES ≤ inum →
      ∀ index, (m inum).addrs index = 0

/--
The blocks that an inode referred to are where they were, and those of the
file hold what they held.
-/
def FileKept
    (disk : Disk)
    (dinode : Dinode)
    (later : Disk)
    (changed : Dinode) : Prop :=
  ∀ position,
    disk.pointer dinode position ≠ 0 →
      later.pointer changed position = disk.pointer dinode position ∧
      (position.isIndex = false →
        later (disk.pointer dinode position) =
          disk (disk.pointer dinode position))

/-- All files are kept. -/
def BlocksKept
    (disk : Disk)
    (m : Nat → Dinode)
    (later : Disk)
    (changed : Nat → Dinode) : Prop :=
  ∀ inum, FileKept disk (m inum) later (changed inum)

namespace FileKept

variable {disk later last : Disk} {dinode changed final : Dinode}

theorem refl : FileKept disk dinode disk dinode :=
  fun _ _ => ⟨rfl, fun _ => rfl⟩

theorem trans
    (first : FileKept disk dinode later changed)
    (second : FileKept later changed last final) :
    FileKept disk dinode last final := by
  intro position present
  obtain ⟨samePointer, sameBlock⟩ := first position present
  have stillPresent : later.pointer changed position ≠ 0 := by
    rw [samePointer]
    exact present
  obtain ⟨thenPointer, thenBlock⟩ := second position stillPresent
  rw [samePointer] at thenPointer thenBlock
  refine ⟨thenPointer, ?_⟩
  intro isData
  rw [thenBlock isData, sameBlock isData]

theorem byteAt
    (kept : FileKept disk dinode later changed)
    {place : Nat}
    (present : disk.pointer dinode (.ofBlock (place / BSIZE)) ≠ 0) :
    later.byteAt changed place = disk.byteAt dinode place := by
  obtain ⟨samePointer, sameBlock⟩ := kept _ present
  unfold Disk.byteAt
  rw [samePointer, sameBlock (Position.isIndex_ofBlock _)]

theorem of_blocks
    (same :
      ∀ position, disk.pointer dinode position ≠ 0 →
        later (disk.pointer dinode position) =
          disk (disk.pointer dinode position)) :
    FileKept disk dinode later dinode := by
  intro position present
  refine ⟨?_, fun _ => same position present⟩
  apply Disk.pointer_congr rfl
  intro above _
  exact same above

end FileKept

namespace BlocksKept

variable {disk later last : Disk} {m changed final : Nat → Dinode}

theorem refl : BlocksKept disk m disk m :=
  fun _ => FileKept.refl

theorem trans
    (first : BlocksKept disk m later changed)
    (second : BlocksKept later changed last final) :
    BlocksKept disk m last final :=
  fun inum => (first inum).trans (second inum)

end BlocksKept

namespace DiskFits

variable {disk later : Disk} {m : Nat → Dinode}
variable {lagging loose : Option Nat}
variable {inum : Nat} {position : Position}

theorem inRange
    (fits : DiskFits disk m lagging loose)
    (present : disk.pointer (m inum) position ≠ 0) :
    ROOT_BLOCK ≤ disk.pointer (m inum) position ∧
      disk.pointer (m inum) position < FSSIZE := by
  have held : disk.references m (inum, position) ≠ 0 := present
  obtain ⟨bound, free⟩ := fits.owned.inRange held
  exact ⟨Nat.le_of_not_lt free, bound⟩

theorem exclusive
    (fits : DiskFits disk m lagging loose)
    {other : Nat}
    {place : Position}
    (present : disk.pointer (m inum) position ≠ 0)
    (same :
      disk.pointer (m other) place = disk.pointer (m inum) position) :
    other = inum ∧ place = position := by
  have held : disk.references m (inum, position) ≠ 0 := present
  have shared :
      disk.references m (inum, position) =
        disk.references m (other, place) :=
    same.symm
  have holders := fits.owned.exclusive shared held
  injection holders with sameInum samePosition
  exact ⟨sameInum.symm, samePosition.symm⟩

theorem isMarked
    (fits : DiskFits disk m lagging loose)
    (present : disk.pointer (m inum) position ≠ 0) :
    disk.marked (disk.pointer (m inum) position) = true := by
  have held : disk.references m (inum, position) ≠ 0 := present
  exact fits.owned.isMarked held

theorem references_congr
    (disk : Disk)
    (same :
      ∀ inum position, disk.pointer (m inum) position ≠ 0 →
        later (disk.pointer (m inum) position) =
          disk (disk.pointer (m inum) position)) :
    later.references m = disk.references m := by
  funext ⟨inum, position⟩
  apply Disk.pointer_congr rfl
  intro above _ present
  exact same inum above present

theorem lag
    (fits : DiskFits disk m none loose) :
    DiskFits disk m lagging loose where
  owned := fits.owned
  stored := by
    intro inum inRange _
    exact fits.stored inRange (by simp)
  fits := fits.fits
  free := fits.free

end DiskFits

namespace Disk

/-- Take a block out of the free ones, with zeros in it. -/
def allocate (disk : Disk) (b : Nat) : Disk :=
  (disk.mark b).blank b

variable {disk : Disk} {b c : Nat}

theorem blank_allocate
    (disk : Disk)
    (b : Nat) :
    Blank (disk.allocate b b) := by
  intro place inside
  unfold allocate blank
  rw [Function.update_self, Bytes.put_inside (Nat.zero_le _)]
  rw [Nat.zero_add]
  exact inside

theorem allocate_of_ne
    (other : c ≠ b)
    (notBitmap : c ≠ bitmapBlock b) :
    disk.allocate b c = disk c := by
  unfold allocate blank
  rw [Function.update_of_ne other, mark_of_ne notBitmap]

theorem marked_allocate
    (inRange : b < FSSIZE)
    (isData : ROOT_BLOCK ≤ b) :
    (disk.allocate b).marked = Function.update disk.marked b true := by
  rw [← marked_mark inRange]
  apply marked_congr _
  intro c _ isBitmap
  apply Function.update_of_ne
  omega

end Disk

namespace DiskFits

variable {disk : Disk} {m : Nat → Dinode}
variable {lagging loose : Option Nat}
variable {inum b : Nat} {position : Position}

theorem isData_of_unmarked
    (fits : DiskFits disk m lagging loose)
    (clear : disk.marked b = false) :
    ROOT_BLOCK ≤ b := by
  apply Nat.le_of_not_lt
  intro isReserved
  have isMarked := fits.owned.keepsReserved isReserved
  rw [clear] at isMarked
  cases isMarked

theorem allocate_of_present
    (fits : DiskFits disk m lagging loose)
    (clear : disk.marked b = false)
    (inRange : b < FSSIZE)
    (present : disk.pointer (m inum) position ≠ 0) :
    disk.allocate b (disk.pointer (m inum) position) =
      disk (disk.pointer (m inum) position) := by
  apply Disk.allocate_of_ne
  · intro same
    have isMarked := fits.isMarked present
    rw [same, clear] at isMarked
    cases isMarked
  · have isData := (fits.inRange present).1
    have isBitmap := Disk.bitmapBlock_lt inRange
    omega

theorem allocate
    (fits : DiskFits disk m lagging none)
    (clear : disk.marked b = false)
    (inRange : b < FSSIZE) :
    DiskFits (disk.allocate b) m lagging (some b) := by
  have isData := fits.isData_of_unmarked clear
  have sameReferences :
      (disk.allocate b).references m = disk.references m := by
    apply references_congr
    intro inum position present
    exact fits.allocate_of_present clear inRange present
  exact {
    owned := by
      rw [sameReferences, Disk.marked_allocate inRange isData]
      exact fits.owned.alloc inRange clear
    stored := by
      intro inum inArea isStored
      rw [← fits.stored inArea isStored]
      apply Disk.dinode_congr
      have inodes := Disk.inodeBlock_lt inArea
      have bitmap := Disk.le_bitmapBlock b
      have order := Disk.BMAP_START_lt_ROOT_BLOCK
      apply Disk.allocate_of_ne
      · omega
      · omega
    fits := fits.fits
    free := fits.free
  }

theorem kept_allocate
    (fits : DiskFits disk m lagging none)
    (clear : disk.marked b = false)
    (inRange : b < FSSIZE) :
    BlocksKept disk m (disk.allocate b) m := by
  intro inum
  apply FileKept.of_blocks
  intro position present
  exact fits.allocate_of_present clear inRange present

theorem references_setAddrs
    {addrs : AddrIndex → Nat}
    {pointers : Position → Nat}
    (pointers_eq :
      disk.pointer { m inum with addrs := addrs } = pointers) :
    disk.references (setAddrs m inum addrs) =
      fun holder =>
        if holder.1 = inum then pointers holder.2
        else disk.references m holder := by
  funext ⟨other, position⟩
  unfold Disk.references setAddrs
  by_cases same : other = inum
  · rw [if_pos same, same, Function.update_self, pointers_eq]
  · rw [if_neg same, Function.update_of_ne same]

theorem update_holder
    {refs : Nat × Position → Nat} :
    (fun holder : Nat × Position =>
        if holder.1 = inum then
          Function.update (fun place => refs (inum, place)) position b
            holder.2
        else refs holder) =
      Function.update refs (inum, position) b := by
  funext ⟨other, place⟩
  by_cases same : other = inum
  · rw [if_pos same, same]
    by_cases here : place = position
    · rw [here, Function.update_self, Function.update_self]
    · rw [Function.update_of_ne here, Function.update_of_ne]
      intro equal
      exact here (Prod.mk.inj equal).2
  · rw [if_neg same, Function.update_of_ne]
    intro equal
    exact same (Prod.mk.inj equal).1

theorem attachAddr
    (fits : DiskFits disk m (some inum) (some b))
    (blank : Disk.Blank (disk b))
    {index : AddrIndex}
    (empty : (m inum).addrs index = 0)
    (inUse : (m inum).type ≠ 0)
    (inRange : inum < NINODES) :
    DiskFits disk
      (setAddrs m inum (Function.update (m inum).addrs index b))
      (some inum) none := by
  obtain ⟨bound, -, -, -⟩ := fits.owned.looseInRange rfl
  exact {
    owned := by
      rw [references_setAddrs (Disk.pointer_setAddr empty blank)]
      have vacant : disk.references m (inum, .addr index) = 0 := empty
      have attached := fits.owned.attach vacant
      rw [← update_holder] at attached
      exact attached
    stored := by
      intro other inArea isStored
      have different : other ≠ inum := by
        intro same
        exact isStored (congrArg some same.symm)
      unfold setAddrs
      rw [Function.update_of_ne different]
      exact fits.stored inArea isStored
    fits := by
      intro other
      unfold setAddrs
      by_cases same : other = inum
      · rw [same, Function.update_self]
        have before := fits.fits inum
        refine { before with addrs := ?_ }
        intro place
        by_cases here : place = index
        · rw [here]
          simp only [Function.update_self]
          rw [FSSIZE_eq] at bound
          simp only [uintModulus]
          omega
        · simp only [Function.update_of_ne here]
          exact before.addrs place
      · rw [Function.update_of_ne same]
        exact fits.fits other
    free := by
      intro other unused place
      unfold setAddrs at unused ⊢
      by_cases same : other = inum
      · rw [same, Function.update_self] at unused
        rcases unused with none | outside
        · exact absurd none inUse
        · omega
      · rw [Function.update_of_ne same] at unused ⊢
        exact fits.free unused place
  }

theorem kept_attachAddr
    (blank : Disk.Blank (disk b))
    {index : AddrIndex}
    (empty : (m inum).addrs index = 0) :
    BlocksKept disk m disk
      (setAddrs m inum (Function.update (m inum).addrs index b)) := by
  intro other position present
  refine ⟨?_, fun _ => rfl⟩
  unfold setAddrs
  by_cases same : other = inum
  · rw [same] at present ⊢
    rw [Function.update_self, Disk.pointer_setAddr empty blank,
      Function.update_of_ne]
    intro here
    rw [here] at present
    exact present empty
  · rw [Function.update_of_ne same]

section Entry

variable {parent : Position} {index : Nat}

/-- Store a block number in the indirect block at a position. -/
def storeEntry
    (disk : Disk)
    (dinode : Dinode)
    (parent : Position)
    (index b : Nat) :
    Disk :=
  Function.update disk (disk.pointer dinode parent)
    (FileSystem.setEntry (disk (disk.pointer dinode parent)) index b)

theorem references_storeEntry
    (fits : DiskFits disk m lagging (some b))
    (blank : Disk.Blank (disk b))
    (isIndex : parent.isIndex = true)
    (inRange : index < NINDIRECT)
    (present : disk.pointer (m inum) parent ≠ 0)
    (empty : disk.pointer (m inum) (.child parent index) = 0) :
    Disk.references (storeEntry disk (m inum) parent index b) m =
      Function.update (disk.references m) (inum, .child parent index) b := by
  obtain ⟨bound, -, -, unheld⟩ := fits.owned.looseInRange rfl
  have narrow : b < uintModulus := by
    rw [FSSIZE_eq] at bound
    simp only [uintModulus]
    omega
  rw [← update_holder]
  funext ⟨other, position⟩
  by_cases same : other = inum
  · rw [if_pos same, same]
    have attached :=
      Disk.pointer_setEntry isIndex inRange present empty
        (fun place shared => (fits.exclusive present shared).2) narrow blank
        (fun equal => unheld (inum, parent) equal.symm)
    exact congrFun attached position
  · rw [if_neg same]
    apply Disk.pointer_congr rfl
    intro above _ isAbove
    apply Function.update_of_ne
    intro shared
    exact same (fits.exclusive present shared).1

theorem storeEntry_of_ne
    {c : Nat}
    (other : c ≠ disk.pointer (m inum) parent) :
    storeEntry disk (m inum) parent index b c = disk c :=
  Function.update_of_ne other ..

theorem attachEntry
    (fits : DiskFits disk m lagging (some b))
    (blank : Disk.Blank (disk b))
    (isIndex : parent.isIndex = true)
    (inRange : index < NINDIRECT)
    (present : disk.pointer (m inum) parent ≠ 0)
    (empty : disk.pointer (m inum) (.child parent index) = 0) :
    DiskFits (storeEntry disk (m inum) parent index b) m lagging none := by
  have isData := (fits.inRange present).1
  have order := Disk.BMAP_START_lt_ROOT_BLOCK
  exact {
    owned := by
      rw [references_storeEntry fits blank isIndex inRange present empty]
      rw [Disk.marked_congr disk]
      · exact fits.owned.attach empty
      · intro c _ isBitmap
        apply storeEntry_of_ne
        omega
    stored := by
      intro other inArea isStored
      rw [← fits.stored inArea isStored]
      apply Disk.dinode_congr
      apply storeEntry_of_ne
      have inodes := Disk.inodeBlock_lt inArea
      omega
    fits := fits.fits
    free := fits.free
  }

theorem kept_attachEntry
    (fits : DiskFits disk m lagging (some b))
    (blank : Disk.Blank (disk b))
    (isIndex : parent.isIndex = true)
    (inRange : index < NINDIRECT)
    (present : disk.pointer (m inum) parent ≠ 0)
    (empty : disk.pointer (m inum) (.child parent index) = 0) :
    BlocksKept disk m (storeEntry disk (m inum) parent index b) m := by
  intro other position isPresent
  constructor
  · have attached :=
      congrFun
        (references_storeEntry fits blank isIndex inRange present empty)
        (other, position)
    rw [Function.update_of_ne] at attached
    · exact attached
    · intro same
      injection same with sameInum samePosition
      rw [sameInum, samePosition] at isPresent
      exact isPresent empty
  · intro isData
    apply storeEntry_of_ne
    intro shared
    have samePosition := (fits.exclusive present shared).2
    rw [samePosition, isIndex] at isData
    cases isData

end Entry

end DiskFits

end MyOS
