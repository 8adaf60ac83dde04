import MyOS.InodeWrites

namespace MyOS

open Lib

/-!
# What truncation leaves behind

`itrunc` alone.  While it frees the blocks of an inode, their numbers still
stand in the indirect blocks; the owners are those positions that have not been
freed yet.
-/

/-- The pointer of the inode that a position lies behind. -/
def Position.root : Position → AddrIndex
  | addr index => index
  | child parent _ => parent.root

/-- What an inode is behind a truncation. -/
def Dinode.truncated (dinode : Dinode) : Dinode :=
  dinode.resized (fun _ => 0) 0

namespace Disk

variable {disk : Disk} {m : Nat → Dinode} {inum : Nat}
variable {freed : Position → Prop} {position : Position}

open Classical in
/-- The references that are left while an inode is truncated. -/
noncomputable def remaining
    (disk : Disk)
    (m : Nat → Dinode)
    (inum : Nat)
    (freed : Position → Prop)
    (holder : Nat × Position) :
    Nat :=
  if holder.1 = inum ∧ freed holder.2 then 0
  else disk.references m holder

theorem remaining_of_not
    (disk : Disk)
    (m : Nat → Dinode)
    (inum : Nat)
    (notFreed : ¬ freed position) :
    disk.remaining m inum freed (inum, position) =
      disk.pointer (m inum) position :=
  if_neg fun isFreed => notFreed isFreed.2

theorem remaining_update :
    Function.update (disk.remaining m inum freed) (inum, position) 0 =
      disk.remaining m inum (fun place => freed place ∨ place = position) := by
  funext ⟨other, place⟩
  by_cases here : other = inum ∧ place = position
  · rw [here.1, here.2, Function.update_self]
    exact (if_pos ⟨rfl, Or.inr rfl⟩).symm
  · have different : ((other, place) : Nat × Position) ≠ (inum, position) := by
      intro same
      injection same with sameInum samePlace
      exact here ⟨sameInum, samePlace⟩
    rw [Function.update_of_ne different]
    unfold remaining
    by_cases isFreed : other = inum ∧ freed place
    · rw [if_pos isFreed, if_pos ⟨isFreed.1, Or.inl isFreed.2⟩]
    · rw [if_neg isFreed, if_neg]
      rintro ⟨same, before | now⟩
      · exact isFreed ⟨same, before⟩
      · exact here ⟨same, now⟩

theorem remaining_congr
    {others : Position → Prop}
    (same :
      ∀ place, disk.pointer (m inum) place ≠ 0 →
        (freed place ↔ others place)) :
    disk.remaining m inum freed = disk.remaining m inum others := by
  funext ⟨other, place⟩
  unfold remaining
  by_cases isInum : other = inum
  · by_cases present : disk.pointer (m inum) place = 0
    · have empty : disk.references m (other, place) = 0 := by
        rw [isInum]
        exact present
      rw [empty]
      split <;> split <;> rfl
    · have equal := same place present
      by_cases isFreed : freed place
      · rw [if_pos ⟨isInum, isFreed⟩, if_pos ⟨isInum, equal.mp isFreed⟩]
      · rw [if_neg (fun both => isFreed both.2),
          if_neg (fun both => isFreed (equal.mpr both.2))]
  · rw [if_neg (fun isFreed => isInum isFreed.1),
      if_neg (fun isFreed => isInum isFreed.1)]

end Disk

namespace FileSystem

-- The loops over 256 entries are only taken apart by their rule.
seal forUpTo

variable {tolerated : FileSystem → FsPanic → Prop}
variable {fs later : FileSystem} {m : Nat → Dinode}
variable {lagging : Option Nat}
variable {ip : InodeIndex} {inum : Nat}
variable {freed : Position → Prop} {addrs : AddrIndex → Nat}

/-- A state in the middle of a truncation. -/
structure Freeing
    (fs : FileSystem)
    (m : Nat → Dinode)
    (ip : InodeIndex)
    (inum : Nat)
    (freed : Position → Prop)
    (addrs : AddrIndex → Nat)
    (later : FileSystem) : Prop where
  shape : later = fs.withAddrs ip later.disk addrs
  outside :
    ∀ b, b < BMAP_START ∨ ROOT_BLOCK ≤ b → later.disk b = fs.disk b
  owned :
    Ownership (Disk.remaining fs.disk m inum freed)
      (Disk.marked later.disk) (fun b => b < ROOT_BLOCK) FSSIZE none

namespace Freeing

variable {position : Position}

theorem congr
    {others : Position → Prop}
    (freeing : fs.Freeing m ip inum freed addrs later)
    (same :
      ∀ place, Disk.pointer fs.disk (m inum) place ≠ 0 →
        (freed place ↔ others place)) :
    fs.Freeing m ip inum others addrs later where
  shape := freeing.shape
  outside := freeing.outside
  owned := by
    rw [← Disk.remaining_congr same]
    exact freeing.owned

theorem inRange
    (freeing : fs.Freeing m ip inum freed addrs later)
    (notFreed : ¬ freed position)
    (present : Disk.pointer fs.disk (m inum) position ≠ 0) :
    ROOT_BLOCK ≤ Disk.pointer fs.disk (m inum) position ∧
      Disk.pointer fs.disk (m inum) position < FSSIZE := by
  have left := Disk.remaining_of_not fs.disk m inum notFreed
  rw [← left] at present ⊢
  obtain ⟨bound, isData⟩ := freeing.owned.inRange present
  exact ⟨Nat.le_of_not_lt isData, bound⟩

theorem bfree
    (freeing : fs.Freeing m ip inum freed addrs later)
    (formatted : fs.sb = imageSuperblock)
    (notFreed : ¬ freed position)
    (present : Disk.pointer fs.disk (m inum) position ≠ 0) :
    (FileSystem.bfree (Disk.pointer fs.disk (m inum) position) later).Ends
      tolerated
      (fun _ last =>
        fs.Freeing m ip inum (fun place => freed place ∨ place = position)
          addrs last) := by
  have left := Disk.remaining_of_not fs.disk m inum notFreed
  have held :
      Disk.remaining fs.disk m inum freed (inum, position) ≠ 0 := by
    rw [left]
    exact present
  have isMarked := freeing.owned.isMarked held
  have bound := (freeing.inRange notFreed present).2
  have stillFormatted : later.sb = imageSuperblock := by
    rw [freeing.shape]
    exact formatted
  rw [left] at isMarked
  apply (bfree_ends stillFormatted isMarked).mono
  intro _ last isLast
  rw [isLast]
  exact {
    shape := by
      have shape := freeing.shape
      rw [shape]
      rfl
    outside := by
      intro b notBitmap
      rw [← freeing.outside b notBitmap]
      apply Disk.unmark_of_ne
      have upper := Disk.bitmapBlock_lt bound
      have lower :=
        Disk.le_bitmapBlock (Disk.pointer fs.disk (m inum) position)
      omega
    owned := by
      rw [← Disk.remaining_update, Disk.marked_unmark, ← left]
      exact freeing.owned.release held
  }

theorem data
    (freeing : fs.Freeing m ip inum freed addrs later)
    {b : Nat}
    (isData : ROOT_BLOCK ≤ b) :
    later.disk b = fs.disk b :=
  freeing.outside b (Or.inr isData)

theorem itruncEntries
    (freeing : fs.Freeing m ip inum freed addrs later)
    (formatted : fs.sb = imageSuperblock)
    (isIndex : position.isIndex = true)
    (notFreed : ¬ freed position)
    (present : Disk.pointer fs.disk (m inum) position ≠ 0)
    (untouched : ∀ index, ¬ freed (.child position index)) :
    (FileSystem.itruncEntries (Disk.pointer fs.disk (m inum) position)
        later).Ends
      tolerated
      (fun _ last =>
        fs.Freeing m ip inum
          (fun place =>
            freed place ∨
              ∃ index, index < NINDIRECT ∧ place = .child position index)
          addrs last) := by
  unfold FileSystem.itruncEntries
  generalize isLimit : NINDIRECT = limit
  refine ends_forUpTo (fun count last =>
    fs.Freeing m ip inum
      (fun place =>
        freed place ∨ ∃ index, index < count ∧ place = .child position index)
      addrs last) limit ?_ ?_
  · apply freeing.congr
    intro place _
    constructor
    · exact Or.inl
    · rintro (before | ⟨index, none, _⟩)
      · exact before
      · omega
  · intro index last inRange here
    have isData := (freeing.inRange notFreed present).1
    rw [← isLimit] at inRange
    have entry := Disk.pointer_child isIndex inRange present
    have notYet :
        ¬ (freed (.child position index) ∨
          ∃ other, other < index ∧
            Position.child position index = .child position other) := by
      rintro (before | ⟨other, less, same⟩)
      · exact untouched index before
      · have equal := (Position.child.inj same).2
        omega
    have next :
        ∀ place,
          ((freed place ∨
              ∃ other, other < index ∧ place = .child position other) ∨
            place = .child position index) ↔
          (freed place ∨
            ∃ other, other < index + 1 ∧
              place = .child position other) := by
      intro place
      constructor
      · rintro ((before | ⟨other, less, same⟩) | now)
        · exact Or.inl before
        · exact Or.inr ⟨other, by omega, same⟩
        · exact Or.inr ⟨index, by omega, now⟩
      · rintro (before | ⟨other, less, same⟩)
        · exact Or.inl (Or.inl before)
        · by_cases isLast : other = index
          · rw [isLast] at same
            exact Or.inr same
          · exact Or.inl (Or.inr ⟨other, by omega, same⟩)
    apply Routine.ends_gets
    rw [here.data isData, ← entry]
    by_cases empty :
        Disk.pointer fs.disk (m inum) (.child position index) = 0
    · rw [if_neg (not_not_intro empty)]
      apply here.congr
      intro place isPresent
      rw [← next place]
      constructor
      · exact Or.inl
      · rintro (before | now)
        · exact before
        · rw [now] at isPresent
          exact absurd empty isPresent
    · rw [if_pos empty]
      apply (here.bfree formatted notYet empty).mono
      intro _ final there
      apply there.congr
      intro place _
      exact next place

/-- A position behind one of the first entries of a position. -/
def BehindEntries (position : Position) (count : Nat) (place : Position) :
    Prop :=
  ∃ index, index < count ∧
    (place = .child position index ∨
      ∃ inner, inner < NINDIRECT ∧
        place = .child (.child position index) inner)

theorem behindEntries_succ
    {count : Nat}
    {place : Position} :
    BehindEntries position (count + 1) place ↔
      (BehindEntries position count place ∨
        ∃ inner, inner < NINDIRECT ∧
          place = .child (.child position count) inner) ∨
        place = .child position count := by
  constructor
  · rintro ⟨index, less, here⟩
    by_cases isLast : index = count
    · rw [isLast] at here
      rcases here with same | behind
      · exact Or.inr same
      · exact Or.inl (Or.inr behind)
    · exact Or.inl (Or.inl ⟨index, by omega, here⟩)
  · rintro ((⟨index, less, here⟩ | behind) | same)
    · exact ⟨index, by omega, here⟩
    · exact ⟨count, by omega, Or.inr behind⟩
    · exact ⟨count, by omega, Or.inl same⟩

theorem not_behindEntries
    (position : Position)
    (count inner : Nat) :
    ¬ BehindEntries position count (.child position count) ∧
      ¬ BehindEntries position count
          (.child (.child position count) inner) := by
  have deeper :
      ∀ {above : Position} {first second : Nat},
        Position.child (.child above first) second ≠ .child above count := by
    intro above first second same
    have sizes := congrArg sizeOf (Position.child.inj same).1
    simp only [Position.child.sizeOf_spec] at sizes
    omega
  constructor
  · rintro ⟨index, less, same | ⟨place, _, same⟩⟩
    · have equal := (Position.child.inj same).2
      omega
    · exact deeper same.symm
  · rintro ⟨index, less, same | ⟨place, _, same⟩⟩
    · have sizes := congrArg sizeOf (Position.child.inj same).1
      simp only [Position.child.sizeOf_spec] at sizes
      omega
    · have equal := (Position.child.inj (Position.child.inj same).1).2
      omega

theorem itruncSecond
    (freeing : fs.Freeing m ip inum freed addrs later)
    (formatted : fs.sb = imageSuperblock)
    (notFreed : ¬ freed (.addr doubleIndex))
    (present : Disk.pointer fs.disk (m inum) (.addr doubleIndex) ≠ 0)
    (untouched : ∀ place, place.root = doubleIndex → ¬ freed place) :
    (FileSystem.itruncSecond
        (Disk.pointer fs.disk (m inum) (.addr doubleIndex)) later).Ends
      tolerated
      (fun _ last =>
        fs.Freeing m ip inum
          (fun place =>
            freed place ∨ BehindEntries (.addr doubleIndex) NINDIRECT place)
          addrs last) := by
  unfold FileSystem.itruncSecond
  generalize isLimit : NINDIRECT = limit
  refine ends_forUpTo (fun count last =>
    fs.Freeing m ip inum
      (fun place =>
        freed place ∨ BehindEntries (.addr doubleIndex) count place)
      addrs last) limit ?_ ?_
  · apply freeing.congr
    intro place _
    constructor
    · exact Or.inl
    · rintro (before | ⟨index, none, _⟩)
      · exact before
      · omega
  · intro index last inRange here
    rw [← isLimit] at inRange
    have isData := (freeing.inRange notFreed present).1
    have isIndex : (Position.addr doubleIndex).isIndex = true := rfl
    have entry := Disk.pointer_child isIndex inRange present
    have notYet : ∀ inner,
        ¬ (freed (.child (.addr doubleIndex) index) ∨
            BehindEntries (.addr doubleIndex) index
              (.child (.addr doubleIndex) index)) ∧
          ¬ (freed (.child (.child (.addr doubleIndex) index) inner) ∨
            BehindEntries (.addr doubleIndex) index
              (.child (.child (.addr doubleIndex) index) inner)) := by
      intro inner
      obtain ⟨own, behind⟩ :=
        not_behindEntries (.addr doubleIndex) index inner
      constructor
      · rintro (before | before)
        · exact untouched _ rfl before
        · exact own before
      · rintro (before | before)
        · exact untouched _ rfl before
        · exact behind before
    apply Routine.ends_gets
    rw [here.data isData, ← entry]
    by_cases empty :
        Disk.pointer fs.disk (m inum) (.child (.addr doubleIndex) index) = 0
    · rw [if_neg (not_not_intro empty)]
      apply here.congr
      intro place isPresent
      rw [behindEntries_succ]
      constructor
      · rintro (before | before)
        · exact Or.inl before
        · exact Or.inr (Or.inl (Or.inl before))
      · rintro (before | (before | ⟨inner, _, behind⟩) | own)
        · exact Or.inl before
        · exact Or.inr before
        · rw [behind] at isPresent
          exact absurd empty (Disk.pointer_parent isPresent).2.2
        · rw [own] at isPresent
          exact absurd empty isPresent
    · rw [if_pos empty]
      apply ends_bread
      apply Routine.ends_bind
      · exact here.itruncEntries formatted rfl (notYet 0).1 empty
          fun inner => (notYet inner).2
      · intro _ middle there
        apply Routine.ends_gets
        rw [there.data isData, ← entry]
        apply Outcome.Ends.mono
        · apply there.bfree formatted _ empty
          rintro (before | ⟨inner, _, same⟩)
          · exact (notYet 0).1 before
          · have sizes := congrArg sizeOf (Position.child.inj same).1
            simp only [Position.child.sizeOf_spec] at sizes
            omega
        · intro _ final done
          apply done.congr
          intro place _
          rw [behindEntries_succ, or_assoc, or_assoc, or_assoc]

theorem freed_tree
    {index : AddrIndex}
    {behind : Position → Prop}
    (covers :
      ∀ place, place.root = index →
        Disk.pointer fs.disk (m inum) place ≠ 0 →
        place = .addr index ∨ behind place)
    (inside : ∀ place, behind place → place.root = index)
    (place : Position)
    (present : Disk.pointer fs.disk (m inum) place ≠ 0) :
    (((place.root.val < index.val ∨ behind place) ∨ place = .addr index) ↔
      place.root.val < index.val + 1) := by
  constructor
  · rintro ((before | isBehind) | own)
    · omega
    · rw [inside place isBehind]
      exact Nat.lt_succ_self _
    · rw [own]
      exact Nat.lt_succ_self _
  · intro less
    by_cases before : place.root.val < index.val
    · exact Or.inl (Or.inl before)
    · have same : place.root = index := by
        apply Fin.ext
        omega
      rcases covers place same present with own | isBehind
      · exact Or.inr own
      · exact Or.inl (Or.inr isBehind)

end Freeing

/-- The addresses of an inode whose first ones have been cleared. -/
def clearedAddrs (dinode : Dinode) (count : Nat) (index : AddrIndex) : Nat :=
  if index.val < count then 0 else dinode.addrs index

theorem clearedAddrs_succ
    (dinode : Dinode)
    (index : AddrIndex) :
    Function.update (clearedAddrs dinode index.val) index 0 =
      clearedAddrs dinode (index.val + 1) := by
  funext other
  unfold clearedAddrs
  by_cases same : other = index
  · rw [same, Function.update_self, if_pos (Nat.lt_succ_self _)]
  · have different : other.val ≠ index.val :=
      fun equal => same (Fin.ext equal)
    rw [Function.update_of_ne same]
    by_cases before : other.val < index.val
    · rw [if_pos before, if_pos (by omega)]
    · rw [if_neg before, if_neg (by omega)]

/-- A state between two pointers of the inode. -/
def Cleared (fs : FileSystem) (m : Nat → Dinode) (ip : InodeIndex)
    (inum count : Nat) (later : FileSystem) : Prop :=
  fs.Freeing m ip inum (fun place => place.root.val < count)
    (clearedAddrs (m inum) count) later

section Tree

variable {index : AddrIndex} {behind : Position → Prop}

theorem addrs_of_cleared
    (freeing :
      fs.Freeing m ip inum freed (clearedAddrs (m inum) index.val) later) :
    (later.inode ip).addrs index = (m inum).addrs index := by
  rw [freeing.shape]
  unfold withAddrs clearedAddrs
  simp only [Function.update_self, Nat.lt_irrefl, if_false]

theorem clear_empty
    (cleared : fs.Cleared m ip inum index.val later)
    (covers :
      ∀ place, place.root = index →
        Disk.pointer fs.disk (m inum) place ≠ 0 →
        place = .addr index ∨ behind place)
    (inside : ∀ place, behind place → place.root = index)
    (empty : (m inum).addrs index = 0) :
    fs.Cleared m ip inum (index.val + 1) later := by
  have nothing :
      ∀ place : Position, place.root = index →
        Disk.pointer fs.disk (m inum) place = 0 := by
    intro place
    induction place with
    | addr other =>
        intro same
        have same : other = index := same
        rw [same]
        exact empty
    | child parent entry inductionHypothesis =>
        intro same
        by_contra present
        exact (Disk.pointer_parent present).2.2 (inductionHypothesis same)
  have sameAddrs :
      clearedAddrs (m inum) (index.val + 1) =
        clearedAddrs (m inum) index.val := by
    rw [← clearedAddrs_succ]
    apply Function.update_eq_self_iff.mpr
    unfold clearedAddrs
    rw [if_neg (Nat.lt_irrefl _)]
    exact empty.symm
  unfold Cleared
  rw [sameAddrs]
  apply Freeing.congr cleared
  intro place present
  rw [← Freeing.freed_tree covers inside place present]
  constructor
  · intro before
    exact Or.inl (Or.inl before)
  · rintro ((before | isBehind) | own)
    · exact before
    · exact absurd (nothing place (inside place isBehind)) present
    · rw [own] at present
      exact absurd empty present

theorem clear_pointer
    (freeing :
      fs.Freeing m ip inum
        (fun place => place.root.val < index.val ∨ behind place)
        (clearedAddrs (m inum) index.val) later)
    (formatted : fs.sb = imageSuperblock)
    (covers :
      ∀ place, place.root = index →
        Disk.pointer fs.disk (m inum) place ≠ 0 →
        place = .addr index ∨ behind place)
    (inside : ∀ place, behind place → place.root = index)
    (notOwn : ¬ behind (.addr index))
    (present : (m inum).addrs index ≠ 0) :
    ((do
        bfree ((m inum).addrs index)
        setInode ip fun inode =>
          { inode with addrs := Function.update inode.addrs index 0 } :
        FsRoutine Unit) later).Ends
      tolerated (fun _ last => fs.Cleared m ip inum (index.val + 1) last) := by
  have isPresent : Disk.pointer fs.disk (m inum) (.addr index) ≠ 0 := present
  apply Routine.ends_bind
  · apply freeing.bfree formatted _ isPresent
    rintro (before | isBehind)
    · exact Nat.lt_irrefl _ before
    · exact notOwn isBehind
  · intro _ last there
    have whole := there.congr (Freeing.freed_tree covers inside)
    exact {
      shape := by
        have shape := whole.shape
        rw [shape]
        unfold withAddrs
        simp only [Function.update_self, Function.update_idem]
        rw [clearedAddrs_succ]
      outside := whole.outside
      owned := whole.owned
    }

theorem itruncTree_ends
    {entries : Nat → FsRoutine Unit}
    (cleared : fs.Cleared m ip inum index.val later)
    (formatted : fs.sb = imageSuperblock)
    (covers :
      ∀ place, place.root = index →
        Disk.pointer fs.disk (m inum) place ≠ 0 →
        place = .addr index ∨ behind place)
    (inside : ∀ place, behind place → place.root = index)
    (notOwn : ¬ behind (.addr index))
    (frees :
      Disk.pointer fs.disk (m inum) (.addr index) ≠ 0 →
      (entries (Disk.pointer fs.disk (m inum) (.addr index)) later).Ends
        tolerated
        (fun _ last =>
          fs.Freeing m ip inum
            (fun place => place.root.val < index.val ∨ behind place)
            (clearedAddrs (m inum) index.val) last)) :
    (itruncTree ip index entries later).Ends tolerated
      (fun _ last => fs.Cleared m ip inum (index.val + 1) last) := by
  unfold itruncTree
  apply ends_inodeAt
  rw [addrs_of_cleared cleared]
  by_cases empty : (m inum).addrs index = 0
  · rw [if_neg (not_not_intro empty)]
    exact clear_empty cleared covers inside empty
  · rw [if_pos empty]
    apply ends_bread
    apply Routine.ends_bind (frees empty)
    intro _ middle here
    apply ends_inodeAt
    rw [addrs_of_cleared here]
    exact clear_pointer here formatted covers inside notOwn empty

end Tree

theorem itruncAddr_ends
    {bn : Nat}
    (isDirect : bn < NDIRECT)
    (formatted : fs.sb = imageSuperblock)
    (cleared : fs.Cleared m ip inum bn later) :
    (itruncAddr ip (directIndex bn isDirect) later).Ends tolerated
      (fun _ last => fs.Cleared m ip inum (bn + 1) last) := by
  have covers :
      ∀ place : Position, place.root = directIndex bn isDirect →
        Disk.pointer fs.disk (m inum) place ≠ 0 →
        place = .addr (directIndex bn isDirect) ∨ False := by
    intro place same present
    induction place with
    | addr other =>
        have same : other = directIndex bn isDirect := same
        exact Or.inl (congrArg Position.addr same)
    | child parent entry inductionHypothesis =>
        obtain ⟨isIndex, _, above⟩ := Disk.pointer_parent present
        rcases inductionHypothesis same above with isAddr | none
        · rw [isAddr, Position.isIndex_direct isDirect] at isIndex
          cases isIndex
        · exact Or.inr none
  unfold itruncAddr
  apply ends_inodeAt
  rw [show (later.inode ip).addrs (directIndex bn isDirect) = _ from
    addrs_of_cleared cleared]
  by_cases empty : (m inum).addrs (directIndex bn isDirect) = 0
  · rw [if_neg (not_not_intro empty)]
    exact clear_empty cleared covers (fun _ none => none.elim) empty
  · rw [if_pos empty]
    apply clear_pointer _ formatted covers (fun _ none => none.elim) id empty
    apply Freeing.congr cleared
    intro place _
    exact iff_of_eq (or_false _).symm

theorem covers_indirect
    (place : Position)
    (same : place.root = indirectIndex)
    (present : Disk.pointer fs.disk (m inum) place ≠ 0) :
    place = .addr indirectIndex ∨
      ∃ index, index < NINDIRECT ∧
        place = .child (.addr indirectIndex) index := by
  induction place with
  | addr other =>
      have same : other = indirectIndex := same
      exact Or.inl (congrArg Position.addr same)
  | child parent entry inductionHypothesis =>
      obtain ⟨isIndex, inRange, above⟩ := Disk.pointer_parent present
      rcases inductionHypothesis same above with isAddr | ⟨index, _, isChild⟩
      · rw [isAddr]
        exact Or.inr ⟨entry, inRange, rfl⟩
      · rw [isChild] at isIndex
        cases isIndex

theorem covers_double
    (place : Position)
    (same : place.root = doubleIndex)
    (present : Disk.pointer fs.disk (m inum) place ≠ 0) :
    place = .addr doubleIndex ∨
      Freeing.BehindEntries (.addr doubleIndex) NINDIRECT place := by
  induction place with
  | addr other =>
      have same : other = doubleIndex := same
      exact Or.inl (congrArg Position.addr same)
  | child parent entry inductionHypothesis =>
      obtain ⟨isIndex, inRange, above⟩ := Disk.pointer_parent present
      rcases inductionHypothesis same above with isAddr | behind
      · rw [isAddr]
        exact Or.inr ⟨entry, inRange, Or.inl rfl⟩
      · obtain ⟨index, less, isChild | ⟨inner, _, isSecond⟩⟩ := behind
        · rw [isChild]
          exact Or.inr ⟨index, less, Or.inr ⟨entry, inRange, rfl⟩⟩
        · rw [isSecond] at isIndex
          cases isIndex

theorem Loaded.cleared_zero
    (loaded : fs.Loaded m lagging ip inum) :
    fs.Cleared m ip inum 0 fs where
  shape := by
    have same : clearedAddrs (m inum) 0 = (m inum).addrs := by
      funext index
      exact if_neg (Nat.not_lt_zero _)
    rw [same]
    exact (withAddrs_self (congrArg Dinode.addrs loaded.same)).symm
  outside := fun _ _ => rfl
  owned := by
    have same :
        Disk.remaining fs.disk m inum (fun place => place.root.val < 0) =
          Disk.references fs.disk m := by
      funext holder
      exact if_neg fun isFreed => Nat.not_lt_zero _ isFreed.2
    rw [same]
    exact loaded.fits.owned

theorem clearedAddrs_all
    (dinode : Dinode) :
    clearedAddrs dinode 13 = fun _ => 0 := by
  funext index
  exact if_pos index.isLt

theorem fits_of_cleared
    (loaded : fs.Loaded m lagging ip inum)
    (cleared : fs.Cleared m ip inum 13 later) :
    DiskFits later.disk (Function.update m inum (m inum).truncated)
      (some inum) none where
  owned := by
    have same :
        Disk.references later.disk
            (Function.update m inum (m inum).truncated) =
          Disk.remaining fs.disk m inum
            (fun place => place.root.val < 13) := by
      funext ⟨other, place⟩
      unfold Disk.references Disk.remaining
      by_cases isInum : other = inum
      · rw [if_pos ⟨isInum, place.root.isLt⟩]
        simp only [isInum, Function.update_self]
        exact Disk.pointer_eq_zero fun _ => rfl
      · rw [if_neg (fun isFreed => isInum isFreed.1)]
        simp only [Function.update_of_ne isInum]
        apply Disk.pointer_congr rfl
        intro above _ present
        exact cleared.data (loaded.fits.inRange present).1
    rw [same]
    exact cleared.owned
  stored := by
    intro other inArea isStored
    have different : other ≠ inum := by
      intro same
      exact isStored (congrArg some same.symm)
    rw [Function.update_of_ne different]
    have sameBlock :
        later.disk (Disk.inodeBlock other) =
          fs.disk (Disk.inodeBlock other) :=
      cleared.outside _ (Or.inl (Disk.inodeBlock_lt inArea))
    rw [Disk.dinode_congr sameBlock]
    apply loaded.fits.stored inArea
    intro isLagging
    rcases loaded.lag with none | isInum
    · rw [none] at isLagging
      cases isLagging
    · rw [isInum] at isLagging
      exact isStored isLagging
  fits := by
    intro other
    by_cases same : other = inum
    · rw [same, Function.update_self]
      exact { (loaded.fits.fits inum) with
        size := by
          change 0 < uintModulus
          decide
        addrs := by
          intro _
          change 0 < uintModulus
          decide }
    · rw [Function.update_of_ne same]
      exact loaded.fits.fits other
  free := by
    intro other unused index
    by_cases same : other = inum
    · rw [same, Function.update_self]
      rfl
    · rw [Function.update_of_ne same] at unused ⊢
      exact loaded.fits.free unused index

theorem itrunc_ends
    (loaded : fs.Loaded m lagging ip inum) :
    (itrunc ip fs).Ends tolerated
      (fun _ later =>
        fs.Rewritten m ip inum later (m inum).truncated none fun _ => 0) := by
  unfold itrunc
  apply Routine.ends_bind
  · apply ends_forUpTo (fun count later => fs.Cleared m ip inum count later)
      NDIRECT loaded.cleared_zero
    intro bn later isDirect cleared
    rw [dif_pos isDirect]
    exact itruncAddr_ends isDirect loaded.formatted cleared
  · intro _ afterDirect direct
    apply Routine.ends_bind
    · apply itruncTree_ends direct loaded.formatted
        covers_indirect
      · rintro place ⟨index, _, isChild⟩
        rw [isChild]
        rfl
      · rintro ⟨index, _, isChild⟩
        cases isChild
      · intro present
        exact Freeing.itruncEntries direct loaded.formatted rfl
          (Nat.lt_irrefl _) present fun _ => Nat.lt_irrefl _
    · intro _ afterIndirect indirect
      apply Routine.ends_bind
      · apply itruncTree_ends indirect loaded.formatted
          covers_double
        · rintro place ⟨index, _, isChild | ⟨inner, _, isSecond⟩⟩
          · rw [isChild]
            rfl
          · rw [isSecond]
            rfl
        · rintro ⟨index, _, isChild | ⟨inner, _, isSecond⟩⟩
          · cases isChild
          · cases isSecond
        · intro present
          apply Freeing.itruncSecond indirect loaded.formatted
            (Nat.lt_irrefl _) present
          intro place isBehind
          rw [isBehind]
          exact Nat.lt_irrefl _
      · intro _ afterDouble all
        have cleared : fs.Cleared m ip inum 13 afterDouble := all
        have fits := fits_of_cleared loaded cleared
        have stored := fits.storeInode (Or.inr rfl) loaded.inArea
        rw [Function.update_self] at stored
        have inode :
            afterDouble.inode ip =
              { fs.inode ip with addrs := fun _ => 0 } := by
          rw [Freeing.shape cleared, clearedAddrs_all]
          exact Function.update_self ..
        have isDinode :
            ({ afterDouble.inode ip with size := 0 } : Inode) =
              { fs.inode ip with toDinode := (m inum).truncated } := by
          rw [inode]
          unfold Dinode.truncated Dinode.resized
          rw [← loaded.same]
        apply ends_setInode
        apply Outcome.Ends.mono
        · apply iupdate_ends
          change afterDouble.sb = _
          rw [Freeing.shape cleared]
          exact loaded.formatted
        · intro _ later isLater
          have shape :
              later =
                fs.withDinode ip
                  (Disk.setDinode afterDouble.disk inum (m inum).truncated)
                  (m inum).truncated := by
            rw [isLater]
            unfold withDinode
            simp only [Function.update_self, isDinode]
            rw [loaded.isInum, Freeing.shape cleared]
            unfold withAddrs
            simp only [Function.update_idem]
          rw [shape]
          exact {
            inode := rfl
            loaded := {
              formatted := loaded.formatted
              fits := stored
              lag := Or.inl rfl
              isInum := by
                unfold withDinode
                simp only [Function.update_self]
                exact loaded.isInum
              same := by
                unfold withDinode
                simp only [Function.update_self]
              inUse := by
                rw [Function.update_self]
                exact loaded.inUse
              inArea := loaded.inArea
              noHoles := by
                rw [Function.update_self]
                intro place inside
                exact absurd inside (Nat.not_lt_zero place)
              bounded := by
                rw [Function.update_self]
                exact Nat.zero_le _
            }
            others := by
              intro other different
              have kept :=
                fits.kept_storeInode (m inum).truncated loaded.inArea other
              rw [Function.update_of_ne different] at kept
              apply FileKept.trans _ kept
              apply FileKept.of_blocks
              intro place present
              exact Freeing.data cleared (loaded.fits.inRange present).1
            bytes := by
              intro place inside
              exact absurd inside (Nat.not_lt_zero place)
          }

end FileSystem

end MyOS
