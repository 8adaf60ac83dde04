import MyOS.BlockOwnership

namespace MyOS

open Lib

/-!
# The block allocator and `bmap`, alone

What the routines of the block layer leave behind when nobody interferes: which
block `balloc` takes, and that `bmap` finds a block where there is one and
attaches a new one where there is none.
-/

namespace FileSystem

/-- A panic for lack of something that is used up completely. -/
def Exhausted (fs : FileSystem) : FsPanic → Prop
  | .ballocOutOfBlocks =>
      ∀ b, b < FSSIZE → Disk.marked fs.disk b = true
  | .igetNoInodes =>
      ∀ ip, (fs.inode ip).ref ≠ 0
  | .iallocNoInodes =>
      ∀ inum, 0 < inum → inum < NINODES →
        (Disk.dinode fs.disk inum).type ≠ 0
  | _ => False

variable {Next : Type} {post : Next → FileSystem → Prop}
variable {tolerated : FileSystem → FsPanic → Prop}
variable {fs : FileSystem}

/-!
## Rules for the steps of a routine
-/

theorem ends_bread
    {b : Nat}
    {next : Bytes → FsRoutine Next}
    (rest : (next (fs.disk b) fs).Ends tolerated post) :
    ((bread b >>= next) fs).Ends tolerated post :=
  rest

theorem ends_bwrite
    {b : Nat}
    {next : Unit → FsRoutine Next}
    (rest : (next () fs).Ends tolerated post) :
    ((bwrite b >>= next) fs).Ends tolerated post :=
  rest

theorem ends_store
    {b : Nat}
    {change : Bytes → Bytes}
    {next : Unit → FsRoutine Next}
    (rest :
      (next ()
        { fs with
          disk := Function.update fs.disk b (change (fs.disk b)) }).Ends
        tolerated post) :
    ((store b change >>= next) fs).Ends tolerated post :=
  rest

theorem ends_inodeAt
    {ip : InodeIndex}
    {next : Inode → FsRoutine Next}
    (rest : (next (fs.inode ip) fs).Ends tolerated post) :
    ((inodeAt ip >>= next) fs).Ends tolerated post :=
  rest

theorem ends_setInode
    {ip : InodeIndex}
    {change : Inode → Inode}
    {next : Unit → FsRoutine Next}
    (rest :
      (next ()
        { fs with
          inode := Function.update fs.inode ip (change (fs.inode ip)) }).Ends
        tolerated post) :
    ((setInode ip change >>= next) fs).Ends tolerated post :=
  rest

theorem ends_superblock
    {next : Superblock → FsRoutine Next}
    (rest : (next fs.sb fs).Ends tolerated post) :
    ((superblock >>= next) fs).Ends tolerated post :=
  rest

theorem ends_forUpTo
    {body : Nat → FsRoutine Unit}
    (invariant : Nat → FileSystem → Prop)
    (count : Nat)
    (start : invariant 0 fs)
    (turn :
      ∀ index fs, index < count → invariant index fs →
        (body index fs).Ends tolerated (fun _ => invariant (index + 1))) :
    (forUpTo body count fs).Ends tolerated (fun _ => invariant count) := by
  induction count with
  | zero =>
      exact start
  | succ count inductionHypothesis =>
      unfold forUpTo
      apply Routine.ends_bind
      · apply inductionHypothesis
        intro index fs inRange
        exact turn index fs (Nat.lt_succ_of_lt inRange)
      · intro _ later holds
        exact turn count later (Nat.lt_succ_self count) holds

/-!
## The block allocator
-/

theorem firstClear_some
    {bits : Bytes}
    {limit fuel start found : Nat}
    (result : firstClear bits limit fuel start = some found) :
    found < limit ∧ bits.bit found = false := by
  induction fuel generalizing start with
  | zero =>
      cases result
  | succ fuel inductionHypothesis =>
      unfold firstClear at result
      split at result
      · cases result
      · next inside =>
        split at result
        · exact inductionHypothesis result
        · next clear =>
          cases result
          exact ⟨Nat.lt_of_not_le inside, Bool.eq_false_of_not_eq_true clear⟩

theorem firstClear_none
    {bits : Bytes}
    {limit fuel start : Nat}
    (enough : limit ≤ start + fuel)
    (result : firstClear bits limit fuel start = none) :
    ∀ index, start ≤ index → index < limit → bits.bit index = true := by
  induction fuel generalizing start with
  | zero =>
      intro index lower upper
      omega
  | succ fuel inductionHypothesis =>
      intro index lower upper
      unfold firstClear at result
      split at result
      · next outside => omega
      · split at result
        · next isSet =>
          by_cases first : index = start
          · rw [first]
            exact isSet
          · exact inductionHypothesis (by omega) result index (by omega) upper
        · cases result

/-- `balloc` has taken an unmarked block. -/
def Allocated (fs : FileSystem) (b : Nat) (later : FileSystem) : Prop :=
  b < FSSIZE ∧ Disk.marked fs.disk b = false ∧
    later = { fs with disk := Disk.allocate fs.disk b }

theorem ballocFrom_ends
    (formatted : fs.sb = imageSuperblock)
    {fuel start : Nat}
    (aligned : start % BPB = 0)
    (enough : FSSIZE ≤ start + fuel * BPB)
    (full : ∀ b, b < start → b < FSSIZE → Disk.marked fs.disk b = true) :
    (ballocFrom fuel start fs).Ends Exhausted
      (fun b later => fs.Allocated b later) := by
  induction fuel generalizing start with
  | zero =>
      intro b inRange
      exact full b (by omega) inRange
  | succ fuel inductionHypothesis =>
      have block : bmapBlock fs.sb start = Disk.bitmapBlock start := by
        rw [formatted]
        rfl
      have limit : fs.sb.size = FSSIZE := by
        rw [formatted]
        rfl
      have place :
          ∀ bi, bi < BPB →
            Disk.bitmapBlock (start + bi) = Disk.bitmapBlock start ∧
              (start + bi) % BPB = bi := by
        intro bi inside
        simp only [BPB_eq] at aligned inside ⊢
        simp only [Disk.bitmapBlock, BPB_eq]
        omega
      unfold ballocFrom
      apply ends_superblock
      apply ends_bread
      rw [block, limit]
      cases search :
          firstClear (fs.disk (Disk.bitmapBlock start))
            (min BPB (FSSIZE - start)) BPB 0 with
      | some bi =>
          obtain ⟨inside, clear⟩ := firstClear_some search
          obtain ⟨sameBlock, bit⟩ := place bi (by omega)
          have inRange : start + bi < FSSIZE := by
            omega
          dsimp only
          apply ends_store
          apply ends_bwrite
          refine ⟨inRange, ?_, ?_⟩
          · unfold Disk.marked
            rw [sameBlock, bit, clear, Bool.and_false]
          · unfold Disk.allocate Disk.blank Disk.mark
            rw [sameBlock, bit]
      | none =>
          dsimp only
          apply inductionHypothesis
          · rw [Nat.add_mod_right]
            exact aligned
          · rw [Nat.succ_mul] at enough
            omega
          · intro b before inRange
            by_cases earlier : b < start
            · exact full b earlier inRange
            · obtain ⟨sameBlock, bit⟩ := place (b - start) (by omega)
              rw [Nat.add_sub_of_le (Nat.le_of_not_lt earlier)]
                at sameBlock bit
              have isSet :=
                firstClear_none (by omega) search (b - start) (Nat.zero_le _)
                  (by omega)
              unfold Disk.marked
              rw [sameBlock, bit, isSet, decide_eq_true inRange]
              rfl

theorem balloc_ends
    (formatted : fs.sb = imageSuperblock) :
    (balloc fs).Ends Exhausted (fun b later => fs.Allocated b later) := by
  unfold balloc
  apply ends_superblock
  apply ballocFrom_ends formatted (Nat.zero_mod _)
  · rw [formatted]
    decide
  · intro b none
    cases none

theorem bfree_ends
    (formatted : fs.sb = imageSuperblock)
    {b : Nat}
    (isMarked : Disk.marked fs.disk b = true) :
    (bfree b fs).Ends tolerated
      (fun _ later => later = { fs with disk := Disk.unmark fs.disk b }) := by
  have block : bmapBlock fs.sb b = Disk.bitmapBlock b := by
    rw [formatted]
    rfl
  have bit : (fs.disk (Disk.bitmapBlock b)).bit (b % BPB) = true := by
    unfold Disk.marked at isMarked
    exact (Bool.and_eq_true_iff.mp isMarked).2
  unfold bfree
  apply ends_superblock
  apply ends_bread
  rw [block, if_pos bit]
  rfl

/-!
## `bmap`
-/

/-- The file system with other addresses of an in-core inode. -/
def withAddrs
    (fs : FileSystem)
    (ip : InodeIndex)
    (disk : Disk)
    (addrs : AddrIndex → Nat) :
    FileSystem :=
  { fs with
    disk := disk
    inode :=
      Function.update fs.inode ip { fs.inode ip with addrs := addrs } }

/--
An inode whose tree may have grown: nothing that was referred to has moved or
changed, and a position that was looked for is there.
-/
structure Grown
    (fs : FileSystem)
    (m : Nat → Dinode)
    (lagging : Option Nat)
    (ip : InodeIndex)
    (inum : Nat)
    (position : Position)
    (b : Nat)
    (later : FileSystem)
    (addrs : AddrIndex → Nat) : Prop where
  shape : later = fs.withAddrs ip later.disk addrs
  fits : DiskFits later.disk (setAddrs m inum addrs) lagging none
  kept : BlocksKept fs.disk m later.disk (setAddrs m inum addrs)
  found :
    Disk.pointer later.disk { m inum with addrs := addrs } position = b
  present : b ≠ 0

section Bmap

variable {m : Nat → Dinode} {lagging : Option Nat}
variable {ip : InodeIndex} {inum : Nat}

theorem setAddrs_setAddrs
    {first second : AddrIndex → Nat} :
    setAddrs (setAddrs m inum first) inum second = setAddrs m inum second := by
  unfold setAddrs
  rw [Function.update_self, Function.update_idem]

theorem setAddrs_self : setAddrs m inum (m inum).addrs = m :=
  Function.update_eq_self ..

theorem setAddrs_inum
    {addrs : AddrIndex → Nat} :
    setAddrs m inum addrs inum = { m inum with addrs := addrs } :=
  Function.update_self ..

theorem withAddrs_self
    (sameAddrs : (fs.inode ip).addrs = (m inum).addrs) :
    fs.withAddrs ip fs.disk (m inum).addrs = fs := by
  unfold withAddrs
  rw [← sameAddrs, Function.update_eq_self]

theorem Grown.already
    (fits : DiskFits fs.disk m lagging none)
    (sameAddrs : (fs.inode ip).addrs = (m inum).addrs)
    {position : Position}
    (present : Disk.pointer fs.disk (m inum) position ≠ 0) :
    fs.Grown m lagging ip inum position
      (Disk.pointer fs.disk (m inum) position) fs (m inum).addrs where
  shape := (withAddrs_self sameAddrs).symm
  fits := by
    rw [setAddrs_self]
    exact fits
  kept := by
    rw [setAddrs_self]
    exact BlocksKept.refl
  found := rfl
  present := present

theorem bmapAddr_present
    (sameAddrs : (fs.inode ip).addrs = (m inum).addrs)
    {index : AddrIndex}
    (present : (m inum).addrs index ≠ 0) :
    (bmapAddr ip index fs).Ends tolerated
      (fun b later => later = fs ∧ b = (m inum).addrs index) := by
  unfold bmapAddr
  apply ends_inodeAt
  rw [sameAddrs, if_neg present]
  exact ⟨rfl, rfl⟩

theorem bmapEntry_present
    {parent : Position}
    {index : Nat}
    (present : Disk.pointer fs.disk (m inum) (.child parent index) ≠ 0) :
    (bmapEntry (Disk.pointer fs.disk (m inum) parent) index fs).Ends tolerated
      (fun b later =>
        later = fs ∧
          b = Disk.pointer fs.disk (m inum) (.child parent index)) := by
  obtain ⟨isIndex, inRange, above⟩ := Disk.pointer_parent present
  rw [Disk.pointer_child isIndex inRange above] at present ⊢
  unfold bmapEntry
  apply ends_bread
  rw [if_neg present]
  exact ⟨rfl, rfl⟩

theorem bmap_present
    (sameAddrs : (fs.inode ip).addrs = (m inum).addrs)
    {bn : Nat}
    (inFile : bn < MAXFILE)
    (present : Disk.pointer fs.disk (m inum) (.ofBlock bn) ≠ 0) :
    (bmap ip bn fs).Ends tolerated
      (fun b later =>
        later = fs ∧ b = Disk.pointer fs.disk (m inum) (.ofBlock bn)) := by
  unfold bmap
  by_cases isDirect : bn < NDIRECT
  · rw [Position.ofBlock_direct isDirect] at present ⊢
    rw [dif_pos isDirect]
    exact bmapAddr_present sameAddrs present
  · rw [dif_neg isDirect]
    by_cases isIndirect : bn - NDIRECT < NINDIRECT
    · rw [Position.ofBlock_indirect isDirect isIndirect] at present ⊢
      rw [if_pos isIndirect]
      have above := (Disk.pointer_parent present).2.2
      apply Routine.ends_step (bmapAddr_present sameAddrs above)
      exact bmapEntry_present present
    · rw [Position.ofBlock_double isDirect isIndirect] at present ⊢
      have inside : bn - NDIRECT - NINDIRECT < NDINDIRECT := by
        simp only [MAXFILE] at inFile
        omega
      rw [if_neg isIndirect, if_pos inside]
      have above := (Disk.pointer_parent present).2.2
      have top := (Disk.pointer_parent above).2.2
      apply Routine.ends_step (bmapAddr_present sameAddrs top)
      apply Routine.ends_step (bmapEntry_present above)
      exact bmapEntry_present present

theorem bmapAddr_ends
    (formatted : fs.sb = imageSuperblock)
    (fits : DiskFits fs.disk m (some inum) none)
    (sameAddrs : (fs.inode ip).addrs = (m inum).addrs)
    (inUse : (m inum).type ≠ 0)
    (inArea : inum < NINODES)
    (index : AddrIndex) :
    (bmapAddr ip index fs).Ends Exhausted
      (fun b later =>
        ∃ addrs,
          fs.Grown m (some inum) ip inum (.addr index) b later addrs) := by
  by_cases present : (m inum).addrs index = 0
  · unfold bmapAddr
    apply ends_inodeAt
    rw [sameAddrs, if_pos present]
    apply Routine.ends_bind (balloc_ends formatted)
    intro b later ⟨inRange, clear, isLater⟩
    have blank := Disk.blank_allocate fs.disk b
    have allocated := fits.allocate clear inRange
    have free := allocated.owned.looseInRange rfl
    rw [isLater]
    apply ends_setInode
    refine ⟨Function.update (m inum).addrs index b, ?_⟩
    exact {
      shape := by
        unfold withAddrs
        rw [← sameAddrs]
      fits := allocated.attachAddr blank present inUse inArea
      kept :=
        (fits.kept_allocate clear inRange).trans
          (DiskFits.kept_attachAddr blank present)
      found := Function.update_self ..
      present := allocated.owned.ne_zero free.2.1
    }
  · apply (bmapAddr_present sameAddrs present).mono
    intro b later ⟨isLater, isBlock⟩
    rw [isLater, isBlock]
    exact ⟨_, Grown.already fits sameAddrs present⟩

theorem bmapEntry_ends
    (formatted : fs.sb = imageSuperblock)
    (fits : DiskFits fs.disk m lagging none)
    (sameAddrs : (fs.inode ip).addrs = (m inum).addrs)
    {parent : Position}
    {index : Nat}
    (isIndex : parent.isIndex = true)
    (inRange : index < NINDIRECT)
    (above : Disk.pointer fs.disk (m inum) parent ≠ 0) :
    (bmapEntry (Disk.pointer fs.disk (m inum) parent) index fs).Ends Exhausted
      (fun b later =>
        fs.Grown m lagging ip inum (.child parent index) b later
          (m inum).addrs) := by
  by_cases present :
      Disk.pointer fs.disk (m inum) (.child parent index) = 0
  · have entry := Disk.pointer_child isIndex inRange above
    rw [present] at entry
    unfold bmapEntry
    apply ends_bread
    rw [if_pos entry.symm]
    apply Routine.ends_bind (balloc_ends formatted)
    intro b later ⟨bound, clear, isLater⟩
    have blank := Disk.blank_allocate fs.disk b
    have allocated := fits.allocate clear bound
    have free := allocated.owned.looseInRange rfl
    have kept := fits.kept_allocate clear bound
    have sameParent := (kept inum parent above).1
    have samePointers :
        Disk.references (Disk.allocate fs.disk b) m =
          Disk.references fs.disk m :=
      DiskFits.references_congr fs.disk fun _ _ isPresent =>
        fits.allocate_of_present clear bound isPresent
    have stillEmpty := congrFun samePointers (inum, .child parent index)
    have stillAbove := above
    simp only [Disk.references] at stillEmpty
    rw [present] at stillEmpty
    rw [← sameParent] at stillAbove
    rw [isLater]
    apply ends_store
    apply ends_bwrite
    rw [← sameParent]
    exact {
      shape := by
        unfold withAddrs
        rw [← sameAddrs, Function.update_eq_self]
      fits := by
        rw [setAddrs_self]
        exact allocated.attachEntry blank isIndex inRange stillAbove stillEmpty
      kept := by
        rw [setAddrs_self]
        exact kept.trans
          (allocated.kept_attachEntry blank isIndex inRange stillAbove
            stillEmpty)
      found := by
        have attached :=
          congrFun
            (allocated.references_storeEntry blank isIndex inRange stillAbove
              stillEmpty)
            (inum, .child parent index)
        rw [Function.update_self] at attached
        exact attached
      present := allocated.owned.ne_zero free.2.1
    }
  · apply (bmapEntry_present present).mono
    intro b later ⟨isLater, isBlock⟩
    rw [isLater, isBlock]
    exact Grown.already fits sameAddrs present

theorem Grown.trans
    {middle later : FileSystem}
    {first second : AddrIndex → Nat}
    {position next : Position}
    {b c : Nat}
    (grown : fs.Grown m lagging ip inum position b middle first)
    (again :
      middle.Grown (setAddrs m inum first) lagging ip inum next c later
        second) :
    fs.Grown m lagging ip inum next c later second where
  shape := by
    have shape := again.shape
    rw [grown.shape] at shape
    unfold withAddrs at shape ⊢
    rw [Function.update_idem] at shape
    simp only [Function.update_self] at shape
    exact shape
  fits := by
    have fits := again.fits
    rw [setAddrs_setAddrs] at fits
    exact fits
  kept := by
    have kept := grown.kept.trans again.kept
    rw [setAddrs_setAddrs] at kept
    exact kept
  found := by
    have found := again.found
    rw [setAddrs_inum] at found
    exact found
  present := again.present

theorem bmapEntry_grown
    {middle : FileSystem}
    (formatted : fs.sb = imageSuperblock)
    {parent : Position}
    {index b : Nat}
    {addrs : AddrIndex → Nat}
    (isIndex : parent.isIndex = true)
    (inRange : index < NINDIRECT)
    (grown : fs.Grown m lagging ip inum parent b middle addrs) :
    (bmapEntry b index middle).Ends Exhausted
      (fun c later =>
        fs.Grown m lagging ip inum (.child parent index) c later addrs) := by
  have stillFormatted : middle.sb = imageSuperblock := by
    rw [grown.shape]
    exact formatted
  have sameAddrs :
      (middle.inode ip).addrs = (setAddrs m inum addrs inum).addrs := by
    rw [grown.shape, setAddrs_inum]
    unfold withAddrs
    simp only [Function.update_self]
  have found :
      Disk.pointer middle.disk (setAddrs m inum addrs inum) parent = b := by
    rw [setAddrs_inum]
    exact grown.found
  have above :
      Disk.pointer middle.disk (setAddrs m inum addrs inum) parent ≠ 0 := by
    rw [found]
    exact grown.present
  have ends :=
    bmapEntry_ends stillFormatted grown.fits sameAddrs isIndex inRange above
  rw [found] at ends
  apply ends.mono
  intro c later again
  have whole := grown.trans again
  rw [setAddrs_inum] at whole
  exact whole

theorem bmap_ends
    (formatted : fs.sb = imageSuperblock)
    (fits : DiskFits fs.disk m (some inum) none)
    (sameAddrs : (fs.inode ip).addrs = (m inum).addrs)
    (inUse : (m inum).type ≠ 0)
    (inArea : inum < NINODES)
    {bn : Nat}
    (inFile : bn < MAXFILE) :
    (bmap ip bn fs).Ends Exhausted
      (fun b later =>
        ∃ addrs,
          fs.Grown m (some inum) ip inum (.ofBlock bn) b later addrs) := by
  have atAddr :=
    bmapAddr_ends formatted fits sameAddrs inUse inArea
  unfold bmap
  by_cases isDirect : bn < NDIRECT
  · rw [dif_pos isDirect, Position.ofBlock_direct isDirect]
    exact atAddr _
  · rw [dif_neg isDirect]
    by_cases isIndirect : bn - NDIRECT < NINDIRECT
    · rw [if_pos isIndirect, Position.ofBlock_indirect isDirect isIndirect]
      apply Routine.ends_bind (atAddr indirectIndex)
      intro b later ⟨addrs, grown⟩
      apply (bmapEntry_grown formatted rfl isIndirect grown).mono
      intro c last whole
      exact ⟨addrs, whole⟩
    · have inside : bn - NDIRECT - NINDIRECT < NDINDIRECT := by
        simp only [MAXFILE] at inFile
        omega
      have outer :
          (bn - NDIRECT - NINDIRECT) / NINDIRECT < NINDIRECT := by
        apply Nat.div_lt_of_lt_mul
        exact inside
      have inner :
          (bn - NDIRECT - NINDIRECT) % NINDIRECT < NINDIRECT := by
        apply Nat.mod_lt
        decide
      rw [if_neg isIndirect, if_pos inside,
        Position.ofBlock_double isDirect isIndirect]
      apply Routine.ends_bind (atAddr doubleIndex)
      intro b later ⟨addrs, grown⟩
      apply Routine.ends_bind (bmapEntry_grown formatted rfl outer grown)
      intro c middle second
      apply (bmapEntry_grown formatted rfl inner second).mono
      intro d last whole
      exact ⟨addrs, whole⟩

end Bmap

end FileSystem

end MyOS
