import MyOS.BlockRoutines

namespace MyOS

open Lib

/-!
# The bytes of a file

What `readi`, `writei` and `iupdate` do when nobody interferes.  A file that is
worked on has a block wherever it has a byte; reading changes nothing, and
writing changes the bytes that it is given and no others.
-/

namespace Disk

/-- The bytes of a file from an offset on. -/
def contents (disk : Disk) (dinode : Dinode) (off n : Nat) : List UInt8 :=
  (List.range n).map fun index => disk.byteAt dinode (off + index)

/-- A file has a block wherever it has a byte. -/
def NoHoles (disk : Disk) (dinode : Dinode) : Prop :=
  ∀ place, place < dinode.size →
    disk.pointer dinode (.ofBlock (place / BSIZE)) ≠ 0

variable {disk : Disk} {dinode : Dinode} {off : Nat}

@[simp]
theorem length_contents
    {n : Nat} :
    (disk.contents dinode off n).length = n := by
  simp only [contents, List.length_map, List.length_range]

theorem contents_append
    (first second : Nat) :
    disk.contents dinode off (first + second) =
      disk.contents dinode off first ++
        disk.contents dinode (off + first) second := by
  simp only [contents, List.range_add, List.map_append, List.map_map]
  congr 1
  apply List.map_congr_left
  intro index _
  simp only [Function.comp_apply, Nat.add_assoc]

theorem contents_block
    {n : Nat}
    (inside : off % BSIZE + n ≤ BSIZE) :
    disk.contents dinode off n =
      (disk (disk.pointer dinode (.ofBlock (off / BSIZE)))).slice
        (off % BSIZE) n := by
  unfold contents Bytes.slice
  apply List.map_congr_left
  intro index member
  have bound := List.mem_range.mp member
  have block : (off + index) / BSIZE = off / BSIZE := by
    simp only [BSIZE_eq] at inside ⊢
    omega
  have place : (off + index) % BSIZE = off % BSIZE + index := by
    simp only [BSIZE_eq] at inside ⊢
    omega
  unfold byteAt
  rw [block, place]

end Disk

namespace DiskFits

variable {disk : Disk} {m : Nat → Dinode}
variable {lagging loose : Option Nat}
variable {inum : Nat} {position : Position}

section Data

variable (block : Bytes)

theorem pointer_storeData
    (fits : DiskFits disk m lagging loose)
    (isData : position.isIndex = false)
    (present : disk.pointer (m inum) position ≠ 0)
    (other : Nat) :
    Disk.pointer
        (Function.update disk (disk.pointer (m inum) position) block)
        (m other) =
      disk.pointer (m other) := by
  funext place
  apply Disk.pointer_congr rfl
  intro above isIndex isAbove
  apply Function.update_of_ne
  intro shared
  have samePosition := (fits.exclusive present shared).2
  rw [samePosition, isData] at isIndex
  cases isIndex

theorem storeData
    (fits : DiskFits disk m lagging loose)
    (isData : position.isIndex = false)
    (present : disk.pointer (m inum) position ≠ 0) :
    DiskFits (Function.update disk (disk.pointer (m inum) position) block) m
      lagging loose := by
  have inRange := (fits.inRange present).1
  have order := Disk.BMAP_START_lt_ROOT_BLOCK
  exact {
    owned := by
      have sameReferences :
          Disk.references
              (Function.update disk (disk.pointer (m inum) position) block) m =
            disk.references m := by
        funext ⟨other, place⟩
        exact congrFun (fits.pointer_storeData block isData present other) place
      rw [sameReferences, Disk.marked_congr disk]
      · exact fits.owned
      · intro c _ isBitmap
        apply Function.update_of_ne
        omega
    stored := by
      intro other inArea isStored
      rw [← fits.stored inArea isStored]
      apply Disk.dinode_congr
      apply Function.update_of_ne
      have inodes := Disk.inodeBlock_lt inArea
      omega
    fits := fits.fits
    free := fits.free
  }

theorem kept_storeData
    (fits : DiskFits disk m lagging loose)
    (isData : position.isIndex = false)
    (present : disk.pointer (m inum) position ≠ 0)
    {other : Nat}
    (different : other ≠ inum) :
    FileKept disk (m other)
      (Function.update disk (disk.pointer (m inum) position) block)
      (m other) := by
  intro place isPresent
  refine ⟨congrFun (fits.pointer_storeData block isData present other) place, ?_⟩
  intro _
  apply Function.update_of_ne
  intro shared
  exact different (fits.exclusive present shared).1

end Data

theorem change
    (fits : DiskFits disk m lagging loose)
    (dinode : Dinode)
    (lag : lagging = none ∨ lagging = some inum)
    (sameAddrs : dinode.addrs = (m inum).addrs)
    (isFit : dinode.Fits)
    (inUse : dinode.type = 0 → (m inum).type = 0) :
    DiskFits disk (Function.update m inum dinode) (some inum) loose := by
  have sameReferences :
      disk.references (Function.update m inum dinode) =
        disk.references m := by
    funext ⟨other, place⟩
    unfold Disk.references
    by_cases same : other = inum
    · rw [same, Function.update_self]
      exact Disk.pointer_congr sameAddrs fun _ _ _ => rfl
    · rw [Function.update_of_ne same]
  exact {
    owned := by
      rw [sameReferences]
      exact fits.owned
    stored := by
      intro other inArea isStored
      have different : other ≠ inum := by
        intro same
        exact isStored (congrArg some same.symm)
      rw [Function.update_of_ne different]
      apply fits.stored inArea
      intro isLagging
      rcases lag with none | isInum
      · rw [none] at isLagging
        cases isLagging
      · rw [isInum] at isLagging
        exact isStored isLagging
    fits := by
      intro other
      by_cases same : other = inum
      · rw [same, Function.update_self]
        exact isFit
      · rw [Function.update_of_ne same]
        exact fits.fits other
    free := by
      intro other unused place
      by_cases same : other = inum
      · rw [same, Function.update_self] at unused ⊢
        rw [sameAddrs]
        apply fits.free
        rcases unused with none | outside
        · exact Or.inl (inUse none)
        · exact Or.inr outside
      · rw [Function.update_of_ne same] at unused ⊢
        exact fits.free unused place
  }

theorem storeInode
    (fits : DiskFits disk m lagging none)
    (lag : lagging = none ∨ lagging = some inum)
    (inArea : inum < NINODES) :
    DiskFits (disk.setDinode inum (m inum)) m none none := by
  have inode := Disk.inodeBlock_lt inArea
  have order := Disk.BMAP_START_lt_ROOT_BLOCK
  exact {
    owned := by
      rw [references_congr disk, Disk.marked_congr disk]
      · exact fits.owned
      · intro c isBitmap _
        apply Function.update_of_ne
        omega
      · intro other place present
        apply Function.update_of_ne
        have isData := (fits.inRange present).1
        omega
    stored := by
      intro other otherInArea _
      rw [Disk.dinode_setDinode (fits.fits inum)]
      by_cases same : other = inum
      · rw [same, Function.update_self]
      · rw [Function.update_of_ne same]
        apply fits.stored otherInArea
        intro isLagging
        rcases lag with none | isInum
        · rw [none] at isLagging
          cases isLagging
        · rw [isInum] at isLagging
          exact same (Option.some.inj isLagging).symm
    fits := fits.fits
    free := fits.free
  }

theorem kept_storeInode
    (fits : DiskFits disk m lagging loose)
    (dinode : Dinode)
    (inArea : inum < NINODES)
    (other : Nat) :
    FileKept disk (m other) (disk.setDinode inum dinode) (m other) := by
  have inode := Disk.inodeBlock_lt inArea
  have order := Disk.BMAP_START_lt_ROOT_BLOCK
  apply FileKept.of_blocks
  intro position present
  apply Function.update_of_ne
  have isData := (fits.inRange present).1
  omega

end DiskFits

namespace FileSystem

variable {tolerated : FileSystem → FsPanic → Prop}
variable {fs : FileSystem} {m : Nat → Dinode}
variable {lagging : Option Nat}
variable {ip : InodeIndex} {inum : Nat}

/-- An in-core inode with other fields of the disk inode. -/
def withDinode
    (fs : FileSystem)
    (ip : InodeIndex)
    (disk : Disk)
    (dinode : Dinode) :
    FileSystem :=
  { fs with
    disk := disk
    inode :=
      Function.update fs.inode ip
        { fs.inode ip with toDinode := dinode } }

/-- An inode that is loaded in a slot of the table, and being worked on. -/
structure Loaded
    (fs : FileSystem)
    (m : Nat → Dinode)
    (lagging : Option Nat)
    (ip : InodeIndex)
    (inum : Nat) : Prop where
  formatted : fs.sb = imageSuperblock
  fits : DiskFits fs.disk m lagging none
  lag : lagging = none ∨ lagging = some inum
  isInum : (fs.inode ip).inum = inum
  same : (fs.inode ip).toDinode = m inum
  inUse : (m inum).type ≠ 0
  inArea : inum < NINODES
  noHoles : Disk.NoHoles fs.disk (m inum)
  bounded : (m inum).size ≤ MAXFILE * BSIZE

theorem iupdate_ends
    (formatted : fs.sb = imageSuperblock) :
    (iupdate ip fs).Ends tolerated
      (fun _ later =>
        later =
          { fs with
            disk :=
              Disk.setDinode fs.disk (fs.inode ip).inum
                (fs.inode ip).toDinode }) := by
  have block :
      fs.sb.inodestart + (fs.inode ip).inum / IPB =
        Disk.inodeBlock (fs.inode ip).inum := by
    rw [formatted]
    rfl
  unfold iupdate
  apply ends_superblock
  apply ends_inodeAt
  apply ends_bread
  apply ends_inodeAt
  rw [block]
  apply ends_store
  rfl

/-!
## Reading
-/

theorem readiFrom_ends
    (sameAddrs : (fs.inode ip).addrs = (m inum).addrs)
    (target : ReadTarget)
    {fuel tot off rest : Nat}
    (enough : rest ≤ fuel)
    (inFile : off + rest ≤ MAXFILE * BSIZE)
    (noHoles :
      ∀ place, off ≤ place → place < off + rest →
        Disk.pointer fs.disk (m inum) (.ofBlock (place / BSIZE)) ≠ 0) :
    (readiFrom ip target fuel tot off rest fs).Ends tolerated
      (fun bytes later =>
        later = fs ∧
          ∃ count, count ≤ rest ∧
            ((∀ done m, target.accepts done m = true) → count = rest) ∧
            bytes = Disk.contents fs.disk (m inum) off count) := by
  induction fuel generalizing tot off rest with
  | zero =>
      have none : rest = 0 := by
        omega
      exact ⟨rfl, 0, Nat.zero_le _, fun _ => none.symm, rfl⟩
  | succ fuel inductionHypothesis =>
      unfold readiFrom
      by_cases finished : rest = 0
      · rw [if_pos finished]
        exact ⟨rfl, 0, Nat.zero_le _, fun _ => finished.symm, rfl⟩
      · rw [if_neg finished]
        have present := noHoles off (Nat.le_refl _) (by omega)
        have inTree : off / BSIZE < MAXFILE := by
          apply Nat.div_lt_of_lt_mul
          rw [Nat.mul_comm]
          omega
        apply Routine.ends_step (bmap_present sameAddrs inTree present)
        apply ends_bread
        have length : chunk off rest = min (BSIZE - off % BSIZE) rest := rfl
        have inBlock : off % BSIZE + chunk off rest ≤ BSIZE := by
          simp only [BSIZE_eq] at length ⊢
          omega
        have positive : 0 < chunk off rest := by
          simp only [BSIZE_eq] at length
          omega
        have part : chunk off rest ≤ rest := by
          omega
        split
        · apply Routine.ends_bind
          · apply inductionHypothesis
            · omega
            · omega
            · intro place lower upper
              exact noHoles place (by omega) (by omega)
          · intro bytes later ⟨isLater, count, bound, whole, isBytes⟩
            refine ⟨isLater, chunk off rest + count, by omega, ?_, ?_⟩
            · intro accepts
              have all := whole accepts
              omega
            · rw [Disk.contents_append, Disk.contents_block inBlock, isBytes]
        · next refused =>
          refine ⟨rfl, 0, Nat.zero_le _, ?_, rfl⟩
          intro accepts
          exact absurd (accepts tot (chunk off rest)) refused

theorem readi_ends
    (loaded : fs.Loaded m lagging ip inum)
    (target : ReadTarget)
    {off n : Nat}
    (narrow : off + n < uintModulus) :
    (readi ip target off n fs).Ends tolerated
      (fun bytes later =>
        later = fs ∧
          ∃ count, count ≤ min n ((m inum).size - off) ∧
            ((∀ done m, target.accepts done m = true) →
              count = min n ((m inum).size - off)) ∧
            bytes = Disk.contents fs.disk (m inum) off count) := by
  have sameAddrs : (fs.inode ip).addrs = (m inum).addrs :=
    congrArg Dinode.addrs loaded.same
  have sameSize : (fs.inode ip).size = (m inum).size :=
    congrArg Dinode.size loaded.same
  have bounded := loaded.bounded
  unfold readi
  apply ends_inodeAt
  rw [sameSize, Nat.mod_eq_of_lt narrow]
  split
  · refine ⟨rfl, 0, Nat.zero_le _, ?_, rfl⟩
    intro _
    omega
  · split
    · have clipped : min n ((m inum).size - off) = (m inum).size - off := by
        omega
      rw [clipped]
      apply readiFrom_ends sameAddrs target (Nat.le_refl _)
      · omega
      · intro place lower upper
        exact loaded.noHoles place (by omega)
    · have whole : min n ((m inum).size - off) = n := by
        omega
      rw [whole]
      apply readiFrom_ends sameAddrs target (Nat.le_refl _)
      · omega
      · intro place lower upper
        exact loaded.noHoles place (by omega)

/-!
## Writing
-/

/--
Bytes of a file that have been written: they are there now, and no other byte
has changed, of this file or of another.
-/
structure Written
    (fs : FileSystem)
    (m : Nat → Dinode)
    (lagging : Option Nat)
    (ip : InodeIndex)
    (inum first last : Nat)
    (value : Nat → UInt8)
    (later : FileSystem)
    (addrs : AddrIndex → Nat) : Prop where
  shape : later = fs.withAddrs ip later.disk addrs
  fits : DiskFits later.disk (setAddrs m inum addrs) lagging none
  others :
    ∀ other, other ≠ inum →
      FileKept fs.disk (m other) later.disk (m other)
  pointers :
    ∀ position, Disk.pointer fs.disk (m inum) position ≠ 0 →
      Disk.pointer later.disk { m inum with addrs := addrs } position =
        Disk.pointer fs.disk (m inum) position
  there :
    ∀ place, first ≤ place → place < last →
      Disk.pointer later.disk { m inum with addrs := addrs }
          (.ofBlock (place / BSIZE)) ≠ 0 ∧
        Disk.byteAt later.disk { m inum with addrs := addrs } place =
          value place
  rest :
    ∀ place, place < first ∨ last ≤ place →
      Disk.pointer fs.disk (m inum) (.ofBlock (place / BSIZE)) ≠ 0 →
      Disk.byteAt later.disk { m inum with addrs := addrs } place =
        Disk.byteAt fs.disk (m inum) place

namespace Written

variable {first middle last : Nat} {value : Nat → UInt8}

theorem nothing
    (fits : DiskFits fs.disk m lagging none)
    (sameAddrs : (fs.inode ip).addrs = (m inum).addrs)
    (none : last ≤ first) :
    fs.Written m lagging ip inum first last value fs (m inum).addrs where
  shape := (withAddrs_self sameAddrs).symm
  fits := by
    rw [setAddrs_self]
    exact fits
  others := fun _ _ => FileKept.refl
  pointers := fun _ _ => rfl
  there := by
    intro place lower upper
    omega
  rest := fun _ _ _ => rfl

theorem trans
    {between later : FileSystem}
    {addrs final : AddrIndex → Nat}
    (lower : first ≤ middle)
    (upper : middle ≤ last)
    (one :
      fs.Written m lagging ip inum first middle value between addrs)
    (two :
      between.Written (setAddrs m inum addrs) lagging ip inum middle last
        value later final) :
    fs.Written m lagging ip inum first last value later final := by
  have pointersTwo := two.pointers
  have thereTwo := two.there
  have restTwo := two.rest
  rw [setAddrs_inum] at pointersTwo thereTwo restTwo
  exact {
    shape := by
      have shape := two.shape
      rw [one.shape] at shape
      unfold withAddrs at shape ⊢
      rw [Function.update_idem] at shape
      simp only [Function.update_self] at shape
      exact shape
    fits := by
      have fits := two.fits
      rw [setAddrs_setAddrs] at fits
      exact fits
    others := by
      intro other different
      have again := two.others other different
      unfold setAddrs at again
      rw [Function.update_of_ne different] at again
      exact (one.others other different).trans again
    pointers := by
      intro position present
      have same := one.pointers position present
      rw [← same] at present
      exact (pointersTwo position present).trans same
    there := by
      intro place above below
      by_cases early : place < middle
      · obtain ⟨present, isValue⟩ := one.there place above early
        refine ⟨?_, ?_⟩
        · rw [pointersTwo _ present]
          exact present
        · rw [restTwo place (Or.inl early) present]
          exact isValue
      · exact thereTwo place (Nat.le_of_not_lt early) below
    rest := by
      intro place outside present
      have same := one.pointers _ present
      rw [restTwo place (by omega) (by rw [same]; exact present)]
      exact one.rest place (by omega) present
  }

end Written

theorem bmap_reaches
    (formatted : fs.sb = imageSuperblock)
    (fits : DiskFits fs.disk m lagging none)
    (sameAddrs : (fs.inode ip).addrs = (m inum).addrs)
    (inUse : (m inum).type ≠ 0)
    (inArea : inum < NINODES)
    {bn : Nat}
    (inFile : bn < MAXFILE)
    (reachable :
      lagging = some inum ∨
        Disk.pointer fs.disk (m inum) (.ofBlock bn) ≠ 0) :
    (bmap ip bn fs).Ends Exhausted
      (fun b later =>
        ∃ addrs,
          fs.Grown m lagging ip inum (.ofBlock bn) b later addrs) := by
  by_cases present : Disk.pointer fs.disk (m inum) (.ofBlock bn) = 0
  · rcases reachable with lags | isPresent
    · subst lags
      exact bmap_ends formatted fits sameAddrs inUse inArea inFile
    · exact absurd present isPresent
  · apply (bmap_present sameAddrs inFile present).mono
    intro b later ⟨isLater, isBlock⟩
    rw [isLater, isBlock]
    exact ⟨_, Grown.already fits sameAddrs present⟩

theorem written_chunk
    {off length b : Nat}
    {later : FileSystem}
    {addrs : AddrIndex → Nat}
    (source value : Nat → UInt8)
    (inBlock : off % BSIZE + length ≤ BSIZE)
    (values :
      ∀ index, index < length → source index = value (off + index))
    (grown :
      fs.Grown m lagging ip inum (.ofBlock (off / BSIZE)) b later addrs) :
    fs.Written m lagging ip inum off (off + length) value
      { later with
        disk :=
          Function.update later.disk b
            ((later.disk b).put (off % BSIZE) length source) }
      addrs := by
  have isInum : setAddrs m inum addrs inum = { m inum with addrs := addrs } :=
    setAddrs_inum
  have isBlock :
      Disk.pointer later.disk (setAddrs m inum addrs inum)
        (.ofBlock (off / BSIZE)) = b := by
    rw [isInum]
    exact grown.found
  have present :
      Disk.pointer later.disk (setAddrs m inum addrs inum)
        (.ofBlock (off / BSIZE)) ≠ 0 := by
    rw [isBlock]
    exact grown.present
  have isData := Position.isIndex_ofBlock (off / BSIZE)
  have pointers := fun block =>
    grown.fits.pointer_storeData block isData present inum
  have stored := fun block =>
    grown.fits.storeData block isData present
  have kept := fun block {other : Nat} (different : other ≠ inum) =>
    grown.fits.kept_storeData block isData present different
  rw [isBlock] at pointers stored kept
  rw [isInum] at pointers
  exact {
    shape := by
      have shape := grown.shape
      rw [shape]
      rfl
    fits := stored _
    others := by
      intro other different
      have first := grown.kept other
      have second := kept ((later.disk b).put (off % BSIZE) length source)
        different
      unfold setAddrs at first second
      rw [Function.update_of_ne different] at first second
      exact first.trans second
    pointers := by
      intro position isPresent
      have same := (grown.kept inum position isPresent).1
      rw [isInum] at same
      rw [← same]
      exact congrFun (pointers _) position
    there := by
      intro place lower upper
      have block : place / BSIZE = off / BSIZE := by
        simp only [BSIZE_eq] at inBlock ⊢
        omega
      have offset : place % BSIZE = off % BSIZE + (place - off) := by
        simp only [BSIZE_eq] at inBlock ⊢
        omega
      unfold Disk.byteAt
      rw [pointers, block, grown.found]
      refine ⟨grown.present, ?_⟩
      dsimp only
      rw [Function.update_self, offset, Bytes.put_inside (by omega) (by omega),
        Nat.add_sub_cancel_left, values _ (by omega),
        Nat.add_sub_of_le lower]
    rest := by
      intro place outside isPresent
      have before := (grown.kept inum).byteAt isPresent
      rw [isInum] at before
      rw [← before]
      unfold Disk.byteAt
      rw [pointers]
      by_cases shared :
          Disk.pointer later.disk { m inum with addrs := addrs }
            (.ofBlock (place / BSIZE)) = b
      · have sharedBlock :
            Disk.pointer later.disk (setAddrs m inum addrs inum)
                (.ofBlock (place / BSIZE)) =
              Disk.pointer later.disk (setAddrs m inum addrs inum)
                (.ofBlock (off / BSIZE)) := by
          rw [isInum, grown.found]
          exact shared
        have positions := (grown.fits.exclusive present sharedBlock).2
        have block := Position.ofBlock_injective positions
        dsimp only at shared ⊢
        rw [shared, Function.update_self]
        apply Bytes.put_outside
        simp only [BSIZE_eq] at inBlock block ⊢
        omega
      · dsimp only at shared ⊢
        rw [Function.update_of_ne shared]
  }

theorem writeiFrom_ends
    {source : Bytes}
    (base : Nat)
    {fuel tot off rest : Nat}
    (formatted : fs.sb = imageSuperblock)
    (fits : DiskFits fs.disk m lagging none)
    (sameAddrs : (fs.inode ip).addrs = (m inum).addrs)
    (inUse : (m inum).type ≠ 0)
    (inArea : inum < NINODES)
    (enough : rest ≤ fuel)
    (inFile : off + rest ≤ MAXFILE * BSIZE)
    (isOff : off = base + tot)
    (reachable :
      lagging = some inum ∨
        ∀ place, off ≤ place → place < off + rest →
          Disk.pointer fs.disk (m inum) (.ofBlock (place / BSIZE)) ≠ 0) :
    (writeiFrom ip source fuel tot off rest fs).Ends Exhausted
      (fun _ later =>
        ∃ addrs,
          fs.Written m lagging ip inum off (off + rest)
            (fun place => source (place - base)) later addrs) := by
  induction fuel generalizing fs m tot off rest with
  | zero =>
      exact ⟨_, Written.nothing fits sameAddrs (by omega)⟩
  | succ fuel inductionHypothesis =>
      unfold writeiFrom
      by_cases finished : rest = 0
      · rw [if_pos finished]
        exact ⟨_, Written.nothing fits sameAddrs (by omega)⟩
      · rw [if_neg finished]
        have length : chunk off rest = min (BSIZE - off % BSIZE) rest := rfl
        have inBlock : off % BSIZE + chunk off rest ≤ BSIZE := by
          simp only [BSIZE_eq] at length ⊢
          omega
        have positive : 0 < chunk off rest := by
          simp only [BSIZE_eq] at length
          omega
        have part : chunk off rest ≤ rest := by
          omega
        have inTree : off / BSIZE < MAXFILE := by
          apply Nat.div_lt_of_lt_mul
          rw [Nat.mul_comm]
          omega
        apply Routine.ends_bind
        · apply bmap_reaches formatted fits sameAddrs inUse inArea inTree
          rcases reachable with lags | present
          · exact Or.inl lags
          · exact Or.inr (present off (Nat.le_refl _) (by omega))
        · intro b middle ⟨addrs, grown⟩
          have chunkWritten :=
            written_chunk (fun index => source (tot + index))
              (fun place => source (place - base)) inBlock
              (by
                intro index _
                congr 1
                omega)
              grown
          apply ends_bread
          apply ends_store
          apply ends_bwrite
          apply Outcome.Ends.mono
          · apply inductionHypothesis (m := setAddrs m inum addrs)
            · rw [chunkWritten.shape]
              exact formatted
            · exact chunkWritten.fits
            · rw [chunkWritten.shape, setAddrs_inum]
              unfold withAddrs
              simp only [Function.update_self]
            · rw [setAddrs_inum]
              exact inUse
            · omega
            · omega
            · omega
            · rcases reachable with lags | present
              · exact Or.inl lags
              · right
                intro place lower upper
                have isPresent := present place (by omega) (by omega)
                rw [setAddrs_inum, chunkWritten.pointers _ isPresent]
                exact isPresent
          · intro _ later ⟨final, written⟩
            refine ⟨final, ?_⟩
            have whole :=
              chunkWritten.trans (Nat.le_add_right _ _) (by omega) written
            rw [show off + chunk off rest + (rest - chunk off rest) =
              off + rest by omega] at whole
            exact whole

end FileSystem

end MyOS
