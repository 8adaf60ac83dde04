import Mathlib.Algebra.BigOperators.Group.Finset.Basic
import MyOS.FileSanity
import MyOS.MkfsImage
import MyOS.PathResolution

namespace MyOS

open Lib
open Routine

/-!
# The volume of an image

A kernel that starts on a finished image finds a volume there: a tree of sound
directories with exact link counts, and the files that have been mapped.
-/

/-- `memmove(&sb, bp->data, sizeof(sb))`; the fields that are used. -/
def Superblock.ofBlock (block : Bytes) : Superblock where
  size := block.le32 4
  ninodes := block.le32 12
  inodestart := block.le32 24
  bmapstart := block.le32 28

namespace FileSystem

/-- `fsinit`; none where it panics. -/
def fsinit (fs : FileSystem) : Option FileSystem :=
  let data := fs.disk 1
  if data.le32 0 ≠ FSMAGIC then
    none
  else
    some
      { fs with
        sb := Superblock.ofBlock data
        inode := fun ip => { fs.inode ip with ref := 0, valid := false } }

end FileSystem

namespace Volume

/-- The inode numbers in the entries of a directory. -/
def entryNumbers (vol : Volume) (dir : Nat) : List Nat :=
  if vol.IsDir dir then
    (List.range ((vol.node dir).bytes.length / direntSize)).map fun index =>
      (direntAt (vol.node dir).bytes index).inum
  else
    []

/-- How many entries of directories name a node. -/
def entryCount (vol : Volume) (inum : Nat) : Nat :=
  ((List.range NINODES).flatMap vol.entryNumbers).count inum

end Volume

namespace Mkfs

variable {host : List UInt8 → Option HostFile} {first later : Mkfs}
variable {m : Nat → Dinode} {d e : ImageDir} {f : ImageFile} {inum : Nat}
variable {name src dst : List UInt8} {fs : FileSystem}

/-!
## Mounting
-/

theorem le32_superblock
    {block : Bytes}
    {index : Nat}
    (same :
      ∀ place, place < 4 * superblockFields.length →
        block place = superblockBytes place)
    (inside : index < superblockFields.length) :
    block.le32 (4 * index) = superblockFields.getD index 0 := by
  have fields : superblockFields.length = 8 := rfl
  have isTable : superblockBytes = tableBytes (superblockFields.getD · 0) :=
    rfl
  have narrow : superblockFields.getD index 0 < uintModulus := by
    have allNarrow : ∀ field ∈ superblockFields, field < uintModulus := by
      decide
    rw [List.getD_eq_getElem _ _ inside]
    exact allNarrow _ (List.getElem_mem inside)
  have isEntry :
      FileSystem.entry (cutBlock (tableBytes (superblockFields.getD · 0)))
          index = superblockFields.getD index 0 :=
    entry_tableBytes (Nat.lt_trans inside (by decide)) narrow
  have isBlock := BSIZE_eq
  have byte :
      ∀ place, place < 4 →
        block (4 * index + place) =
          cutBlock (tableBytes (superblockFields.getD · 0))
            (4 * index + place) := by
    intro place isPlace
    rw [cutBlock_of_lt (by omega), ← isTable]
    exact same _ (by omega)
  rw [← isEntry]
  unfold FileSystem.entry
  simp only [Bytes.le32, Bytes.le16, Nat.add_assoc]
  rw [byte 1 (by decide), byte 2 (by decide), byte 3 (by decide)]
  have isFirst := byte 0 (by decide)
  rw [Nat.add_zero] at isFirst
  rw [isFirst]

theorem Finished.superblock_eq
    (laid : Laid host first m)
    (finished : Finished first later)
    {index : Nat}
    (inside : index < superblockFields.length) :
    (later.disk 1).le32 (4 * index) = superblockFields.getD index 0 := by
  apply le32_superblock _ inside
  intro place isField
  rw [finished.superblock]
  exact laid.superblock place isField

/-- The state behind `fsinit` on a finished image. -/
def mountedAt (later : Mkfs) (fs : FileSystem) : FileSystem where
  sb := imageSuperblock
  disk := later.disk
  inode := fun ip => { fs.inode ip with ref := 0, valid := false }

theorem Finished.fsinit_eq
    (laid : Laid host first m)
    (finished : Finished first later)
    (isDisk : fs.disk = later.disk) :
    fs.fsinit = some (mountedAt later fs) := by
  have isMagic : (later.disk 1).le32 0 = FSMAGIC :=
    finished.superblock_eq laid (by decide : 0 < superblockFields.length)
  have isSb : Superblock.ofBlock (later.disk 1) = imageSuperblock := by
    unfold Superblock.ofBlock imageSuperblock
    congr 1
    · exact finished.superblock_eq laid (by decide : 1 < superblockFields.length)
    · exact finished.superblock_eq laid (by decide : 3 < superblockFields.length)
    · exact finished.superblock_eq laid (by decide : 6 < superblockFields.length)
    · exact finished.superblock_eq laid (by decide : 7 < superblockFields.length)
  unfold FileSystem.fsinit mountedAt
  dsimp only
  rw [isDisk, if_neg (not_not_intro isMagic), isSb]

/-- The volume that the kernel finds on a finished image. -/
def finalVolume (first later : Mkfs) (m : Nat → Dinode) (fs : FileSystem) :
    Volume :=
  (mountedAt later fs).volumeOf (finalInodes first m)

theorem Finished.represents
    (laid : Laid host first m)
    (fits : TreeFits first.dirs first.files)
    (finished : Finished first later)
    (fs : FileSystem) :
    (mountedAt later fs).Represents (finalVolume first later m fs) none := by
  have unreferenced :
      ∀ {ip : InodeIndex}, ¬ 0 < ((mountedAt later fs).inode ip).ref :=
    fun {ip} => Int.lt_irrefl 0
  refine ⟨finalInodes first m, ?_, rfl⟩
  exact {
    formatted := rfl
    fits := finished.diskFits laid fits
    noHoles := finished.noHoles laid fits
    bounded := laid.finalInodes_bounded fits
    nonneg := fun _ => Int.le_refl 0
    dev := fun referenced => absurd referenced unreferenced
    inArea := fun referenced => absurd referenced unreferenced
    unique := fun referenced => absurd referenced unreferenced
    loaded := fun referenced => absurd referenced unreferenced
    lags := fun impossible => by cases impossible
  }

/-!
## Nodes
-/

variable (fs)

theorem Finished.node_dir
    (laid : Laid host first m)
    (fits : TreeFits first.dirs first.files)
    (finished : Finished first later)
    (isDir : d ∈ first.dirs) :
    (finalVolume first later m fs).node d.inum =
      {
        type := T_DIR
        nlink := d.inode.nlink
        bytes := directoryBytes d.entries
      } := by
  have isInode := finalInodes_dir laid isDir
  have isSize :
      (finalInodes first m d.inum).size = (directoryBytes d.entries).length := by
    rw [isInode, length_directoryBytes, Nat.mul_comm]
    rfl
  have isBytes :
      tabulate (finalInodes first m d.inum).size
          (later.disk.byteAt (finalInodes first m d.inum)) =
        directoryBytes d.entries := by
    rw [isSize]
    refine Eq.trans (tabulate_congr ?_) (tabulate_getD 0 _)
    intro place inside
    rw [← isSize, isInode] at inside
    exact (finished.dirContent laid fits isDir inside).2
  have isType : (finalInodes first m d.inum).type = T_DIR := by
    rw [isInode, sized, laid.isDir d isDir]
    rfl
  have isNlink : (finalInodes first m d.inum).nlink = d.inode.nlink := by
    rw [isInode]
    rfl
  change Disk.node later.disk (finalInodes first m d.inum) = _
  unfold Disk.node
  rw [isBytes, isType, isNlink]

theorem Finished.node_file
    (laid : Laid host first m)
    (finished : Finished first later)
    (isFile : f ∈ first.files) :
    ((finalVolume first later m fs).node f.inum).type = T_FILE ∧
      ((finalVolume first later m fs).node f.inum).nlink = f.inode.nlink ∧
        ∃ file, host f.src = some file ∧
          ((finalVolume first later m fs).node f.inum).bytes.length =
            file.content.length ∧
          (Full file →
            ((finalVolume first later m fs).node f.inum).bytes =
              file.content) := by
  obtain ⟨file, isHost, isPacked⟩ := finished.isPacked laid isFile
  have noDir : ∀ d ∈ first.dirs, d.inum ≠ f.inum :=
    fun d isDir => laid.apart d isDir f isFile
  have isInode : finalInodes first m f.inum = f.inode := by
    rw [finalInodes_other noDir, laid.files f isFile]
  change (finalInodes first m f.inum).type = T_FILE ∧
    (finalInodes first m f.inum).nlink = f.inode.nlink ∧
      ∃ file, host f.src = some file ∧
        (tabulate (finalInodes first m f.inum).size
          (later.disk.byteAt (finalInodes first m f.inum))).length =
            file.content.length ∧
        (Full file →
          tabulate (finalInodes first m f.inum).size
            (later.disk.byteAt (finalInodes first m f.inum)) = file.content)
  refine ⟨isPacked.type, by rw [isInode], file, isHost, ?_, ?_⟩
  · rw [length_tabulate, isPacked.size]
  · intro full
    have isBytes :
        tabulate (finalInodes first m f.inum).size
            (later.disk.byteAt (finalInodes first m f.inum)) =
          tabulate (finalInodes first m f.inum).size (file.content.getD · 0) :=
      tabulate_congr fun place inside => isPacked.bytes full place inside
    rw [isBytes, isPacked.size]
    exact tabulate_getD 0 _

theorem Laid.node_cases
    (laid : Laid host first m)
    (inUse : ((finalVolume first later m fs).node inum).type ≠ 0) :
    (∃ d ∈ first.dirs, d.inum = inum) ∨ ∃ f ∈ first.files, f.inum = inum := by
  rcases laid.inum_cases inum with
    ⟨d, isDir, isInum, _⟩ | ⟨_, ⟨f, isFile, isInum, _⟩ | isUnused⟩
  · exact Or.inl ⟨d, isDir, isInum⟩
  · exact Or.inr ⟨f, isFile, isInum⟩
  · exfalso
    apply inUse
    change (finalInodes first m inum).type = 0
    rw [isUnused]
    rfl

theorem Finished.isDir_iff
    (laid : Laid host first m)
    (fits : TreeFits first.dirs first.files)
    (finished : Finished first later) :
    (finalVolume first later m fs).IsDir inum ↔
      ∃ d ∈ first.dirs, d.inum = inum := by
  constructor
  · intro isDir
    have isDir : ((finalVolume first later m fs).node inum).type = T_DIR :=
      isDir
    rcases laid.node_cases fs (by rw [isDir]; decide) with isThere | isFile
    · exact isThere
    · obtain ⟨f, isFile, isInum⟩ := isFile
      rw [← isInum, (finished.node_file fs laid isFile).1] at isDir
      exact absurd isDir (by decide)
  · rintro ⟨d, isDir, isInum⟩
    rw [← isInum]
    unfold Volume.IsDir
    rw [finished.node_dir fs laid fits isDir]

theorem Finished.child_iff
    (laid : Laid host first m)
    (fits : TreeFits first.dirs first.files)
    (finished : Finished first later)
    (isDir : d ∈ first.dirs) :
    (finalVolume first later m fs).child d.inum name = some inum ↔
      (name, inum) ∈ d.entries := by
  have isThere : (finalVolume first later m fs).IsDir d.inum :=
    (finished.isDir_iff fs laid fits).mpr ⟨d, isDir, rfl⟩
  have linkable : ∀ entry ∈ d.entries, Linkable entry :=
    fun entry member => (fits.linkable d isDir entry member).1
  have distinct := fits.distinct d isDir
  have found :
      0 ∉ name →
        (finalVolume first later m fs).child d.inum name =
          (d.entries.find? fun entry => entry.1 = name).map Prod.snd := by
    intro noNul
    rw [Volume.child_of_isDir isThere noNul, finished.node_dir fs laid fits isDir]
    exact lookup_directoryBytes linkable distinct noNul
  constructor
  · intro isChild
    rw [found (Volume.isDir_of_child isChild).2] at isChild
    obtain ⟨entry, isEntry, isInum⟩ := Option.map_eq_some_iff.mp isChild
    have isName := List.find?_some isEntry
    rw [decide_eq_true_eq] at isName
    rw [← isName, ← isInum]
    exact List.mem_of_find?_eq_some isEntry
  · intro member
    rw [found (linkable _ member).noNul]
    cases isFound : d.entries.find? fun entry => entry.1 = name with
    | none =>
        have notThere := List.find?_eq_none.mp isFound _ member
        exact absurd (decide_eq_true rfl) notThere
    | some entry =>
        have isName := List.find?_some isFound
        rw [decide_eq_true_eq] at isName
        have isEntry := List.mem_of_find?_eq_some isFound
        have same : entry = (name, inum) :=
          List.inj_on_of_nodup_map distinct isEntry member isName
        rw [same]
        rfl

theorem Finished.usable_of_entry
    (laid : Laid host first m)
    (fits : TreeFits first.dirs first.files)
    (finished : Finished first later)
    (isDir : d ∈ first.dirs)
    {entry : List UInt8 × Nat}
    (member : entry ∈ d.entries) :
    (finalVolume first later m fs).Usable entry.2 := by
  have counted : linkCount first.dirs entry.2 ≠ 0 := by
    unfold linkCount
    rw [Ne, List.countP_eq_zero]
    intro none
    have isEntry : entry ∈ allEntries first.dirs :=
      List.mem_flatMap.mpr ⟨d, isDir, member⟩
    exact none entry isEntry (beq_self_eq_true entry.2)
  have inodes := laid.inodes.2
  rcases fits.entry_mem isDir member with ⟨e, isOther, isInum⟩ |
    ⟨f, isFile, isInum⟩
  · rw [← isInum] at counted ⊢
    have below := (laid.dirBelow e isOther).2
    have isNode := finished.node_dir fs laid fits isOther
    refine ⟨Nat.lt_of_lt_of_le below inodes, ?_, ?_⟩
    · rw [isNode]
      exact (by decide : T_DIR ≠ 0)
    · rw [isNode]
      dsimp only
      rw [fits.dirLinks e isOther]
      exact counted
  · rw [← isInum] at counted ⊢
    have below := (laid.fileBelow f isFile).2
    obtain ⟨isType, isNlink, _⟩ :=
      finished.node_file fs laid isFile
    refine ⟨Nat.lt_of_lt_of_le below inodes, ?_, ?_⟩
    · rw [isType]
      decide
    · rw [isNlink, fits.fileLinks f isFile]
      exact counted

/-!
## Soundness
-/

theorem Finished.sound
    (laid : Laid host first m)
    (fits : TreeFits first.dirs first.files)
    (finished : Finished first later) :
    (finalVolume first later m fs).Sound where
  whole := by
    intro inum isDir
    obtain ⟨d, isThere, isInum⟩ := (finished.isDir_iff fs laid fits).mp isDir
    rw [← isInum, finished.node_dir fs laid fits isThere]
    dsimp only
    rw [length_directoryBytes]
    exact Nat.dvd_mul_right ..
  usable := by
    intro inum index isDir inside _
    obtain ⟨d, isThere, isInum⟩ := (finished.isDir_iff fs laid fits).mp isDir
    rw [← isInum, finished.node_dir fs laid fits isThere] at inside ⊢
    dsimp only at inside ⊢
    rw [length_directoryBytes] at inside
    have isEntry : index < d.entries.length :=
      Nat.lt_of_mul_lt_mul_left inside
    rw [direntAt_directoryBytes
      (fun entry member => (fits.linkable d isThere entry member).1) isEntry]
    exact finished.usable_of_entry fs laid fits isThere (List.getElem_mem isEntry)
  root := by
    obtain ⟨d, isFirst, isInum, _⟩ := fits.root
    have isThere : d ∈ first.dirs := List.mem_of_getElem? isFirst
    obtain ⟨rest, isEntries⟩ := fits.dots d isThere
    have isDot : (dotName, d.inum) ∈ d.entries := by
      rw [isEntries]
      exact List.mem_cons_self
    have usable := finished.usable_of_entry fs laid fits isThere isDot
    rw [← isInum]
    exact ⟨usable, (finished.isDir_iff fs laid fits).mpr ⟨d, isThere, rfl⟩⟩

theorem Finished.child_dots
    (laid : Laid host first m)
    (fits : TreeFits first.dirs first.files)
    (finished : Finished first later)
    (isDir : d ∈ first.dirs) :
    (finalVolume first later m fs).child d.inum dotName = some d.inum ∧
      (finalVolume first later m fs).child d.inum dotDotName =
        some d.parentInum := by
  obtain ⟨rest, isEntries⟩ := fits.dots d isDir
  refine ⟨(finished.child_iff fs laid fits isDir).mpr ?_,
    (finished.child_iff fs laid fits isDir).mpr ?_⟩
  · rw [isEntries]
    exact List.mem_cons_self
  · rw [isEntries]
    exact List.mem_cons_of_mem _ List.mem_cons_self

theorem Finished.child_proper
    (laid : Laid host first m)
    (fits : TreeFits first.dirs first.files)
    (finished : Finished first later)
    {parent : Nat}
    (proper : IsProper dotName dotDotName name)
    (isChild :
      (finalVolume first later m fs).child parent name = some inum) :
    (∃ f ∈ first.files, f.inum = inum) ∨
      (inum ≠ ROOTINO ∧
        ∃ e ∈ first.dirs, e.inum = inum ∧ e.parentInum = parent) := by
  obtain ⟨d, isThere, isInum⟩ :=
    (finished.isDir_iff fs laid fits).mp (Volume.isDir_of_child isChild).1
  rw [← isInum] at isChild ⊢
  exact fits.targets d isThere _
    ((finished.child_iff fs laid fits isThere).mp isChild) proper

theorem Finished.tree
    (laid : Laid host first m)
    (fits : TreeFits first.dirs first.files)
    (finished : Finished first later) :
    (finalVolume first later m fs).Tree := by
  have isRoot := (finished.sound fs laid fits).root.2
  have isThere :
      ∀ {path node},
        Located (finalVolume first later m fs).child
          (finalVolume first later m fs).IsDir ROOTINO dotName dotDotName path
          node → (finalVolume first later m fs).IsDir node := by
    intro path node located
    cases located with
    | root =>
        exact isRoot
    | down above proper isChild isDir =>
        exact isDir
  exact {
    distinct := by decide
    isRoot := isRoot
    leaf := fun isChild => (Volume.isDir_of_child isChild).1
    here := by
      intro path node located
      obtain ⟨d, isDir, isInum⟩ :=
        (finished.isDir_iff fs laid fits).mp (isThere located)
      rw [← isInum]
      exact (finished.child_dots fs laid fits isDir).1
    top := by
      obtain ⟨d, isFirst, isInum, _, isParent⟩ := fits.root
      have isDir : d ∈ first.dirs := List.mem_of_getElem? isFirst
      have isUp := (finished.child_dots fs laid fits isDir).2
      rw [isInum, isParent] at isUp
      exact isUp
    up := by
      intro path parent name node located proper isChild isDir
      rcases finished.child_proper fs laid fits proper isChild with
        ⟨f, isFile, isInum⟩ | ⟨_, e, isOther, isInum, isParent⟩
      · obtain ⟨d, isDir, sameInum⟩ := (finished.isDir_iff fs laid fits).mp isDir
        exact absurd (sameInum.trans isInum.symm) (laid.apart d isDir f isFile)
      · have isUp := (finished.child_dots fs laid fits isOther).2
        rw [isInum, isParent] at isUp
        exact isUp
    rootless := by
      intro path parent name located proper isChild
      rcases finished.child_proper fs laid fits proper isChild with
        ⟨f, isFile, isInum⟩ | ⟨notRoot, _⟩
      · obtain ⟨d, isFirst, isRootInum, _⟩ := fits.root
        exact laid.apart d (List.mem_of_getElem? isFirst) f isFile
          (isRootInum.trans isInum.symm)
      · exact notRoot rfl
  }

/-!
## Link counts
-/

theorem Finished.entryNumbers_dir
    (laid : Laid host first m)
    (fits : TreeFits first.dirs first.files)
    (finished : Finished first later)
    (isDir : d ∈ first.dirs) :
    (finalVolume first later m fs).entryNumbers d.inum =
      d.entries.map Prod.snd := by
  have isThere : (finalVolume first later m fs).IsDir d.inum :=
    (finished.isDir_iff fs laid fits).mpr ⟨d, isDir, rfl⟩
  unfold Volume.entryNumbers
  rw [if_pos isThere, finished.node_dir fs laid fits isDir]
  dsimp only
  rw [length_directoryBytes, Nat.mul_div_cancel_left _ (by decide)]
  apply List.ext_getElem
  · rw [List.length_map, List.length_map, List.length_range]
  · intro index _ inside
    rw [List.length_map] at inside
    rw [List.getElem_map, List.getElem_map, List.getElem_range]
    exact direntAt_directoryBytes
      (fun entry member => (fits.linkable d isDir entry member).1) inside

theorem Finished.entryNumbers_other
    (laid : Laid host first m)
    (fits : TreeFits first.dirs first.files)
    (finished : Finished first later)
    (noDir : ∀ d ∈ first.dirs, d.inum ≠ inum) :
    (finalVolume first later m fs).entryNumbers inum = [] := by
  unfold Volume.entryNumbers
  apply if_neg
  intro isDir
  obtain ⟨d, isThere, isInum⟩ := (finished.isDir_iff fs laid fits).mp isDir
  exact noDir d isThere isInum

theorem sum_range_of_support
    {n : Nat}
    {numbers : List Nat}
    {value : Nat → Nat}
    (distinct : numbers.Nodup)
    (inRange : ∀ number ∈ numbers, number < n)
    (support : ∀ number, number ∉ numbers → value number = 0) :
    ((List.range n).map value).sum = (numbers.map value).sum := by
  rw [← List.sum_toFinset value List.nodup_range,
    ← List.sum_toFinset value distinct]
  symm
  apply Finset.sum_subset
  · intro number member
    rw [List.mem_toFinset] at member ⊢
    exact List.mem_range.mpr (inRange number member)
  · intro number _ notThere
    rw [List.mem_toFinset] at notThere
    exact support number notThere

theorem Finished.entryCount_eq
    (laid : Laid host first m)
    (fits : TreeFits first.dirs first.files)
    (finished : Finished first later)
    (inum : Nat) :
    (finalVolume first later m fs).entryCount inum =
      linkCount first.dirs inum := by
  have inRange : ∀ dir ∈ first.dirs.map ImageDir.inum, dir < NINODES := by
    intro dir member
    obtain ⟨d, isDir, isInum⟩ := List.mem_map.mp member
    rw [← isInum]
    exact Nat.lt_of_lt_of_le (laid.dirBelow d isDir).2 laid.inodes.2
  have support :
      ∀ dir, dir ∉ first.dirs.map ImageDir.inum →
        ((finalVolume first later m fs).entryNumbers dir).count inum = 0 := by
    intro dir notThere
    rw [finished.entryNumbers_other fs laid fits]
    · exact List.count_nil
    · intro d isDir same
      exact notThere (List.mem_map.mpr ⟨d, isDir, same⟩)
  have isSum :
      ∀ d ∈ first.dirs,
        ((finalVolume first later m fs).entryNumbers d.inum).count inum =
          d.entries.countP fun entry => entry.2 == inum := by
    intro d isDir
    rw [finished.entryNumbers_dir fs laid fits isDir, List.count, List.countP_map]
    rfl
  unfold Volume.entryCount linkCount allEntries
  rw [List.count_flatMap, List.countP_flatMap]
  refine (sum_range_of_support laid.distinctDirs inRange support).trans ?_
  rw [List.map_map]
  exact congrArg List.sum (List.map_congr_left isSum)

theorem Finished.nlink_eq
    (laid : Laid host first m)
    (fits : TreeFits first.dirs first.files)
    (finished : Finished first later)
    (inUse : ((finalVolume first later m fs).node inum).type ≠ 0) :
    ((finalVolume first later m fs).node inum).nlink =
      (finalVolume first later m fs).entryCount inum := by
  rw [finished.entryCount_eq fs laid fits]
  rcases laid.node_cases fs inUse with ⟨d, isDir, isInum⟩ | ⟨f, isFile, isInum⟩
  · rw [← isInum, finished.node_dir fs laid fits isDir]
    exact fits.dirLinks d isDir
  · rw [← isInum, (finished.node_file fs laid isFile).2.1]
    exact fits.fileLinks f isFile

end Mkfs

end MyOS
