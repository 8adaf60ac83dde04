import Mathlib.Data.List.Nodup
import MyOS.BlockOwnership
import MyOS.InodeContent
import MyOS.MkfsFileData

namespace MyOS

open Lib
open Routine

/-!
# The layout of the image

Between two mappings the image holds the inodes of the files, and the blocks
behind the bitmap belong one each to a position of a file or a directory.  The
directories' inodes and entries are still in memory.
-/

namespace Mkfs

open Position

/-- A file of the host is in the blocks of an inode. -/
structure IsPacked
    (disk : Disk)
    (inode : Dinode)
    (file : HostFile) : Prop where
  type : inode.type = T_FILE
  size : inode.size = file.content.length
  bounded : inode.size ≤ MAXFILE * BSIZE
  noHoles : disk.NoHoles inode
  bytes :
    Full file → ∀ place, place < inode.size →
      disk.byteAt inode place = file.content.getD place 0

/-- The image as far as it is written, with the inodes by their numbers. -/
structure Laid
    (host : List UInt8 → Option HostFile)
    (s : Mkfs)
    (m : Nat → Dinode) : Prop where
  dirs : ∀ d ∈ s.dirs, m d.inum = d.inode
  files : ∀ f ∈ s.files, m f.inum = f.inode
  unused :
    ∀ inum, (∀ d ∈ s.dirs, d.inum ≠ inum) → (∀ f ∈ s.files, f.inum ≠ inum) →
      m inum = Dinode.zeroed 0
  isDir :
    ∀ d ∈ s.dirs,
      d.inode = { dirInode d.blockno with nlink := d.inode.nlink }
  hasBlock : ∀ d ∈ s.dirs, d.blockno ≠ 0
  isFile :
    ∀ f ∈ s.files, ∃ file, host f.src = some file ∧
      IsPacked s.disk f.inode file
  fits : ∀ inum, (m inum).Fits
  stored :
    ∀ {inum}, inum < NINODES → (∀ d ∈ s.dirs, d.inum ≠ inum) →
      s.disk.dinode inum = m inum
  numbering : Numbering (s.disk.references m) ROOT_BLOCK s.freeblock
  order : ROOT_BLOCK < s.freeblock
  room : s.freeblock ≤ FSSIZE
  superblock :
    ∀ index, index < 4 * superblockFields.length →
      s.disk 1 index = superblockBytes index
  distinctDirs : (s.dirs.map ImageDir.inum).Nodup
  distinctFiles : (s.files.map ImageFile.inum).Nodup
  distinctSources : (s.files.map ImageFile.src).Nodup
  apart : ∀ d ∈ s.dirs, ∀ f ∈ s.files, d.inum ≠ f.inum
  dirBelow : ∀ d ∈ s.dirs, 0 < d.inum ∧ d.inum < s.freeinode
  fileBelow : ∀ f ∈ s.files, 0 < f.inum ∧ f.inum < s.freeinode
  inodes : ROOTINO < s.freeinode ∧ s.freeinode ≤ NINODES

variable {host : List UInt8 → Option HostFile} {s later : Mkfs}
variable {m : Nat → Dinode} {inode changed : Dinode} {file : HostFile}
variable {inum : Nat} {disk laterDisk : Disk}

theorem IsPacked.kept
    (isPacked : IsPacked disk inode file)
    (sameType : changed.type = inode.type)
    (sameSize : changed.size = inode.size)
    (kept : FileKept disk inode laterDisk changed) :
    IsPacked laterDisk changed file where
  type := sameType.trans isPacked.type
  size := sameSize.trans isPacked.size
  bounded := sameSize ▸ isPacked.bounded
  noHoles := by
    intro place inside
    rw [sameSize] at inside
    have present := isPacked.noHoles place inside
    rw [(kept _ present).1]
    exact present
  bytes := by
    intro full place inside
    rw [sameSize] at inside
    rw [kept.byteAt (isPacked.noHoles place inside)]
    exact isPacked.bytes full place inside

theorem references_update
    (disk : Disk)
    (same : changed.addrs = (m inum).addrs) :
    disk.references (Function.update m inum changed) = disk.references m := by
  funext ⟨other, position⟩
  unfold Disk.references
  dsimp only
  by_cases here : other = inum
  · rw [here, Function.update_self]
    exact Disk.pointer_congr same fun _ _ _ => rfl
  · rw [Function.update_of_ne here]

theorem oneMoreLink_fits (fits : inode.Fits) : (oneMoreLink inode).Fits where
  type := fits.type
  major := fits.major
  minor := fits.minor
  nlink := Nat.mod_lt _ (by decide)
  size := fits.size
  addrs := fits.addrs

theorem Laid.inRange
    {position : Position}
    (laid : Laid host s m)
    (present : s.disk.pointer (m inum) position ≠ 0) :
    ROOT_BLOCK ≤ s.disk.pointer (m inum) position ∧
      s.disk.pointer (m inum) position < s.freeblock :=
  have held : s.disk.references m (inum, position) ≠ 0 := present
  laid.numbering.inRange held

/-- The blocks that the inodes refer to have not changed. -/
def SameBlocks (s later : Mkfs) : Prop :=
  ∀ b, ROOT_BLOCK ≤ b → b < s.freeblock → later.disk b = s.disk b

theorem Laid.references_eq
    (laid : Laid host s m)
    (same : SameBlocks s later) :
    later.disk.references m = s.disk.references m := by
  apply DiskFits.references_congr
  intro inum position present
  obtain ⟨lower, upper⟩ := laid.inRange present
  exact same _ lower upper

theorem Laid.fileKept
    (laid : Laid host s m)
    (same : SameBlocks s later)
    (inum : Nat) :
    FileKept s.disk (m inum) later.disk (m inum) := by
  apply FileKept.of_blocks
  intro position present
  obtain ⟨lower, upper⟩ := laid.inRange present
  exact same _ lower upper

theorem Laid.isFile_kept
    (laid : Laid host s m)
    (same : SameBlocks s later)
    {f : ImageFile}
    (member : f ∈ s.files) :
    ∃ file, host f.src = some file ∧ IsPacked later.disk f.inode file := by
  obtain ⟨file, isHost, isPacked⟩ := laid.isFile f member
  refine ⟨file, isHost, isPacked.kept rfl rfl ?_⟩
  rw [← laid.files f member]
  exact laid.fileKept same f.inum

theorem Laid.fresh
    (laid : Laid host s m)
    (beyond : s.freeinode ≤ inum) :
    m inum = Dinode.zeroed 0 := by
  apply laid.unused
  · intro d member same
    have below := (laid.dirBelow d member).2
    omega
  · intro f member same
    have below := (laid.fileBelow f member).2
    omega

theorem sameBlocks_of_frame
    (frame : ∀ b, b < s.freeblock → later.disk b = s.disk b) :
    SameBlocks s later :=
  fun b _ upper => frame b upper

theorem disk_withInode_of_le
    {b : Nat}
    (inArea : inum < NINODES)
    (beyond : ROOT_BLOCK ≤ b) :
    (s.withInode inum inode).disk b = s.disk b := by
  rw [disk_withInode]
  apply Function.update_of_ne
  have inodes := Disk.inodeBlock_lt inArea
  have order := Disk.BMAP_START_lt_ROOT_BLOCK
  omega

theorem disk_withInode_one :
    (s.withInode inum inode).disk 1 = s.disk 1 := by
  rw [disk_withInode]
  apply Function.update_of_ne
  have lower : INODE_START ≤ Disk.inodeBlock inum := Disk.le_inodeBlock
  rw [INODE_START_eq] at lower
  omega

theorem dinode_withInode
    (fits : inode.Fits) :
    (s.withInode inum inode).disk.dinode =
      Function.update s.disk.dinode inum inode := by
  rw [disk_withInode]
  exact Disk.dinode_setDinode fits

theorem dinode_of_frame
    (order : ROOT_BLOCK < s.freeblock)
    (frame : ∀ b, b < s.freeblock → later.disk b = s.disk b)
    (inArea : inum < NINODES) :
    later.disk.dinode inum = s.disk.dinode inum := by
  apply Disk.dinode_congr
  apply frame
  have inodes := Disk.inodeBlock_lt inArea
  have limit := Disk.BMAP_START_lt_ROOT_BLOCK
  omega

/-!
## Entries
-/

theorem mem_set_of_nodup
    {Item : Type}
    {key : Item → Nat}
    {items : List Item}
    {index : Nat}
    {item other changed : Item}
    (distinct : (items.map key).Nodup)
    (isItem : items[index]? = some item)
    (member : other ∈ items.set index changed) :
    other = changed ∨ (other ∈ items ∧ key other ≠ key item) := by
  obtain ⟨inside, atIndex⟩ := List.getElem?_eq_some_iff.mp isItem
  obtain ⟨front, back, isItems, _, isSet⟩ :=
    @List.exists_of_set _ _ changed _ inside
  rw [atIndex] at isItems
  rw [isSet] at member
  rw [isItems, List.map_append, List.map_cons, List.nodup_append,
    List.nodup_cons] at distinct
  obtain ⟨_, ⟨notBehind, _⟩, notBefore⟩ := distinct
  rw [isItems]
  rcases List.mem_append.mp member with before | isRest
  · refine Or.inr ⟨List.mem_append_left _ before, ?_⟩
    exact notBefore _ (List.mem_map_of_mem before) _ List.mem_cons_self
  · rcases List.mem_cons.mp isRest with isChanged | behind
    · exact Or.inl isChanged
    · refine Or.inr
        ⟨List.mem_append_right _ (List.mem_cons_of_mem _ behind), ?_⟩
      intro same
      exact notBehind (same ▸ List.mem_map_of_mem behind)

theorem map_set_of_key
    {Item Key : Type}
    {key : Item → Key}
    {items : List Item}
    {index : Nat}
    {item changed : Item}
    (isItem : items[index]? = some item)
    (same : key changed = key item) :
    (items.set index changed).map key = items.map key := by
  obtain ⟨inside, isIndex⟩ := List.getElem?_eq_some_iff.mp isItem
  rw [List.map_set, same, ← isIndex, ← List.map_set, List.set_getElem_self]

theorem mem_set_of_ne
    {Item : Type}
    {key : Item → Nat}
    {items : List Item}
    {index : Nat}
    {item other changed : Item}
    (isItem : items[index]? = some item)
    (member : other ∈ items)
    (different : key other ≠ key item) :
    other ∈ items.set index changed := by
  obtain ⟨place, isPlace⟩ := List.mem_iff_getElem?.mp member
  apply List.mem_iff_getElem?.mpr
  refine ⟨place, ?_⟩
  rw [List.getElem?_set_ne]
  · exact isPlace
  · intro same
    rw [← same, isItem] at isPlace
    cases isPlace
    exact different rfl

theorem mem_set_self
    {Item : Type}
    {items : List Item}
    {index : Nat}
    {item : Item}
    (isItem : items[index]? = some item)
    (changed : Item) :
    changed ∈ items.set index changed :=
  List.mem_set (List.getElem?_eq_some_iff.mp isItem).1 changed

/-!
## What is put on the image
-/

variable {dir index : Nat} {d changedDir new : ImageDir}
variable {f changedFile newFile : ImageFile}

/-- The state with another directory in the place of one. -/
def withDirAt (s : Mkfs) (dir : Nat) (changed : ImageDir) : Mkfs :=
  { s with dirs := s.dirs.set dir changed }

theorem Laid.linkDir
    {nlink : Nat}
    (laid : Laid host s m)
    (isItem : s.dirs[dir]? = some d)
    (sameInum : changedDir.inum = d.inum)
    (sameBlock : changedDir.blockno = d.blockno)
    (isInode : changedDir.inode = { d.inode with nlink := nlink })
    (narrow : nlink < shortModulus) :
    Laid host (s.withDirAt dir changedDir)
      (Function.update m d.inum changedDir.inode) := by
  have isDir : d ∈ s.dirs := List.mem_of_getElem? isItem
  have wasInode := laid.dirs d isDir
  have cases :
      ∀ e ∈ s.dirs.set dir changedDir,
        e = changedDir ∨ (e ∈ s.dirs ∧ e.inum ≠ d.inum) :=
    fun e member => mem_set_of_nodup laid.distinctDirs isItem member
  have inums :
      ∀ inum, (∀ e ∈ s.dirs.set dir changedDir, e.inum ≠ inum) →
        inum ≠ d.inum ∧ ∀ e ∈ s.dirs, e.inum ≠ inum := by
    intro inum none
    have notChanged : inum ≠ d.inum :=
      sameInum ▸ (none _ (mem_set_self isItem changedDir)).symm
    refine ⟨notChanged, ?_⟩
    intro e member
    by_cases same : e.inum = d.inum
    · rw [same]
      exact notChanged.symm
    · exact none e (mem_set_of_ne isItem member same)
  exact {
    laid with
    dirs := by
      intro e member
      rcases cases e member with isChanged | ⟨isOther, different⟩
      · rw [isChanged, sameInum, Function.update_self]
      · rw [Function.update_of_ne different]
        exact laid.dirs e isOther
    files := by
      intro f member
      rw [Function.update_of_ne (laid.apart d isDir f member).symm]
      exact laid.files f member
    unused := by
      intro inum noDir noFile
      obtain ⟨notChanged, noOther⟩ := inums inum noDir
      rw [Function.update_of_ne notChanged]
      exact laid.unused inum noOther noFile
    isDir := by
      intro e member
      rcases cases e member with isChanged | ⟨isOther, _⟩
      · rw [isChanged, sameBlock, isInode, laid.isDir d isDir]
      · exact laid.isDir e isOther
    hasBlock := by
      intro e member
      rcases cases e member with isChanged | ⟨isOther, _⟩
      · rw [isChanged, sameBlock]
        exact laid.hasBlock d isDir
      · exact laid.hasBlock e isOther
    fits := by
      intro inum
      by_cases here : inum = d.inum
      · rw [here, Function.update_self, isInode, ← wasInode]
        exact { laid.fits d.inum with nlink := narrow }
      · rw [Function.update_of_ne here]
        exact laid.fits inum
    stored := by
      intro inum inArea noDir
      obtain ⟨notChanged, noOther⟩ := inums inum noDir
      rw [Function.update_of_ne notChanged]
      exact laid.stored inArea noOther
    numbering := by
      rw [references_update _ (by rw [isInode, wasInode])]
      exact laid.numbering
    distinctDirs := by
      unfold Mkfs.withDirAt
      rw [map_set_of_key isItem sameInum]
      exact laid.distinctDirs
    apart := by
      intro e member f isFile
      rcases cases e member with isChanged | ⟨isOther, _⟩
      · rw [isChanged, sameInum]
        exact laid.apart d isDir f isFile
      · exact laid.apart e isOther f isFile
    dirBelow := by
      intro e member
      rcases cases e member with isChanged | ⟨isOther, _⟩
      · rw [isChanged, sameInum]
        exact laid.dirBelow d isDir
      · exact laid.dirBelow e isOther
  }

theorem Laid.withDirAt
    (laid : Laid host s m)
    (isItem : s.dirs[dir]? = some d)
    (sameInum : changedDir.inum = d.inum)
    (sameBlock : changedDir.blockno = d.blockno)
    (sameInode : changedDir.inode = d.inode) :
    Laid host (s.withDirAt dir changedDir) m := by
  have wasInode := laid.dirs d (List.mem_of_getElem? isItem)
  have narrow := (laid.fits d.inum).nlink
  rw [wasInode] at narrow
  have linked := laid.linkDir isItem sameInum sameBlock sameInode narrow
  rw [sameInode, ← wasInode, Function.update_eq_self] at linked
  exact linked

/-- The state with a directory behind the others. -/
def withLastDir (s : Mkfs) (new : ImageDir) : Mkfs :=
  { s.withNewBlock with
    freeinode := s.freeinode + 1
    dirs := s.dirs ++ [new] }

/-- The state with another directory, and its parent changed. -/
def withDir (s : Mkfs) (dir : Nat) (changed new : ImageDir) : Mkfs :=
  { s.withNewBlock with
    freeinode := s.freeinode + 1
    dirs := s.dirs.set dir changed ++ [new] }

theorem pointer_dirInode
    {disk : Disk}
    {b : Nat}
    (position : Position) :
    disk.pointer (dirInode b) position =
      if position = .addr 0 then b else 0 := by
  induction position with
  | addr index =>
      change (if index.val = 0 then b else 0) = _
      simp only [Position.addr.injEq, Fin.val_eq_zero_iff]
  | child parent index inductionHypothesis =>
      rw [if_neg (by intro same; cases same)]
      unfold Disk.pointer
      apply if_neg
      rintro ⟨isIndex, _, present⟩
      rw [inductionHypothesis] at present
      split at present
      next isFirst =>
        rw [isFirst] at isIndex
        cases isIndex
      · exact present rfl

theorem dirInode_fits
    {b : Nat}
    (room : b < FSSIZE) :
    (dirInode b).Fits where
  type := (by decide : T_DIR < shortModulus)
  major := (by decide : 0 < shortModulus)
  minor := (by decide : 0 < shortModulus)
  nlink := (by decide : 2 < shortModulus)
  size := (by decide : 0 < uintModulus)
  addrs := by
    intro index
    have small : FSSIZE < uintModulus := by decide
    unfold dirInode
    dsimp only
    split
    · omega
    · decide

theorem nodup_map_append
    {Item Key : Type}
    {key : Item → Key}
    {items : List Item}
    {new : Item}
    (distinct : (items.map key).Nodup)
    (isNew : ∀ item ∈ items, key item ≠ key new) :
    ((items ++ [new]).map key).Nodup := by
  rw [List.map_append, List.map_singleton]
  apply distinct.append (List.nodup_singleton _)
  rw [List.disjoint_singleton]
  intro member
  obtain ⟨item, isItem, same⟩ := List.mem_map.mp member
  exact isNew item isItem same

theorem Laid.references_fresh
    (laid : Laid host s m)
    (position : Position) :
    s.disk.references m (s.freeinode, position) = 0 := by
  unfold Disk.references
  dsimp only
  rw [laid.fresh (Nat.le_refl _)]
  exact Disk.pointer_eq_zero fun _ => rfl

theorem Laid.withLastDir
    (laid : Laid host s m)
    (isInum : new.inum = s.freeinode)
    (isBlock : new.blockno = s.freeblock)
    (isInode : new.inode = dirInode s.freeblock)
    (inodeRoom : s.freeinode < NINODES)
    (blockRoom : s.freeblock < FSSIZE) :
    Laid host (s.withLastDir new)
      (Function.update m s.freeinode new.inode) := by
  have members :
      ∀ e ∈ s.dirs ++ [new], e ∈ s.dirs ∨ e = new := fun e member =>
    (List.mem_append.mp member).imp_right List.mem_singleton.mp
  have below : ∀ e ∈ s.dirs, e.inum ≠ s.freeinode := fun e member =>
    Nat.ne_of_lt (laid.dirBelow e member).2
  have numbers :
      ∀ inum, (∀ e ∈ s.dirs ++ [new], e.inum ≠ inum) →
        inum ≠ s.freeinode ∧ ∀ e ∈ s.dirs, e.inum ≠ inum := by
    intro inum none
    refine ⟨?_, fun e member => none e (List.mem_append_left _ member)⟩
    rw [← isInum]
    exact (none _ (List.mem_append_right _
      (List.mem_singleton_self new))).symm
  have frame :
      ∀ b, b < s.freeblock → (s.withLastDir new).disk b = s.disk b := by
    intro b old
    change s.withNewBlock.disk b = s.disk b
    rw [disk_withNewBlock, Function.update_of_ne (by omega)]
  have same := sameBlocks_of_frame frame
  have order := laid.order
  exact {
    dirs := by
      intro e member
      rcases members e member with isOld | isNew
      · rw [Function.update_of_ne (below e isOld)]
        exact laid.dirs e isOld
      · rw [isNew, isInum, Function.update_self]
    files := by
      intro f member
      have below := (laid.fileBelow f member).2
      rw [Function.update_of_ne (Nat.ne_of_lt below)]
      exact laid.files f member
    unused := by
      intro inum noDir noFile
      obtain ⟨notNew, noOther⟩ := numbers inum noDir
      rw [Function.update_of_ne notNew]
      exact laid.unused inum noOther noFile
    isDir := by
      intro e member
      rcases members e member with isOld | isNew
      · exact laid.isDir e isOld
      · rw [isNew, isInode, isBlock]
    hasBlock := by
      intro e member
      rcases members e member with isOld | isNew
      · exact laid.hasBlock e isOld
      · rw [isNew, isBlock]
        exact Nat.ne_of_gt (Nat.zero_lt_of_lt order)
    isFile := fun f member => laid.isFile_kept same member
    fits := by
      intro inum
      by_cases isNew : inum = s.freeinode
      · rw [isNew, Function.update_self, isInode]
        exact dirInode_fits blockRoom
      · rw [Function.update_of_ne isNew]
        exact laid.fits inum
    stored := by
      intro inum inArea noDir
      obtain ⟨notNew, noOther⟩ := numbers inum noDir
      rw [Function.update_of_ne notNew, dinode_of_frame order frame inArea]
      exact laid.stored inArea noOther
    numbering := by
      have attached :=
        laid.numbering.attach (by decide) (Nat.le_of_lt order)
          (laid.references_fresh (.addr 0))
      have isNow :
          (s.withLastDir new).disk.references
              (Function.update m s.freeinode new.inode) =
            Function.update (s.disk.references m) (s.freeinode, .addr 0)
              s.freeblock := by
        funext ⟨inum, position⟩
        by_cases isNew : inum = s.freeinode
        · rw [isNew]
          unfold Disk.references
          dsimp only
          rw [Function.update_self, isInode, pointer_dirInode]
          by_cases isFirst : position = .addr 0
          · rw [if_pos isFirst, isFirst, Function.update_self]
          · rw [if_neg isFirst, Function.update_of_ne
              (fun equal => isFirst (Prod.mk.inj equal).2)]
            exact (laid.references_fresh position).symm
        · rw [Function.update_of_ne (fun equal => isNew (Prod.mk.inj equal).1),
            ← laid.references_eq same]
          unfold Disk.references
          dsimp only
          rw [Function.update_of_ne isNew]
      rw [isNow]
      exact attached
    order := Nat.lt_succ_of_lt order
    room := blockRoom
    superblock := by
      intro index inside
      rw [frame 1 (by rw [ROOT_BLOCK_eq] at order; omega)]
      exact laid.superblock index inside
    distinctDirs :=
      nodup_map_append laid.distinctDirs (isInum.symm ▸ below)
    distinctFiles := laid.distinctFiles
    distinctSources := laid.distinctSources
    apart := by
      intro e member f isFile
      rcases members e member with isOld | isNew
      · exact laid.apart e isOld f isFile
      · rw [isNew, isInum]
        exact Nat.ne_of_gt (laid.fileBelow f isFile).2
    dirBelow := by
      intro e member
      change 0 < e.inum ∧ e.inum < s.freeinode + 1
      rcases members e member with isOld | isNew
      · have below := laid.dirBelow e isOld
        omega
      · have positive := laid.inodes.1
        rw [isNew, isInum]
        omega
    fileBelow := by
      intro f member
      have below := laid.fileBelow f member
      change 0 < f.inum ∧ f.inum < s.freeinode + 1
      omega
    inodes := ⟨Nat.lt_succ_of_lt laid.inodes.1, inodeRoom⟩
  }

theorem Laid.withDir
    (laid : Laid host s m)
    (isItem : s.dirs[dir]? = some d)
    (sameInum : changedDir.inum = d.inum)
    (sameBlock : changedDir.blockno = d.blockno)
    (linked : changedDir.inode = oneMoreLink d.inode)
    (isInum : new.inum = s.freeinode)
    (isBlock : new.blockno = s.freeblock)
    (isInode : new.inode = dirInode s.freeblock)
    (inodeRoom : s.freeinode < NINODES)
    (blockRoom : s.freeblock < FSSIZE) :
    Laid host (s.withDir dir changedDir new)
      (Function.update (Function.update m d.inum (oneMoreLink d.inode))
        s.freeinode (dirInode s.freeblock)) := by
  rw [← linked, ← isInode]
  exact (laid.linkDir isItem sameInum sameBlock linked
    (Nat.mod_lt _ (by decide))).withLastDir isInum isBlock isInode inodeRoom
      blockRoom

/-- The state with another link to a file. -/
def withLink (s : Mkfs) (index : Nat) (changed : ImageFile) : Mkfs :=
  { s.withInode changed.inum changed.inode with
    files := s.files.set index changed }

theorem Laid.withLink
    (laid : Laid host s m)
    (isItem : s.files[index]? = some f)
    (sameSrc : changedFile.src = f.src)
    (sameInum : changedFile.inum = f.inum)
    (linked : changedFile.inode = oneMoreLink f.inode) :
    Laid host (s.withLink index changedFile)
      (Function.update m f.inum (oneMoreLink f.inode)) := by
  have isFile : f ∈ s.files := List.mem_of_getElem? isItem
  have inArea : changedFile.inum < NINODES := by
    rw [sameInum]
    exact Nat.lt_of_lt_of_le (laid.fileBelow f isFile).2 laid.inodes.2
  have fitsNow : changedFile.inode.Fits := by
    rw [linked, ← laid.files f isFile]
    exact oneMoreLink_fits (laid.fits f.inum)
  have members :
      ∀ g ∈ s.files.set index changedFile,
        g = changedFile ∨ (g ∈ s.files ∧ g.inum ≠ f.inum) :=
    fun g member => mem_set_of_nodup laid.distinctFiles isItem member
  have same : SameBlocks s (s.withLink index changedFile) :=
    fun b lower _ => disk_withInode_of_le inArea lower
  exact {
    laid with
    dirs := by
      intro e member
      rw [Function.update_of_ne (laid.apart e member f isFile)]
      exact laid.dirs e member
    files := by
      intro g member
      rcases members g member with isChanged | ⟨isOther, different⟩
      · rw [isChanged, sameInum, Function.update_self, linked]
      · rw [Function.update_of_ne different]
        exact laid.files g isOther
    unused := by
      intro inum noDir noFile
      have notChanged : inum ≠ f.inum := by
        rw [← sameInum]
        exact (noFile _ (mem_set_self isItem changedFile)).symm
      rw [Function.update_of_ne notChanged]
      apply laid.unused inum noDir
      intro g member
      by_cases isSame : g.inum = f.inum
      · rw [isSame]
        exact notChanged.symm
      · exact noFile g (mem_set_of_ne isItem member isSame)
    isFile := by
      intro g member
      rcases members g member with isChanged | ⟨isOther, _⟩
      · obtain ⟨file, isHost, isPacked⟩ := laid.isFile_kept same isFile
        rw [isChanged, sameSrc, linked]
        refine ⟨file, isHost, isPacked.kept rfl rfl ?_⟩
        intro position _
        exact ⟨Disk.pointer_congr rfl fun _ _ _ => rfl, fun _ => rfl⟩
      · exact laid.isFile_kept same isOther
    fits := by
      intro inum
      by_cases here : inum = f.inum
      · rw [here, Function.update_self, ← linked]
        exact fitsNow
      · rw [Function.update_of_ne here]
        exact laid.fits inum
    stored := by
      intro inum isArea noDir
      change (s.withInode changedFile.inum changedFile.inode).disk.dinode
        inum = _
      rw [dinode_withInode fitsNow, sameInum, linked]
      by_cases here : inum = f.inum
      · rw [here, Function.update_self, Function.update_self]
      · rw [Function.update_of_ne here, Function.update_of_ne here]
        exact laid.stored isArea noDir
    numbering := by
      rw [references_update _ (by rw [laid.files f isFile]; rfl),
        laid.references_eq same]
      exact laid.numbering
    superblock := by
      intro place inside
      change (s.withInode changedFile.inum changedFile.inode).disk 1 place = _
      rw [disk_withInode_one]
      exact laid.superblock place inside
    distinctFiles := by
      unfold Mkfs.withLink
      rw [map_set_of_key isItem sameInum]
      exact laid.distinctFiles
    distinctSources := by
      unfold Mkfs.withLink
      rw [map_set_of_key isItem sameSrc]
      exact laid.distinctSources
    apart := by
      intro e member g isOther
      rcases members g isOther with isChanged | ⟨isOld, _⟩
      · rw [isChanged, sameInum]
        exact laid.apart e member f isFile
      · exact laid.apart e member g isOld
    fileBelow := by
      intro g member
      rcases members g member with isChanged | ⟨isOld, _⟩
      · rw [isChanged, sameInum]
        exact laid.fileBelow f isFile
      · exact laid.fileBelow g isOld
  }

/-- The state with another file. -/
def withFile (s : Mkfs) (new : ImageFile) : Mkfs :=
  { s.withInode new.inum new.inode with files := s.files ++ [new] }

theorem Laid.withFile
    {number : Position → Nat}
    (laid : Laid host s m)
    (isInum : newFile.inum = s.freeinode)
    (isHost : host newFile.src = some file)
    (isNewSource : ∀ g ∈ s.files, g.src ≠ newFile.src)
    (inodeRoom : s.freeinode < NINODES)
    (isInode :
      newFile.inode =
        { Dinode.zeroed T_FILE with
          nlink := 1
          size := file.content.length
          addrs := newFile.inode.addrs })
    (shows :
      Shows { s with freeinode := s.freeinode + 1 } later
        newFile.inode.addrs number file.chunks) :
    Laid host (later.withFile newFile)
      (Function.update m s.freeinode newFile.inode) := by
  have numbers := shows.numbers
  have isMax := MAXFILE_eq
  have isBlock := BSIZE_eq
  have isLength := length_content_le file
  have bound := shows.bound
  have isSize : newFile.inode.size = file.content.length := by
    rw [isInode]
  have small : uintModulus = 4294967296 := rfl
  have inArea : newFile.inum < NINODES := by
    rw [isInum]
    exact inodeRoom
  have fitsNow : newFile.inode.Fits := by
    exact {
      type := by
        rw [isInode]
        exact (by decide : T_FILE < shortModulus)
      major := by
        rw [isInode]
        exact (by decide : 0 < shortModulus)
      minor := by
        rw [isInode]
        exact (by decide : 0 < shortModulus)
      nlink := by
        rw [isInode]
        exact (by decide : 1 < shortModulus)
      size := by
        rw [isSize]
        rw [isBlock] at isLength
        omega
      addrs := by
        intro place
        rw [shows.addrs]
        exact numbers.narrow _
    }
  have frame : ∀ b, b < s.freeblock → later.disk b = s.disk b :=
    fun b old => numbers.frame b old
  have order := laid.order
  have same : SameBlocks s (later.withFile newFile) := by
    intro b lower upper
    change (later.withInode newFile.inum newFile.inode).disk b = _
    rw [disk_withInode_of_le inArea lower]
    exact frame b upper
  have sameOwn :
      ∀ b, ROOT_BLOCK ≤ b →
        (later.withFile newFile).disk b = later.disk b :=
    fun b lower => disk_withInode_of_le inArea lower
  have sameDirs : (later.withFile newFile).dirs = s.dirs := numbers.same.dirs
  have sameFiles : (later.withFile newFile).files = s.files ++ [newFile] :=
    congrArg (· ++ [newFile]) numbers.same.files
  have sameFree : (later.withFile newFile).freeinode = s.freeinode + 1 :=
    numbers.same.freeinode
  have ownLower : ∀ position, number position ≠ 0 →
      ROOT_BLOCK ≤ number position := by
    intro position held
    have lower := (numbers.numbering.inRange held).1
    change s.freeblock ≤ number position at lower
    omega
  have ownPointer :
      ∀ position,
        (later.withFile newFile).disk.pointer newFile.inode position =
          number position := by
    intro position
    rw [← shows.pointer position]
    apply Disk.pointer_congr rfl
    intro above _ present
    rw [shows.pointer] at present ⊢
    exact sameOwn _ (ownLower above present)
  have kept : FileKept later.disk newFile.inode
      (later.withFile newFile).disk newFile.inode := by
    apply FileKept.of_blocks
    intro position present
    rw [shows.pointer] at present ⊢
    exact sameOwn _ (ownLower position present)
  have isPacked : IsPacked later.disk newFile.inode file := {
    type := by
      rw [isInode]
      rfl
    size := isSize
    bounded := by
      rw [isSize]
      exact Nat.le_trans isLength (Nat.mul_le_mul_right BSIZE bound)
    noHoles := by
      intro place inside
      rw [isSize] at inside
      exact (shows.present inside).2
    bytes := by
      intro full place inside
      rw [isSize] at inside
      exact shows.byteAt full inside
  }
  exact {
    dirs := by
      intro e member
      rw [sameDirs] at member
      have below := (laid.dirBelow e member).2
      rw [Function.update_of_ne (Nat.ne_of_lt below)]
      exact laid.dirs e member
    files := by
      intro g member
      rw [sameFiles] at member
      rcases List.mem_append.mp member with isOld | isNew
      · have below := (laid.fileBelow g isOld).2
        rw [Function.update_of_ne (Nat.ne_of_lt below)]
        exact laid.files g isOld
      · rw [List.mem_singleton.mp isNew, isInum, Function.update_self]
    unused := by
      intro inum noDir noFile
      rw [sameDirs] at noDir
      rw [sameFiles] at noFile
      have notNew : inum ≠ s.freeinode := by
        rw [← isInum]
        exact (noFile _ (List.mem_append_right _
          (List.mem_singleton_self newFile))).symm
      rw [Function.update_of_ne notNew]
      exact laid.unused inum noDir fun g member =>
        noFile g (List.mem_append_left _ member)
    isDir := by
      rw [sameDirs]
      exact laid.isDir
    hasBlock := by
      rw [sameDirs]
      exact laid.hasBlock
    isFile := by
      intro g member
      rw [sameFiles] at member
      rcases List.mem_append.mp member with isOld | isNew
      · exact laid.isFile_kept same isOld
      · rw [List.mem_singleton.mp isNew]
        exact ⟨file, isHost, isPacked.kept rfl rfl kept⟩
    fits := by
      intro inum
      by_cases isNew : inum = s.freeinode
      · rw [isNew, Function.update_self]
        exact fitsNow
      · rw [Function.update_of_ne isNew]
        exact laid.fits inum
    stored := by
      intro inum isArea noDir
      rw [sameDirs] at noDir
      change (later.withInode newFile.inum newFile.inode).disk.dinode inum = _
      rw [dinode_withInode fitsNow, isInum]
      by_cases isNew : inum = s.freeinode
      · rw [isNew, Function.update_self, Function.update_self]
      · rw [Function.update_of_ne isNew, Function.update_of_ne isNew,
          dinode_of_frame order frame isArea]
        exact laid.stored isArea noDir
    numbering := by
      have joined :=
        laid.numbering.join numbers.numbering (by decide)
          (Nat.le_of_lt order) numbers.order laid.references_fresh
      have isNow :
          (later.withFile newFile).disk.references
              (Function.update m s.freeinode newFile.inode) =
            fun holder : Nat × Position =>
              if holder.1 = s.freeinode then number holder.2
              else s.disk.references m holder := by
        funext ⟨inum, position⟩
        dsimp only
        by_cases isNew : inum = s.freeinode
        · rw [if_pos isNew]
          unfold Disk.references
          dsimp only
          rw [isNew, Function.update_self]
          exact ownPointer position
        · rw [if_neg isNew, ← laid.references_eq same]
          unfold Disk.references
          dsimp only
          rw [Function.update_of_ne isNew]
      rw [isNow]
      exact joined
    order := Nat.lt_of_lt_of_le order numbers.order
    room := numbers.room
    superblock := by
      intro place inside
      change (later.withInode newFile.inum newFile.inode).disk 1 place = _
      rw [disk_withInode_one, frame 1 (by rw [ROOT_BLOCK_eq] at order; omega)]
      exact laid.superblock place inside
    distinctDirs := by
      rw [sameDirs]
      exact laid.distinctDirs
    distinctFiles := by
      rw [sameFiles]
      apply nodup_map_append laid.distinctFiles
      intro g isOther
      rw [isInum]
      exact Nat.ne_of_lt (laid.fileBelow g isOther).2
    distinctSources := by
      rw [sameFiles]
      exact nodup_map_append laid.distinctSources isNewSource
    apart := by
      rw [sameDirs, sameFiles]
      intro e member g isOther
      rcases List.mem_append.mp isOther with isOld | isNew
      · exact laid.apart e member g isOld
      · have below := (laid.dirBelow e member).2
        rw [List.mem_singleton.mp isNew, isInum]
        omega
    dirBelow := by
      rw [sameDirs, sameFree]
      intro e member
      have below := laid.dirBelow e member
      omega
    fileBelow := by
      rw [sameFiles, sameFree]
      intro g member
      rcases List.mem_append.mp member with isOld | isNew
      · have below := laid.fileBelow g isOld
        omega
      · have positive := laid.inodes.1
        rw [List.mem_singleton.mp isNew, isInum]
        omega
    inodes := by
      rw [sameFree]
      exact ⟨Nat.lt_succ_of_lt laid.inodes.1, inodeRoom⟩
  }

end Mkfs

end MyOS
