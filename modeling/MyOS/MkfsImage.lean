import MyOS.MkfsMappings

namespace MyOS

open Lib
open Routine

/-!
# The image that is left

At its end `mkfs` writes the directories that it has kept in memory, each into
its own block, and a bitmap with the bits of the blocks that it has given out.
The image that it leaves fits its inodes.
-/

namespace Mkfs

/-- A directory whose inode has its size. -/
def sized (d : ImageDir) : ImageDir :=
  { d with inode := { d.inode with size := d.entries.length * direntSize } }

/-- Some directories have been written. -/
structure Flushing
    (first : Mkfs)
    (before : List Nat)
    (s : Mkfs) : Prop where
  freeblock : s.freeblock = first.freeblock
  dirs :
    ∀ (index : Nat) (d : ImageDir), first.dirs[index]? = some d →
      ∃ e, s.dirs[index]? = some e ∧ sized e = sized d
  written :
    ∀ (index : Nat) (d : ImageDir), index ∈ before →
      first.dirs[index]? = some d →
        s.disk.dinode d.inum = (sized d).inode ∧
          s.disk d.blockno =
            cutBlock (Bytes.ofList (directoryBytes d.entries))
  others :
    ∀ b, ROOT_BLOCK ≤ b → (∀ d ∈ first.dirs, d.blockno ≠ b) →
      s.disk b = first.disk b
  inodes :
    ∀ {inum}, inum < NINODES → (∀ d ∈ first.dirs, d.inum ≠ inum) →
      s.disk.dinode inum = first.disk.dinode inum
  superblock : s.disk 1 = first.disk 1

variable {host : List UInt8 → Option HostFile} {first s later : Mkfs}
variable {m : Nat → Dinode} {d e : ImageDir} {before : List Nat}
variable {index : Nat}

theorem Laid.pointer_dir
    (laid : Laid host s m)
    (isDir : d ∈ s.dirs)
    (position : Position) :
    s.disk.pointer (m d.inum) position =
      if position = .addr 0 then d.blockno else 0 := by
  rw [laid.dirs d isDir, laid.isDir d isDir, ← pointer_dirInode position]
  exact Disk.pointer_congr rfl fun _ _ _ => rfl

theorem Laid.dir_inArea
    (laid : Laid host s m)
    (isDir : d ∈ s.dirs) :
    d.inum < NINODES :=
  Nat.lt_of_lt_of_le (laid.dirBelow d isDir).2 laid.inodes.2

theorem Laid.blockno_inRange
    (laid : Laid host s m)
    (isDir : d ∈ s.dirs) :
    ROOT_BLOCK ≤ d.blockno ∧ d.blockno < s.freeblock := by
  have present := laid.hasBlock d isDir
  have isPointer := laid.pointer_dir isDir (.addr 0)
  rw [if_pos rfl] at isPointer
  rw [← isPointer] at present ⊢
  exact laid.inRange present

theorem Laid.blockno_inj
    (laid : Laid host s m)
    (isDir : d ∈ s.dirs)
    (isOther : e ∈ s.dirs)
    (same : d.blockno = e.blockno) :
    d = e := by
  have isFirst := laid.pointer_dir isDir (.addr 0)
  have isSecond := laid.pointer_dir isOther (.addr 0)
  rw [if_pos rfl] at isFirst isSecond
  have held : s.disk.references m (d.inum, .addr 0) ≠ 0 := by
    unfold Disk.references
    dsimp only
    rw [isFirst]
    exact laid.hasBlock d isDir
  have equal :
      s.disk.references m (d.inum, .addr 0) =
        s.disk.references m (e.inum, .addr 0) := by
    unfold Disk.references
    dsimp only
    rw [isFirst, isSecond, same]
  have isInum := (Prod.ext_iff.mp (laid.numbering.exclusive equal held)).1
  exact List.inj_on_of_nodup_map laid.distinctDirs isDir isOther isInum

theorem Laid.sized_fits
    (laid : Laid host s m)
    (isDir : d ∈ s.dirs)
    (short : d.entries.length ≤ MAX_DIRENTS) :
    (sized d).inode.Fits := by
  have isFit := laid.fits d.inum
  rw [laid.dirs d isDir] at isFit
  exact {
    type := isFit.type
    major := isFit.major
    minor := isFit.minor
    nlink := isFit.nlink
    size :=
      Nat.lt_of_le_of_lt (Nat.mul_le_mul_right direntSize short) (by decide)
    addrs := isFit.addrs
  }

/-- The state after a directory has been written. -/
def withFlushed (s : Mkfs) (index : Nat) (d : ImageDir) : Mkfs :=
  (({ s with dirs := s.dirs.set index d }).withBlock d.blockno
    (Bytes.ofList (directoryBytes d.entries))).withInode d.inum d.inode

theorem disk_withFlushed :
    (s.withFlushed index d).disk =
      Disk.setDinode
        (Function.update s.disk d.blockno
          (cutBlock (Bytes.ofList (directoryBytes d.entries))))
        d.inum d.inode := by
  unfold withFlushed
  rw [disk_withInode, disk_withBlock]
  rfl

theorem flushDir_done
    (isItem : s.dirs[index]? = some e) :
    flushDir index s = .done (s.withFlushed index (sized e)) () := by
  have isSet :
      s.dirs.modify index sized = s.dirs.set index (sized e) := by
    rw [List.modify_eq_set_getElem?, isItem]
    rfl
  have inside := (List.getElem?_eq_some_iff.mp isItem).1
  have isState :
      setDir index sized s =
        .done { s with dirs := s.dirs.set index (sized e) } () := by
    unfold setDir Routine.modify
    dsimp only
    rw [isSet]
  unfold flushDir
  change (setDir index sized s).bind _ = _
  rw [isState]
  unfold Outcome.bind
  change Outcome.bind _
    (.done { s with dirs := s.dirs.set index (sized e) } _) = _
  unfold Outcome.bind
  dsimp only
  rw [List.getElem?_set_self inside]
  rfl

theorem Flushing.withFlushed
    (laid : Laid host first m)
    (fits : TreeFits first.dirs first.files)
    (flushing : Flushing first before s)
    (isItem : first.dirs[index]? = some d)
    (isNow : s.dirs[index]? = some e)
    (isSized : sized e = sized d) :
    Flushing first (before ++ [index]) (s.withFlushed index (sized e)) := by
  have isDir : d ∈ first.dirs := List.mem_of_getElem? isItem
  have inArea := laid.dir_inArea isDir
  have isBlock := (laid.blockno_inRange isDir).1
  have isFit := laid.sized_fits isDir (fits.short d isDir)
  have order := Disk.BMAP_START_lt_ROOT_BLOCK
  have inodeBlocks :
      ∀ {inum}, inum < NINODES → Disk.inodeBlock inum < ROOT_BLOCK :=
    fun inArea => Nat.lt_trans (Disk.inodeBlock_lt inArea) order
  rw [isSized]
  have isDisk : (s.withFlushed index (sized d)).disk = _ := disk_withFlushed
  have dinodes :
      ∀ {inum}, inum < NINODES →
        (s.withFlushed index (sized d)).disk.dinode inum =
          Function.update s.disk.dinode d.inum (sized d).inode inum := by
    intro inum inArea
    rw [isDisk, Disk.dinode_setDinode isFit]
    by_cases same : inum = d.inum
    · rw [same, Function.update_self]
      exact Function.update_self ..
    · rw [Function.update_of_ne same]
      refine Eq.trans (Function.update_of_ne same ..) ?_
      apply Disk.dinode_congr
      apply Function.update_of_ne
      have below := inodeBlocks inArea
      exact Nat.ne_of_lt (Nat.lt_of_lt_of_le below isBlock)
  have blocks :
      ∀ {b}, ROOT_BLOCK ≤ b →
        (s.withFlushed index (sized d)).disk b =
          Function.update s.disk d.blockno
            (cutBlock (Bytes.ofList (directoryBytes d.entries))) b := by
    intro b beyond
    rw [isDisk]
    apply Function.update_of_ne
    have below := inodeBlocks inArea
    exact Nat.ne_of_gt (Nat.lt_of_lt_of_le below beyond)
  exact {
    freeblock := flushing.freeblock
    dirs := by
      intro place g isOther
      by_cases here : index = place
      · rw [← here, isItem] at isOther
        cases isOther
        rw [← here]
        refine ⟨sized d, ?_, rfl⟩
        exact List.getElem?_set_self (List.getElem?_eq_some_iff.mp isNow).1
      · obtain ⟨h, isPlace, isSame⟩ := flushing.dirs place g isOther
        exact ⟨h, (List.getElem?_set_ne here).trans isPlace, isSame⟩
    written := by
      intro place g member isOther
      have isOtherDir : g ∈ first.dirs := List.mem_of_getElem? isOther
      have otherBlock := (laid.blockno_inRange isOtherDir).1
      rw [dinodes (laid.dir_inArea isOtherDir), blocks otherBlock]
      by_cases same : g = d
      · rw [same, Function.update_self, Function.update_self]
        exact ⟨rfl, rfl⟩
      · have otherInum : g.inum ≠ d.inum := fun equal =>
          same (List.inj_on_of_nodup_map laid.distinctDirs isOtherDir isDir
            equal)
        have different : g.blockno ≠ d.blockno := fun equal =>
          same (laid.blockno_inj isOtherDir isDir equal)
        rw [Function.update_of_ne otherInum, Function.update_of_ne different]
        have isBefore : place ∈ before := by
          rcases List.mem_append.mp member with isBefore | isLast
          · exact isBefore
          · rw [List.mem_singleton.mp isLast, isItem] at isOther
            cases isOther
            exact absurd rfl same
        exact flushing.written place g isBefore isOther
    others := by
      intro b beyond noDir
      rw [blocks beyond, Function.update_of_ne (noDir d isDir).symm]
      exact flushing.others b beyond noDir
    inodes := by
      intro inum otherArea noDir
      rw [dinodes otherArea, Function.update_of_ne (noDir d isDir).symm]
      exact flushing.inodes otherArea noDir
    superblock := by
      have lower : INODE_START ≤ Disk.inodeBlock d.inum := Disk.le_inodeBlock
      have isInodes := INODE_START_eq
      have isRoot := ROOT_BLOCK_eq
      have notInode : 1 ≠ Disk.inodeBlock d.inum := by
        omega
      have notBlock : 1 ≠ d.blockno := by
        omega
      rw [isDisk, ← flushing.superblock]
      exact (Function.update_of_ne notInode ..).trans
        (Function.update_of_ne notBlock ..)
  }

theorem flushDirs_ends
    (laid : Laid host s m)
    (fits : TreeFits s.dirs s.files) :
    (flushDirs s).Ends anyFailure
      (fun _ later => Flushing s (List.range s.dirs.length) later) := by
  unfold flushDirs
  apply ends_get
  apply ends_forEach (Flushing s)
  · exact {
      freeblock := rfl
      dirs := fun _ d isItem => ⟨d, isItem, rfl⟩
      written := fun _ _ impossible => by cases impossible
      others := fun _ _ _ => rfl
      inodes := fun _ _ => rfl
      superblock := rfl
    }
  · intro before index middle member flushing
    have isItem := List.getElem?_eq_getElem (List.mem_range.mp member)
    obtain ⟨e, isNow, isSized⟩ := flushing.dirs index _ isItem
    rw [flushDir_done isNow]
    exact flushing.withFlushed laid fits isItem isNow isSized

/-!
## The bitmap
-/

theorem bit_foldl_setBit
    (start : Nat)
    (items : List Nat)
    (bmap : Bytes)
    (place : Nat) :
    (items.foldl (fun bmap i => bmap.setBit (i - start)) bmap).bit place =
      ((items.any fun i => i - start == place) || bmap.bit place) := by
  induction items generalizing bmap with
  | nil =>
      rfl
  | cons i rest inductionHypothesis =>
      rw [List.foldl_cons, inductionHypothesis, Bytes.bit_setBit,
        List.any_cons, Bool.or_left_comm, Bool.or_assoc]

theorem bit_bitmapBytes
    (start stop place : Nat) :
    (bitmapBytes start stop).bit place = decide (place < stop - start) := by
  have isClear : Bytes.bit (fun _ => 0) place = false := by
    unfold Bytes.bit
    rw [Bytes.and_mask]
    exact Nat.zero_testBit _
  unfold bitmapBytes
  rw [bit_foldl_setBit, isClear, Bool.or_false, Bool.eq_iff_iff,
    List.any_eq_true, decide_eq_true_eq]
  constructor
  · rintro ⟨i, member, same⟩
    rw [List.mem_range'_1] at member
    rw [beq_iff_eq] at same
    omega
  · intro inside
    refine ⟨start + place, ?_, ?_⟩
    · rw [List.mem_range'_1]
      omega
    · rw [beq_iff_eq]
      omega

theorem bit_cutBlock
    {block : Bytes}
    {place : Nat}
    (inside : place < BPB) :
    (cutBlock block).bit place = block.bit place := by
  rw [BPB_eq] at inside
  unfold Bytes.bit
  rw [cutBlock_of_lt]
  rw [BSIZE_eq]
  omega

/-- Some blocks of the bitmap have been written. -/
structure Mapping
    (first : Mkfs)
    (before : List Nat)
    (s : Mkfs) : Prop where
  freeblock : s.freeblock = first.freeblock
  written :
    ∀ block ∈ before,
      s.disk (BMAP_START + block) =
        cutBlock
          (bitmapBytes (block * BPB)
            (min (block * BPB + BPB) first.freeblock))
  others :
    ∀ b, b < BMAP_START ∨ ROOT_BLOCK ≤ b → s.disk b = first.disk b

theorem writeBitmap_ends :
    (writeBitmap s).Ends anyFailure
      (fun _ later => Mapping s (List.range BMAP_BLOCKS) later) := by
  unfold writeBitmap
  apply ends_forEach (Mapping s)
  · exact {
      freeblock := rfl
      written := fun _ impossible => by cases impossible
      others := fun _ _ => rfl
    }
  · intro before block middle member mapping
    have inside : block < BMAP_BLOCKS := List.mem_range.mp member
    have isRoot : ROOT_BLOCK = BMAP_START + BMAP_BLOCKS := rfl
    unfold writeBitmapBlock
    apply ends_get
    rw [writeBlock_done, mapping.freeblock]
    exact {
      freeblock := mapping.freeblock
      written := by
        intro other isWritten
        rw [disk_withBlock]
        by_cases same : other = block
        · rw [same, Function.update_self]
        · rw [Function.update_of_ne (by omega)]
          rcases List.mem_append.mp isWritten with isBefore | isLast
          · exact mapping.written other isBefore
          · exact absurd (List.mem_singleton.mp isLast) same
      others := by
        intro b outside
        rw [disk_withBlock, Function.update_of_ne (by omega)]
        exact mapping.others b outside
    }

theorem Mapping.marked_iff
    (mapping : Mapping s (List.range BMAP_BLOCKS) later)
    (room : s.freeblock ≤ FSSIZE)
    (b : Nat) :
    later.disk.marked b = true ↔ b < s.freeblock := by
  have isBits := BPB_eq
  have enough : FSSIZE ≤ BMAP_BLOCKS * 8192 := by decide
  unfold Disk.marked Disk.bitmapBlock
  rw [Bool.and_eq_true, decide_eq_true_eq]
  constructor
  · rintro ⟨inRange, isSet⟩
    have isBlock : b / BPB ∈ List.range BMAP_BLOCKS := by
      rw [List.mem_range, isBits]
      omega
    rw [Nat.add_comm, mapping.written _ isBlock,
      bit_cutBlock (Nat.mod_lt _ (by decide)), bit_bitmapBytes,
      decide_eq_true_eq] at isSet
    rw [isBits] at isSet
    omega
  · intro below
    have inRange : b < FSSIZE := Nat.lt_of_lt_of_le below room
    have isBlock : b / BPB ∈ List.range BMAP_BLOCKS := by
      rw [List.mem_range, isBits]
      omega
    rw [Nat.add_comm, mapping.written _ isBlock,
      bit_cutBlock (Nat.mod_lt _ (by decide)), bit_bitmapBytes,
      decide_eq_true_eq]
    refine ⟨inRange, ?_⟩
    rw [isBits]
    omega

end Mkfs

/-!
## The finished image

Every block that an inode refers to has its bit in the bitmap and belongs to it
alone, and every node holds what it should.
-/

namespace Mkfs

/-- The directories and the bitmap have been written. -/
structure Finished (first later : Mkfs) : Prop where
  written :
    ∀ d ∈ first.dirs,
      later.disk.dinode d.inum = (sized d).inode ∧
        later.disk d.blockno =
          cutBlock (Bytes.ofList (directoryBytes d.entries))
  others :
    ∀ b, ROOT_BLOCK ≤ b → (∀ d ∈ first.dirs, d.blockno ≠ b) →
      later.disk b = first.disk b
  inodes :
    ∀ {inum}, inum < NINODES → (∀ d ∈ first.dirs, d.inum ≠ inum) →
      later.disk.dinode inum = first.disk.dinode inum
  superblock : later.disk 1 = first.disk 1
  marked : ∀ b, later.disk.marked b = true ↔ b < first.freeblock

variable {host : List UInt8 → Option HostFile} {first later : Mkfs}
variable {m : Nat → Dinode} {d : ImageDir} {f : ImageFile} {inum : Nat}

theorem finished_of_flushing
    {middle : Mkfs}
    (laid : Laid host first m)
    (flushing : Flushing first (List.range first.dirs.length) middle)
    (mapping : Mapping middle (List.range BMAP_BLOCKS) later) :
    Finished first later := by
  have inodeBlocks :
      ∀ {inum}, inum < NINODES →
        later.disk.dinode inum = middle.disk.dinode inum := by
    intro inum inArea
    apply Disk.dinode_congr
    exact mapping.others _ (Or.inl (Disk.inodeBlock_lt inArea))
  exact {
    written := by
      intro d isDir
      obtain ⟨index, isItem⟩ := List.mem_iff_getElem?.mp isDir
      have inside := (List.getElem?_eq_some_iff.mp isItem).1
      obtain ⟨isInode, isBlock⟩ :=
        flushing.written index d (List.mem_range.mpr inside) isItem
      rw [inodeBlocks (laid.dir_inArea isDir),
        mapping.others _ (Or.inr (laid.blockno_inRange isDir).1)]
      exact ⟨isInode, isBlock⟩
    others := by
      intro b beyond noDir
      rw [mapping.others b (Or.inr beyond)]
      exact flushing.others b beyond noDir
    inodes := by
      intro inum inArea noDir
      rw [inodeBlocks inArea]
      exact flushing.inodes inArea noDir
    superblock := by
      have isBitmap := BMAP_START_eq
      rw [mapping.others 1 (Or.inl (by omega))]
      exact flushing.superblock
    marked := by
      intro b
      rw [mapping.marked_iff (flushing.freeblock ▸ laid.room),
        flushing.freeblock]
  }

theorem furnish_ends
    {s : Mkfs}
    (built : Built host s)
    (args : List CString) :
    ((do
        initStandardDirs
        Routine.forEach (addMapping host) args
        flushDirs
        writeBitmap : MkfsRoutine Unit) s).Ends anyFailure
      (fun _ later =>
        ∃ (first : Mkfs) (m : Nat → Dinode), Laid host first m ∧
          TreeFits first.dirs first.files ∧
            (∀ arg ∈ args, Done first arg) ∧ Finished first later) := by
  apply ends_bind (initStandardDirs_ends built)
  rintro _ furnished ⟨isBuilt, _⟩
  apply ends_bind (addMappings_ends isBuilt args)
  rintro _ first ⟨⟨⟨m, laid⟩, fits⟩, allDone⟩
  apply ends_bind (flushDirs_ends laid fits)
  intro _ middle flushing
  apply Outcome.Ends.mono writeBitmap_ends
  intro _ later mapping
  exact ⟨first, m, laid, fits, allDone,
    finished_of_flushing laid flushing mapping⟩

theorem finished_of_run
    {args : List CString}
    (run : (main host args).run start = .ok (later, ())) :
    ∃ (first : Mkfs) (m : Nat → Dinode), Laid host first m ∧
      TreeFits first.dirs first.files ∧
        (∀ arg ∈ args, Done first arg) ∧ Finished first later := by
  have built : Built host rooted := built_rooted
  unfold Routine.run at run
  rw [main_rooted] at run
  -- The state becomes a variable, so that nothing is run here.
  generalize rooted = s at built run
  have ends := furnish_ends built args
  unfold Outcome.Ends at ends
  rw [run] at ends
  exact ends

/-!
## Inodes
-/

/-- The inodes of the finished image: the directories have got their sizes. -/
def finalInodes (first : Mkfs) (m : Nat → Dinode) (inum : Nat) : Dinode :=
  match first.dirs.find? fun d => d.inum == inum with
  | some d => (sized d).inode
  | none => m inum

theorem dir_cases (dirs : List ImageDir) (inum : Nat) :
    (∃ d ∈ dirs, d.inum = inum) ∨ ∀ d ∈ dirs, d.inum ≠ inum := by
  by_cases isDir : ∃ d ∈ dirs, d.inum = inum
  · exact Or.inl isDir
  · exact Or.inr fun d member same => isDir ⟨d, member, same⟩

theorem finalInodes_dir
    (laid : Laid host first m)
    (isDir : d ∈ first.dirs) :
    finalInodes first m d.inum = (sized d).inode := by
  unfold finalInodes
  cases found : first.dirs.find? fun e => e.inum == d.inum with
  | none =>
      have notThere := List.find?_eq_none.mp found d isDir
      exact absurd (beq_self_eq_true d.inum) notThere
  | some e =>
      have isInum := List.find?_some found
      rw [beq_iff_eq] at isInum
      have isOther := List.mem_of_find?_eq_some found
      rw [List.inj_on_of_nodup_map laid.distinctDirs isOther isDir isInum]

theorem finalInodes_other
    (noDir : ∀ d ∈ first.dirs, d.inum ≠ inum) :
    finalInodes first m inum = m inum := by
  unfold finalInodes
  have found :
      (first.dirs.find? fun d => d.inum == inum) = none := by
    rw [List.find?_eq_none]
    intro d isDir
    rw [beq_iff_eq]
    exact noDir d isDir
  rw [found]

theorem Laid.inum_cases
    (laid : Laid host first m)
    (inum : Nat) :
    (∃ d ∈ first.dirs, d.inum = inum ∧
        finalInodes first m inum = (sized d).inode) ∨
      (∀ d ∈ first.dirs, d.inum ≠ inum) ∧
        ((∃ f ∈ first.files, f.inum = inum ∧
            finalInodes first m inum = f.inode) ∨
          finalInodes first m inum = Dinode.zeroed 0) := by
  rcases dir_cases first.dirs inum with ⟨d, isDir, isInum⟩ | noDir
  · rw [← isInum]
    exact Or.inl ⟨d, isDir, rfl, finalInodes_dir laid isDir⟩
  · rw [finalInodes_other noDir]
    refine Or.inr ⟨noDir, ?_⟩
    by_cases isFile : ∃ f ∈ first.files, f.inum = inum
    · obtain ⟨f, isFile, isInum⟩ := isFile
      rw [← isInum]
      exact Or.inl ⟨f, isFile, rfl, laid.files f isFile⟩
    · exact Or.inr (laid.unused inum noDir
        fun f member same => isFile ⟨f, member, same⟩)

theorem Laid.finalInodes_addrs
    (laid : Laid host first m)
    (inum : Nat) :
    (finalInodes first m inum).addrs = (m inum).addrs := by
  rcases dir_cases first.dirs inum with ⟨d, isDir, isInum⟩ | noDir
  · rw [← isInum, finalInodes_dir laid isDir, laid.dirs d isDir]
    rfl
  · rw [finalInodes_other noDir]

theorem Finished.same
    (laid : Laid host first m)
    (finished : Finished first later)
    {position : Position}
    (present : first.disk.pointer (m inum) position ≠ 0)
    (noDir : position = .addr 0 → ∀ d ∈ first.dirs, d.inum ≠ inum) :
    later.disk (first.disk.pointer (m inum) position) =
      first.disk (first.disk.pointer (m inum) position) := by
  apply finished.others _ (laid.inRange present).1
  intro d isDir same
  have isPointer := laid.pointer_dir isDir (.addr 0)
  rw [if_pos rfl, same] at isPointer
  have equal :
      first.disk.references m (inum, position) =
        first.disk.references m (d.inum, .addr 0) :=
    isPointer.symm
  obtain ⟨isInum, isPosition⟩ :=
    Prod.ext_iff.mp (laid.numbering.exclusive equal present)
  exact noDir isPosition d isDir isInum.symm

theorem Finished.pointer
    (laid : Laid host first m)
    (finished : Finished first later)
    (inum : Nat) :
    later.disk.pointer (finalInodes first m inum) =
      first.disk.pointer (m inum) := by
  funext position
  apply Disk.pointer_congr (laid.finalInodes_addrs inum)
  intro above isIndex present
  apply finished.same laid present
  intro isFirst
  rw [isFirst] at isIndex
  exact absurd isIndex (by decide)

theorem Finished.stored
    (laid : Laid host first m)
    (finished : Finished first later)
    (inArea : inum < NINODES) :
    later.disk.dinode inum = finalInodes first m inum := by
  rcases dir_cases first.dirs inum with ⟨d, isDir, isInum⟩ | noDir
  · rw [← isInum, finalInodes_dir laid isDir]
    exact (finished.written d isDir).1
  · rw [finalInodes_other noDir, finished.inodes inArea noDir]
    exact laid.stored inArea noDir

theorem Laid.finalInodes_fits
    (laid : Laid host first m)
    (fits : TreeFits first.dirs first.files)
    (inum : Nat) :
    (finalInodes first m inum).Fits := by
  rcases dir_cases first.dirs inum with ⟨d, isDir, isInum⟩ | noDir
  · rw [← isInum, finalInodes_dir laid isDir]
    exact laid.sized_fits isDir (fits.short d isDir)
  · rw [finalInodes_other noDir]
    exact laid.fits inum

theorem Laid.finalInodes_free
    (laid : Laid host first m)
    (isFree :
      (finalInodes first m inum).type = 0 ∨ NINODES ≤ inum)
    (index : AddrIndex) :
    (finalInodes first m inum).addrs index = 0 := by
  rcases laid.inum_cases inum with
    ⟨d, isDir, isInum, isInode⟩ | ⟨_, ⟨f, isFile, isInum, isInode⟩ | isUnused⟩
  · exfalso
    rcases isFree with noType | beyond
    · rw [isInode, sized, laid.isDir d isDir] at noType
      exact absurd noType (by decide : T_DIR ≠ 0)
    · have below := (laid.dirBelow d isDir).2
      have inodes := laid.inodes.2
      omega
  · exfalso
    rcases isFree with noType | beyond
    · obtain ⟨_, _, isPacked⟩ := laid.isFile f isFile
      rw [isInode, isPacked.type] at noType
      exact absurd noType (by decide : T_FILE ≠ 0)
    · have below := (laid.fileBelow f isFile).2
      have inodes := laid.inodes.2
      omega
  · rw [isUnused]
    rfl

theorem Finished.diskFits
    (laid : Laid host first m)
    (fits : TreeFits first.dirs first.files)
    (finished : Finished first later) :
    DiskFits later.disk (finalInodes first m) none none where
  owned := by
    have isSame :
        later.disk.references (finalInodes first m) =
          first.disk.references m := by
      funext holder
      exact congrFun (finished.pointer laid holder.1) holder.2
    rw [isSame]
    exact laid.numbering.ownership (by decide) (Nat.le_of_lt laid.order)
      laid.room finished.marked
  stored := fun inArea _ => finished.stored laid inArea
  fits := laid.finalInodes_fits fits
  free := laid.finalInodes_free

/-!
## Contents
-/

theorem Finished.dirContent
    (laid : Laid host first m)
    (fits : TreeFits first.dirs first.files)
    (finished : Finished first later)
    (isDir : d ∈ first.dirs)
    {place : Nat}
    (inside : place < (sized d).inode.size) :
    later.disk.pointer (finalInodes first m d.inum)
        (.ofBlock (place / BSIZE)) ≠ 0 ∧
      later.disk.byteAt (finalInodes first m d.inum) place =
        (directoryBytes d.entries).getD place 0 := by
  have isShort : d.entries.length * direntSize ≤ MAX_DIRENTS * direntSize :=
    Nat.mul_le_mul_right direntSize (fits.short d isDir)
  have within : place < BSIZE :=
    Nat.lt_of_lt_of_le inside (Nat.le_trans isShort (by decide))
  have isFirst : Position.ofBlock (place / BSIZE) = .addr 0 := by
    rw [Nat.div_eq_of_lt within]
    rfl
  have isPointer :
      later.disk.pointer (finalInodes first m d.inum)
        (.ofBlock (place / BSIZE)) = d.blockno := by
    rw [finished.pointer laid, isFirst, laid.pointer_dir isDir, if_pos rfl]
  refine ⟨?_, ?_⟩
  · rw [isPointer]
    exact laid.hasBlock d isDir
  · unfold Disk.byteAt
    rw [isPointer, Nat.mod_eq_of_lt within, (finished.written d isDir).2,
      cutBlock_of_lt within]
    rfl

theorem Finished.fileKept
    (laid : Laid host first m)
    (finished : Finished first later)
    (isFile : f ∈ first.files) :
    FileKept first.disk (m f.inum) later.disk
      (finalInodes first m f.inum) := by
  intro position present
  refine ⟨congrFun (finished.pointer laid f.inum) position, fun _ => ?_⟩
  exact finished.same laid present fun _ d isDir =>
    laid.apart d isDir f isFile

theorem Finished.isPacked
    (laid : Laid host first m)
    (finished : Finished first later)
    (isFile : f ∈ first.files) :
    ∃ file, host f.src = some file ∧
      IsPacked later.disk (finalInodes first m f.inum) file := by
  obtain ⟨file, isHost, isPacked⟩ := laid.isFile f isFile
  have noDir : ∀ d ∈ first.dirs, d.inum ≠ f.inum :=
    fun d isDir => laid.apart d isDir f isFile
  have kept := finished.fileKept laid isFile
  rw [finalInodes_other noDir, laid.files f isFile] at kept ⊢
  exact ⟨file, isHost, isPacked.kept rfl rfl kept⟩

theorem Finished.noHoles
    (laid : Laid host first m)
    (fits : TreeFits first.dirs first.files)
    (finished : Finished first later)
    (inum : Nat) :
    later.disk.NoHoles (finalInodes first m inum) := by
  intro place inside
  rcases laid.inum_cases inum with
    ⟨d, isDir, isInum, isInode⟩ | ⟨_, ⟨f, isFile, isInum, _⟩ | isUnused⟩
  · rw [isInode] at inside
    rw [← isInum]
    exact (finished.dirContent laid fits isDir inside).1
  · rw [← isInum] at inside ⊢
    obtain ⟨_, _, isPacked⟩ := finished.isPacked laid isFile
    exact isPacked.noHoles place inside
  · rw [isUnused] at inside
    exact absurd inside (Nat.not_lt_zero place)

theorem Laid.finalInodes_bounded
    (laid : Laid host first m)
    (fits : TreeFits first.dirs first.files)
    (inum : Nat) :
    (finalInodes first m inum).size ≤ MAXFILE * BSIZE := by
  rcases laid.inum_cases inum with
    ⟨d, isDir, _, isInode⟩ | ⟨_, ⟨f, isFile, _, isInode⟩ | isUnused⟩
  · rw [isInode]
    have isShort : d.entries.length * direntSize ≤ MAX_DIRENTS * direntSize :=
      Nat.mul_le_mul_right direntSize (fits.short d isDir)
    exact Nat.le_trans isShort (by decide)
  · rw [isInode]
    obtain ⟨_, _, isPacked⟩ := laid.isFile f isFile
    exact isPacked.bounded
  · rw [isUnused]
    exact Nat.zero_le _

end Mkfs

end MyOS
