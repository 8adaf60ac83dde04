import MyOS.MkfsTree

namespace MyOS

open Lib
open Routine

/-!
# Runs of the image builder

Every step of `mkfs` that does not end it keeps the layout of the image and the
tree, and what has been mapped stays mapped.
-/

theorem strncmpFrom_eq_zero_iff
    (left right : Bytes)
    (n i : Nat) :
    strncmpFrom left right n i = 0 ↔ matchesFrom left right n i = true := by
  induction n generalizing i with
  | zero =>
      exact iff_of_true rfl rfl
  | succ n inductionHypothesis =>
      unfold strncmpFrom matchesFrom
      have distance :
          ((left i).toNat : Int) - (right i).toNat = 0 ↔ left i = right i := by
        rw [Int.sub_eq_zero, Nat.cast_inj, UInt8.toNat_inj]
      by_cases same : left i = right i
      · rw [if_neg (not_not_intro same)]
        by_cases isEnd : left i = 0
        · rw [if_pos isEnd, if_neg (fun both => both.1 isEnd)]
          exact iff_of_true (distance.mpr same) rfl
        · rw [if_neg isEnd, if_pos ⟨isEnd, same⟩]
          exact inductionHypothesis (i + 1)
      · rw [if_pos same, if_neg (fun both => same both.2)]
        exact iff_of_false (mt distance.mp same) Bool.false_ne_true

namespace Mkfs

variable {host : List UInt8 → Option HostFile} {s later : Mkfs}
variable {dir : Nat} {d e : ImageDir} {f : ImageFile} {inum : Nat}
variable {name path current : List UInt8} {names : List (List UInt8)}

/-- What holds between two mappings. -/
def Built (host : List UInt8 → Option HostFile) (s : Mkfs) : Prop :=
  (∃ m, Laid host s m) ∧ TreeFits s.dirs s.files

/-- What has been built stays. -/
structure Grows (s later : Mkfs) : Prop where
  dirs : Grown s.dirs later.dirs
  files :
    ∀ f ∈ s.files, ∃ g ∈ later.files, g.inum = f.inum ∧ g.src = f.src

theorem Grows.refl (s : Mkfs) : Grows s s where
  dirs := Grown.refl s.dirs
  files := fun f member => ⟨f, member, rfl, rfl⟩

theorem Grows.trans
    {last : Mkfs}
    (first : Grows s later)
    (second : Grows later last) :
    Grows s last where
  dirs := first.dirs.trans second.dirs
  files := by
    intro f member
    obtain ⟨g, isLater, sameInum, sameSrc⟩ := first.files f member
    obtain ⟨h, isLast, lastInum, lastSrc⟩ := second.files g isLater
    exact ⟨h, isLast, lastInum.trans sameInum, lastSrc.trans sameSrc⟩

/-!
## Directories
-/

theorem dirAdd_ends
    (isItem : s.dirs[dir]? = some d)
    (linkable : ∀ entry ∈ d.entries, Linkable entry)
    (isLinkable : Linkable (name, inum)) :
    (dirAdd dir name inum s).Ends anyFailure
      (fun _ later =>
        later = s.withDirAt dir (withNewEntry d name inum) ∧
          d.entries.length < MAX_DIRENTS ∧
          name ∉ d.entries.map Prod.fst) := by
  unfold dirAdd
  apply ends_get
  have isEntries :
      (s.dirs[dir]?.map ImageDir.entries).getD [] = d.entries := by
    rw [isItem]
    rfl
  simp only [isEntries]
  split
  · exact True.intro
  next room =>
    split
    · exact True.intro
    next noMatch =>
      have isNew : name ∉ d.entries.map Prod.fst := by
        intro member
        obtain ⟨entry, isEntry, isName⟩ := List.mem_map.mp member
        apply noMatch
        rw [List.any_eq_true]
        refine ⟨entry, isEntry, ?_⟩
        rw [beq_iff_eq, strncmpFrom_eq_zero_iff,
          matches_iff (linkable entry isEntry).noNul isLinkable.noNul
            (linkable entry isEntry).short]
        exact isName.symm
      have isName : name.take DIRSIZ = name :=
        List.take_of_length_le (Nat.le_of_lt isLinkable.short)
      have isInum : inum % shortModulus = inum :=
        Nat.mod_eq_of_lt isLinkable.narrow
      have isDone :
          setDir dir
              (fun d =>
                { d with
                  entries :=
                    d.entries ++ [(name.take DIRSIZ, inum % shortModulus)] })
              s =
            .done (s.withDirAt dir (withNewEntry d name inum)) () := by
        unfold setDir Routine.modify withDirAt withNewEntry
        dsimp only
        rw [isName, isInum, List.modify_eq_set_getElem?, isItem]
        rfl
      rw [isDone]
      exact ⟨rfl, Nat.lt_of_not_le room, isNew⟩

/-- A directory without entries, as `new_dir` sets it up. -/
def bareDir (path : List UInt8) (inum parentInum blockno : Nat) : ImageDir where
  path := path
  inum := inum
  parentInum := parentInum
  blockno := blockno
  inode := dirInode blockno
  entries := []

theorem getElem?_withLastDir (new : ImageDir) :
    (s.withLastDir new).dirs[s.dirs.length]? = some new := by
  unfold withLastDir
  dsimp only
  rw [List.getElem?_append_right (Nat.le_refl _), Nat.sub_self]
  rfl

theorem withDirAt_withLastDir (new changed : ImageDir) :
    (s.withLastDir new).withDirAt s.dirs.length changed =
      s.withLastDir changed := by
  unfold withDirAt withLastDir
  dsimp only
  rw [List.set_append_right _ _ (Nat.le_refl _), Nat.sub_self]
  rfl

theorem newDir_ends
    {parentInum : Nat}
    (nonempty : s.dirs ≠ [])
    (inodes : ROOTINO < s.freeinode)
    (short : path.length < MAX_IMAGE_PATH)
    (narrow : parentInum < shortModulus)
    (positive : parentInum ≠ 0) :
    (newDir path parentInum s).Ends anyFailure
      (fun next later =>
        next = s.dirs.length ∧ s.dirs.length < MAX_DIRS ∧
          s.freeinode < NINODES ∧ s.freeblock < FSSIZE ∧
          later =
            s.withLastDir
              (emptyDir path s.freeinode parentInum s.freeblock)) := by
  unfold newDir
  apply ends_get
  split
  · exact True.intro
  next dirRoom =>
    have notFirst : ¬ s.dirs.length + 1 = 1 := by
      have more := List.length_pos_of_ne_nil nonempty
      omega
    dsimp only
    unfold chooseInum
    rw [if_neg notFirst]
    apply ends_allocInode
    intro inodeRoom
    unfold chooseBlock
    rw [if_neg (Nat.ne_of_gt inodes)]
    apply ends_allocBlock
    intro blockRoom
    apply ends_modify
    rw [List.take_of_length_le (Nat.le_sub_one_of_lt short)]
    have inumNarrow : s.freeinode < shortModulus :=
      Nat.lt_trans inodeRoom (by decide)
    have inumPositive : s.freeinode ≠ 0 :=
      Nat.ne_of_gt (Nat.zero_lt_of_lt inodes)
    have dots := (linkable_dots inumNarrow inumPositive).1.1
    have parentDots := (linkable_dots narrow positive).2.1
    change Outcome.Ends _ _
      ((dirAdd s.dirs.length dotName s.freeinode >>= _)
        (s.withLastDir (bareDir path s.freeinode parentInum s.freeblock)))
    apply ends_bind
      (dirAdd_ends (getElem?_withLastDir _)
        (fun _ impossible => by cases impossible) dots)
    rintro _ first ⟨isFirst, _⟩
    rw [isFirst, withDirAt_withLastDir]
    apply ends_bind (dirAdd_ends (getElem?_withLastDir _) ?_ parentDots)
    · rintro _ second ⟨isSecond, _⟩
      rw [isSecond, withDirAt_withLastDir]
      exact ⟨rfl, Nat.lt_of_not_le dirRoom, inodeRoom, blockRoom, rfl⟩
    · intro entry member
      rw [List.mem_singleton.mp member]
      exact dots

theorem makeDir_ends
    (isItem : s.dirs[dir]? = some d)
    (inodes : ROOTINO < s.freeinode)
    (linkable : ∀ entry ∈ d.entries, Linkable entry)
    (short : current.length < MAX_IMAGE_PATH)
    (noNul : 0 ∉ name)
    (nameShort : name.length < DIRSIZ)
    (narrow : d.inum < shortModulus)
    (positive : d.inum ≠ 0) :
    (makeDir current dir name s).Ends anyFailure
      (fun next later =>
        next = s.dirs.length ∧ s.dirs.length < MAX_DIRS ∧
          s.freeinode < NINODES ∧ s.freeblock < FSSIZE ∧
          d.entries.length < MAX_DIRENTS ∧
          name ∉ d.entries.map Prod.fst ∧
          later =
            s.withDir dir (withNewChild d name s.freeinode)
              (emptyDir current s.freeinode d.inum s.freeblock)) := by
  have inside := (List.getElem?_eq_some_iff.mp isItem).1
  have nonempty : s.dirs ≠ [] := by
    intro isEmpty
    rw [isEmpty] at isItem
    cases isItem
  unfold makeDir
  apply ends_get
  have isInum : (s.dirs[dir]?.map ImageDir.inum).getD 0 = d.inum := by
    rw [isItem]
    rfl
  rw [isInum]
  apply ends_bind (newDir_ends nonempty inodes short narrow positive)
  rintro next middle ⟨isNext, dirRoom, inodeRoom, blockRoom, isMiddle⟩
  rw [isNext, isMiddle]
  apply ends_get
  have isLast :
      ((s.withLastDir
          (emptyDir current s.freeinode d.inum s.freeblock)).dirs[
            s.dirs.length]?.map ImageDir.inum).getD 0 = s.freeinode := by
    rw [getElem?_withLastDir]
    rfl
  rw [isLast]
  have stillItem :
      (s.withLastDir
          (emptyDir current s.freeinode d.inum s.freeblock)).dirs[dir]? =
        some d := by
    unfold withLastDir
    dsimp only
    rw [List.getElem?_append_left inside]
    exact isItem
  have isLinkable : Linkable (name, s.freeinode) :=
    ⟨noNul, nameShort, Nat.lt_trans inodeRoom (by decide),
      Nat.ne_of_gt (Nat.zero_lt_of_lt inodes)⟩
  apply ends_bind (dirAdd_ends stillItem linkable isLinkable)
  rintro _ last ⟨isLast, room, isNew⟩
  rw [isLast]
  refine ⟨rfl, dirRoom, inodeRoom, blockRoom, room, isNew, ?_⟩
  unfold withDirAt withLastDir withDir
  dsimp only
  congr 1
  rw [List.modify_eq_set_getElem?, List.getElem?_set_self]
  · change
      ((s.dirs ++ [_]).set dir (withNewEntry d name s.freeinode)).set dir
          (withNewChild d name s.freeinode) = _
    rw [List.set_set, List.set_append_left _ _ inside]
  · rw [List.length_append]
    omega

/-!
## Paths
-/

theorem appendComponent_ends
    {Next : Type}
    {next : List UInt8 → MkfsRoutine Next}
    {post : Next → Mkfs → Prop}
    (plain : ∀ other ∈ names, Plain other)
    (rest :
      (pathText (names ++ [name])).length < MAX_IMAGE_PATH →
        (next (pathText (names ++ [name])) s).Ends anyFailure post) :
    ((appendComponent (pathText names) name >>= next) s).Ends anyFailure
      post := by
  have isText :
      (if pathText names ≠ [slash] then pathText names ++ [slash]
        else pathText names) ++ name =
        pathText (names ++ [name]) := by
    rw [pathText_snoc]
    by_cases isRoot : names = []
    · rw [if_neg (not_not_intro ((pathText_eq_slash plain).mpr isRoot)), isRoot]
      rfl
    · rw [if_pos (mt (pathText_eq_slash plain).mp isRoot),
        pathText_of_ne isRoot, List.append_assoc]
      rfl
  unfold appendComponent
  dsimp only
  rw [← List.length_append, isText]
  split
  · exact True.intro
  next fits =>
    exact rest (Nat.lt_of_not_le fits)

theorem findDir_eq_some
    (fits : TreeFits s.dirs s.files)
    (plain : ∀ other ∈ names, Plain other)
    (found : s.findDir (pathText names) = some dir) :
    ∃ e, s.dirs[dir]? = some e ∧ Leads s.dirs names e.inum := by
  obtain ⟨inside, isPath, _⟩ := List.findIdx?_eq_some_iff_getElem.mp found
  rw [beq_iff_eq] at isPath
  have isItem := List.getElem?_eq_getElem inside
  refine ⟨s.dirs[dir], isItem, ?_⟩
  obtain ⟨others, isText, othersPlain, leads⟩ :=
    fits.named _ (List.getElem_mem inside)
  have same : others = names := by
    rw [← components_pathText othersPlain, ← isText, isPath,
      components_pathText plain]
  rw [← same]
  exact leads

theorem Built.makeDir
    (built : Built host s)
    (isItem : s.dirs[dir]? = some d)
    (plain : ∀ other ∈ names, Plain other)
    (isPlain : Plain name)
    (noNul : 0 ∉ name)
    (short : name.length < DIRSIZ)
    (leads : Leads s.dirs names d.inum)
    (dirRoom : s.dirs.length < MAX_DIRS)
    (inodeRoom : s.freeinode < NINODES)
    (blockRoom : s.freeblock < FSSIZE)
    (room : d.entries.length < MAX_DIRENTS)
    (isNew : name ∉ d.entries.map Prod.fst)
    (isLater :
      later =
        s.withDir dir (withNewChild d name s.freeinode)
          (emptyDir (pathText (names ++ [name])) s.freeinode d.inum
            s.freeblock)) :
    Built host later ∧ Grows s later ∧ later.files = s.files ∧
      ∃ e, later.dirs[s.dirs.length]? = some e ∧
        Leads later.dirs (names ++ [name]) e.inum := by
  obtain ⟨⟨m, laid⟩, fits⟩ := built
  have isDir : d ∈ s.dirs := List.mem_of_getElem? isItem
  have below := laid.dirBelow d isDir
  have isDirs :
      later.dirs =
        s.dirs.set dir (withNewChild d name s.freeinode) ++
          [emptyDir (pathText (names ++ [name])) s.freeinode d.inum
            s.freeblock] := by
    rw [isLater]
    rfl
  have isFiles : later.files = s.files := by
    rw [isLater]
    rfl
  have narrow : s.freeinode < shortModulus :=
    Nat.lt_trans inodeRoom (by decide)
  have linkable : Linkable (name, s.freeinode) :=
    ⟨noNul, short, narrow, Nat.ne_of_gt (Nat.lt_trans below.1 below.2)⟩
  have fitsLater : TreeFits later.dirs later.files := by
    rw [isDirs, isFiles]
    exact fits.makeDir laid.distinctDirs
      (fun f isFile => (laid.apart d isDir f isFile).symm) isItem isNew linkable
      isPlain (Nat.lt_trans below.2 narrow) (Nat.ne_of_gt below.1) room dirRoom
      (fun e member => Nat.ne_of_lt (laid.dirBelow e member).2)
      (fun f member => Nat.ne_of_lt (laid.fileBelow f member).2) rfl plain leads
  have grown : Grown s.dirs later.dirs := by
    rw [isDirs]
    exact (Grown.set isItem extends_withNewChild).trans (Grown.append _)
  have isLast :
      later.dirs[s.dirs.length]? =
        some
          (emptyDir (pathText (names ++ [name])) s.freeinode d.inum
            s.freeblock) := by
    rw [isDirs, List.getElem?_append_right (by rw [List.length_set]),
      List.length_set, Nat.sub_self]
    rfl
  have isParent : withNewChild d name s.freeinode ∈ later.dirs := by
    rw [isDirs]
    exact List.mem_append_left _ (mem_set_self isItem _)
  have laidLater :
      Laid host later
        (Function.update (Function.update m d.inum (oneMoreLink d.inode))
          s.freeinode (dirInode s.freeblock)) := by
    rw [isLater]
    exact laid.withDir isItem rfl rfl rfl rfl rfl rfl inodeRoom blockRoom
  refine ⟨⟨⟨_, laidLater⟩, fitsLater⟩, ⟨grown, ?_⟩, isFiles, _, isLast, ?_⟩
  · intro f member
    rw [isFiles]
    exact ⟨f, member, rfl, rfl⟩
  · exact .down (d := withNewChild d name s.freeinode) (leads.grown grown)
      isParent (List.mem_append_right _ (List.mem_singleton_self _))
      (List.mem_of_getElem? isLast)

/-- What `ensure_dir` gives: the directory that names lead to. -/
def IsEnsured
    (host : List UInt8 → Option HostFile)
    (s : Mkfs)
    (names : List (List UInt8))
    (next : Nat)
    (later : Mkfs) : Prop :=
  Built host later ∧ Grows s later ∧ later.files = s.files ∧
    ∃ e : ImageDir, later.dirs[next]? = some e ∧ Leads later.dirs names e.inum

theorem Built.makeDir_ends
    (built : Built host s)
    (isItem : s.dirs[dir]? = some d)
    (plain : ∀ other ∈ names, Plain other)
    (isPlain : Plain name)
    (noNul : 0 ∉ name)
    (short : name.length < DIRSIZ)
    (leads : Leads s.dirs names d.inum)
    (fitsPath : (pathText (names ++ [name])).length < MAX_IMAGE_PATH) :
    (Mkfs.makeDir (pathText (names ++ [name])) dir name s).Ends anyFailure
      (IsEnsured host s (names ++ [name])) := by
  have both := built
  obtain ⟨⟨m, laid⟩, fits⟩ := both
  have isDir : d ∈ s.dirs := List.mem_of_getElem? isItem
  have below := laid.dirBelow d isDir
  have narrow : d.inum < shortModulus :=
    Nat.lt_of_lt_of_le below.2 (Nat.le_trans laid.inodes.2 (by decide))
  apply Outcome.Ends.mono
    (Mkfs.makeDir_ends isItem laid.inodes.1
      (fun entry member => (fits.linkable d isDir entry member).1) fitsPath
      noNul short narrow (Nat.ne_of_gt below.1))
  rintro next later
    ⟨isNext, dirRoom, inodeRoom, blockRoom, room, isNew, isLater⟩
  rw [isNext]
  exact built.makeDir isItem plain isPlain noNul short leads dirRoom inodeRoom
    blockRoom room isNew isLater

theorem ensureFrom_ends
    {fuel : Nat}
    {p : List UInt8}
    (built : Built host s)
    (isItem : s.dirs[dir]? = some d)
    (plain : ∀ other ∈ names, Plain other)
    (leads : Leads s.dirs names d.inum)
    (noNul : 0 ∉ p)
    (enough : p.length < fuel) :
    (ensureFrom fuel p (pathText names) dir s).Ends anyFailure
      (IsEnsured host s (names ++ components slash p)) := by
  induction fuel generalizing s p names dir d with
  | zero =>
      exact absurd enough (Nat.not_lt_zero _)
  | succ fuel inductionHypothesis =>
      unfold ensureFrom
      have isSame : components slash (p.dropWhile (· == slash)) =
          components slash p :=
        components_dropWhile
      have isPart := List.dropWhile_sublist (l := p) (· == slash)
      cases isRest : p.dropWhile (· == slash) with
      | nil =>
          rw [isRest, components_nil] at isSame
          rw [← isSame, List.append_nil]
          exact ⟨built, Grows.refl s, rfl, d, isItem, leads⟩
      | cons head tail =>
          rw [isRest] at isSame isPart
          have notSlash : head ≠ slash := by
            have isHead := List.head?_dropWhile_not (· == slash) p
            rw [isRest] at isHead
            simpa using isHead
          generalize isName : (head :: tail).takeWhile (· != slash) = name
          have nonempty : name ≠ [] := by
            rw [← isName, List.takeWhile_cons_of_pos (by simpa using notSlash)]
            exact List.cons_ne_nil _ _
          have isPlain : Plain name := by
            refine ⟨nonempty, ?_⟩
            rw [← isName]
            exact sep_notMem_takeWhile
          have nameNoNul : 0 ∉ name := by
            intro member
            rw [← isName] at member
            exact noNul (isPart.subset
              ((List.takeWhile_sublist _).subset member))
          have isComponents :
              components slash p =
                name ::
                  components slash
                    ((head :: tail).dropWhile (· != slash)) := by
            rw [← isSame, components_takeWhile (isName ▸ nonempty), isName]
          have joined := List.takeWhile_append_dropWhile
            (p := (· != slash)) (l := head :: tail)
          have lengths := congrArg List.length joined
          rw [List.length_append, isName] at lengths
          have nameLength := List.length_pos_of_ne_nil nonempty
          have partLength := isPart.length_le
          dsimp only
          rw [isName]
          split
          · exact True.intro
          next short =>
            have lengthPositive : ¬ name.length = 0 := Nat.ne_of_gt nameLength
            unfold checkComponentName
            rw [if_neg lengthPositive, if_neg short]
            apply appendComponent_ends plain
            intro fitsPath
            apply ends_get
            have restNoNul :
                0 ∉ (head :: tail).dropWhile (· != slash) := by
              intro member
              exact noNul (isPart.subset
                ((List.dropWhile_sublist _).subset member))
            have goOn :
                ∀ next middle, IsEnsured host s (names ++ [name]) next middle →
                  (ensureFrom fuel ((head :: tail).dropWhile (· != slash))
                    (pathText (names ++ [name])) next middle).Ends anyFailure
                    (IsEnsured host s (names ++ components slash p)) := by
              rintro next middle ⟨isBuilt, grows, isFiles, e, isNext, isLed⟩
              apply Outcome.Ends.mono
                (inductionHypothesis isBuilt isNext (plain_snoc plain isPlain)
                  isLed restNoNul (by omega))
              rintro last later
                ⟨laterBuilt, laterGrows, laterFiles, g, isLast, isLaterLed⟩
              rw [isComponents, ← List.singleton_append, ← List.append_assoc]
              exact ⟨laterBuilt, grows.trans laterGrows,
                laterFiles.trans isFiles, g, isLast, isLaterLed⟩
            cases found : s.findDir (pathText (names ++ [name])) with
            | some next =>
              obtain ⟨e, isFound, isLed⟩ :=
                findDir_eq_some built.2 (plain_snoc plain isPlain) found
              exact goOn next s
                ⟨built, Grows.refl s, rfl, e, isFound, isLed⟩
            | none =>
              exact ends_bind
                (built.makeDir_ends isItem plain isPlain nameNoNul
                  (Nat.lt_of_not_le short) leads fitsPath) goOn

theorem ensureDir_ends
    (built : Built host s)
    (noNul : 0 ∉ path) :
    (ensureDir path s).Ends anyFailure
      (IsEnsured host s (components slash path)) := by
  unfold ensureDir
  split
  · exact True.intro
  · apply ends_get
    obtain ⟨first, isFirst, isInum, isPath, _⟩ := built.2.root
    have found : s.findDir [slash] = some 0 := by
      unfold findDir
      obtain ⟨inside, isItem⟩ := List.getElem?_eq_some_iff.mp isFirst
      rw [List.findIdx?_eq_some_iff_getElem]
      refine ⟨inside, ?_, fun _ impossible => absurd impossible (Nat.not_lt_zero _)⟩
      rw [isItem, isPath]
      exact beq_self_eq_true _
    have atRoot : Leads s.dirs [] first.inum := by
      rw [isInum]
      exact .root
    rw [found]
    dsimp only [Option.getD_some]
    split
    next isSlash =>
      rw [isSlash]
      exact ⟨built, Grows.refl s, rfl, first, isFirst, atRoot⟩
    · have noNames : ∀ other ∈ ([] : List (List UInt8)), Plain other :=
        fun _ impossible => by cases impossible
      exact ensureFrom_ends built isFirst noNames atRoot noNul
        (Nat.lt_succ_self _)

end Mkfs

/-!
## The first state of the image

`mkfs` formats the image and makes the root directory; with it the layout of
the image and the tree begin to hold.
-/

namespace Mkfs

variable {host : List UInt8 → Option HostFile}

/-- The state behind `init_fs_image`. -/
def formatted : Mkfs :=
  { start with
    image :=
      start.image.put BSIZE (4 * superblockFields.length) superblockBytes
    offset := BSIZE + 4 * superblockFields.length }

/-- An image of zeros that is being written at an offset. -/
def startAt (off : Nat) : Mkfs :=
  { start with offset := off }

theorem writeZeros_done (blocks : List Nat) (off : Nat) :
    ∃ last,
      Routine.forEach (fun _ => checkedWrite (fun _ => 0) BSIZE) blocks
        (startAt off) = .done (startAt last) () := by
  induction blocks generalizing off with
  | nil =>
      exact ⟨off, rfl⟩
  | cons block rest inductionHypothesis =>
      obtain ⟨last, isDone⟩ := inductionHypothesis (off + BSIZE)
      refine ⟨last, Eq.trans ?_ isDone⟩
      have noChange :
          (startAt off).image.put off BSIZE (fun _ => 0) = start.image := by
        funext index
        exact ite_self _
      have isWritten :
          checkedWrite (fun _ => 0) BSIZE (startAt off) =
            .done (startAt (off + BSIZE)) () := by
        unfold startAt at noChange ⊢
        unfold checkedWrite Routine.modify
        dsimp only at noChange ⊢
        rw [noChange]
      have unfolded :
          Routine.forEach (fun _ => checkedWrite (fun _ => 0) BSIZE)
              (block :: rest) (startAt off) =
            (checkedWrite (fun _ => 0) BSIZE (startAt off)).bind fun _ =>
              Routine.forEach (fun _ => checkedWrite (fun _ => 0) BSIZE)
                rest :=
        rfl
      rw [unfolded, isWritten]
      rfl

theorem initFsImage_done : initFsImage start = .done formatted () := by
  unfold initFsImage
  generalize List.range FSSIZE = blocks
  obtain ⟨last, isDone⟩ := writeZeros_done blocks 0
  have isStart : startAt 0 = start := rfl
  rw [isStart] at isDone
  have unfolded :
      ∀ next : Unit → MkfsRoutine Unit,
        (Routine.forEach (fun _ => checkedWrite (fun _ => 0) BSIZE) blocks >>=
          next) start =
          (Routine.forEach (fun _ => checkedWrite (fun _ => 0) BSIZE) blocks
            start).bind next :=
    fun _ => rfl
  rw [unfolded, isDone]
  rfl

/-- The root directory, when it is new. -/
def rootDir : ImageDir :=
  emptyDir [slash] ROOTINO ROOTINO ROOT_BLOCK

/-- The state behind `init_root_dir`. -/
def rooted : Mkfs :=
  { formatted.withBlock ROOT_BLOCK (fun _ => 0) with dirs := [rootDir] }

theorem initRootDir_done : initRootDir formatted = .done rooted () :=
  rfl

theorem main_rooted
    (host : List UInt8 → Option HostFile)
    (args : List CString) :
    main host args start =
      (do
        initStandardDirs
        Routine.forEach (addMapping host) args
        flushDirs
        writeBitmap : MkfsRoutine Unit) rooted := by
  have step :
      ∀ {first : MkfsRoutine Unit} {next : Unit → MkfsRoutine Unit}
        {s later : Mkfs}, first s = .done later () →
          (first >>= next) s = next () later := by
    intro first next s later isDone
    have unfolded : (first >>= next) s = (first s).bind next := rfl
    rw [unfolded, isDone]
    rfl
  unfold main
  rw [step initFsImage_done, step initRootDir_done]

theorem disk_rooted
    {b : Nat}
    (notSuper : b ≠ 1) :
    rooted.disk b = fun _ => 0 := by
  change (formatted.withBlock ROOT_BLOCK (fun _ => 0)).disk b = _
  rw [disk_withBlock]
  by_cases isRoot : b = ROOT_BLOCK
  · rw [isRoot, Function.update_self]
    funext index
    exact ite_self _
  · rw [Function.update_of_ne isRoot]
    funext index
    unfold disk diskOf cutBlock
    split
    next inside =>
      have isBlock := BSIZE_eq
      have fields : 4 * superblockFields.length = 32 := rfl
      apply Bytes.put_outside
      rw [fields, isBlock]
      rw [isBlock] at inside
      omega
    · rfl

theorem superblock_rooted
    {index : Nat}
    (inside : index < 4 * superblockFields.length) :
    rooted.disk 1 index = superblockBytes index := by
  change (formatted.withBlock ROOT_BLOCK (fun _ => 0)).disk 1 index = _
  rw [disk_withBlock, Function.update_of_ne (by decide)]
  have isBlock := BSIZE_eq
  have fields : 4 * superblockFields.length = 32 := rfl
  unfold disk diskOf
  rw [cutBlock_of_lt (by omega)]
  rw [Nat.one_mul]
  have isSame :
      formatted.image (BSIZE + index) =
        superblockBytes (BSIZE + index - BSIZE) :=
    Bytes.put_inside (Nat.le_add_right _ _) (Nat.add_lt_add_left inside _)
  rw [isSame, Nat.add_sub_cancel_left]

/-- The inodes of the first image: there is only the root directory. -/
def rootedInodes : Nat → Dinode :=
  Function.update (fun _ => Dinode.zeroed 0) ROOTINO (dirInode ROOT_BLOCK)

theorem references_rooted (holder : Nat × Position) :
    rooted.disk.references rootedInodes holder =
      if holder = (ROOTINO, .addr 0) then ROOT_BLOCK else 0 := by
  obtain ⟨inum, position⟩ := holder
  unfold Disk.references rootedInodes
  dsimp only
  by_cases isRoot : inum = ROOTINO
  · rw [isRoot, Function.update_self, pointer_dirInode]
    by_cases isFirst : position = .addr 0
    · rw [if_pos isFirst, if_pos (by rw [isFirst])]
    · rw [if_neg isFirst, if_neg]
      intro same
      exact isFirst (Prod.ext_iff.mp same).2
  · rw [Function.update_of_ne isRoot, if_neg]
    · exact Disk.pointer_eq_zero fun _ => rfl
    · intro same
      exact isRoot (Prod.ext_iff.mp same).1

theorem numbering_rooted :
    Numbering (rooted.disk.references rootedInodes) ROOT_BLOCK
      rooted.freeblock where
  exclusive := by
    intro one other same held
    rw [references_rooted, references_rooted] at same
    rw [references_rooted] at held
    have isOne : one = (ROOTINO, .addr 0) := by
      by_contra different
      exact held (if_neg different)
    rw [if_pos isOne] at same
    have isOther : other = (ROOTINO, .addr 0) := by
      by_contra different
      rw [if_neg different] at same
      exact absurd same (by decide)
    rw [isOne, isOther]
  inRange := by
    intro holder held
    rw [references_rooted] at held ⊢
    split
    · decide
    next different =>
      exact absurd (if_neg different) held
  covered := by
    intro b lower upper
    refine ⟨(ROOTINO, .addr 0), ?_⟩
    rw [references_rooted, if_pos rfl]
    have isNext : rooted.freeblock = ROOT_BLOCK + 1 := rfl
    omega

theorem zeroed_fits : (Dinode.zeroed 0).Fits where
  type := (by decide : 0 < shortModulus)
  major := (by decide : 0 < shortModulus)
  minor := (by decide : 0 < shortModulus)
  nlink := (by decide : 0 < shortModulus)
  size := (by decide : 0 < uintModulus)
  addrs := fun _ => (by decide : 0 < uintModulus)

theorem laid_rooted : Laid host rooted rootedInodes where
  dirs := by
    intro d member
    rw [List.mem_singleton.mp member]
    exact Function.update_self ..
  files := fun f impossible => by cases impossible
  unused := by
    intro inum noDir _
    apply Function.update_of_ne
    exact (noDir rootDir (List.mem_singleton_self _)).symm
  isDir := by
    intro d member
    rw [List.mem_singleton.mp member]
    rfl
  hasBlock := by
    intro d member
    rw [List.mem_singleton.mp member]
    decide
  isFile := fun f impossible => by cases impossible
  fits := by
    intro inum
    unfold rootedInodes
    by_cases isRoot : inum = ROOTINO
    · rw [isRoot, Function.update_self]
      exact dirInode_fits (by decide)
    · rw [Function.update_of_ne isRoot]
      exact zeroed_fits
  stored := by
    intro inum inArea noDir
    have other : inum ≠ ROOTINO :=
      (noDir rootDir (List.mem_singleton_self _)).symm
    have notSuper : Disk.inodeBlock inum ≠ 1 := by
      have lower : INODE_START ≤ Disk.inodeBlock inum := Disk.le_inodeBlock
      rw [INODE_START_eq] at lower
      omega
    unfold rootedInodes Disk.dinode
    rw [Function.update_of_ne other, disk_rooted notSuper]
    rfl
  numbering := numbering_rooted
  order := by decide
  room := by decide
  superblock := fun _ inside => superblock_rooted inside
  distinctDirs := List.nodup_singleton _
  distinctFiles := List.nodup_nil
  distinctSources := List.nodup_nil
  apart := fun _ _ f impossible => by cases impossible
  dirBelow := by
    intro d member
    rw [List.mem_singleton.mp member]
    decide
  fileBelow := fun f impossible => by cases impossible
  inodes := by decide

theorem treeFits_rooted : TreeFits rooted.dirs rooted.files := by
  have only : ∀ d ∈ rooted.dirs, d = rootDir :=
    fun d member => List.mem_singleton.mp member
  have isRootDir : rootDir ∈ rooted.dirs := List.mem_singleton_self _
  have dirFits : ∀ d ∈ rooted.dirs, DirFits d := by
    intro d member
    rw [only d member]
    exact emptyDir_dirFits (by decide) (by decide) (by decide) (by decide)
  exact {
    root := ⟨rootDir, rfl, rfl, rfl, rfl⟩
    count := by decide
    short := fun d member => (dirFits d member).short
    linkable := fun d member => (dirFits d member).linkable
    distinct := fun d member => (dirFits d member).distinct
    dots := fun d member => (dirFits d member).dots
    targets := by
      intro d member entry isEntry proper
      rw [only d member] at isEntry
      rcases List.mem_pair.mp isEntry with isDot | isDotDot
      · rw [isDot] at proper
        exact absurd rfl proper.1
      · rw [isDotDot] at proper
        exact absurd rfl proper.2
    parents := by
      intro d member
      rw [only d member]
      exact ⟨rootDir, isRootDir, rfl⟩
    named := by
      intro d member
      rw [only d member]
      exact ⟨[], rfl, (fun _ impossible => by cases impossible), .root⟩
    dirLinks := by
      intro d member
      rw [only d member]
      rfl
    fileLinks := fun f impossible => by cases impossible
    fileNamed := fun f impossible => by cases impossible
  }

theorem built_rooted : Built host rooted :=
  ⟨⟨rootedInodes, laid_rooted⟩, treeFits_rooted⟩

theorem initStandardDirs_ends
    {s : Mkfs}
    (built : Built host s) :
    (initStandardDirs s).Ends anyFailure
      (fun _ later => Built host later ∧ Grows s later) := by
  unfold initStandardDirs
  apply ends_bind (ensureDir_ends built (by decide))
  rintro _ bin ⟨isBuilt, grows, _⟩
  apply ends_bind (ensureDir_ends isBuilt (by decide))
  rintro _ lib ⟨libBuilt, libGrows, _⟩
  apply ends_bind (ensureDir_ends libBuilt (by decide))
  rintro _ include_ ⟨includeBuilt, includeGrows, _⟩
  apply ends_bind (ensureDir_ends includeBuilt (by decide))
  rintro _ source ⟨sourceBuilt, sourceGrows, _⟩
  apply ends_bind (ensureDir_ends sourceBuilt (by decide))
  rintro _ temporary ⟨lastBuilt, lastGrows, _⟩
  exact ⟨lastBuilt,
    grows.trans
      (libGrows.trans (includeGrows.trans (sourceGrows.trans lastGrows)))⟩

end Mkfs

end MyOS
