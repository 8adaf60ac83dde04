import MyOS.MkfsRuns

namespace MyOS

open Lib
open Routine

/-!
# Mappings

A mapping names a file of the host and a path.  Its file is packed once, later
mappings of the same file are links to it, and what has been mapped stays
mapped.
-/

namespace Mkfs

variable {host : List UInt8 → Option HostFile} {s later : Mkfs}
variable {dir index : Nat} {d : ImageDir} {f : ImageFile}
variable {name path src dst arg : List UInt8} {names : List (List UInt8)}

/-- Names lead to a directory with an entry for a file that is packed. -/
structure MappedIn
    (s : Mkfs)
    (names : List (List UInt8))
    (name src : List UInt8)
    (d : ImageDir)
    (f : ImageFile) : Prop where
  isDir : d ∈ s.dirs
  isFile : f ∈ s.files
  leads : Leads s.dirs names d.inum
  isEntry : (name, f.inum) ∈ d.entries
  plain : Plain name
  isSrc : f.src = src

/-- A path names what has been packed of a source. -/
def Mapped (s : Mkfs) (src dst : List UInt8) : Prop :=
  ∃ names name, components slash dst = names ++ [name] ∧
    ∃ (d : ImageDir) (f : ImageFile), MappedIn s names name src d f

theorem Mapped.grows
    (mapped : Mapped s src dst)
    (grows : Grows s later) :
    Mapped later src dst := by
  obtain ⟨names, name, isPath, d, f, mappedIn⟩ := mapped
  obtain ⟨e, isDir, extended⟩ := grows.dirs.mem mappedIn.isDir
  obtain ⟨g, isFile, isInum, isSrc⟩ := grows.files f mappedIn.isFile
  refine ⟨names, name, isPath, e, g, isDir, isFile, ?_, ?_, mappedIn.plain,
    isSrc.trans mappedIn.isSrc⟩
  · rw [extended.inum]
    exact mappedIn.leads.grown grows.dirs
  · rw [isInum]
    exact extended.entries _ mappedIn.isEntry

/-!
## Names of files
-/

theorem hostBasename_spec (path : List UInt8) :
    (slash ∉ path ∧ hostBasename path = path) ∨
      ∃ parent, path = parent ++ slash :: hostBasename path := by
  have joined :
      path.rdropWhile (· != slash) ++ path.rtakeWhile (· != slash) = path :=
    List.rdropWhile_append_rtakeWhile
  by_cases whole : path.rdropWhile (· != slash) = []
  · refine Or.inl ⟨?_, ?_⟩
    · intro member
      have isOther := List.rdropWhile_eq_nil_iff.mp whole slash member
      simp at isOther
    · rw [whole] at joined
      exact joined
  · have isLast := List.rdropWhile_last_not (· != slash) path whole
    refine Or.inr ⟨(path.rdropWhile (· != slash)).dropLast, ?_⟩
    rw [Bool.not_eq_true, bne_eq_false_iff_eq] at isLast
    have isFront := List.dropLast_append_getLast whole
    rw [isLast] at isFront
    conv_lhs => rw [← joined, ← isFront]
    rw [List.append_assoc]
    rfl

theorem slash_notMem_hostBasename : slash ∉ hostBasename path := by
  intro member
  have isOther := List.mem_rtakeWhile_imp member
  simp at isOther

theorem parentAndName_ends
    (noNul : 0 ∉ path) :
    (parentAndName path s).Ends anyFailure
      (fun parts later =>
        later = s ∧ components slash path = components slash parts.1 ++ [parts.2] ∧
          Plain parts.2 ∧ 0 ∉ parts.1 ∧ 0 ∉ parts.2 ∧
          parts.2.length < DIRSIZ) := by
  unfold parentAndName
  dsimp only
  split
  · exact True.intro
  next length =>
    obtain ⟨nonempty, short⟩ := not_or.mp length
    have isPlain : Plain (hostBasename path) :=
      ⟨mt List.length_eq_zero_iff.mpr nonempty, slash_notMem_hostBasename⟩
    have nameNoNul : 0 ∉ hostBasename path := fun member =>
      noNul ((List.rtakeWhile_suffix _ path).subset member)
    have isShort : (hostBasename path).length < DIRSIZ :=
      Nat.lt_of_not_le short
    have single := components_single isPlain.noSlash isPlain.nonempty
    have isRoot : components slash [slash] = [] := by
      rw [components_cons_sep, components_nil]
    have rootNoNul : (0 : UInt8) ∉ [slash] := by decide
    rcases hostBasename_spec path with ⟨noSlash, whole⟩ | ⟨parent, isPath⟩
    · rw [if_pos (Or.inl noSlash)]
      refine ⟨rfl, ?_, isPlain, rootNoNul, nameNoNul, isShort⟩
      dsimp only
      rw [isRoot, List.nil_append]
      rw [whole] at single ⊢
      exact single
    · generalize hostBasename path = base at *
      have isComponents :
          components slash path = components slash parent ++ [base] := by
        rw [isPath, components_append, single]
      have isLength : path.length = parent.length + (base.length + 1) := by
        rw [isPath, List.length_append, List.length_cons]
      split
      next isTop =>
        have isNil : parent = [] := by
          rcases isTop with noSlash | isFirst
          · rw [isPath] at noSlash
            exact absurd
              (List.mem_append_right parent List.mem_cons_self) noSlash
          · exact List.length_eq_zero_iff.mp (by omega)
        rw [isNil, components_nil] at isComponents
        refine ⟨rfl, ?_, isPlain, rootNoNul, nameNoNul, isShort⟩
        dsimp only
        rw [isRoot]
        exact isComponents
      · split
        · exact True.intro
        · have isParent :
              path.take (path.length - (base.length + 1)) = parent := by
            rw [isLength, Nat.add_sub_cancel, isPath, List.take_left]
          have parentNoNul : 0 ∉ parent := by
            intro member
            rw [isPath] at noNul
            exact noNul (List.mem_append_left _ member)
          rw [isParent]
          exact ⟨rfl, isComponents, isPlain, parentNoNul, nameNoNul, isShort⟩

theorem mem_normalizeLoop
    {char : UInt8}
    {input out : List UInt8}
    (member : char ∈ normalizeLoop input out) :
    char ∈ input ∨ char ∈ out := by
  induction input generalizing out with
  | nil =>
      exact Or.inr member
  | cons head rest inductionHypothesis =>
      unfold normalizeLoop at member
      split at member
      · exact Or.inr member
      · split at member
        · exact (inductionHypothesis member).imp_left
            (List.mem_cons_of_mem head)
        · rcases inductionHypothesis member with isRest | isOut
          · exact Or.inl (List.mem_cons_of_mem head isRest)
          · rcases List.mem_append.mp isOut with isOld | isHead
            · exact Or.inr isOld
            · rw [List.mem_singleton.mp isHead]
              exact Or.inl List.mem_cons_self

theorem trimSlashes_isPrefixOf (out : List UInt8) : trimSlashes out <+: out := by
  cases out with
  | nil =>
      exact List.prefix_refl []
  | cons first rest =>
      exact List.prefix_cons_inj first |>.mpr (List.rdropWhile_prefix _ rest)

theorem normalizeDestPath_cases
    (noNul : 0 ∉ path) :
    (∃ reason, normalizeDestPath path = Routine.fault reason) ∨
      ∃ dst, normalizeDestPath path = pure dst ∧ 0 ∉ dst := by
  unfold normalizeDestPath
  generalize isStart :
    (if path.head? ≠ some slash then [slash] else []) = start
  dsimp only
  split
  · exact Or.inl ⟨_, rfl⟩
  · refine Or.inr ⟨_, rfl, ?_⟩
    intro member
    have isOut := (trimSlashes_isPrefixOf _).subset member
    rcases mem_normalizeLoop isOut with isInput | inStart
    · exact noNul isInput
    · rw [← isStart] at inStart
      split at inStart
      · exact absurd inStart (by decide)
      · cases inStart

theorem parseMapping_cases
    (noNul : 0 ∉ arg) :
    (∃ reason, parseMapping arg = Routine.fault reason) ∨
      ∃ src dst, parseMapping arg = pure (src, dst) ∧
        src.length < MAX_IMAGE_PATH ∧ 0 ∉ dst := by
  unfold parseMapping
  split
  · dsimp only
    split
    · exact Or.inl ⟨_, rfl⟩
    next fits =>
      have restNoNul :
          0 ∉ arg.drop ((arg.takeWhile (· != equalsSign)).length + 1) :=
        fun member => noNul ((List.drop_sublist _ arg).subset member)
      rcases normalizeDestPath_cases restNoNul with
        ⟨reason, isFault⟩ | ⟨dst, isDone, dstNoNul⟩
      · rw [isFault]
        exact Or.inl ⟨reason, rfl⟩
      · rw [isDone]
        exact Or.inr
          ⟨_, dst, rfl, Nat.lt_of_not_le (not_or.mp fits).2, dstNoNul⟩
  · split
    · exact Or.inl ⟨_, rfl⟩
    next fits =>
      refine Or.inr ⟨arg, _, rfl, Nat.lt_of_not_le fits, ?_⟩
      intro member
      have isText := (List.take_sublist _ _).subset member
      rcases List.mem_cons.mp isText with isSlash | isName
      · exact absurd isSlash (by decide)
      · exact noNul ((List.rtakeWhile_suffix _ arg).subset isName)

/-!
## Files
-/

/-- What `add_file` is to do. -/
def IsMapped
    (host : List UInt8 → Option HostFile)
    (s : Mkfs)
    (names : List (List UInt8))
    (name src : List UInt8)
    (later : Mkfs) : Prop :=
  Built host later ∧ Grows s later ∧
    ∃ (d : ImageDir) (f : ImageFile), MappedIn later names name src d f

theorem dirAdd_maps
    {between : Mkfs}
    {m : Nat → Dinode}
    (fits : TreeFits s.dirs s.files)
    (laid : Laid host between m)
    (sameDirs : between.dirs = s.dirs)
    (isItem : s.dirs[dir]? = some d)
    (leads : Leads s.dirs names d.inum)
    (isPlain : Plain name)
    (linkable : Linkable (name, f.inum))
    (isFile : f ∈ between.files)
    (isSrc : f.src = src)
    (noDir : ∀ e ∈ s.dirs, e.inum ≠ f.inum)
    (kept :
      ∀ g ∈ s.files, ∃ h ∈ between.files, h.inum = g.inum ∧ h.src = g.src)
    (origin :
      ∀ g ∈ between.files, (∃ h ∈ s.files, h.inum = g.inum) ∨ f.inum = g.inum)
    (links :
      ∀ g ∈ between.files,
        g.inode.nlink =
          linkCount s.dirs g.inum + if f.inum = g.inum then 1 else 0) :
    (dirAdd dir name f.inum between).Ends anyFailure
      (fun _ later => IsMapped host s names name src later) := by
  have isDir : d ∈ s.dirs := List.mem_of_getElem? isItem
  have stillItem : between.dirs[dir]? = some d := by
    rw [sameDirs]
    exact isItem
  apply Outcome.Ends.mono
    (dirAdd_ends stillItem
      (fun entry isEntry => (fits.linkable d isDir entry isEntry).1) linkable)
  rintro _ later ⟨isLater, room, isNew⟩
  have isDirs : later.dirs = s.dirs.set dir (withNewEntry d name f.inum) := by
    rw [isLater, ← sameDirs]
    rfl
  have isFiles : later.files = between.files := by
    rw [isLater]
    rfl
  have laidLater : Laid host later m := by
    rw [isLater]
    exact laid.withDirAt stillItem rfl rfl rfl
  have grown : Grown s.dirs later.dirs := by
    rw [isDirs]
    exact Grown.set isItem extends_withNewEntry
  have fitsLater : TreeFits later.dirs later.files := by
    rw [isDirs, isFiles]
    refine fits.addEntry isItem isNew linkable isPlain room noDir ?_ origin
      ⟨f, isFile, rfl⟩ links
    intro g isOther
    obtain ⟨h, isLaterFile, isInum, _⟩ := kept g isOther
    exact ⟨h, isLaterFile, isInum⟩
  refine ⟨⟨⟨m, laidLater⟩, fitsLater⟩, ⟨grown, isFiles ▸ kept⟩,
    withNewEntry d name f.inum, f, ?_⟩
  exact {
    isDir := by
      rw [isDirs]
      exact mem_set_self isItem _
    isFile := isFiles ▸ isFile
    leads := leads.grown grown
    isEntry := List.mem_append_right _ (List.mem_singleton_self _)
    plain := isPlain
    isSrc := isSrc
  }

theorem addLink_ends
    (built : Built host s)
    (isItem : s.dirs[dir]? = some d)
    (leads : Leads s.dirs names d.inum)
    (isPlain : Plain name)
    (noNul : 0 ∉ name)
    (short : name.length < DIRSIZ)
    (isFile : s.files[index]? = some f)
    (isSrc : f.src = src) :
    (addLink dir name index s).Ends anyFailure
      (fun _ later => IsMapped host s names name src later) := by
  obtain ⟨⟨m, laid⟩, fits⟩ := built
  have member : f ∈ s.files := List.mem_of_getElem? isFile
  have below := laid.fileBelow f member
  have narrow : f.inum < shortModulus :=
    Nat.lt_of_lt_of_le below.2 (Nat.le_trans laid.inodes.2 (by decide))
  have linkable : Linkable (name, f.inum) :=
    ⟨noNul, short, narrow, Nat.ne_of_gt below.1⟩
  have few : f.inode.nlink ≤ MAX_DIRS * MAX_DIRENTS := by
    rw [fits.fileLinks f member]
    exact fits.linkCount_le f.inum
  generalize isLinked :
    ({ f with inode := oneMoreLink f.inode } : ImageFile) = linked
  have sameInum : linked.inum = f.inum := by
    rw [← isLinked]
  have sameSrc : linked.src = f.src := by
    rw [← isLinked]
  have isInode : linked.inode = oneMoreLink f.inode := by
    rw [← isLinked]
  have isFiles :
      s.files.modify index
          (fun f => { f with inode := oneMoreLink f.inode }) =
        s.files.set index linked := by
    rw [List.modify_eq_set_getElem?, isFile, ← isLinked]
    rfl
  unfold addLink
  apply ends_modify
  apply ends_get
  dsimp only
  rw [isFiles,
    List.getElem?_set_self (List.getElem?_eq_some_iff.mp isFile).1]
  have isLinkedFile : linked ∈ s.files.set index linked :=
    mem_set_self isFile linked
  have members :
      ∀ g ∈ s.files.set index linked,
        g = linked ∨ (g ∈ s.files ∧ g.inum ≠ f.inum) :=
    fun g => mem_set_of_nodup laid.distinctFiles isFile
  have laidLinked := laid.withLink isFile sameSrc sameInum isInode
  change ((dirAdd dir name linked.inum) (s.withLink index linked)).Ends _ _
  apply dirAdd_maps fits laidLinked rfl isItem leads isPlain
    (sameInum ▸ linkable) isLinkedFile (sameSrc.trans isSrc)
  · rw [sameInum]
    exact fun e isOther => laid.apart e isOther f member
  · intro g isOther
    by_cases same : g.inum = f.inum
    · have isSame : g = f :=
        List.inj_on_of_nodup_map laid.distinctFiles isOther member same
      rw [isSame]
      exact ⟨linked, isLinkedFile, sameInum, sameSrc⟩
    · exact ⟨g, mem_set_of_ne isFile isOther same, rfl, rfl⟩
  · intro g isLater
    rcases members g isLater with isSame | ⟨isOther, _⟩
    · rw [isSame]
      exact Or.inr rfl
    · exact Or.inl ⟨g, isOther, rfl⟩
  · intro g isLater
    rcases members g isLater with isSame | ⟨isOther, different⟩
    · rw [isSame, isInode, nlink_oneMoreLink few, if_pos rfl, sameInum,
        fits.fileLinks f member]
    · rw [sameInum, if_neg different.symm]
      exact fits.fileLinks g isOther

theorem packFile_ends
    {file : HostFile}
    (built : Built host s)
    (isItem : s.dirs[dir]? = some d)
    (leads : Leads s.dirs names d.inum)
    (isPlain : Plain name)
    (noNul : 0 ∉ name)
    (short : name.length < DIRSIZ)
    (isHost : host src = some file)
    (isNewSource : ∀ g ∈ s.files, g.src ≠ src)
    (srcFits : src.length < MAX_IMAGE_PATH) :
    (packFile dir name src file s).Ends anyFailure
      (fun _ later => IsMapped host s names name src later) := by
  obtain ⟨⟨m, laid⟩, fits⟩ := built
  have inodesLower := laid.inodes.1
  have order := laid.order
  unfold packFile
  apply ends_allocInode
  intro inodeRoom
  have linkable : Linkable (name, s.freeinode) :=
    ⟨noNul, short, Nat.lt_trans inodeRoom (by decide),
      Nat.ne_of_gt (Nat.zero_lt_of_lt inodesLower)⟩
  have noDir : ∀ e ∈ s.dirs, e.inum ≠ s.freeinode :=
    fun e isOther => Nat.ne_of_lt (laid.dirBelow e isOther).2
  have noFile : ∀ g ∈ s.files, g.inum ≠ s.freeinode :=
    fun g isOther => Nat.ne_of_lt (laid.fileBelow g isOther).2
  apply ends_bind
    (addFileData_ends (s := { s with freeinode := s.freeinode + 1 })
      (Nat.zero_lt_of_lt order) laid.room rfl rfl file)
  rintro inode packed ⟨isInode, number, shows⟩
  have sameDirs : packed.dirs = s.dirs := shows.numbers.same.dirs
  have sameFiles : packed.files = s.files := shows.numbers.same.files
  apply ends_get
  split
  · exact True.intro
  · rw [List.take_of_length_le (Nat.le_sub_one_of_lt srcFits)]
    generalize isNewFile :
      ({ src := src, inum := s.freeinode, inode := inode } : ImageFile) =
        newFile
    have isInum : newFile.inum = s.freeinode := by
      rw [← isNewFile]
    have isSrc : newFile.src = src := by
      rw [← isNewFile]
    have sameInode : newFile.inode = inode := by
      rw [← isNewFile]
    apply ends_modify
    rw [← isInum, ← sameInode]
    have laidPacked := laid.withFile isInum (isSrc ▸ isHost)
      (isSrc ▸ isNewSource) inodeRoom
      (sameInode ▸ isInode) (sameInode ▸ shows)
    change ((dirAdd dir name newFile.inum) (packed.withFile newFile)).Ends _ _
    have isFiles : (packed.withFile newFile).files = s.files ++ [newFile] :=
      congrArg (· ++ [newFile]) sameFiles
    have members :
        ∀ g ∈ (packed.withFile newFile).files, g ∈ s.files ∨ g = newFile := by
      intro g member
      rw [isFiles] at member
      exact (List.mem_append.mp member).imp_right List.mem_singleton.mp
    have oneLink : newFile.inode.nlink = 1 := by
      rw [sameInode, isInode]
    apply dirAdd_maps fits laidPacked sameDirs isItem leads isPlain
      (isInum ▸ linkable) _ isSrc (isInum ▸ noDir)
    · intro g isOther
      rw [isFiles]
      exact ⟨g, List.mem_append_left _ isOther, rfl, rfl⟩
    · intro g isLater
      rcases members g isLater with isOther | isLast
      · exact Or.inl ⟨g, isOther, rfl⟩
      · rw [isLast]
        exact Or.inr rfl
    · intro g isLater
      rw [isInum]
      rcases members g isLater with isOther | isLast
      · rw [if_neg (noFile g isOther).symm]
        exact fits.fileLinks g isOther
      · rw [isLast, oneLink, isInum, if_pos rfl,
          fits.linkCount_fresh noDir noFile]
    · rw [isFiles]
      exact List.mem_append_right _ (List.mem_singleton_self _)

theorem findFile_eq_some
    (found : s.findFile src = some index) :
    ∃ f, s.files[index]? = some f ∧ f.src = src := by
  obtain ⟨inside, isSrc, _⟩ := List.findIdx?_eq_some_iff_getElem.mp found
  rw [beq_iff_eq] at isSrc
  exact ⟨s.files[index], List.getElem?_eq_getElem inside, isSrc⟩

theorem findFile_eq_none
    (notFound : s.findFile src = none) :
    ∀ g ∈ s.files, g.src ≠ src := by
  intro g member same
  have isOther := List.findIdx?_eq_none_iff.mp notFound g member
  rw [same, beq_self_eq_true] at isOther
  exact Bool.noConfusion isOther

theorem addFile_ends
    (built : Built host s)
    (noNul : 0 ∉ dst)
    (srcFits : src.length < MAX_IMAGE_PATH) :
    (addFile host src dst s).Ends anyFailure
      (fun _ later => Built host later ∧ Grows s later ∧ Mapped later src dst)
    := by
  unfold addFile
  apply ends_bind (parentAndName_ends noNul)
  rintro ⟨parent, name⟩ same
    ⟨isSame, isPath, isPlain, parentNoNul, nameNoNul, short⟩
  rw [isSame]
  dsimp only at isPath isPlain parentNoNul nameNoNul short ⊢
  have nameLength : ¬ name.length = 0 :=
    mt List.length_eq_zero_iff.mp isPlain.nonempty
  unfold checkComponentName
  rw [if_neg nameLength, if_neg (Nat.not_le_of_lt short)]
  apply ends_pure
  apply ends_bind (ensureDir_ends built parentNoNul)
  rintro dir middle ⟨isBuilt, grows, _, d, isItem, leads⟩
  have conclude :
      ∀ later : Mkfs,
        IsMapped host middle (components slash parent) name src later →
          Built host later ∧ Grows s later ∧ Mapped later src dst := by
    rintro later ⟨laterBuilt, laterGrows, e, f, mappedIn⟩
    exact ⟨laterBuilt, grows.trans laterGrows, components slash parent, name,
      isPath, e, f, mappedIn⟩
  apply ends_get
  cases found : middle.findFile src with
  | some existing =>
      obtain ⟨f, isFile, isSrc⟩ := findFile_eq_some found
      exact Outcome.Ends.mono
        (addLink_ends isBuilt isItem leads isPlain nameNoNul short isFile isSrc)
        fun _ later => conclude later
  | none =>
      cases isHost : host src with
      | none =>
          exact True.intro
      | some file =>
          exact Outcome.Ends.mono
            (packFile_ends isBuilt isItem leads isPlain nameNoNul short isHost
              (findFile_eq_none found) srcFits)
            fun _ later => conclude later

/-- A mapping of the command line has been carried out. -/
def Done (s : Mkfs) (arg : CString) : Prop :=
  ∃ src dst, parseMapping arg.bytes = pure (src, dst) ∧ Mapped s src dst

theorem addMapping_ends
    (built : Built host s)
    (arg : CString) :
    (addMapping host arg s).Ends anyFailure
      (fun _ later => Built host later ∧ Grows s later ∧ Done later arg) := by
  unfold addMapping
  rcases parseMapping_cases arg.noNul with
    ⟨reason, isFault⟩ | ⟨src, dst, isDone, srcFits, dstNoNul⟩
  · rw [isFault]
    exact True.intro
  · rw [isDone]
    apply Outcome.Ends.mono (addFile_ends built dstNoNul srcFits)
    rintro _ later ⟨laterBuilt, grows, mapped⟩
    exact ⟨laterBuilt, grows, src, dst, isDone, mapped⟩

theorem addMappings_ends
    (built : Built host s)
    (args : List CString) :
    (Routine.forEach (addMapping host) args s).Ends anyFailure
      (fun _ later => Built host later ∧ ∀ arg ∈ args, Done later arg) := by
  apply ends_forEach fun before later =>
    Built host later ∧ ∀ arg ∈ before, Done later arg
  · exact ⟨built, fun _ impossible => by cases impossible⟩
  · rintro before arg middle _ ⟨middleBuilt, allDone⟩
    apply Outcome.Ends.mono (addMapping_ends middleBuilt arg)
    rintro _ later ⟨laterBuilt, grows, isDone⟩
    refine ⟨laterBuilt, ?_⟩
    intro other member
    rcases List.mem_append.mp member with isBefore | isLast
    · obtain ⟨src, dst, isParsed, mapped⟩ := allDone other isBefore
      exact ⟨src, dst, isParsed, mapped.grows grows⟩
    · rw [List.mem_singleton.mp isLast]
      exact isDone

end Mkfs

end MyOS
