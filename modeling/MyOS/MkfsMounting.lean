import MyOS.MkfsVolume

namespace MyOS

open Lib
open Routine

/-!
# Starting on an image

What a run of `mkfs` and a start of the kernel come to together: the kernel
finds a tree without orphans, and every path that has been mapped leads it to
the bytes of its source.
-/

namespace Mkfs

variable {host : List UInt8 → Option HostFile} {first later : Mkfs}
variable {m : Nat → Dinode} {d : ImageDir} {f : ImageFile} {inum : Nat}
variable {name src dst : List UInt8} {names : List (List UInt8)}
variable {dirs : List ImageDir} {files : List ImageFile} (fs : FileSystem)

theorem Leads.short
    (fits : TreeFits dirs files)
    (leads : Leads dirs names inum) :
    ∀ name ∈ names, name.length ≤ DIRSIZ := by
  induction leads with
  | root =>
      exact fun _ impossible => by cases impossible
  | down above isParent isEntry isDir inductionHypothesis =>
      intro other member
      rcases List.mem_append.mp member with isAbove | isLast
      · exact inductionHypothesis other isAbove
      · rw [List.mem_singleton.mp isLast]
        exact Nat.le_of_lt (fits.linkable _ isParent _ isEntry).1.short

theorem Finished.walk_of_leads
    (laid : Laid host first m)
    (fits : TreeFits first.dirs first.files)
    (finished : Finished first later)
    (leads : Leads first.dirs names inum) :
    walk (finalVolume first later m fs).child ROOTINO names = some inum := by
  induction leads with
  | root =>
      rfl
  | down above isParent isEntry isDir inductionHypothesis =>
      rw [walk_append, inductionHypothesis, Option.bind_some, walk_singleton]
      exact (finished.child_iff fs laid fits isParent).mpr isEntry

theorem Finished.reached
    (laid : Laid host first m)
    (fits : TreeFits first.dirs first.files)
    (finished : Finished first later)
    (inUse : ((finalVolume first later m fs).node inum).type ≠ 0) :
    ∃ names,
      walk (finalVolume first later m fs).child ROOTINO names = some inum := by
  rcases laid.node_cases fs inUse with ⟨d, isDir, isInum⟩ | ⟨f, isFile, isInum⟩
  · obtain ⟨names, _, _, leads⟩ := fits.named d isDir
    rw [← isInum]
    exact ⟨names, finished.walk_of_leads fs laid fits leads⟩
  · have named := fits.fileNamed f isFile
    unfold linkCount at named
    rw [Ne, List.countP_eq_zero] at named
    push Not at named
    obtain ⟨entry, member, same⟩ := named
    rw [beq_iff_eq] at same
    obtain ⟨d, isDir, isEntry⟩ := List.mem_flatMap.mp member
    obtain ⟨names, _, _, leads⟩ := fits.named d isDir
    refine ⟨names ++ [entry.1], ?_⟩
    rw [walk_append, finished.walk_of_leads fs laid fits leads, Option.bind_some,
      walk_singleton, ← isInum, ← same]
    exact (finished.child_iff fs laid fits isDir).mpr isEntry

theorem Finished.walk_of_mapped
    (laid : Laid host first m)
    (fits : TreeFits first.dirs first.files)
    (finished : Finished first later)
    (mapped : Mapped first src dst) :
    ∃ f ∈ first.files, f.src = src ∧
      walk (finalVolume first later m fs).child ROOTINO (pathNames dst) =
        some f.inum := by
  obtain ⟨names, name, isPath, d, f, mappedIn⟩ := mapped
  have isName := (fits.linkable d mappedIn.isDir _ mappedIn.isEntry).1.short
  have short : ∀ name ∈ components slash dst, name.length ≤ DIRSIZ := by
    intro other member
    rw [isPath] at member
    rcases List.mem_append.mp member with isAbove | isLast
    · exact mappedIn.leads.short fits other isAbove
    · rw [List.mem_singleton.mp isLast]
      exact Nat.le_of_lt isName
  refine ⟨f, mappedIn.isFile, mappedIn.isSrc, ?_⟩
  rw [pathNames_of_short short, isPath, walk_append,
    finished.walk_of_leads fs laid fits mappedIn.leads, Option.bind_some,
    walk_singleton]
  exact (finished.child_iff fs laid fits mappedIn.isDir).mpr mappedIn.isEntry

/-- A mapping of the command line. -/
def IsMapping (args : List CString) (src dst : List UInt8) : Prop :=
  ∃ arg ∈ args, parseMapping arg.bytes = pure (src, dst)

theorem Done.mapped
    {arg : CString}
    (isDone : Done first arg)
    (isParsed : parseMapping arg.bytes = pure (src, dst)) :
    Mapped first src dst := by
  obtain ⟨otherSrc, otherDst, isOther, mapped⟩ := isDone
  have same :
      (pure (src, dst) : MkfsRoutine (List UInt8 × List UInt8)) start =
        (pure (otherSrc, otherDst) : MkfsRoutine _) start := by
    rw [← isParsed, isOther]
  have isPair : (src, dst) = (otherSrc, otherDst) :=
    (Outcome.done.inj same).2
  cases isPair
  exact mapped

theorem noNul_of_parsed
    {arg : List UInt8}
    (noNul : 0 ∉ arg)
    (isParsed : parseMapping arg = pure (src, dst)) :
    0 ∉ dst := by
  rcases parseMapping_cases noNul with
    ⟨reason, isFault⟩ | ⟨otherSrc, otherDst, isOther, _, dstNoNul⟩
  · have impossible := congrFun (isParsed.symm.trans isFault) start
    cases impossible
  · have same := congrFun (isParsed.symm.trans isOther) start
    have isPair : (src, dst) = (otherSrc, otherDst) :=
      (Outcome.done.inj same).2
    cases isPair
    exact dstNoNul

end Mkfs

/-!
## The kernel's reads
-/

namespace FileSystem

/-- `namei`, and `readi` of the whole file; none where there is no node. -/
def readPath (path : List UInt8) : FsRoutine (Option (List UInt8)) := do
  match ← namei none path with
  | none => return none
  | some ip =>
      ilock ip
      let inode ← inodeAt ip
      let bytes ← readi ip .kernel 0 inode.size
      iunlockput ip
      return some bytes

/-- Read files one after the other. -/
def readPaths : List (List UInt8) → FsRoutine (List (Option (List UInt8)))
  | [] => pure []
  | path :: rest => do
      let bytes ← readPath path
      let others ← readPaths rest
      return bytes :: others

variable {base vol : Volume} {fs : FileSystem}

/-- What is read at a path. -/
def bytesAt (vol : Volume) (path : List UInt8) : Option (List UInt8) :=
  (walk vol.child ROOTINO (pathNames path)).map fun inum =>
    (vol.node inum).bytes

theorem readPath_ends
    {path : List UInt8}
    (vacant : base.Vacant)
    (represents : fs.Represents vol none)
    (sound : vol.Sound)
    (borrows : Volume.Borrows base vol 0)
    (noNul : 0 ∉ path) :
    (readPath path fs).Ends (fun _ _ => False)
      (fun bytes later =>
        bytes = bytesAt vol path ∧
          ∃ after, later.Represents after none ∧ after.node = vol.node ∧
            Volume.Borrows base after 0) := by
  have stands : Stands vol none ROOTINO := {
    nowhere := fun _ => rfl
    refers := fun impossible => by cases impossible
    usable := sound.root.1
  }
  have atRoot : startOf ROOTINO path = ROOTINO := ite_self _
  unfold readPath bytesAt
  apply ends_bind
    (namei_tolerates (vacant_full vacant) represents sound borrows stands noNul)
  rw [atRoot]
  rintro result middle ⟨after, represents, same, arrives⟩
  rcases arrives with ⟨isTarget, isNone, borrowed⟩ |
    ⟨ip, inum, isTarget, isSome, borrowed, refers, usable⟩
  · rw [isTarget, isNone]
    exact ⟨rfl, after, represents, same, borrowed⟩
  · rw [isTarget, isSome]
    have usableNow := usable.of_node same
    dsimp only
    apply ends_bind (ilock_represents represents refers usableNow.inUse)
    intro _ locked represents
    have holds := refers.load
    have isInode := represents.inode holds
    apply ends_inodeAt
    rw [isInode.2.2.2.2]
    apply ends_bind
      (readi_represents represents (Or.inl rfl) holds .kernel
        (by
          rw [Nat.zero_add]
          exact Nat.lt_of_le_of_lt (represents.length_le inum)
            (by decide : MAXFILE * BSIZE < uintModulus)))
    rintro bytes read ⟨isRead, count, _, whole, isBytes⟩
    have allRead := whole fun _ _ => rfl
    rw [isRead]
    apply ends_bind
      (iunlockput_borrowed represents (borrowed.load ip) holds.refers
        usableNow.linked)
    rintro _ last ⟨represents, sameNode, borrowedLast⟩
    refine ⟨?_, _, represents, sameNode.trans same, borrowedLast⟩
    have isWhole : bytes = (after.node inum).bytes := by
      rw [isBytes, allRead]
      unfold window
      exact List.take_length
    rw [isWhole, same]
    rfl

theorem readPaths_ends
    {paths : List (List UInt8)}
    (vacant : base.Vacant)
    (represents : fs.Represents vol none)
    (sound : vol.Sound)
    (borrows : Volume.Borrows base vol 0)
    (noNul : ∀ path ∈ paths, 0 ∉ path) :
    (readPaths paths fs).Ends (fun _ _ => False)
      (fun results _ => results = paths.map (bytesAt vol)) := by
  induction paths generalizing fs vol with
  | nil =>
      exact rfl
  | cons path rest inductionHypothesis =>
      unfold readPaths
      apply ends_bind
        (readPath_ends vacant represents sound borrows
          (noNul path List.mem_cons_self))
      rintro bytes later ⟨isBytes, after, representsLater, same, borrowsLater⟩
      have sameBytes : bytesAt after = bytesAt vol := by
        funext other
        unfold bytesAt
        rw [Volume.child_of_node same, same]
      apply ends_bind
        (inductionHypothesis representsLater (sound.of_node after same)
          borrowsLater fun other member =>
            noNul other (List.mem_cons_of_mem path member))
      intro results _ areResults
      rw [isBytes, areResults, sameBytes]
      exact rfl

end FileSystem

/-!
## Images and the kernel together
-/

/-- What a check of a volume asks for. -/
structure Volume.Consistent (vol : Volume) : Prop where
  sound : vol.Sound
  tree : vol.Tree
  links :
    ∀ inum, (vol.node inum).type ≠ 0 →
      (vol.node inum).nlink = vol.entryCount inum
  reached :
    ∀ inum, (vol.node inum).type ≠ 0 →
      ∃ names, walk vol.child ROOTINO names = some inum

namespace Mkfs

variable {host : List UInt8 → Option HostFile} {args : List CString}
variable {later : Mkfs} {fs : FileSystem}

/-- A host with one file, named `a`. -/
def smallHost (src : List UInt8) : Option HostFile :=
  if src = [102] then
    some
      {
        chunks := [[104, 105]]
        failed := false
        bounded := by decide
      }
  else
    none

/-- The destination `/bin/x` -/
def smallPath : List UInt8 :=
  [47, 98, 105, 110, 47, 120]

/-- The mappings `a` and `a=/bin/x`. -/
def smallArgs : List CString :=
  [⟨[102], by decide⟩, ⟨[102, 61, 47, 98, 105, 110, 47, 120], by decide⟩]

theorem small_run :
    ∃ later, (main smallHost smallArgs).run start = .ok (later, ()) := by
  have isOk : ((main smallHost smallArgs).run start).toOption.isSome = true := by
    unfold Routine.run
    rw [main_rooted]
    decide +kernel
  cases result : (main smallHost smallArgs).run start with
  | error reason =>
      rw [result] at isOk
      cases isOk
  | ok done =>
      exact ⟨done.1, rfl⟩

theorem small_isMapping : IsMapping smallArgs [102] smallPath :=
  ⟨_, List.mem_cons_of_mem _ List.mem_cons_self, rfl⟩

theorem small_full :
    ∀ src file, smallHost src = some file → Full file := by
  intro src file isHost bn inside
  unfold smallHost at isHost
  split at isHost
  · cases isHost
    exact absurd inside (by simp)
  · cases isHost

/--
The kernel starts on every image that `mkfs` leaves, and finds a consistent
volume whose blocks are owned exactly as the bitmap says.
-/
theorem mounts_consistent
    (run : (main host args).run start = .ok (later, ()))
    (isDisk : fs.disk = later.disk) :
    ∃ kernel vol, fs.fsinit = some kernel ∧ kernel.disk = later.disk ∧
      kernel.Represents vol none ∧ vol.Consistent := by
  obtain ⟨first, m, laid, fits, _, finished⟩ := finished_of_run run
  refine ⟨_, finalVolume first later m fs, finished.fsinit_eq laid isDisk, rfl,
    finished.represents laid fits fs, ?_⟩
  exact {
    sound := finished.sound fs laid fits
    tree := finished.tree fs laid fits
    links := fun _ => finished.nlink_eq fs laid fits
    reached := fun _ => finished.reached fs laid fits
  }

/-- The image with two mappings. -/
theorem mounts_consistent_small :
    ∃ later : Mkfs, ∃ kernel vol,
      FileSystem.fsinit
          { Image.fileSystem [] with disk := later.disk } = some kernel ∧
        kernel.disk = later.disk ∧ kernel.Represents vol none ∧
          vol.Consistent := by
  obtain ⟨later, run⟩ := small_run
  exact ⟨later, mounts_consistent run rfl⟩

/--
Every mapping leads the kernel to a file of its source's length, and two
mappings lead to one file where they have one source.
-/
theorem mappings_link
    (run : (main host args).run start = .ok (later, ()))
    (isDisk : fs.disk = later.disk) :
    ∃ kernel vol, fs.fsinit = some kernel ∧ kernel.Represents vol none ∧
      (∀ arg ∈ args, ∃ src dst, parseMapping arg.bytes = pure (src, dst)) ∧
      ∀ src dst, IsMapping args src dst →
        ∃ file inum, host src = some file ∧
          walk vol.child ROOTINO (pathNames dst) = some inum ∧
          (vol.node inum).type = T_FILE ∧
          (vol.node inum).bytes.length = file.content.length ∧
          ∀ otherSrc otherDst, IsMapping args otherSrc otherDst →
            (walk vol.child ROOTINO (pathNames otherDst) = some inum ↔
              otherSrc = src) := by
  obtain ⟨first, m, laid, fits, allDone, finished⟩ := finished_of_run run
  have leads :
      ∀ {src dst}, IsMapping args src dst →
        ∃ f ∈ first.files, f.src = src ∧
          walk (finalVolume first later m fs).child ROOTINO (pathNames dst) =
            some f.inum := by
    rintro src dst ⟨arg, isArg, isParsed⟩
    exact finished.walk_of_mapped fs laid fits ((allDone arg isArg).mapped isParsed)
  refine ⟨_, finalVolume first later m fs, finished.fsinit_eq laid isDisk,
    finished.represents laid fits fs, ?_, ?_⟩
  · intro arg isArg
    obtain ⟨src, dst, isParsed, _⟩ := allDone arg isArg
    exact ⟨src, dst, isParsed⟩
  · intro src dst isMapping
    obtain ⟨f, isFile, isSrc, isWalk⟩ := leads isMapping
    obtain ⟨isType, _, file, isHost, isLength, _⟩ :=
      finished.node_file fs laid isFile
    refine ⟨file, f.inum, isSrc ▸ isHost, isWalk, isType, isLength, ?_⟩
    intro otherSrc otherDst isOther
    obtain ⟨g, isOtherFile, isOtherSrc, isOtherWalk⟩ := leads isOther
    rw [isOtherWalk, Option.some.injEq, ← isSrc, ← isOtherSrc]
    constructor
    · intro same
      rw [List.inj_on_of_nodup_map laid.distinctFiles isOtherFile isFile same]
    · intro same
      rw [List.inj_on_of_nodup_map laid.distinctSources isOtherFile isFile same]

/-- Two paths for one file. -/
theorem mappings_link_small :
    ∃ later : Mkfs, ∃ kernel vol,
      FileSystem.fsinit
          { Image.fileSystem [] with disk := later.disk } = some kernel ∧
        kernel.Represents vol none ∧
        (∀ arg ∈ smallArgs, ∃ src dst,
          parseMapping arg.bytes = pure (src, dst)) ∧
        ∀ src dst, IsMapping smallArgs src dst →
          ∃ file inum, smallHost src = some file ∧
            walk vol.child ROOTINO (pathNames dst) = some inum ∧
            (vol.node inum).type = T_FILE ∧
            (vol.node inum).bytes.length = file.content.length ∧
            ∀ otherSrc otherDst, IsMapping smallArgs otherSrc otherDst →
              (walk vol.child ROOTINO (pathNames otherDst) = some inum ↔
                otherSrc = src) := by
  obtain ⟨later, run⟩ := small_run
  exact ⟨later, mappings_link run rfl⟩

/--
Whatever mapped paths the kernel reads from an image, one after the other, it
does not panic, and reads the bytes of their sources.
-/
theorem readPaths_mappings
    {requests : List (List UInt8 × List UInt8)}
    (run : (main host args).run start = .ok (later, ()))
    (isDisk : fs.disk = later.disk)
    (allFull : ∀ src file, host src = some file → Full file)
    (allMapped :
      ∀ request ∈ requests, IsMapping args request.1 request.2) :
    ∃ kernel, fs.fsinit = some kernel ∧
      (FileSystem.readPaths (requests.map Prod.snd) kernel).Ends
        (fun _ _ => False)
        (fun results _ =>
          results =
            requests.map fun request =>
              (host request.1).map HostFile.content) := by
  obtain ⟨first, m, laid, fits, allDone, finished⟩ := finished_of_run run
  have represents := finished.represents laid fits fs
  have vacant : (finalVolume first later m fs).Vacant :=
    ⟨⟨0, by decide⟩, ⟨1, by decide⟩, by decide, rfl, rfl⟩
  have noNul : ∀ path ∈ requests.map Prod.snd, 0 ∉ path := by
    intro path member
    obtain ⟨request, isRequest, isPath⟩ := List.mem_map.mp member
    obtain ⟨arg, _, isParsed⟩ := allMapped request isRequest
    rw [← isPath]
    exact noNul_of_parsed arg.noNul isParsed
  refine ⟨_, finished.fsinit_eq laid isDisk, ?_⟩
  apply
    (FileSystem.readPaths_ends vacant represents (finished.sound fs laid fits)
      (.refl represents.nonneg) noNul).mono
  intro results _ areResults
  rw [areResults, List.map_map]
  apply List.map_congr_left
  intro request isRequest
  obtain ⟨arg, isArg, isParsed⟩ := allMapped request isRequest
  obtain ⟨f, isFile, isSrc, isWalk⟩ :=
    finished.walk_of_mapped fs laid fits
      ((allDone arg isArg).mapped isParsed)
  obtain ⟨_, _, file, isHost, _, isContent⟩ :=
    finished.node_file fs laid isFile
  have isBytes := isContent (allFull f.src file isHost)
  rw [isSrc] at isHost
  rw [isHost]
  unfold Function.comp FileSystem.bytesAt
  rw [isWalk, Option.map_some, Option.map_some, isBytes]

/-- `/bin/x` of the image with two mappings is `hi`. -/
theorem readPaths_mappings_small :
    ∃ later : Mkfs, ∃ kernel,
      FileSystem.fsinit
          { Image.fileSystem [] with disk := later.disk } = some kernel ∧
        (FileSystem.readPaths [smallPath] kernel).Ends
          (fun _ _ => False)
          (fun results _ => results = [some [104, 105]]) := by
  have allMapped :
      ∀ request ∈ [([102], smallPath)],
        IsMapping smallArgs request.1 request.2 := by
    intro request member
    rw [List.mem_singleton.mp member]
    exact small_isMapping
  obtain ⟨later, run⟩ := small_run
  exact ⟨later,
    readPaths_mappings run rfl small_full allMapped⟩

end Mkfs

end MyOS
