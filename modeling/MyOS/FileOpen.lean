import MyOS.FileDiscipline
import MyOS.FileResults
import MyOS.DirectoryTree

namespace MyOS

open Lib
open Routine

/-!
# Opening files on a volume

`sys_open`, alone, as a step of a volume and of the tables of files and
descriptors: which node it opens, what it does to this node and to the
directory that a new one is linked into, and what it returns.
-/

/-- What `sys_open` finds at a path. -/
inductive OpenTarget where
  | missing
  | existing (inum : Nat)
  | new (dp : Nat) (name : List UInt8)
  deriving DecidableEq

namespace Volume

/-- A node that is there; directories are not opened to be written. -/
def existingTarget (vol : Volume) (flags inum : Nat) : OpenTarget :=
  if vol.IsDir inum ∧ opensToWrite flags = true then
    .missing
  else
    .existing inum

/-- What `sys_open` finds where its path ends in a directory. -/
def entryTarget
    (vol : Volume)
    (flags dp : Nat)
    (name : List UInt8) :
    OpenTarget :=
  match vol.child dp name with
  | none => .new dp name
  | some inum =>
      if hasFlag flags O_EXCL then .missing else vol.existingTarget flags inum

/-- What `sys_open` finds at the end of a path. -/
def openTarget
    (vol : Volume)
    (flags start : Nat)
    (names : List (List UInt8)) :
    OpenTarget :=
  if hasFlag flags O_CREAT then
    match vol.parentOf start names with
    | none => .missing
    | some (dp, name) => vol.entryTarget flags dp name
  else
    match walk vol.child start names with
    | none => .missing
    | some inum => vol.existingTarget flags inum

/-- A file that `sys_open` has just made. -/
def newFile : Node where
  type := T_FILE
  nlink := 1
  bytes := []

/-- A new file is linked into a directory. -/
structure Creates
    (vol later : Volume)
    (dp new slot : Nat)
    (name : List UInt8) : Prop where
  isDir : vol.IsDir dp
  usable : vol.Usable dp
  isFree : IsFree (vol.node dp).bytes slot
  missing : vol.child dp name = none
  noNul : 0 ∉ name
  unused : (vol.node new).type = 0
  newInArea : new < NINODES
  newPositive : new ≠ 0
  node :
    later.node =
      ((vol.setNode new newFile).setNode dp
        { vol.node dp with
          bytes := withEntry (vol.node dp).bytes slot name new }).node

theorem Creates.of_node
    {before vol after : Volume}
    {dp new slot : Nat}
    {name : List UInt8}
    (creates : before.Creates after dp new slot name)
    (same : before.node = vol.node) :
    vol.Creates after dp new slot name where
  isDir := by
    rw [← isDir_of_node same]
    exact creates.isDir
  usable := creates.usable.of_node same.symm
  isFree := by
    rw [← same]
    exact creates.isFree
  missing := by
    rw [← child_of_node same]
    exact creates.missing
  noNul := creates.noNul
  unused := by
    rw [← same]
    exact creates.unused
  newInArea := creates.newInArea
  newPositive := creates.newPositive
  node := by
    rw [creates.node]
    unfold setNode
    rw [same]

theorem Creates.ne_parent
    {vol later : Volume}
    {dp new slot : Nat}
    {name : List UInt8}
    (creates : vol.Creates later dp new slot name) :
    new ≠ dp := by
  intro same
  have unused := creates.unused
  rw [same] at unused
  exact creates.usable.inUse unused

theorem Creates.node_new
    {vol later : Volume}
    {dp new slot : Nat}
    {name : List UInt8}
    (creates : vol.Creates later dp new slot name) :
    later.node new = newFile := by
  rw [creates.node, setNode_node_of_ne _ creates.ne_parent]
  exact setNode_node_self _

theorem Creates.node_parent
    {vol later : Volume}
    {dp new slot : Nat}
    {name : List UInt8}
    (creates : vol.Creates later dp new slot name) :
    later.node dp =
      { vol.node dp with
        bytes := withEntry (vol.node dp).bytes slot name new } := by
  rw [creates.node]
  exact setNode_node_self _

theorem Creates.adds
    {vol later : Volume}
    {dp new slot : Nat}
    {name : List UInt8}
    (creates : vol.Creates later dp new slot name) :
    vol.Adds later dp new slot name where
  isDir := creates.isDir
  inArea := creates.usable.inArea
  positive := by
    intro isDir
    unfold IsDir at isDir
    rw [creates.node_new] at isDir
    cases isDir
  isFree := creates.isFree
  isNew := by
    rw [← child_of_isDir creates.isDir creates.noNul]
    exact creates.missing
  noNul := creates.noNul
  unused := creates.unused
  newInArea := creates.newInArea
  newPositive := creates.newPositive
  type := by
    rw [creates.node_parent]
    exact creates.isDir
  linked := by
    rw [creates.node_parent]
    exact creates.usable.linked
  bytes := by
    rw [creates.node_parent]
  inUse := by
    rw [creates.node_new]
    exact (by decide : T_FILE ≠ 0)
  newLinked := by
    rw [creates.node_new]
    exact one_ne_zero
  others := by
    intro other notParent notNew
    rw [creates.node, setNode_node_of_ne _ notParent]
    exact setNode_node_of_ne _ notNew
  own := by
    intro isDir
    unfold IsDir at isDir
    rw [creates.node_new] at isDir
    cases isDir

/-- What `sys_open` has come to where it holds the inode to be opened. -/
inductive Reaches
    (base vol : Volume)
    (extra : InodeIndex → Nat) :
    OpenTarget → Option InodeIndex → Volume → Prop
  | missing
      {after : Volume}
      (same : after.node = vol.node)
      (borrows : Borrows base after extra) :
      Reaches base vol extra .missing none after
  | existing
      {after : Volume}
      {inum : Nat}
      {ip : InodeIndex}
      (same : after.node = vol.node)
      (borrows : Borrows base after (extra + one ip))
      (holds : after.Holds ip inum)
      (usable : vol.Usable inum) :
      Reaches base vol extra (.existing inum) (some ip) after
  | created
      {after : Volume}
      {dp new slot : Nat}
      {name : List UInt8}
      {ip : InodeIndex}
      (creates : vol.Creates after dp new slot name)
      (borrows : Borrows base after (extra + one ip))
      (holds : after.Holds ip new) :
      Reaches base vol extra (.new dp name) (some ip) after

variable {base vol after : Volume} {extra : InodeIndex → Nat}

theorem Reaches.of_node
    {before : Volume}
    {target : OpenTarget}
    {result : Option InodeIndex}
    (same : before.node = vol.node)
    (reaches : Reaches base before extra target result after) :
    Reaches base vol extra target result after := by
  cases reaches with
  | missing sameNow borrows =>
      exact .missing (sameNow.trans same) borrows
  | existing sameNow borrows holds usable =>
      exact .existing (sameNow.trans same) borrows holds
        (usable.of_node same.symm)
  | created creates borrows holds =>
      exact .created (creates.of_node same) borrows holds

end Volume

namespace FileKernel

/-- The panics for lack of blocks, inodes or slots of the inode table. -/
def Exhausted (kernel : FileKernel) : FsPanic → Prop :=
  FileSystem.Exhausted kernel.fs

/-- The tables of files, descriptors and directories are as before. -/
structure SameFiles (kernel later : FileKernel) : Prop where
  file : later.file = kernel.file
  ofile : later.ofile = kernel.ofile
  cwd : later.cwd = kernel.cwd
  alive : later.alive = kernel.alive

variable {Result Next : Type} {post : Next → FileKernel → Prop}
variable {kernel : FileKernel} {base vol : Volume}
variable {extra : InodeIndex → Nat} {p : Slot} {flags : Nat}
variable {dp ip : InodeIndex} {inum : Nat} {name : List UInt8}

theorem ends_onFs
    {routine : FsRoutine Result}
    {next : Result → FileRoutine Next}
    {middle : Result → FileSystem → Prop}
    (ends : (routine kernel.fs).Ends FileSystem.Exhausted middle)
    (rest :
      ∀ result fs, middle result fs →
        (next result { kernel with fs := fs }).Ends Exhausted post) :
    ((onFs routine >>= next) kernel).Ends Exhausted post := by
  have within :
      (onFs routine kernel).Ends Exhausted
        (fun result later =>
          ∃ fs, middle result fs ∧ later = { kernel with fs := fs }) :=
    ends.within (fun _ _ => rfl) (fun _ _ isExhausted => isExhausted)
  apply ends_bind within
  rintro result later ⟨fs, holds, isLater⟩
  rw [isLater]
  exact rest result fs holds

theorem ends_onFs_inodeAt
    {next : Inode → FileRoutine Next}
    (rest : (next (kernel.fs.inode ip) kernel).Ends Exhausted post) :
    ((onFs (FileSystem.inodeAt ip) >>= next) kernel).Ends Exhausted post :=
  rest

theorem ends_onFs_setInode
    {change : Inode → Inode}
    {next : Unit → FileRoutine Next}
    (rest :
      (next () { kernel with
        fs := kernel.fs.withInode ip (change (kernel.fs.inode ip)) }).Ends
          Exhausted post) :
    ((onFs (FileSystem.setInode ip change) >>= next) kernel).Ends
      Exhausted post :=
  rest

theorem ends_fileAt
    {tolerated : FileKernel → FsPanic → Prop}
    {f : FileSlot}
    {next : FileObject → FileRoutine Next}
    (rest : (next (kernel.file f) kernel).Ends tolerated post) :
    ((fileAt f >>= next) kernel).Ends tolerated post :=
  rest

theorem ends_setFile
    {tolerated : FileKernel → FsPanic → Prop}
    {f : FileSlot}
    {change : FileObject → FileObject}
    {next : Unit → FileRoutine Next}
    (rest :
      (next () { kernel with
        file := Function.update kernel.file f (change (kernel.file f)) }).Ends
          tolerated post) :
    ((setFile f change >>= next) kernel).Ends tolerated post :=
  rest

theorem ends_dropOpening
    {next : Unit → FileRoutine Next}
    (rest :
      (next () { kernel with
        drops := kernel.countDrop (kernel.opening p)
        opening := Function.update kernel.opening p none }).Ends
          Exhausted post) :
    ((dropOpening p >>= next) kernel).Ends Exhausted post :=
  rest

theorem ends_takeReference
    {next : Unit → FileRoutine Next}
    (rest :
      (next () { kernel with
        opening := Function.update kernel.opening p (some kernel.opens)
        opens := kernel.opens + 1 }).Ends Exhausted post) :
    ((takeReference p >>= next) kernel).Ends Exhausted post :=
  rest

/-!
## The inode to be opened
-/

/-- What `sys_open` has come to before it allocates a file. -/
def OpensInode
    (base vol : Volume)
    (extra : InodeIndex → Nat)
    (kernel : FileKernel)
    (target : OpenTarget)
    (result : Option InodeIndex)
    (later : FileKernel) : Prop :=
  kernel.SameFiles later ∧
    ∃ after, later.fs.Represents after none ∧
      Volume.Reaches base vol extra target result after

theorem lockExisting_ends
    (represents : kernel.fs.Represents vol none)
    (borrows : Volume.Borrows base vol (extra + Volume.one ip))
    (refers : vol.Refers ip inum)
    (usable : vol.Usable inum) :
    (lockExisting p ip flags kernel).Ends Exhausted
      (OpensInode base vol extra kernel (vol.existingTarget flags inum)) := by
  unfold lockExisting
  apply ends_onFs (FileSystem.ilock_represents represents refers usable.inUse)
  intro _ fs represents
  have holds := refers.load
  have borrows := borrows.load ip
  generalize isLoaded :
    vol.setHandle ip { vol.handle ip with valid := true } = loaded at *
  have same : loaded.node = vol.node := by
    rw [← isLoaded]
    rfl
  apply ends_onFs_inodeAt
  dsimp only
  rw [(represents.inode holds).2.2.1, same]
  by_cases refused :
    (vol.node inum).type = T_DIR ∧ opensToWrite flags = true
  · have isTarget : vol.existingTarget flags inum = .missing := if_pos refused
    rw [if_pos refused, isTarget]
    apply ends_dropOpening
    apply ends_onFs
      (FileSystem.iunlockput_borrowed represents borrows holds.refers
        (by rw [same]; exact usable.linked))
    rintro _ fs ⟨represents, samePut, borrows⟩
    exact ⟨⟨rfl, rfl, rfl, rfl⟩, _, represents,
      .missing (samePut.trans same) borrows⟩
  · have isTarget : vol.existingTarget flags inum = .existing inum :=
      if_neg refused
    rw [if_neg refused, isTarget]
    exact ⟨⟨rfl, rfl, rfl, rfl⟩, _, represents,
      .existing same borrows holds usable⟩

theorem createFile_ends
    (represents : kernel.fs.Represents vol none)
    (sound : vol.Sound)
    (isDir : vol.IsDir inum)
    (usable : vol.Usable inum)
    (borrows : Volume.Borrows base vol (extra + Volume.one dp))
    (holds : vol.Holds dp inum)
    (missing : vol.child inum name = none)
    (noNul : 0 ∉ name) :
    (createFile p dp name kernel).Ends Exhausted
      (OpensInode base vol extra kernel (.new inum name)) := by
  unfold createFile
  apply ends_onFs_inodeAt
  rw [(represents.inode holds).2.1]
  apply ends_onFs
    (FileSystem.ialloc_represents represents (by decide : T_FILE ≠ 0)
      (by decide))
  rintro ip fs ⟨new, after, newPositive, newInArea, unused, represents, gets⟩
  apply ends_takeReference
  have different : inum ≠ new := by
    intro same
    rw [same] at usable
    exact usable.inUse unused
  have refersNew := gets.refers ((borrows.setNode new _).nonneg_now ip)
  have isTaken : after.node new = Volume.newNode T_FILE := by
    rw [gets.node]
    exact Volume.setNode_node_self _
  apply ends_onFs
    (FileSystem.ilock_represents represents refersNew
      (by rw [isTaken]; decide))
  intro _ fs represents
  have takes := Volume.Takes.of_gets holds borrows unused rfl gets
  generalize after.setHandle ip { after.handle ip with valid := true } =
    held at *
  have isHeld : held.node new = Volume.newNode T_FILE := by
    rw [takes.node]
    exact Volume.setNode_node_self _
  apply ends_onFs_setInode
  have represents :=
    represents.setNlink (Or.inl rfl) takes.holds
      (by decide : 1 < shortModulus)
  rw [isHeld] at represents
  have holdsNew : (held.setNode new Volume.newFile).Holds ip new :=
    takes.holds.setNode _
  apply ends_onFs
  · exact FileSystem.iupdate_represents represents (Or.inr rfl) holdsNew
  intro _ fs represents
  have represents :
      fs.Represents (held.setNode new Volume.newFile) none :=
    represents
  apply ends_onFs_inodeAt
  dsimp only
  rw [(represents.inode holdsNew).1]
  have soundMade : (held.setNode new Volume.newFile).Sound := by
    have soundNew : (vol.setNode new Volume.newFile).Sound := by
      apply sound.setNode
      · intro impossible
        exact absurd unused impossible
      · intro _
        exact one_ne_zero
      · intro isDir
        cases isDir
      · intro isDir
        cases isDir
      · intro isRoot
        rw [isRoot] at unused
        exact absurd unused sound.root.1.inUse
    exact soundNew.of_node _ (takes.node_setNode _)
  have isParent : (held.setNode new Volume.newFile).node inum = vol.node inum := by
    rw [takes.node_setNode]
    exact Volume.setNode_node_of_ne _ different
  have isDirMade : (held.setNode new Volume.newFile).IsDir inum := by
    unfold Volume.IsDir
    rw [isParent]
    exact isDir
  have isNew :
      lookup ((held.setNode new Volume.newFile).node inum).bytes name =
        none := by
    rw [isParent, ← Volume.child_of_isDir isDir noNul]
    exact missing
  have holdsParent : (held.setNode new Volume.newFile).Holds dp inum :=
    takes.holdsParent.setNode _
  apply ends_onFs
    (FileSystem.dirlink_ends represents (Or.inl rfl) holdsParent soundMade
      isDirMade isNew new)
  rintro linked fs ⟨isZero, slot, isFree, represents⟩
  rw [FileSystem.lagAfter_none, isParent] at represents
  rw [isParent] at isFree
  rw [isZero, if_neg (by decide)]
  generalize isLinked :
    (held.setNode new Volume.newFile).setNode inum
      { vol.node inum with
        bytes := MyOS.withEntry (vol.node inum).bytes slot name new } =
      linkedVol at *
  have isNode :
      linkedVol.node =
        ((vol.setNode new Volume.newFile).setNode inum
          { vol.node inum with
            bytes := MyOS.withEntry (vol.node inum).bytes slot name new }).node := by
    rw [← isLinked]
    exact congrArg (fun node => Function.update node inum _)
      (takes.node_setNode _)
  have holdsParent : linkedVol.Holds dp inum := by
    rw [← isLinked]
    exact holdsParent.setNode _
  have holdsNew : linkedVol.Holds ip new := by
    rw [← isLinked]
    exact holdsNew.setNode _
  have borrows :
      Volume.Borrows base linkedVol
        (extra + Volume.one ip + Volume.one dp) := by
    rw [← isLinked, add_right_comm]
    exact (takes.borrows.setNode new _).setNode inum _
  have linked : (linkedVol.node inum).nlink ≠ 0 := by
    rw [isNode, Volume.setNode_node_self]
    exact usable.linked
  apply ends_onFs
    (FileSystem.iunlockput_borrowed represents borrows holdsParent.refers
      linked)
  rintro _ fs ⟨represents, samePut, borrows⟩
  refine ⟨⟨rfl, rfl, rfl, rfl⟩, _, represents,
    .created {
      isDir := isDir
      usable := usable
      isFree := isFree
      missing := missing
      noNul := noNul
      unused := unused
      newInArea := newInArea
      newPositive := Nat.ne_of_gt newPositive
      node := samePut.trans isNode
    } borrows (holdsNew.of_put holdsParent different)⟩

theorem OpensInode.of_node
    {before : Volume}
    {target : OpenTarget}
    {result : Option InodeIndex}
    {later : FileKernel}
    (same : before.node = vol.node)
    (opens : OpensInode base before extra kernel target result later) :
    OpensInode base vol extra kernel target result later := by
  obtain ⟨sameFiles, after, represents, reaches⟩ := opens
  exact ⟨sameFiles, after, represents, reaches.of_node same⟩

theorem OpensInode.of_sameFiles
    {middle : FileKernel}
    {target : OpenTarget}
    {result : Option InodeIndex}
    {later : FileKernel}
    (opens : OpensInode base vol extra middle target result later)
    (sameFiles : kernel.SameFiles middle) :
    OpensInode base vol extra kernel target result later := by
  obtain ⟨same, rest⟩ := opens
  refine ⟨?_, rest⟩
  exact {
    file := same.file.trans sameFiles.file
    ofile := same.ofile.trans sameFiles.ofile
    cwd := same.cwd.trans sameFiles.cwd
    alive := same.alive.trans sameFiles.alive
  }

theorem existingTarget_of_node
    {later : Volume}
    (same : later.node = vol.node) :
    later.existingTarget = vol.existingTarget := by
  funext flags inum
  simp only [Volume.existingTarget, Volume.isDir_of_node same]

/-- `sys_open` behind the parent directory. -/
def openEntry (p : Slot) (dp : InodeIndex) (name : List UInt8) (flags : Nat) :
    FileRoutine (Option InodeIndex) := do
  onFs (FileSystem.ilock dp)
  match ← onFs (FileSystem.dirlookup dp name) with
  | none =>
      createFile p dp name
  | some (ip, _) =>
      takeReference p
      onFs (FileSystem.iunlockput dp)
      if hasFlag flags O_EXCL then
        dropOpening p
        onFs (FileSystem.iput ip)
        return none
      else
        lockExisting p ip flags

theorem openEntry_ends
    (represents : kernel.fs.Represents vol none)
    (sound : vol.Sound)
    (isDir : vol.IsDir inum)
    (usable : vol.Usable inum)
    (borrows : Volume.Borrows base vol (extra + Volume.one dp))
    (refers : vol.Refers dp inum)
    (noNul : 0 ∉ name) :
    (openEntry p dp name flags kernel).Ends Exhausted
      (OpensInode base vol extra kernel
        (vol.entryTarget flags inum name)) := by
  unfold openEntry
  apply ends_onFs (FileSystem.ilock_represents represents refers usable.inUse)
  intro _ fs represents
  have holds := refers.load
  have borrows := borrows.load dp
  generalize isLoaded :
    vol.setHandle dp { vol.handle dp with valid := true } = loaded at *
  have same : loaded.node = vol.node := by
    rw [← isLoaded]
    rfl
  have isDirNow : loaded.IsDir inum := by
    rw [Volume.isDir_of_node same]
    exact isDir
  have isChild : vol.child inum name = lookup (vol.node inum).bytes name :=
    Volume.child_of_isDir isDir noNul
  apply ends_onFs
    (FileSystem.dirlookup_ends represents (Or.inl rfl) holds
      (sound.of_node loaded same) isDirNow)
  unfold Volume.entryTarget
  rintro found later (⟨missing, isNone, isLater⟩ |
    ⟨index, next, after, isSlot, isFound, represents, gets⟩)
  · rw [same] at missing
    have missing : vol.child inum name = none := by
      rw [isChild]
      exact Option.map_eq_none_iff.mpr missing
    have missingNow : loaded.child inum name = none := by
      rw [Volume.child_of_node same]
      exact missing
    rw [isNone, isLater, missing]
    apply (createFile_ends represents (sound.of_node loaded same) isDirNow
      (usable.of_node same) borrows holds missingNow noNul).mono
    intro result later opens
    exact (opens.of_node same).of_sameFiles ⟨rfl, rfl, rfl, rfl⟩
  · rw [same] at isSlot gets
    have isThere :
        vol.child inum name =
          some (direntAt (vol.node inum).bytes index).inum := by
      rw [isChild]
      unfold lookup
      rw [isSlot]
      rfl
    rw [isFound, isThere]
    have sameNow : after.node = vol.node := gets.node.trans same
    have usableNext := sound.usable_child isThere
    have borrowsNext := borrows.gets gets
    have refersNext := gets.refers (borrows.nonneg_now next)
    rw [add_right_comm] at borrowsNext
    apply ends_takeReference
    apply ends_onFs
      (FileSystem.iunlockput_borrowed represents borrowsNext
        (holds.of_gets gets).refers (by rw [sameNow]; exact usable.linked))
    rintro _ fs ⟨represents, samePut, borrows⟩
    have samePut := samePut.trans sameNow
    have refersNext := refersNext.of_put borrows
    have usableNow := usableNext.of_node samePut
    dsimp only
    split
    · apply ends_dropOpening
      apply ends_onFs
        (FileSystem.iput_borrowed represents borrows refersNext
          usableNow.linked)
      rintro _ fs ⟨represents, sameLast, borrows⟩
      exact ⟨⟨rfl, rfl, rfl, rfl⟩, _, represents,
        .missing (sameLast.trans samePut) borrows⟩
    · rw [← existingTarget_of_node samePut]
      apply (lockExisting_ends represents borrows refersNext usableNow).mono
      intro result later opens
      exact (opens.of_node samePut).of_sameFiles ⟨rfl, rfl, rfl, rfl⟩

theorem openInode_ends
    {start : Nat}
    {path : List UInt8}
    (represents : kernel.fs.Represents vol none)
    (sound : vol.Sound)
    (borrows : Volume.Borrows base vol extra)
    (stands : FileSystem.Stands vol (kernel.cwd p) start)
    (noNul : 0 ∉ path) :
    (openInode p path flags kernel).Ends Exhausted
      (OpensInode base vol extra kernel
        (vol.openTarget flags (FileSystem.startOf start path)
          (pathNames path))) := by
  unfold openInode Volume.openTarget
  apply ends_get
  split
  · apply ends_onFs
      (FileSystem.nameiparent_ends represents sound borrows stands noNul)
    rintro found fs ⟨after, represents, same,
      ⟨isNone, notFound, borrows⟩ |
        ⟨dp, inum, name, isParent, isFound, borrows, refers, usable⟩⟩
    · rw [isNone, notFound]
      exact ⟨⟨rfl, rfl, rfl, rfl⟩, _, represents, .missing same borrows⟩
    · rw [isParent, isFound]
      obtain ⟨isDir, parents, isNames, _⟩ := Volume.parentOf_some isParent
      have member : name ∈ pathNames path := by
        rw [isNames]
        exact List.mem_append_right _ (List.mem_singleton_self _)
      have isDirNow : after.IsDir inum := by
        rw [Volume.isDir_of_node same]
        exact isDir
      have isTarget :
          after.entryTarget flags inum name =
            vol.entryTarget flags inum name := by
        unfold Volume.entryTarget
        rw [Volume.child_of_node same, existingTarget_of_node same]
      dsimp only
      rw [← isTarget]
      apply (openEntry_ends represents (sound.of_node after same) isDirNow
        (usable.of_node same) borrows refers
        (nul_notMem_pathNames noNul member)).mono
      intro result later opens
      exact (opens.of_node same).of_sameFiles ⟨rfl, rfl, rfl, rfl⟩
  · apply ends_onFs
      (FileSystem.namei_ends represents sound borrows stands noNul)
    rintro found fs ⟨after, represents, same,
      ⟨isNone, notFound, borrows⟩ |
        ⟨ip, inum, isTarget, isFound, borrows, refers, usable⟩⟩
    · rw [isNone, notFound]
      exact ⟨⟨rfl, rfl, rfl, rfl⟩, _, represents, .missing same borrows⟩
    · rw [isTarget, isFound]
      apply ends_takeReference
      rw [← existingTarget_of_node same]
      apply (lockExisting_ends represents borrows refers
        (usable.of_node same)).mono
      intro result later opens
      exact (opens.of_node same).of_sameFiles ⟨rfl, rfl, rfl, rfl⟩

/-!
## The file and the descriptor
-/

/-- Free slots of the file table are as `fileclose` leaves them. -/
def Cleared (kernel : FileKernel) : Prop :=
  ∀ f, (kernel.file f).ref = 0 →
    (kernel.file f).type = .none ∧ (kernel.file f).ip = none ∧
      (kernel.file f).off = 0

theorem fileclose_fresh
    {tolerated : FileKernel → FsPanic → Prop}
    {f : FileSlot}
    (isFirst : (kernel.file f).ref = 1)
    (isEmpty : (kernel.file f).type = .none) :
    (fileclose p f kernel).Ends tolerated
      (fun _ later =>
        later.fs = kernel.fs ∧ later.ofile = kernel.ofile ∧
          later.cwd = kernel.cwd ∧ later.alive = kernel.alive ∧
          later.file =
            Function.update kernel.file f
              { kernel.file f with
                type := .none, ref := 0, ip := none, off := 0 }) := by
  unfold fileclose
  apply ends_fileAt
  rw [if_neg (by rw [isFirst]; decide)]
  apply ends_setFile
  apply ends_fileAt
  dsimp only
  rw [Function.update_self]
  dsimp only
  rw [if_pos (by rw [isFirst]; rfl), isEmpty, if_neg (by decide)]
  refine ⟨rfl, rfl, rfl, rfl, ?_⟩
  have isZero : (kernel.file f).ref - 1 = 0 := by
    rw [isFirst]
    rfl
  dsimp only [clearFile]
  simp only [Function.update_self, Function.update_idem, isZero]

theorem Cleared.restored
    {f : FileSlot}
    (cleared : kernel.Cleared)
    (isFree : (kernel.file f).ref = 0) :
    Function.update kernel.file f
        { kernel.file f with
          type := .none, ref := 0, ip := none, off := 0 } =
      kernel.file := by
  obtain ⟨noType, noIp, noOff⟩ := cleared f isFree
  apply Function.update_eq_self_iff.mpr
  rw [← noType, ← noIp, ← noOff, ← isFree]

/-- What `sys_open` has come to where it has held a node. -/
inductive OpensFile
    (base : Volume)
    (extra : InodeIndex → Nat)
    (kernel : FileKernel)
    (p : Slot)
    (ip : InodeIndex)
    (flags : Nat)
    (node : Node) :
    Int → FileKernel → Volume → Prop
  | noFile
      {later : FileKernel}
      {after : Volume}
      (full : kernel.freeFile? = none)
      (sameFiles : kernel.SameFiles later)
      (borrows : Volume.Borrows base after extra) :
      OpensFile base extra kernel p ip flags node (-1) later after
  | noDescriptor
      {later : FileKernel}
      {after : Volume}
      {f : FileSlot}
      (free : kernel.freeFile? = some f)
      (full : kernel.freeDescriptor? p = none)
      (sameFiles : kernel.SameFiles later)
      (borrows : Volume.Borrows base after (extra + Volume.one ip)) :
      OpensFile base extra kernel p ip flags node (-1) later after
  | opened
      {later : FileKernel}
      {after : Volume}
      {f : FileSlot}
      {fd : Descriptor}
      (free : kernel.freeFile? = some f)
      (room : kernel.freeDescriptor? p = some fd)
      (file :
        later.file =
          Function.update kernel.file f
            (filled { kernel.file f with ref := 1 } ip flags
              (if hasFlag flags O_APPEND ∧ node.type = T_FILE then
                node.bytes.length
              else
                0)))
      (ofile :
        later.ofile =
          Function.update kernel.ofile p
            (Function.update (kernel.ofile p) fd (some f)))
      (cwd : later.cwd = kernel.cwd)
      (alive : later.alive = kernel.alive)
      (borrows : Volume.Borrows base after (extra + Volume.one ip)) :
      OpensFile base extra kernel p ip flags node fd.val later after

theorem openFd_ends
    (represents : kernel.fs.Represents vol none)
    (cleared : kernel.Cleared)
    (borrows : Volume.Borrows base vol (extra + Volume.one ip))
    (holds : vol.Holds ip inum)
    (linked : (vol.node inum).nlink ≠ 0) :
    (openFd p ip flags kernel).Ends Exhausted
      (fun result later =>
        ∃ after, later.fs.Represents after none ∧ after.node = vol.node ∧
          OpensFile base extra kernel p ip flags (vol.node inum) result later
            after ∧
          (result ≠ -1 → after.Holds ip inum)) := by
  unfold openFd
  cases free : kernel.freeFile? with
  | none =>
      apply ends_done (filealloc_none free)
      apply ends_dropOpening
      apply ends_onFs
      · exact FileSystem.iunlockput_borrowed represents borrows holds.refers
          linked
      rintro _ fs ⟨represents, same, borrows⟩
      exact ⟨_, represents, same, .noFile free ⟨rfl, rfl, rfl, rfl⟩ borrows,
        absurd rfl⟩
  | some f =>
      have isFree := freeFile_free free
      have handed :
          (kernel.handOut f).file f = { kernel.file f with ref := 1 } :=
        Function.update_self ..
      apply ends_done (filealloc_some free)
      dsimp only
      cases room : kernel.freeDescriptor? p with
      | none =>
          have full : (kernel.handOut f).freeDescriptor? p = none := room
          apply ends_done (fdalloc_none full)
          apply ends_bind
          · exact fileclose_fresh (by rw [handed])
              (by rw [handed]; exact (cleared f isFree).1)
          rintro _ later ⟨sameFs, ofile, cwd, alive, file⟩
          have file : later.file = kernel.file := by
            rw [file, handed]
            have idem :=
              Function.update_idem { kernel.file f with ref := 1 }
                { kernel.file f with
                  type := FileType.none, ref := 0, ip := none, off := 0 }
                kernel.file (a := f)
            exact idem.trans (cleared.restored isFree)
          have sameFs : later.fs = kernel.fs := sameFs
          unfold finishClose forgetOpening
          apply ends_modify
          apply ends_onFs
          · exact FileSystem.iunlock_represents (by rw [sameFs]; exact represents)
              holds.refers
          rintro _ fs isFs
          rw [isFs]
          apply ends_modify
          refine ⟨vol, ?_, rfl, .noDescriptor free room ?_ borrows, absurd rfl⟩
          · rw [← sameFs] at represents
            exact represents
          · exact ⟨file, ofile, cwd, alive⟩
      | some fd =>
          have isRoom : (kernel.handOut f).freeDescriptor? p = some fd := room
          apply ends_done (fdalloc_some isRoom)
          apply ends_done (fillFile_eq f ip flags)
          unfold bindReference
          apply ends_modify
          apply ends_onFs
          · exact FileSystem.iunlock_represents represents holds.refers
          rintro _ fs isFs
          rw [isFs]
          refine ⟨vol, represents, rfl, .opened free room ?_ rfl rfl rfl borrows,
            fun _ => holds⟩
          dsimp only [giveDescriptor, handOut]
          rw [Function.update_self, Function.update_idem]
          unfold startOffset
          rw [(represents.inode holds).2.2.1, (represents.inode holds).2.2.2.2]

theorem SameFiles.freeFile
    {middle : FileKernel}
    (same : kernel.SameFiles middle) :
    middle.freeFile? = kernel.freeFile? := by
  unfold freeFile?
  rw [same.file]

theorem SameFiles.freeDescriptor
    {middle : FileKernel}
    (same : kernel.SameFiles middle)
    (p : Slot) :
    middle.freeDescriptor? p = kernel.freeDescriptor? p := by
  unfold freeDescriptor?
  rw [same.ofile]

theorem SameFiles.trans
    {middle later : FileKernel}
    (first : kernel.SameFiles middle)
    (second : middle.SameFiles later) :
    kernel.SameFiles later where
  file := second.file.trans first.file
  ofile := second.ofile.trans first.ofile
  cwd := second.cwd.trans first.cwd
  alive := second.alive.trans first.alive

theorem SameFiles.cleared
    {middle : FileKernel}
    (same : kernel.SameFiles middle)
    (cleared : kernel.Cleared) :
    middle.Cleared := by
  unfold Cleared
  rw [same.file]
  exact cleared

theorem OpensFile.of_sameFiles
    {middle later : FileKernel}
    {after : Volume}
    {node : Node}
    {result : Int}
    (opens :
      OpensFile base extra middle p ip flags node result later after)
    (same : kernel.SameFiles middle) :
    OpensFile base extra kernel p ip flags node result later after := by
  cases opens with
  | noFile full sameFiles borrows =>
      rw [same.freeFile] at full
      exact .noFile full (same.trans sameFiles) borrows
  | noDescriptor free full sameFiles borrows =>
      rw [same.freeFile] at free
      rw [same.freeDescriptor] at full
      exact .noDescriptor free full (same.trans sameFiles) borrows
  | opened free room file ofile cwd alive borrows =>
      rw [same.freeFile] at free
      rw [same.freeDescriptor] at room
      rw [same.file] at file
      rw [same.ofile] at ofile
      exact .opened free room file ofile (cwd.trans same.cwd)
        (alive.trans same.alive) borrows

/-- `sys_open` empties a file. -/
def Truncates (flags : Nat) (node : Node) : Prop :=
  hasFlag flags O_TRUNC ∧ node.type = T_FILE ∧ opensToWrite flags

instance (flags : Nat) (node : Node) : Decidable (Truncates flags node) :=
  inferInstanceAs (Decidable (_ ∧ _ ∧ _))

/-- What `sys_open` makes of the node that it opens. -/
def openedNode (flags : Nat) (node : Node) : Node :=
  if Truncates flags node then { node with bytes := [] } else node

theorem openedNode_fields (flags : Nat) (node : Node) :
    (openedNode flags node).type = node.type ∧
      (openedNode flags node).nlink = node.nlink := by
  unfold openedNode
  split
  · exact ⟨rfl, rfl⟩
  · exact ⟨rfl, rfl⟩

/-- What `sys_open` has come to from where it holds a node. -/
def OpensHeld
    (base vol : Volume)
    (extra : InodeIndex → Nat)
    (kernel : FileKernel)
    (p : Slot)
    (ip : InodeIndex)
    (inum flags : Nat)
    (result : Int)
    (later : FileKernel) : Prop :=
  ∃ after, later.fs.Represents after none ∧
    after.node =
      (vol.setNode inum (openedNode flags (vol.node inum))).node ∧
    OpensFile base extra kernel p ip flags
      (openedNode flags (vol.node inum)) result later after ∧
    (result ≠ -1 → after.Holds ip inum)

theorem openFd_opened
    {middle : FileKernel}
    (represents :
      middle.fs.Represents
        (vol.setNode inum (openedNode flags (vol.node inum))) none)
    (same : kernel.SameFiles middle)
    (cleared : kernel.Cleared)
    (borrows : Volume.Borrows base vol (extra + Volume.one ip))
    (holds : vol.Holds ip inum)
    (linked : (vol.node inum).nlink ≠ 0) :
    (openFd p ip flags middle).Ends Exhausted
      (OpensHeld base vol extra kernel p ip inum flags) := by
  have isNode :
      (vol.setNode inum (openedNode flags (vol.node inum))).node inum =
        openedNode flags (vol.node inum) :=
    Volume.setNode_node_self _
  have linkedNow :
      ((vol.setNode inum
        (openedNode flags (vol.node inum))).node inum).nlink ≠ 0 := by
    rw [isNode, (openedNode_fields ..).2]
    exact linked
  apply (openFd_ends represents (same.cleared cleared)
    (borrows.setNode inum _) (holds.setNode _) linkedNow).mono
  rintro result later ⟨after, represents, sameNode, opens, holds⟩
  rw [isNode] at opens
  exact ⟨after, represents, sameNode, opens.of_sameFiles same, holds⟩

theorem OpensHeld.of_same
    {held : Volume}
    {middle later : FileKernel}
    {result : Int}
    (opens : OpensHeld base held extra middle p ip inum flags result later)
    (same : held.node = vol.node)
    (sameFiles : kernel.SameFiles middle) :
    OpensHeld base vol extra kernel p ip inum flags result later := by
  obtain ⟨after, represents, sameNode, opens, holds⟩ := opens
  rw [same] at opens
  refine ⟨after, represents, ?_, opens.of_sameFiles sameFiles, holds⟩
  rw [sameNode]
  unfold Volume.setNode
  rw [same]

seal FileSystem.itrunc in
theorem openHeld_ends
    (represents : kernel.fs.Represents vol none)
    (cleared : kernel.Cleared)
    (borrows : Volume.Borrows base vol (extra + Volume.one ip))
    (holds : vol.Holds ip inum)
    (linked : (vol.node inum).nlink ≠ 0) :
    (openHeld p ip flags kernel).Ends Exhausted
      (OpensHeld base vol extra kernel p ip inum flags) := by
  unfold openHeld
  apply ends_onFs_inodeAt
  rw [(represents.inode holds).2.2.1]
  split
  next truncates =>
    have isEmpty : openedNode flags (vol.node inum) = _ := if_pos truncates
    apply ends_onFs
    · exact FileSystem.itrunc_represents represents (Or.inl rfl) holds
    rintro _ fs represents
    rw [← isEmpty] at represents
    exact openFd_opened represents ⟨rfl, rfl, rfl, rfl⟩ cleared borrows holds
      linked
  next kept =>
    have isSame : openedNode flags (vol.node inum) = _ := if_neg kept
    have isVolume :
        vol.setNode inum (openedNode flags (vol.node inum)) = vol := by
      rw [isSame]
      exact Volume.setNode_self
    rw [← isVolume] at represents
    exact openFd_opened represents ⟨rfl, rfl, rfl, rfl⟩ cleared borrows holds
      linked

/-- What `sys_open` has come to. -/
inductive OpensCall
    (base vol : Volume)
    (extra : InodeIndex → Nat)
    (kernel : FileKernel)
    (p : Slot)
    (flags : Nat) :
    OpenTarget → Int → FileKernel → Prop
  | failed
      {later : FileKernel}
      {after : Volume}
      (represents : later.fs.Represents after none)
      (same : after.node = vol.node)
      (borrows : Volume.Borrows base after extra)
      (sameFiles : kernel.SameFiles later) :
      OpensCall base vol extra kernel p flags .missing (-1) later
  | existing
      {inum : Nat}
      {ip : InodeIndex}
      {result : Int}
      {later : FileKernel}
      (usable : vol.Usable inum)
      (opens : OpensHeld base vol extra kernel p ip inum flags result later) :
      OpensCall base vol extra kernel p flags (.existing inum) result later
  | created
      {held : Volume}
      {dp new slot : Nat}
      {name : List UInt8}
      {ip : InodeIndex}
      {result : Int}
      {later : FileKernel}
      (creates : vol.Creates held dp new slot name)
      (opens : OpensHeld base held extra kernel p ip new flags result later) :
      OpensCall base vol extra kernel p flags (.new dp name) result later

/-- What `sys_open` finds for a text; too long ones are refused. -/
def callTarget
    (vol : Volume)
    (flags start : Nat)
    (text : List UInt8) :
    OpenTarget :=
  if text.length < MAXPATH then
    vol.openTarget flags (FileSystem.startOf start text) (pathNames text)
  else
    .missing

theorem openCall_ends
    {start : Nat}
    {text : List UInt8}
    (represents : kernel.fs.Represents vol none)
    (sound : vol.Sound)
    (cleared : kernel.Cleared)
    (borrows : Volume.Borrows base vol extra)
    (stands : FileSystem.Stands vol (kernel.cwd p) start)
    (noNul : 0 ∉ text) :
    (openCall p text flags kernel).Ends Exhausted
      (OpensCall base vol extra kernel p flags
        (callTarget vol flags start text)) := by
  unfold openCall argstr callTarget
  split
  next short =>
    dsimp only
    apply ends_bind (openInode_ends represents sound borrows stands noNul)
    rintro found middle ⟨sameFiles, after, represents, reaches⟩
    generalize vol.openTarget flags (FileSystem.startOf start text)
      (pathNames text) = target at *
    cases reaches with
    | missing same borrows =>
        exact .failed represents same borrows sameFiles
    | existing same borrows holds usable =>
        apply (openHeld_ends represents (sameFiles.cleared cleared) borrows
          holds (by rw [same]; exact usable.linked)).mono
        intro result later opens
        exact .existing usable (opens.of_same same sameFiles)
    | created creates borrows holds =>
        apply (openHeld_ends represents (sameFiles.cleared cleared) borrows
          holds (by rw [creates.node_new]; exact one_ne_zero)).mono
        intro result later opens
        exact .created creates (opens.of_same rfl sameFiles)
  next long =>
    exact .failed represents rfl borrows ⟨rfl, rfl, rfl, rfl⟩

end FileKernel

end MyOS
