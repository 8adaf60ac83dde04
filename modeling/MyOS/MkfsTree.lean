import MyOS.MkfsLayout

namespace MyOS

open Lib
open Routine

/-!
# The tree of the image

The directories that `mkfs` keeps in memory form a tree: every one knows itself
and its parent, is named once below its parent, and every link count is the
number of the entries that name the node.
-/

namespace Mkfs

/-- The entries of all directories. -/
def allEntries (dirs : List ImageDir) : List (List UInt8 × Nat) :=
  dirs.flatMap ImageDir.entries

/-- How many entries name a node. -/
def linkCount (dirs : List ImageDir) (inum : Nat) : Nat :=
  (allEntries dirs).countP fun entry => entry.2 == inum

/-- Names lead from the root to a directory. -/
inductive Leads (dirs : List ImageDir) : List (List UInt8) → Nat → Prop where
  | root :
      Leads dirs [] ROOTINO
  | down
      {names : List (List UInt8)}
      {d e : ImageDir}
      {name : List UInt8}
      (above : Leads dirs names d.inum)
      (isParent : d ∈ dirs)
      (isEntry : (name, e.inum) ∈ d.entries)
      (isDir : e ∈ dirs) :
      Leads dirs (names ++ [name]) e.inum

/-- The directories and files are a tree with the right link counts. -/
structure TreeFits
    (dirs : List ImageDir)
    (files : List ImageFile) : Prop where
  root :
    ∃ d, dirs[0]? = some d ∧ d.inum = ROOTINO ∧ d.path = [slash] ∧
      d.parentInum = ROOTINO
  count : dirs.length ≤ MAX_DIRS
  short : ∀ d ∈ dirs, d.entries.length ≤ MAX_DIRENTS
  linkable :
    ∀ d ∈ dirs, ∀ entry ∈ d.entries, Linkable entry ∧ Plain entry.1
  distinct : ∀ d ∈ dirs, (d.entries.map Prod.fst).Nodup
  dots :
    ∀ d ∈ dirs, ∃ rest,
      d.entries = (dotName, d.inum) :: (dotDotName, d.parentInum) :: rest
  targets :
    ∀ d ∈ dirs, ∀ entry ∈ d.entries, IsProper dotName dotDotName entry.1 →
      (∃ f ∈ files, f.inum = entry.2) ∨
        (entry.2 ≠ ROOTINO ∧
          ∃ e ∈ dirs, e.inum = entry.2 ∧ e.parentInum = d.inum)
  parents : ∀ d ∈ dirs, ∃ e ∈ dirs, e.inum = d.parentInum
  named :
    ∀ d ∈ dirs, ∃ names, d.path = pathText names ∧
      (∀ name ∈ names, Plain name) ∧ Leads dirs names d.inum
  dirLinks : ∀ d ∈ dirs, d.inode.nlink = linkCount dirs d.inum
  fileLinks : ∀ f ∈ files, f.inode.nlink = linkCount dirs f.inum
  fileNamed : ∀ f ∈ files, linkCount dirs f.inum ≠ 0

/-- A directory has become another one with more entries. -/
structure Extends (d later : ImageDir) : Prop where
  path : later.path = d.path
  inum : later.inum = d.inum
  parentInum : later.parentInum = d.parentInum
  entries : ∀ entry ∈ d.entries, entry ∈ later.entries

/-- Every directory is where it was, with more entries. -/
def Grown (dirs later : List ImageDir) : Prop :=
  ∀ (index : Nat) (d : ImageDir), dirs[index]? = some d →
    ∃ e, later[index]? = some e ∧ Extends d e

variable {dirs later : List ImageDir} {files : List ImageFile}
variable {s : Mkfs} {dir index : Nat} {d e changed new : ImageDir}
variable {name : List UInt8} {names : List (List UInt8)} {inum : Nat}

theorem Extends.refl (d : ImageDir) : Extends d d :=
  ⟨rfl, rfl, rfl, fun _ member => member⟩

theorem Extends.trans
    {last : ImageDir}
    (first : Extends d e)
    (second : Extends e last) :
    Extends d last where
  path := second.path.trans first.path
  inum := second.inum.trans first.inum
  parentInum := second.parentInum.trans first.parentInum
  entries := fun entry member =>
    second.entries entry (first.entries entry member)

theorem Grown.refl (dirs : List ImageDir) : Grown dirs dirs :=
  fun _ d isItem => ⟨d, isItem, Extends.refl d⟩

theorem Grown.trans
    {last : List ImageDir}
    (first : Grown dirs later)
    (second : Grown later last) :
    Grown dirs last := by
  intro index d isItem
  obtain ⟨e, isLater, extended⟩ := first index d isItem
  obtain ⟨g, isLast, further⟩ := second index e isLater
  exact ⟨g, isLast, extended.trans further⟩

theorem Grown.mem
    (grown : Grown dirs later)
    (isDir : d ∈ dirs) :
    ∃ e ∈ later, Extends d e := by
  obtain ⟨index, isItem⟩ := List.mem_iff_getElem?.mp isDir
  obtain ⟨e, isLater, extended⟩ := grown index d isItem
  exact ⟨e, List.mem_of_getElem? isLater, extended⟩

theorem Leads.grown
    (leads : Leads dirs names inum)
    (grown : Grown dirs later) :
    Leads later names inum := by
  induction leads with
  | root =>
      exact .root
  | @down names d e name above isParent isEntry isDir inductionHypothesis =>
      obtain ⟨parent, isParent, parentExtended⟩ := grown.mem isParent
      obtain ⟨child, isChild, childExtended⟩ := grown.mem isDir
      rw [← childExtended.inum] at isEntry ⊢
      rw [← parentExtended.inum] at inductionHypothesis
      exact .down inductionHypothesis isParent
        (parentExtended.entries _ isEntry) isChild

theorem Grown.set
    (isItem : dirs[dir]? = some d)
    (extended : Extends d changed) :
    Grown dirs (dirs.set dir changed) := by
  intro index g isOther
  by_cases here : dir = index
  · rw [← here] at isOther ⊢
    rw [isItem] at isOther
    cases isOther
    have inside := (List.getElem?_eq_some_iff.mp isItem).1
    exact ⟨changed, List.getElem?_set_self inside, extended⟩
  · exact ⟨g, (List.getElem?_set_ne here).trans isOther, Extends.refl g⟩

theorem Grown.append (more : List ImageDir) : Grown dirs (dirs ++ more) := by
  intro index g isItem
  have inside := (List.getElem?_eq_some_iff.mp isItem).1
  exact ⟨g, (List.getElem?_append_left inside).trans isItem, Extends.refl g⟩

/-!
## Link counts
-/

theorem linkCount_set
    {entry : List UInt8 × Nat}
    (isItem : dirs[dir]? = some d)
    (isChanged : changed.entries = d.entries ++ [entry])
    (inum : Nat) :
    linkCount (dirs.set dir changed) inum =
      linkCount dirs inum + if entry.2 = inum then 1 else 0 := by
  obtain ⟨inside, atIndex⟩ := List.getElem?_eq_some_iff.mp isItem
  obtain ⟨front, back, isDirs, _, isSet⟩ :=
    @List.exists_of_set _ _ changed _ inside
  rw [atIndex] at isDirs
  rw [isSet]
  conv_rhs => rw [isDirs]
  unfold linkCount allEntries
  simp only [List.flatMap_append, List.flatMap_cons, List.countP_append,
    isChanged, List.countP_singleton, beq_iff_eq]
  omega

theorem linkCount_append (inum : Nat) :
    linkCount (dirs ++ [new]) inum =
      linkCount dirs inum +
        new.entries.countP fun entry => entry.2 == inum := by
  unfold linkCount allEntries
  rw [List.flatMap_append, List.flatMap_singleton, List.countP_append]

theorem TreeFits.linkCount_le
    (fits : TreeFits dirs files)
    (inum : Nat) :
    linkCount dirs inum ≤ MAX_DIRS * MAX_DIRENTS := by
  have total :
      ∀ (list : List ImageDir),
        (∀ d ∈ list, d.entries.length ≤ MAX_DIRENTS) →
          (allEntries list).length ≤ list.length * MAX_DIRENTS := by
    intro list short
    induction list with
    | nil =>
        exact Nat.zero_le _
    | cons head rest inductionHypothesis =>
        have below :=
          inductionHypothesis fun d member =>
            short d (List.mem_cons_of_mem head member)
        have isHead := short head List.mem_cons_self
        unfold allEntries at below ⊢
        rw [List.flatMap_cons, List.length_append, List.length_cons,
          Nat.succ_mul]
        omega
  calc
    linkCount dirs inum ≤ (allEntries dirs).length := List.countP_le_length
    _ ≤ dirs.length * MAX_DIRENTS := total dirs fits.short
    _ ≤ MAX_DIRS * MAX_DIRENTS := Nat.mul_le_mul_right _ fits.count

theorem TreeFits.entry_cases
    (fits : TreeFits dirs files)
    (isDir : d ∈ dirs)
    {entry : List UInt8 × Nat}
    (member : entry ∈ d.entries) :
    entry = (dotName, d.inum) ∨ entry = (dotDotName, d.parentInum) ∨
      IsProper dotName dotDotName entry.1 := by
  obtain ⟨rest, isEntries⟩ := fits.dots d isDir
  have distinct := fits.distinct d isDir
  rw [isEntries] at member distinct
  rcases List.mem_cons.mp member with isDot | isRest
  · exact Or.inl isDot
  · rcases List.mem_cons.mp isRest with isDotDot | isLater
    · exact Or.inr (Or.inl isDotDot)
    · rw [List.map_cons, List.map_cons, List.nodup_cons,
        List.nodup_cons] at distinct
      have isName := List.mem_map_of_mem (f := Prod.fst) isLater
      refine Or.inr (Or.inr ⟨?_, ?_⟩)
      · intro same
        rw [same] at isName
        exact distinct.1 (List.mem_cons_of_mem _ isName)
      · intro same
        rw [same] at isName
        exact distinct.2.1 isName

theorem TreeFits.entry_mem
    (fits : TreeFits dirs files)
    (isDir : d ∈ dirs)
    {entry : List UInt8 × Nat}
    (member : entry ∈ d.entries) :
    (∃ e ∈ dirs, e.inum = entry.2) ∨ ∃ f ∈ files, f.inum = entry.2 := by
  rcases fits.entry_cases isDir member with isDot | isDotDot | proper
  · rw [isDot]
    exact Or.inl ⟨d, isDir, rfl⟩
  · rw [isDotDot]
    exact Or.inl (fits.parents d isDir)
  · rcases fits.targets d isDir entry member proper with isFile | isChild
    · exact Or.inr isFile
    · obtain ⟨_, e, isDir, isInum, _⟩ := isChild
      exact Or.inl ⟨e, isDir, isInum⟩

theorem TreeFits.linkCount_fresh
    (fits : TreeFits dirs files)
    (noDir : ∀ d ∈ dirs, d.inum ≠ inum)
    (noFile : ∀ f ∈ files, f.inum ≠ inum) :
    linkCount dirs inum = 0 := by
  unfold linkCount
  rw [List.countP_eq_zero]
  intro entry member
  obtain ⟨d, isDir, isEntry⟩ := List.mem_flatMap.mp member
  rw [beq_iff_eq]
  intro same
  rcases fits.entry_mem isDir isEntry with ⟨e, isOther, isInum⟩ |
    ⟨f, isFile, isInum⟩
  · exact noDir e isOther (isInum.trans same)
  · exact noFile f isFile (isInum.trans same)

/-!
## More entries
-/

/-- A directory with another entry. -/
def withNewEntry (d : ImageDir) (name : List UInt8) (inum : Nat) : ImageDir :=
  { d with entries := d.entries ++ [(name, inum)] }

theorem extends_withNewEntry : Extends d (withNewEntry d name inum) where
  path := rfl
  inum := rfl
  parentInum := rfl
  entries := fun _ member => List.mem_append_left _ member

/-- The entries of one directory are in order. -/
structure DirFits (d : ImageDir) : Prop where
  short : d.entries.length ≤ MAX_DIRENTS
  linkable : ∀ entry ∈ d.entries, Linkable entry ∧ Plain entry.1
  distinct : (d.entries.map Prod.fst).Nodup
  dots :
    ∃ rest,
      d.entries = (dotName, d.inum) :: (dotDotName, d.parentInum) :: rest

theorem TreeFits.dirFits
    (fits : TreeFits dirs files)
    (isDir : d ∈ dirs) :
    DirFits d :=
  ⟨fits.short d isDir, fits.linkable d isDir, fits.distinct d isDir,
    fits.dots d isDir⟩

theorem DirFits.withNewEntry
    (fits : DirFits d)
    (isNew : name ∉ d.entries.map Prod.fst)
    (linkable : Linkable (name, inum))
    (plain : Plain name)
    (room : d.entries.length < MAX_DIRENTS) :
    DirFits (withNewEntry d name inum) where
  short := by
    unfold Mkfs.withNewEntry
    rw [List.length_append]
    exact room
  linkable := by
    intro entry isEntry
    rcases List.mem_append.mp isEntry with isOld | isLast
    · exact fits.linkable entry isOld
    · rw [List.mem_singleton.mp isLast]
      exact ⟨linkable, plain⟩
  distinct := by
    unfold Mkfs.withNewEntry
    rw [List.map_append, List.map_singleton]
    apply fits.distinct.append (List.nodup_singleton _)
    rw [List.disjoint_singleton]
    exact isNew
  dots := by
    obtain ⟨rest, isEntries⟩ := fits.dots
    refine ⟨rest ++ [(name, inum)], ?_⟩
    unfold Mkfs.withNewEntry
    rw [isEntries, List.cons_append, List.cons_append]

/-!
What holds of the directories still does so when they have grown.
-/

theorem TreeFits.root_grown
    (fits : TreeFits dirs files)
    (grown : Grown dirs later) :
    ∃ d, later[0]? = some d ∧ d.inum = ROOTINO ∧ d.path = [slash] ∧
      d.parentInum = ROOTINO := by
  obtain ⟨first, isFirst, isInum, isPath, isParent⟩ := fits.root
  obtain ⟨now, isNow, extended⟩ := grown 0 first isFirst
  exact ⟨now, isNow, extended.inum.trans isInum,
    extended.path.trans isPath, extended.parentInum.trans isParent⟩

theorem TreeFits.targets_grown
    {more : List ImageFile}
    (fits : TreeFits dirs files)
    (grown : Grown dirs later)
    (kept : ∀ f ∈ files, ∃ g ∈ more, g.inum = f.inum)
    (isDir : d ∈ dirs)
    (entry : List UInt8 × Nat)
    (isEntry : entry ∈ d.entries)
    (proper : IsProper dotName dotDotName entry.1) :
    (∃ g ∈ more, g.inum = entry.2) ∨
      (entry.2 ≠ ROOTINO ∧
        ∃ e ∈ later, e.inum = entry.2 ∧ e.parentInum = d.inum) := by
  rcases fits.targets d isDir entry isEntry proper with
    ⟨f, isOld, isInum⟩ | ⟨notRoot, g, isChild, isInum, isParent⟩
  · obtain ⟨g, isMore, isSame⟩ := kept f isOld
    exact Or.inl ⟨g, isMore, isSame.trans isInum⟩
  · obtain ⟨now, isNow, extended⟩ := grown.mem isChild
    exact Or.inr ⟨notRoot, now, isNow, extended.inum.trans isInum,
      extended.parentInum.trans isParent⟩

theorem TreeFits.parents_grown
    (fits : TreeFits dirs files)
    (grown : Grown dirs later)
    (isDir : d ∈ dirs) :
    ∃ e ∈ later, e.inum = d.parentInum := by
  obtain ⟨parent, isParent, isInum⟩ := fits.parents d isDir
  obtain ⟨now, isNow, extended⟩ := grown.mem isParent
  exact ⟨now, isNow, extended.inum.trans isInum⟩

theorem TreeFits.named_grown
    (fits : TreeFits dirs files)
    (grown : Grown dirs later)
    (isDir : d ∈ dirs) :
    ∃ names, d.path = pathText names ∧ (∀ name ∈ names, Plain name) ∧
      Leads later names d.inum := by
  obtain ⟨names, isPath, isPlain, leads⟩ := fits.named d isDir
  exact ⟨names, isPath, isPlain, leads.grown grown⟩

theorem TreeFits.addEntry
    {more : List ImageFile}
    (fits : TreeFits dirs files)
    (isItem : dirs[dir]? = some d)
    (isNew : name ∉ d.entries.map Prod.fst)
    (linkable : Linkable (name, inum))
    (plain : Plain name)
    (room : d.entries.length < MAX_DIRENTS)
    (noDir : ∀ e ∈ dirs, e.inum ≠ inum)
    (kept : ∀ f ∈ files, ∃ g ∈ more, g.inum = f.inum)
    (origin : ∀ g ∈ more, (∃ f ∈ files, f.inum = g.inum) ∨ inum = g.inum)
    (isFile : ∃ g ∈ more, g.inum = inum)
    (links :
      ∀ g ∈ more, g.inode.nlink =
        linkCount dirs g.inum + if inum = g.inum then 1 else 0) :
    TreeFits (dirs.set dir (withNewEntry d name inum)) more := by
  have isDir : d ∈ dirs := List.mem_of_getElem? isItem
  have grown : Grown dirs (dirs.set dir (withNewEntry d name inum)) :=
    Grown.set isItem extends_withNewEntry
  have members :
      ∀ e ∈ dirs.set dir (withNewEntry d name inum),
        e = withNewEntry d name inum ∨ e ∈ dirs :=
    fun e member => (List.mem_or_eq_of_mem_set member).symm
  have count : ∀ place, linkCount (dirs.set dir (withNewEntry d name inum))
      place = linkCount dirs place + if inum = place then 1 else 0 :=
    linkCount_set isItem
      (rfl :
        (withNewEntry d name inum).entries = d.entries ++ [(name, inum)])
  have original :
      ∀ e ∈ dirs.set dir (withNewEntry d name inum),
        ∃ old ∈ dirs, Extends old e ∧ e.inode = old.inode := by
    intro e member
    rcases members e member with isChanged | isOther
    · rw [isChanged]
      exact ⟨d, isDir, extends_withNewEntry, rfl⟩
    · exact ⟨e, isOther, Extends.refl e, rfl⟩
  have dirFits :
      ∀ e ∈ dirs.set dir (withNewEntry d name inum), DirFits e := by
    intro e member
    rcases members e member with isChanged | isOther
    · rw [isChanged]
      exact (fits.dirFits isDir).withNewEntry isNew linkable plain room
    · exact fits.dirFits isOther
  exact {
    root := fits.root_grown grown
    count := by
      rw [List.length_set]
      exact fits.count
    short := fun e member => (dirFits e member).short
    linkable := fun e member => (dirFits e member).linkable
    distinct := fun e member => (dirFits e member).distinct
    dots := fun e member => (dirFits e member).dots
    targets := by
      intro e member entry isEntry proper
      rcases members e member with isChanged | isOther
      · rw [isChanged] at isEntry ⊢
        rcases List.mem_append.mp isEntry with isOld | isLast
        · exact fits.targets_grown grown kept isDir entry isOld proper
        · rw [List.mem_singleton.mp isLast]
          exact Or.inl isFile
      · exact fits.targets_grown grown kept isOther entry isEntry proper
    parents := by
      intro e member
      obtain ⟨old, isOld, extended, _⟩ := original e member
      rw [extended.parentInum]
      exact fits.parents_grown grown isOld
    named := by
      intro e member
      obtain ⟨old, isOld, extended, _⟩ := original e member
      rw [extended.path, extended.inum]
      exact fits.named_grown grown isOld
    dirLinks := by
      intro e member
      obtain ⟨old, isOld, extended, sameInode⟩ := original e member
      rw [sameInode, extended.inum, count, if_neg (noDir old isOld).symm]
      exact fits.dirLinks old isOld
    fileLinks := by
      intro g member
      rw [count]
      exact links g member
    fileNamed := by
      intro g member
      rw [count]
      rcases origin g member with ⟨f, isOld, isInum⟩ | isNamed
      · have named := fits.fileNamed f isOld
        rw [isInum] at named
        omega
      · rw [if_pos isNamed]
        exact Nat.succ_ne_zero _
  }

/-- A directory with an entry for a subdirectory. -/
def withNewChild (d : ImageDir) (name : List UInt8) (inum : Nat) : ImageDir :=
  { withNewEntry d name inum with inode := oneMoreLink d.inode }

theorem extends_withNewChild : Extends d (withNewChild d name inum) where
  path := rfl
  inum := rfl
  parentInum := rfl
  entries := fun _ member => List.mem_append_left _ member

/-- A new directory. -/
def emptyDir (path : List UInt8) (inum parentInum blockno : Nat) : ImageDir where
  path := path
  inum := inum
  parentInum := parentInum
  blockno := blockno
  inode := dirInode blockno
  entries := [(dotName, inum), (dotDotName, parentInum)]

theorem nlink_oneMoreLink
    {inode : Dinode}
    (few : inode.nlink ≤ MAX_DIRS * MAX_DIRENTS) :
    (oneMoreLink inode).nlink = inode.nlink + 1 := by
  have small : MAX_DIRS * MAX_DIRENTS + 1 < shortModulus := by decide
  unfold oneMoreLink
  exact Nat.mod_eq_of_lt (by omega)

theorem linkable_dots
    (narrow : inum < shortModulus)
    (positive : inum ≠ 0) :
    (Linkable (dotName, inum) ∧ Plain dotName) ∧
      Linkable (dotDotName, inum) ∧ Plain dotDotName :=
  ⟨⟨⟨(by decide : 0 ∉ dotName), (by decide : dotName.length < DIRSIZ), narrow,
      positive⟩, by decide, by decide⟩,
    ⟨(by decide : 0 ∉ dotDotName), (by decide : dotDotName.length < DIRSIZ),
      narrow, positive⟩, by decide, by decide⟩

theorem emptyDir_dirFits
    {path : List UInt8}
    {parentInum blockno : Nat}
    (narrow : inum < shortModulus)
    (inUse : inum ≠ 0)
    (parentNarrow : parentInum < shortModulus)
    (parentInUse : parentInum ≠ 0) :
    DirFits (emptyDir path inum parentInum blockno) where
  short := (by decide : 2 ≤ MAX_DIRENTS)
  linkable := by
    intro entry isEntry
    rcases List.mem_pair.mp isEntry with isDot | isDotDot
    · rw [isDot]
      exact (linkable_dots narrow inUse).1
    · rw [isDotDot]
      exact (linkable_dots parentNarrow parentInUse).2
  distinct := (by decide : [dotName, dotDotName].Nodup)
  dots := ⟨[], rfl⟩

theorem plain_snoc
    (plain : ∀ other ∈ names, Plain other)
    (isPlain : Plain name) :
    ∀ other ∈ names ++ [name], Plain other := by
  intro other member
  rcases List.mem_append.mp member with isName | isLast
  · exact plain other isName
  · rw [List.mem_singleton.mp isLast]
    exact isPlain

theorem TreeFits.makeDir
    {path : List UInt8}
    {blockno : Nat}
    (fits : TreeFits dirs files)
    (distinctDirs : (dirs.map ImageDir.inum).Nodup)
    (apart : ∀ f ∈ files, f.inum ≠ d.inum)
    (isItem : dirs[dir]? = some d)
    (isNew : name ∉ d.entries.map Prod.fst)
    (linkable : Linkable (name, inum))
    (plain : Plain name)
    (narrow : d.inum < shortModulus)
    (positive : d.inum ≠ 0)
    (room : d.entries.length < MAX_DIRENTS)
    (dirRoom : dirs.length < MAX_DIRS)
    (noDir : ∀ e ∈ dirs, e.inum ≠ inum)
    (noFile : ∀ f ∈ files, f.inum ≠ inum)
    (isPath : path = pathText (names ++ [name]))
    (namesPlain : ∀ other ∈ names, Plain other)
    (leads : Leads dirs names d.inum) :
    TreeFits
      (dirs.set dir (withNewChild d name inum) ++
        [emptyDir path inum d.inum blockno]) files := by
  have isDir : d ∈ dirs := List.mem_of_getElem? isItem
  have notRoot : inum ≠ ROOTINO := by
    obtain ⟨first, isFirst, isInum, _⟩ := fits.root
    intro same
    exact noDir first (List.mem_of_getElem? isFirst) (isInum.trans same.symm)
  have grownSet : Grown dirs (dirs.set dir (withNewChild d name inum)) :=
    Grown.set isItem extends_withNewChild
  generalize isLater :
    dirs.set dir (withNewChild d name inum) ++
      [emptyDir path inum d.inum blockno] = later
  have grown : Grown dirs later := by
    rw [← isLater]
    exact grownSet.trans (Grown.append _)
  have inSet :
      withNewChild d name inum ∈ later := by
    rw [← isLater]
    exact List.mem_append_left _ (mem_set_self isItem _)
  have inLast : emptyDir path inum d.inum blockno ∈ later := by
    rw [← isLater]
    exact List.mem_append_right _ (List.mem_singleton_self _)
  have members :
      ∀ e ∈ later,
        e = emptyDir path inum d.inum blockno ∨
          e = withNewChild d name inum ∨ (e ∈ dirs ∧ e.inum ≠ d.inum) := by
    intro e member
    rw [← isLater] at member
    rcases List.mem_append.mp member with isSet | isLast
    · exact Or.inr (mem_set_of_nodup distinctDirs isItem isSet)
    · exact Or.inl (List.mem_singleton.mp isLast)
  have count :
      ∀ place, linkCount later place =
        linkCount dirs place + (if inum = place then 1 else 0) +
          ((if inum = place then 1 else 0) +
            if d.inum = place then 1 else 0) := by
    intro place
    rw [← isLater, linkCount_append,
      linkCount_set isItem
        (rfl :
          (withNewChild d name inum).entries = d.entries ++ [(name, inum)])]
    unfold emptyDir
    simp only [List.countP_cons, List.countP_nil, beq_iff_eq, Nat.zero_add]
    omega
  have kept : ∀ f ∈ files, ∃ g ∈ files, g.inum = f.inum :=
    fun f member => ⟨f, member, rfl⟩
  have dirFits : ∀ e ∈ later, DirFits e := by
    intro e member
    rcases members e member with isLast | isChanged | ⟨isOther, _⟩
    · rw [isLast]
      exact emptyDir_dirFits linkable.narrow linkable.inUse narrow positive
    · rw [isChanged]
      have changedFits :=
        (fits.dirFits isDir).withNewEntry isNew linkable plain room
      exact ⟨changedFits.short, changedFits.linkable, changedFits.distinct,
        changedFits.dots⟩
    · exact fits.dirFits isOther
  exact {
    root := fits.root_grown grown
    count := by
      rw [← isLater, List.length_append, List.length_set]
      exact dirRoom
    short := fun e member => (dirFits e member).short
    linkable := fun e member => (dirFits e member).linkable
    distinct := fun e member => (dirFits e member).distinct
    dots := fun e member => (dirFits e member).dots
    targets := by
      intro e member entry isEntry proper
      rcases members e member with isLast | isChanged | ⟨isOther, _⟩
      · rw [isLast] at isEntry
        rcases List.mem_pair.mp isEntry with isDot | isDotDot
        · rw [isDot] at proper
          exact absurd rfl proper.1
        · rw [isDotDot] at proper
          exact absurd rfl proper.2
      · rw [isChanged] at isEntry ⊢
        rcases List.mem_append.mp isEntry with isOld | isChild
        · exact fits.targets_grown grown kept isDir entry isOld proper
        · rw [List.mem_singleton.mp isChild]
          exact Or.inr ⟨notRoot, _, inLast, rfl, rfl⟩
      · exact fits.targets_grown grown kept isOther entry isEntry proper
    parents := by
      intro e member
      rcases members e member with isLast | isChanged | ⟨isOther, _⟩
      · rw [isLast]
        exact ⟨_, inSet, rfl⟩
      · rw [isChanged]
        exact fits.parents_grown (d := d) grown isDir
      · exact fits.parents_grown grown isOther
    named := by
      intro e member
      rcases members e member with isLast | isChanged | ⟨isOther, _⟩
      · rw [isLast]
        have isEntry :
            (name, (emptyDir path inum d.inum blockno).inum) ∈
              (withNewChild d name inum).entries :=
          List.mem_append_right _ (List.mem_singleton_self _)
        exact ⟨names ++ [name], isPath, plain_snoc namesPlain plain,
          .down (d := withNewChild d name inum) (leads.grown grown) inSet
            isEntry inLast⟩
      · rw [isChanged]
        exact fits.named_grown (d := d) grown isDir
      · exact fits.named_grown grown isOther
    dirLinks := by
      intro e member
      rw [count]
      rcases members e member with isLast | isChanged | ⟨isOther, different⟩
      · rw [isLast]
        unfold emptyDir
        dsimp only
        rw [fits.linkCount_fresh noDir noFile, if_pos rfl,
          if_neg (noDir d isDir)]
        rfl
      · rw [isChanged]
        unfold withNewChild withNewEntry
        dsimp only
        have few : d.inode.nlink ≤ MAX_DIRS * MAX_DIRENTS := by
          rw [fits.dirLinks d isDir]
          exact fits.linkCount_le d.inum
        rw [nlink_oneMoreLink few, fits.dirLinks d isDir,
          if_neg (noDir d isDir).symm, if_pos rfl]
      · rw [if_neg (noDir e isOther).symm, if_neg different.symm]
        exact fits.dirLinks e isOther
    fileLinks := by
      intro f member
      rw [count, if_neg (noFile f member).symm, if_neg (apart f member).symm]
      exact fits.fileLinks f member
    fileNamed := by
      intro f member
      rw [count, if_neg (noFile f member).symm, if_neg (apart f member).symm]
      exact fits.fileNamed f member
  }

end Mkfs

end MyOS
