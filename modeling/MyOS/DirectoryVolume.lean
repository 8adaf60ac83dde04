import MyOS.Directory
import MyOS.InodeTable
import MyOS.Lib.Paths

namespace MyOS

open Lib
open Routine

/-!
# Directories on a volume

What a directory is for: a list of entries in which a name is looked up, and a
graph through which paths lead.  `dirlookup` and `namei`, alone, do what the
volume says, and give back every handle that they have used on the way.
-/

/-- The names that `skipelem` takes a path apart into. -/
def pathNames (path : List UInt8) : List (List UInt8) :=
  (components slash path).map fun component => component.take DIRSIZ

theorem skipelem_none
    {path : List UInt8}
    (isNone : skipelem path = none) :
    pathNames path = [] := by
  unfold skipelem at isNone
  cases start : path.dropWhile (· == slash) with
  | nil =>
      unfold pathNames
      rw [← components_dropWhile, start, components_nil]
      rfl
  | cons head tail =>
      rw [start] at isNone
      cases isNone

theorem skipelem_some
    {path rest name : List UInt8}
    (isSome : skipelem path = some (rest, name)) :
    pathNames path = name :: pathNames rest := by
  unfold skipelem at isSome
  cases start : path.dropWhile (· == slash) with
  | nil =>
      rw [start] at isSome
      cases isSome
  | cons head tail =>
      rw [start] at isSome
      have notSlash : head ≠ slash := by
        have stops := List.head?_dropWhile_not (· == slash) path
        rw [start] at stops
        simpa using stops
      have nonempty : (head :: tail).takeWhile (· != slash) ≠ [] := by
        rw [List.takeWhile_cons_of_pos (by simpa using notSlash)]
        exact List.cons_ne_nil _ _
      cases isSome
      unfold pathNames
      rw [components_dropWhile, ← components_dropWhile, start,
        components_takeWhile nonempty]
      rfl

theorem skipelem_rest
    {path rest name : List UInt8}
    (isSome : skipelem path = some (rest, name)) :
    rest = [] ↔ pathNames rest = [] := by
  constructor
  · intro isEnd
    rw [isEnd]
    rfl
  · intro noNames
    unfold skipelem at isSome
    cases start : path.dropWhile (· == slash) with
    | nil =>
        rw [start] at isSome
        cases isSome
    | cons head tail =>
        rw [start] at isSome
        obtain ⟨isRest, _⟩ := Prod.ext_iff.mp (Option.some.inj isSome)
        cases isCons : rest with
        | nil =>
            rfl
        | cons first others =>
            have notSlash : first ≠ slash := by
              have stops := List.head?_dropWhile_not (· == slash)
                ((head :: tail).dropWhile (· != slash))
              have isRest :
                  ((head :: tail).dropWhile (· != slash)).dropWhile
                    (· == slash) = first :: others :=
                isRest.trans isCons
              rw [isRest] at stops
              simpa using stops
            have nonempty : rest.takeWhile (· != slash) ≠ [] := by
              rw [isCons, List.takeWhile_cons_of_pos (by simpa using notSlash)]
              exact List.cons_ne_nil _ _
            unfold pathNames at noNames
            rw [components_takeWhile nonempty] at noNames
            cases noNames

theorem nul_notMem_pathNames
    {path name : List UInt8}
    (noNul : 0 ∉ path)
    (member : name ∈ pathNames path) :
    0 ∉ name := by
  obtain ⟨component, isComponent, isName⟩ := List.mem_map.mp member
  rw [← isName]
  intro inName
  exact noNul (mem_of_mem_components isComponent (List.mem_of_mem_take inName))

/-!
## Entries
-/

/-- An entry of a directory. -/
def direntAt (bytes : List UInt8) (index : Nat) : Dirent :=
  Dirent.ofBytes (window bytes (direntSize * index) direntSize)

/-- An entry that is in use and has a name. -/
def Dirent.isNamed (entry : Dirent) (name : List UInt8) : Bool :=
  decide (entry.inum ≠ 0) && matchesFrom entry.name (nameByte name) DIRSIZ 0

theorem Dirent.isNamed_iff
    {entry : Dirent}
    {name : List UInt8} :
    entry.isNamed name = true ↔
      entry.inum ≠ 0 ∧
        matchesFrom entry.name (nameByte name) DIRSIZ 0 = true := by
  unfold isNamed
  rw [Bool.and_eq_true, decide_eq_true_eq]

/-- The first entry with a name, from an entry on. -/
def slotFrom (bytes name : List UInt8) (index : Nat) : Option Nat :=
  (List.range' index (bytes.length / direntSize - index)).find? fun index =>
    (direntAt bytes index).isNamed name

/-- The first entry with a name. -/
def slotOf (bytes name : List UInt8) : Option Nat :=
  slotFrom bytes name 0

/-- The inode that a name stands for in a directory. -/
def lookup (bytes name : List UInt8) : Option Nat :=
  (slotOf bytes name).map fun index => (direntAt bytes index).inum

namespace Volume

/-- A node is a directory. -/
def IsDir (vol : Volume) (inum : Nat) : Prop :=
  (vol.node inum).type = T_DIR

instance (vol : Volume) (inum : Nat) : Decidable (vol.IsDir inum) :=
  inferInstanceAs (Decidable (_ = _))

/-- The node that a name, which is a C string, leads to. -/
def child (vol : Volume) (inum : Nat) (name : List UInt8) : Option Nat :=
  if vol.IsDir inum ∧ 0 ∉ name then
    lookup (vol.node inum).bytes name
  else
    none

/-- The directory that the last name is in, and this name. -/
def parentOf (vol : Volume) (inum : Nat) :
    List (List UInt8) → Option (Nat × List UInt8)
  | [] => none
  | name :: names =>
      if names = [] then
        if vol.IsDir inum then some (inum, name) else none
      else
        (vol.child inum name).bind fun next => vol.parentOf next names

/-- Directories consist of entries, and these lead to linked nodes. -/
structure Sound (vol : Volume) : Prop where
  whole :
    ∀ {inum}, vol.IsDir inum → direntSize ∣ (vol.node inum).bytes.length
  usable :
    ∀ {inum index}, vol.IsDir inum →
      direntSize * index < (vol.node inum).bytes.length →
        (direntAt (vol.node inum).bytes index).inum ≠ 0 →
          vol.Usable (direntAt (vol.node inum).bytes index).inum
  root : vol.Usable ROOTINO ∧ vol.IsDir ROOTINO

/-- The names `.` and `..` mean what they should. -/
def Tree (vol : Volume) : Prop :=
  Climbs vol.child vol.IsDir ROOTINO dotName dotDotName

/-- A directory stands at a path from the root. -/
def At (vol : Volume) (path : List (List UInt8)) (inum : Nat) : Prop :=
  Located vol.child vol.IsDir ROOTINO dotName dotDotName path inum

variable {vol : Volume} {inum : Nat} {name : List UInt8}

theorem child_of_isDir
    (isDir : vol.IsDir inum)
    (noNul : 0 ∉ name) :
    vol.child inum name = lookup (vol.node inum).bytes name :=
  if_pos ⟨isDir, noNul⟩

theorem isDir_of_child
    {next : Nat}
    (isChild : vol.child inum name = some next) :
    vol.IsDir inum ∧ 0 ∉ name := by
  by_contra neither
  unfold child at isChild
  rw [if_neg neither] at isChild
  cases isChild

theorem child_of_node
    {later : Volume}
    (same : later.node = vol.node) :
    later.child = vol.child := by
  obtain ⟨node, handle⟩ := later
  have same : node = vol.node := same
  subst same
  rfl

theorem parentOf_some
    {names : List (List UInt8)}
    {dp : Nat}
    (isParent : vol.parentOf inum names = some (dp, name)) :
    vol.IsDir dp ∧
      ∃ parents, names = parents ++ [name] ∧
        walk vol.child inum parents = some dp := by
  induction names generalizing inum with
  | nil =>
      cases isParent
  | cons first names inductionHypothesis =>
      unfold parentOf at isParent
      split at isParent
      next isLast =>
        split at isParent
        next isDir =>
          cases isParent
          refine ⟨isDir, [], ?_, rfl⟩
          rw [isLast]
          rfl
        · cases isParent
      · obtain ⟨next, isChild, isParent⟩ :=
          Option.bind_eq_some_iff.mp isParent
        obtain ⟨isDir, parents, isNames, walks⟩ :=
          inductionHypothesis isParent
        refine ⟨isDir, first :: parents, ?_, ?_⟩
        · rw [isNames]
          rfl
        · rw [walk, isChild]
          exact walks

theorem parentOf_of_node
    {later : Volume}
    (same : later.node = vol.node) :
    later.parentOf = vol.parentOf := by
  obtain ⟨node, handle⟩ := later
  have same : node = vol.node := same
  subst same
  funext inum names
  induction names generalizing inum with
  | nil =>
      rfl
  | cons first names inductionHypothesis =>
      unfold parentOf
      by_cases isLast : names = []
      · rw [if_pos isLast, if_pos isLast]
        rfl
      · rw [if_neg isLast, if_neg isLast]
        exact congrArg (Option.bind (vol.child inum first))
          (funext inductionHypothesis)

theorem isDir_of_node
    {later : Volume}
    (same : later.node = vol.node) :
    later.IsDir = vol.IsDir := by
  unfold IsDir
  rw [same]

theorem Usable.of_node
    {later : Volume}
    (usable : vol.Usable inum)
    (same : later.node = vol.node) :
    later.Usable inum where
  inArea := usable.inArea
  inUse := by
    rw [same]
    exact usable.inUse
  linked := by
    rw [same]
    exact usable.linked

theorem Refers.load
    {ip : InodeIndex}
    (refers : vol.Refers ip inum) :
    (vol.setHandle ip { vol.handle ip with valid := true }).Holds ip inum where
  isInum := by
    rw [setHandle_handle_self]
    exact refers.isInum
  referenced := by
    rw [setHandle_handle_self]
    exact refers.referenced
  valid := by
    rw [setHandle_handle_self]

theorem Holds.refers
    {ip : InodeIndex}
    (holds : vol.Holds ip inum) :
    vol.Refers ip inum :=
  ⟨holds.isInum, holds.referenced⟩

theorem Refers.of_gets
    {ip other : InodeIndex}
    {node : Nat}
    {later : Volume}
    (refers : vol.Refers ip inum)
    (gets : vol.Gets node other later) :
    later.Refers ip inum := by
  have positive := refers.referenced
  by_cases same : ip = other
  · rw [same] at refers positive ⊢
    refine ⟨?_, ?_⟩
    · rw [gets.isInum, ← (gets.shared positive).1]
      exact refers.isInum
    · rw [gets.ref]
      omega
  · refine ⟨?_, ?_⟩
    · rw [gets.others ip same]
      exact refers.isInum
    · rw [gets.others ip same]
      exact positive

theorem Holds.of_gets
    {ip other : InodeIndex}
    {node : Nat}
    {later : Volume}
    (holds : vol.Holds ip inum)
    (gets : vol.Gets node other later) :
    later.Holds ip inum := by
  have refers := holds.refers.of_gets gets
  refine ⟨refers.isInum, refers.referenced, ?_⟩
  by_cases same : ip = other
  · rw [same] at holds ⊢
    rw [(gets.shared holds.referenced).2]
    exact holds.valid
  · rw [gets.others ip same]
    exact holds.valid

theorem Holds.load
    {ip : InodeIndex}
    (holds : vol.Holds ip inum)
    (other : InodeIndex) :
    (vol.setHandle other { vol.handle other with valid := true }).Holds ip
      inum := by
  by_cases same : ip = other
  · rw [← same]
    exact holds.refers.load
  · refine ⟨?_, ?_, ?_⟩
    · rw [setHandle_handle_of_ne _ same]
      exact holds.isInum
    · rw [setHandle_handle_of_ne _ same]
      exact holds.referenced
    · rw [setHandle_handle_of_ne _ same]
      exact holds.valid

theorem Gets.refers
    {ip : InodeIndex}
    {later : Volume}
    (gets : vol.Gets inum ip later)
    (nonneg : 0 ≤ (vol.handle ip).ref) :
    later.Refers ip inum where
  isInum := gets.isInum
  referenced := by
    rw [gets.ref]
    omega

theorem Refers.of_put
    {ip other : InodeIndex}
    {base : Volume}
    {extra : InodeIndex → Nat}
    (refers : vol.Refers ip inum)
    (borrows : Borrows base (vol.put other) (extra + one ip)) :
    (vol.put other).Refers ip inum where
  isInum := by
    unfold put
    dsimp only
    by_cases same : ip = other
    · rw [← same, Function.update_self]
      exact refers.isInum
    · rw [Function.update_of_ne same]
      exact refers.isInum
  referenced := by
    have count := borrows.ref ip
    have nonneg := borrows.nonneg ip
    rw [Pi.add_apply, one_self] at count
    rw [count]
    push_cast
    omega

theorem Holds.of_put
    {ip other : InodeIndex}
    {node : Nat}
    (holds : vol.Holds ip inum)
    (holdsOther : vol.Holds other node)
    (different : node ≠ inum) :
    (vol.put other).Holds ip inum := by
  have notSame : ip ≠ other := by
    intro same
    rw [← same] at holdsOther
    exact different (holdsOther.isInum.symm.trans holds.isInum)
  have sameHandle : (vol.put other).handle ip = vol.handle ip :=
    Function.update_of_ne notSame ..
  exact {
    isInum := by
      rw [sameHandle]
      exact holds.isInum
    referenced := by
      rw [sameHandle]
      exact holds.referenced
    valid := by
      rw [sameHandle]
      exact holds.valid
  }

theorem Sound.of_node
    (sound : vol.Sound)
    (later : Volume)
    (same : later.node = vol.node) :
    later.Sound := by
  obtain ⟨node, handle⟩ := later
  have same : node = vol.node := same
  subst same
  exact ⟨sound.whole, fun isDir inside inUse =>
      have ⟨inArea, used, linked⟩ := sound.usable isDir inside inUse
      ⟨inArea, used, linked⟩,
    ⟨⟨sound.root.1.inArea, sound.root.1.inUse, sound.root.1.linked⟩,
      sound.root.2⟩⟩

end Volume

theorem slotFrom_step
    {bytes name : List UInt8}
    {index : Nat}
    (inside : index < bytes.length / direntSize) :
    slotFrom bytes name index =
      if (direntAt bytes index).isNamed name then some index
      else slotFrom bytes name (index + 1) := by
  unfold slotFrom
  have more :
      bytes.length / direntSize - index =
        (bytes.length / direntSize - (index + 1)) + 1 := by
    omega
  rw [more, List.range'_succ, List.find?_cons]
  split
  next found =>
    rw [if_pos found]
  next other =>
    rw [if_neg (by simpa using other)]

theorem slotFrom_end
    {bytes name : List UInt8}
    {index : Nat}
    (behind : bytes.length / direntSize ≤ index) :
    slotFrom bytes name index = none := by
  unfold slotFrom
  rw [Nat.sub_eq_zero_of_le behind]
  rfl

theorem slotOf_some
    {bytes name : List UInt8}
    {index : Nat}
    (isSlot : slotOf bytes name = some index) :
    direntSize * index < bytes.length ∧
      (direntAt bytes index).isNamed name = true := by
  have isNamed := List.find?_some isSlot
  refine ⟨?_, isNamed⟩
  have member := List.mem_of_find?_eq_some isSlot
  have inside := (List.mem_range'_1.mp member).2
  have isEntry : direntSize = 16 := rfl
  rw [isEntry] at inside ⊢
  omega

theorem Volume.Sound.usable_child
    {vol : Volume}
    {inum next : Nat}
    {name : List UInt8}
    (sound : vol.Sound)
    (isChild : vol.child inum name = some next) :
    vol.Usable next := by
  unfold Volume.child at isChild
  split at isChild
  next isDir =>
    obtain ⟨index, isSlot, isNext⟩ := Option.map_eq_some_iff.mp isChild
    obtain ⟨inside, isNamed⟩ := slotOf_some isSlot
    rw [← isNext]
    exact sound.usable isDir.1 inside (Dirent.isNamed_iff.mp isNamed).1
  · cases isChild

theorem Volume.Sound.usable_at
    {vol : Volume}
    {inum : Nat}
    {path : List (List UInt8)}
    (sound : vol.Sound)
    (isAt : vol.At path inum) :
    vol.Usable inum := by
  cases isAt with
  | root =>
      exact sound.root.1
  | down above proper isChild isDir =>
      exact sound.usable_child isChild

namespace FileSystem

variable {tolerated : FileSystem → FsPanic → Prop}
variable {fs later : FileSystem} {vol : Volume} {lagging : Option Nat}
variable {dp ip : InodeIndex} {inum : Nat} {name : List UInt8}

/-- What `dirlookup` has come to. -/
def Looked
    (fs : FileSystem)
    (vol : Volume)
    (lagging : Option Nat)
    (bytes : List UInt8)
    (slot : Option Nat)
    (result : Option (InodeIndex × Nat))
    (later : FileSystem) : Prop :=
  (slot = none ∧ result = none ∧ later = fs) ∨
    ∃ index ip after, slot = some index ∧
      result = some (ip, direntSize * index) ∧
      later.Represents after lagging ∧
      vol.Gets (direntAt bytes index).inum ip after

theorem readi_entry
    (represents : fs.Represents vol lagging)
    (lag : lagging = none ∨ lagging = some inum)
    (holds : vol.Holds dp inum)
    (whole : direntSize ∣ (vol.node inum).bytes.length)
    {index : Nat}
    (inside : direntSize * index < (vol.node inum).bytes.length) :
    (readi dp .kernel (direntSize * index) direntSize fs).Ends tolerated
      (fun bytes later =>
        later = fs ∧ bytes.length = direntSize ∧
          Dirent.ofBytes bytes = direntAt (vol.node inum).bytes index) := by
  have bounded := represents.length_le inum
  have isEntry : direntSize = 16 := rfl
  have room : MAXFILE * BSIZE = 67382272 := by decide
  have narrow : direntSize * index + direntSize < uintModulus := by
    have modulus : uintModulus = 4294967296 := rfl
    omega
  apply (readi_represents represents lag holds .kernel narrow).mono
  rintro bytes later ⟨isLater, count, _, accepts, isBytes⟩
  have isCount : count = direntSize := accepts fun _ _ => rfl
  rw [isCount] at isBytes
  refine ⟨isLater, ?_, ?_⟩
  · rw [isBytes, length_window]
    obtain ⟨entries, isLength⟩ := whole
    rw [isEntry] at isLength inside ⊢
    omega
  · rw [isBytes]
    rfl

theorem dirlookupFrom_ends
    (represents : fs.Represents vol lagging)
    (lag : lagging = none ∨ lagging = some inum)
    (holds : vol.Holds dp inum)
    (sound : vol.Sound)
    (isDir : vol.IsDir inum)
    (full : (∀ ip, (fs.inode ip).ref ≠ 0) → tolerated fs .igetNoInodes)
    (fuel index : Nat)
    (enough :
      (vol.node inum).bytes.length / direntSize ≤ index + fuel) :
    (dirlookupFrom dp name fuel (direntSize * index) fs).Ends tolerated
      (Looked fs vol lagging (vol.node inum).bytes
        (slotFrom (vol.node inum).bytes name index)) := by
  have isEntry : direntSize = 16 := rfl
  induction fuel generalizing index with
  | zero =>
      exact Or.inl ⟨slotFrom_end enough, rfl, rfl⟩
  | succ fuel inductionHypothesis =>
      obtain ⟨_, isDev, _, _, isSize⟩ := represents.inode holds
      unfold dirlookupFrom
      apply ends_inodeAt
      rw [isSize]
      split
      next inside =>
        have within :
            index < (vol.node inum).bytes.length / direntSize := by
          obtain ⟨entries, isLength⟩ := sound.whole isDir
          rw [isLength, isEntry] at inside ⊢
          omega
        apply ends_bind
          (readi_entry represents lag holds (sound.whole isDir) inside)
        rintro bytes later ⟨isLater, isLength, isEntry⟩
        rw [isLater, if_neg (not_not_intro isLength), isEntry,
          slotFrom_step within]
        by_cases isNamed :
            (direntAt (vol.node inum).bytes index).isNamed name = true
        · have inUse := Dirent.isNamed_iff.mp isNamed
          rw [if_pos isNamed, if_pos inUse]
          apply ends_inodeAt
          rw [isDev]
          have usable := sound.usable isDir inside inUse.1
          apply ends_bind (iget_tolerates represents usable.inArea full)
          rintro ip later ⟨after, represents, gets⟩
          exact Or.inr ⟨index, ip, after, rfl, rfl, represents, gets⟩
        · rw [if_neg isNamed, if_neg (mt Dirent.isNamed_iff.mpr isNamed)]
          exact inductionHypothesis (index + 1) (by omega)
      next behind =>
        refine Or.inl ⟨slotFrom_end ?_, rfl, rfl⟩
        rw [isEntry] at behind ⊢
        omega

theorem dirlookup_tolerates
    (represents : fs.Represents vol lagging)
    (lag : lagging = none ∨ lagging = some inum)
    (holds : vol.Holds dp inum)
    (sound : vol.Sound)
    (isDir : vol.IsDir inum)
    (full : (∀ ip, (fs.inode ip).ref ≠ 0) → tolerated fs .igetNoInodes) :
    (dirlookup dp name fs).Ends tolerated
      (Looked fs vol lagging (vol.node inum).bytes
        (slotOf (vol.node inum).bytes name)) := by
  obtain ⟨_, _, isType, _⟩ := represents.inode holds
  have bounded := represents.length_le inum
  unfold dirlookup
  apply ends_inodeAt
  have isDir' : ¬ (fs.inode dp).type ≠ T_DIR := by
    rw [isType]
    exact not_not_intro isDir
  rw [if_neg isDir']
  apply dirlookupFrom_ends represents lag holds sound isDir full
  have isEntry : direntSize = 16 := rfl
  have room : MAXFILE * BSIZE = 67382272 := by decide
  have fuel : direntBound = 268435456 := rfl
  rw [isEntry, fuel]
  omega

theorem dirlookup_ends
    (represents : fs.Represents vol lagging)
    (lag : lagging = none ∨ lagging = some inum)
    (holds : vol.Holds dp inum)
    (sound : vol.Sound)
    (isDir : vol.IsDir inum) :
    (dirlookup dp name fs).Ends Exhausted
      (Looked fs vol lagging (vol.node inum).bytes
        (slotOf (vol.node inum).bytes name)) :=
  dirlookup_tolerates represents lag holds sound isDir id

/-!
## Paths
-/

/-- What a walk through the directories has come to. -/
def Arrives
    (base vol : Volume)
    (extra : InodeIndex → Nat)
    (target : Option Nat)
    (result : Option InodeIndex)
    (later : FileSystem) : Prop :=
  ∃ after, later.Represents after none ∧ after.node = vol.node ∧
    ((target = none ∧ result = none ∧ Volume.Borrows base after extra) ∨
      ∃ ip inum, target = some inum ∧ result = some ip ∧
        Volume.Borrows base after (extra + Volume.one ip) ∧
        after.Refers ip inum ∧ vol.Usable inum)

variable {base : Volume} {extra : InodeIndex → Nat}

theorem Arrives.of_node
    {before : Volume}
    {target : Option Nat}
    {result : Option InodeIndex}
    (same : before.node = vol.node)
    (arrives : Arrives base before extra target result later) :
    Arrives base vol extra target result later := by
  obtain ⟨after, represents, isNode, arrives⟩ := arrives
  refine ⟨after, represents, isNode.trans same, ?_⟩
  rcases arrives with missing | ⟨ip, inum, isTarget, isResult, borrows, refers,
    usable⟩
  · exact Or.inl missing
  · exact Or.inr ⟨ip, inum, isTarget, isResult, borrows, refers,
      usable.of_node same.symm⟩

/--
What is made of a table that is full while there is at most one handle more
than what is borrowed.
-/
def ToleratesFull
    (tolerated : FileSystem → FsPanic → Prop)
    (base : Volume)
    (extra : InodeIndex → Nat) : Prop :=
  ∀ {fs vol more}, (more = 0 ∨ ∃ ip, more = Volume.one ip) →
    fs.Represents vol none → Volume.Borrows base vol (extra + more) →
      (∀ ip, (fs.inode ip).ref ≠ 0) → tolerated fs .igetNoInodes

theorem exhausted_full : ToleratesFull Exhausted base extra :=
  fun _ _ _ full => full

theorem iput_borrowed
    (represents : fs.Represents vol none)
    (borrows : Volume.Borrows base vol (extra + Volume.one ip))
    (refers : vol.Refers ip inum)
    (linked : (vol.node inum).nlink ≠ 0) :
    (iput ip fs).Ends tolerated
      (fun _ later =>
        later.Represents (vol.put ip) none ∧
          (vol.put ip).node = vol.node ∧
          Volume.Borrows base (vol.put ip) extra) := by
  have stays : ¬ vol.Dies ip := by
    rintro ⟨_, _, unlinked⟩
    rw [refers.isInum] at unlinked
    exact linked unlinked
  apply (iput_represents represents refers stays).mono
  intro _ later represents
  refine ⟨represents, ?_, borrows.put⟩
  unfold Volume.put
  exact if_neg stays

theorem iunlockput_borrowed
    (represents : fs.Represents vol none)
    (borrows : Volume.Borrows base vol (extra + Volume.one ip))
    (refers : vol.Refers ip inum)
    (linked : (vol.node inum).nlink ≠ 0) :
    (iunlockput ip fs).Ends tolerated
      (fun _ later =>
        later.Represents (vol.put ip) none ∧
          (vol.put ip).node = vol.node ∧
          Volume.Borrows base (vol.put ip) extra) := by
  unfold iunlockput
  apply ends_bind (iunlock_represents represents refers)
  intro _ later isLater
  rw [isLater]
  exact iput_borrowed represents borrows refers linked

theorem nameiFrom_ends
    (tolerates : ToleratesFull tolerated base extra)
    (represents : fs.Represents vol none)
    (sound : vol.Sound)
    (borrows : Volume.Borrows base vol (extra + Volume.one ip))
    (refers : vol.Refers ip inum)
    (usable : vol.Usable inum)
    (fuel : Nat)
    (path : List UInt8)
    (noNul : ∀ name ∈ pathNames path, 0 ∉ name)
    (enough : (pathNames path).length ≤ fuel) :
    (nameiFrom fuel ip path fs).Ends tolerated
      (Arrives base vol extra (walk vol.child inum (pathNames path))) := by
  induction fuel generalizing fs vol ip inum path with
  | zero =>
      have noNames : pathNames path = [] :=
        List.length_eq_zero_iff.mp (Nat.le_zero.mp enough)
      rw [noNames]
      exact ⟨vol, represents, rfl,
        Or.inr ⟨ip, inum, rfl, rfl, borrows, refers, usable⟩⟩
  | succ fuel inductionHypothesis =>
      unfold nameiFrom
      cases step : skipelem path with
      | none =>
          rw [skipelem_none step]
          exact ⟨vol, represents, rfl,
            Or.inr ⟨ip, inum, rfl, rfl, borrows, refers, usable⟩⟩
      | some found =>
          obtain ⟨rest, name⟩ := found
          rw [skipelem_some step] at enough noNul ⊢
          have isName : 0 ∉ name := noNul name List.mem_cons_self
          dsimp only
          apply ends_bind (ilock_represents represents refers usable.inUse)
          intro _ fs represents
          have holds := refers.load
          have borrowsHere := borrows.load ip
          have sound :=
            sound.of_node
              (vol.setHandle ip { vol.handle ip with valid := true }) rfl
          have inode := represents.inode holds
          apply ends_inodeAt
          rw [inode.2.2.1]
          split
          next notDir =>
            have noChild : vol.child inum name = none :=
              if_neg fun both => notDir both.1
            apply ends_bind
              (iunlockput_borrowed represents borrowsHere holds.refers
                usable.linked)
            rintro _ later ⟨represents, same, borrows⟩
            refine ⟨_, represents, same, Or.inl ⟨?_, rfl, borrows⟩⟩
            rw [walk, noChild]
            rfl
          next isDir =>
            have isDir : vol.IsDir inum := not_not.mp isDir
            apply ends_bind
              (dirlookup_tolerates represents (Or.inl rfl) holds sound isDir
                (tolerates (Or.inr ⟨ip, rfl⟩) represents borrowsHere))
            rintro found later (⟨missing, isNone, isLater⟩ |
              ⟨index, next, after, isSlot, isFound, represents, gets⟩)
            · have noChild : vol.child inum name = none := by
                rw [Volume.child_of_isDir isDir isName]
                exact congrArg _ missing
              rw [isNone, isLater]
              apply ends_bind
                (iunlockput_borrowed represents borrowsHere holds.refers
                  usable.linked)
              rintro _ final ⟨represents, same, borrows⟩
              refine ⟨_, represents, same, Or.inl ⟨?_, rfl, borrows⟩⟩
              rw [walk, noChild]
              rfl
            · have isChild :
                  vol.child inum name =
                    some (direntAt (vol.node inum).bytes index).inum := by
                rw [Volume.child_of_isDir isDir isName]
                exact congrArg _ isSlot
              have borrows := borrowsHere.gets gets
              rw [add_right_comm] at borrows
              have linked : (after.node inum).nlink ≠ 0 := by
                rw [gets.node]
                exact usable.linked
              rw [isFound]
              apply ends_bind
                (iunlockput_borrowed represents borrows
                  (holds.refers.of_gets gets) linked)
              rintro _ released ⟨represents, same, borrows⟩
              have same : (after.put ip).node = vol.node :=
                same.trans gets.node
              have arrives :=
                inductionHypothesis represents (sound.of_node _ same) borrows
                  ((gets.refers (borrowsHere.nonneg_now next)).of_put borrows)
                  ((sound.usable_child isChild).of_node same) rest
                  (fun other member =>
                    noNul other (List.mem_cons_of_mem name member))
                  (Nat.le_of_succ_le_succ enough)
              rw [Volume.child_of_node same] at arrives
              rw [walk, isChild, Option.bind_some]
              exact arrives.mono fun _ _ => Arrives.of_node same

/-- The directory that a process is in. -/
structure Stands
    (vol : Volume)
    (cwd : Option InodeIndex)
    (inum : Nat) : Prop where
  nowhere : cwd = none → inum = ROOTINO
  refers : ∀ {ip}, cwd = some ip → vol.Refers ip inum
  usable : vol.Usable inum

/-- The node where a path starts. -/
def startOf (inum : Nat) (path : List UInt8) : Nat :=
  if path.head? = some slash then ROOTINO else inum

theorem pathStart_ends
    {cwd : Option InodeIndex}
    (represents : fs.Represents vol none)
    (sound : vol.Sound)
    (stands : Stands vol cwd inum)
    (full : (∀ ip, (fs.inode ip).ref ≠ 0) → tolerated fs .igetNoInodes)
    (path : List UInt8) :
    (pathStart cwd path fs).Ends tolerated
      (fun ip later =>
        ∃ after, later.Represents after none ∧
          vol.Gets (startOf inum path) ip after) := by
  unfold pathStart startOf
  split
  · exact iget_tolerates represents sound.root.1.inArea full
  · cases isCwd : cwd with
    | none =>
        rw [stands.nowhere isCwd]
        exact iget_tolerates represents sound.root.1.inArea full
    | some ip =>
        apply (idup_represents represents (stands.refers isCwd)).mono
        rintro result later ⟨isIp, after, represents, gets⟩
        rw [isIp]
        exact ⟨after, represents, gets⟩

theorem namei_tolerates
    {cwd : Option InodeIndex}
    (tolerates : ToleratesFull tolerated base extra)
    (represents : fs.Represents vol none)
    (sound : vol.Sound)
    (borrows : Volume.Borrows base vol extra)
    (stands : Stands vol cwd inum)
    {path : List UInt8}
    (noNul : 0 ∉ path) :
    (namei cwd path fs).Ends tolerated
      (Arrives base vol extra
        (walk vol.child (startOf inum path) (pathNames path))) := by
  unfold namei
  have full := tolerates (Or.inl rfl) represents (by rwa [add_zero])
  apply ends_bind (pathStart_ends represents sound stands full path)
  rintro ip later ⟨after, represents, gets⟩
  have usable : vol.Usable (startOf inum path) := by
    unfold startOf
    split
    · exact sound.root.1
    · exact stands.usable
  have arrives :=
    nameiFrom_ends tolerates represents (sound.of_node after gets.node)
      (borrows.gets gets) (gets.refers (borrows.nonneg_now ip))
      (usable.of_node gets.node) (path.length + 1) path
      (fun _ member => nul_notMem_pathNames noNul member)
      (by
        unfold pathNames
        rw [List.length_map]
        exact length_components_le)
  rw [Volume.child_of_node gets.node] at arrives
  exact arrives.mono fun _ _ => Arrives.of_node gets.node

theorem namei_ends
    {cwd : Option InodeIndex}
    (represents : fs.Represents vol none)
    (sound : vol.Sound)
    (borrows : Volume.Borrows base vol extra)
    (stands : Stands vol cwd inum)
    {path : List UInt8}
    (noNul : 0 ∉ path) :
    (namei cwd path fs).Ends Exhausted
      (Arrives base vol extra
        (walk vol.child (startOf inum path) (pathNames path))) :=
  namei_tolerates exhausted_full represents sound borrows stands noNul

end FileSystem

end MyOS
