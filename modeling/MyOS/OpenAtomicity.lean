import MyOS.DiskImage
import MyOS.FileCalls
import MyOS.FileOpen

namespace MyOS

open Lib

/-!
# What a failed `sys_open` leaves behind

`sys_open` gives back nothing of what it has done before it allocates a file
and a descriptor.  Where it fails, everything is as before exactly if nothing
had been done, or if what had been done is undone on the way out.
-/

namespace FileSystem

variable {fs : FileSystem} {vol : Volume}

/-- A node as the disk has it. -/
def savedNode (fs : FileSystem) (inum : Nat) : Node :=
  Disk.node fs.disk (Disk.dinode fs.disk inum)

theorem Represents.savedNode
    {inum : Nat}
    (represents : fs.Represents vol none)
    (inArea : inum < NINODES) :
    fs.savedNode inum = vol.node inum := by
  obtain ⟨m, mounted, isVolume⟩ := represents
  unfold FileSystem.savedNode
  rw [isVolume, mounted.fits.stored inArea (Option.some_ne_none inum).symm]
  rfl

theorem Represents.ref
    (represents : fs.Represents vol none)
    (ip : InodeIndex) :
    (fs.inode ip).ref = (vol.handle ip).ref := by
  obtain ⟨m, mounted, isVolume⟩ := represents
  rw [isVolume]
  rfl

end FileSystem

namespace FileKernel

/-- The tree, the reference counts, the files and the descriptors of before. -/
structure AsBefore (kernel later : FileKernel) : Prop where
  tree :
    ∀ inum, inum < NINODES →
      later.fs.savedNode inum = kernel.fs.savedNode inum
  ref : ∀ ip, (later.fs.inode ip).ref = (kernel.fs.inode ip).ref
  file : later.file = kernel.file
  ofile : later.ofile = kernel.ofile

/--
There is nothing to be opened, or both tables have room, or the file table is
full and the file is there and is not emptied.
-/
def LeavesNothing
    (vol : Volume)
    (kernel : FileKernel)
    (p : Slot)
    (flags : Nat)
    (target : OpenTarget) : Prop :=
  target = .missing ∨
    (kernel.freeFile? ≠ none ∧ kernel.freeDescriptor? p ≠ none) ∨
    (kernel.freeFile? = none ∧
      ∃ inum, target = .existing inum ∧
        (Truncates flags (vol.node inum) → (vol.node inum).bytes = []))

variable {kernel later : FileKernel} {vol after : Volume}
variable {p : Slot} {ip : InodeIndex} {inum flags : Nat} {result : Int}

theorem SameFiles.asBefore
    (represents : kernel.fs.Represents vol none)
    (representsLater : later.fs.Represents after none)
    (same : ∀ inum, inum < NINODES → after.node inum = vol.node inum)
    (borrows : Volume.Borrows vol after 0)
    (sameFiles : kernel.SameFiles later) :
    kernel.AsBefore later where
  tree := by
    intro inum inArea
    rw [representsLater.savedNode inArea, represents.savedNode inArea]
    exact same inum inArea
  ref := by
    intro ip
    rw [representsLater.ref, represents.ref, borrows.ref ip]
    exact Int.add_zero _
  file := sameFiles.file
  ofile := sameFiles.ofile

theorem AsBefore.node_eq
    (asBefore : kernel.AsBefore later)
    (represents : kernel.fs.Represents vol none)
    (representsLater : later.fs.Represents after none)
    (inArea : inum < NINODES) :
    after.node inum = vol.node inum := by
  rw [← representsLater.savedNode inArea, ← represents.savedNode inArea]
  exact asBefore.tree inum inArea

theorem AsBefore.not_borrows
    (asBefore : kernel.AsBefore later)
    (represents : kernel.fs.Represents vol none)
    (representsLater : later.fs.Represents after none)
    (borrows : Volume.Borrows vol after (0 + Volume.one ip)) :
    False := by
  have same := asBefore.ref ip
  rw [representsLater.ref, represents.ref, borrows.ref ip] at same
  have isOne : ((0 + Volume.one ip : InodeIndex → Nat) ip : Int) = 1 := by
    rw [Pi.add_apply, Volume.one_self]
    rfl
  rw [isOne] at same
  omega

theorem openedNode_eq_iff (flags : Nat) (node : Node) :
    openedNode flags node = node ↔ (Truncates flags node → node.bytes = []) := by
  unfold openedNode
  split
  next truncates =>
    constructor
    · intro same _
      exact (congrArg Node.bytes same).symm
    · intro isEmpty
      rw [← isEmpty truncates]
  next kept =>
    exact ⟨fun _ truncates => absurd truncates kept, fun _ => rfl⟩

theorem descriptor_ne (fd : Descriptor) : ((fd.val : Nat) : Int) ≠ -1 := by
  omega

theorem OpensFile.leavesNothing_iff
    {target : OpenTarget}
    {node : Node}
    (represents : kernel.fs.Represents vol none)
    (representsLater : later.fs.Represents after none)
    (isThere : target ≠ .missing)
    (undone :
      kernel.SameFiles later → Volume.Borrows vol after 0 →
        (kernel.AsBefore later ↔
          ∃ inum, target = .existing inum ∧
            (Truncates flags (vol.node inum) →
              (vol.node inum).bytes = [])))
    (opens : OpensFile vol 0 kernel p ip flags node result later after) :
    (result = -1 → kernel.AsBefore later) ↔
      LeavesNothing vol kernel p flags target := by
  cases opens with
  | noFile full sameFiles borrows =>
      constructor
      · intro asBefore
        exact Or.inr (Or.inr
          ⟨full, (undone sameFiles borrows).mp (asBefore rfl)⟩)
      · rintro (isMissing | ⟨hasFile, _⟩ | ⟨_, isKept⟩) _
        · exact absurd isMissing isThere
        · exact absurd full hasFile
        · exact (undone sameFiles borrows).mpr isKept
  | noDescriptor free full sameFiles borrows =>
      constructor
      · intro asBefore
        exact
          ((asBefore rfl).not_borrows represents representsLater borrows).elim
      · rintro (isMissing | ⟨_, hasRoom⟩ | ⟨noFile, _⟩) _
        · exact absurd isMissing isThere
        · exact absurd full hasRoom
        · rw [free] at noFile
          cases noFile
  | @opened _ _ f fd free room file ofile cwd alive borrows =>
      constructor
      · intro _
        refine Or.inr (Or.inl ⟨?_, ?_⟩)
        · rw [free]
          exact Option.some_ne_none f
        · rw [room]
          exact Option.some_ne_none fd
      · intro _ isFailure
        exact absurd isFailure (descriptor_ne fd)

theorem OpensCall.leavesNothing_iff
    {target : OpenTarget}
    (represents : kernel.fs.Represents vol none)
    (opens : OpensCall vol vol 0 kernel p flags target result later) :
    (result = -1 → kernel.AsBefore later) ↔
      LeavesNothing vol kernel p flags target := by
  cases opens with
  | failed representsLater same borrows sameFiles =>
      constructor
      · intro _
        exact Or.inl rfl
      · intro _ _
        exact sameFiles.asBefore represents representsLater
          (fun inum _ => congrFun same inum) borrows
  | @existing inum ip _ _ usable opens =>
      obtain ⟨after, representsLater, sameNode, opens, _⟩ := opens
      apply opens.leavesNothing_iff represents representsLater
      · intro impossible
        cases impossible
      intro sameFiles borrows
      constructor
      · intro asBefore
        have same :=
          asBefore.node_eq represents representsLater usable.inArea
        rw [sameNode, Volume.setNode_node_self] at same
        exact ⟨inum, rfl, (openedNode_eq_iff ..).mp same⟩
      · rintro ⟨other, isTarget, isKept⟩
        cases isTarget
        have isSame := (openedNode_eq_iff ..).mpr isKept
        rw [isSame, Volume.setNode_self] at sameNode
        exact sameFiles.asBefore represents representsLater
          (fun inum _ => congrFun sameNode inum) borrows
  | @created held dp new slot name ip _ _ creates opens =>
      obtain ⟨after, representsLater, sameNode, opens, _⟩ := opens
      apply opens.leavesNothing_iff represents representsLater
      · intro impossible
        cases impossible
      intro _ _
      constructor
      · intro asBefore
        have same :=
          asBefore.node_eq represents representsLater creates.newInArea
        rw [sameNode, Volume.setNode_node_self] at same
        have unused := creates.unused
        rw [← same, (openedNode_fields ..).1, creates.node_new] at unused
        cases unused
      · rintro ⟨_, isTarget, _⟩
        cases isTarget

/--
In every state, for every path and all flags: a failed `sys_open` leaves
everything as before exactly if there was nothing to be opened, or the file
table was full and the file was there and has not been emptied.
-/
theorem openCall_failsCleanly_iff
    {start : Nat}
    {text : List UInt8}
    (represents : kernel.fs.Represents vol none)
    (sound : vol.Sound)
    (cleared : kernel.Cleared)
    (stands : FileSystem.Stands vol (kernel.cwd p) start)
    (noNul : 0 ∉ text) :
    (openCall p text flags kernel).Ends Exhausted
      (fun result later =>
        (result = -1 → kernel.AsBefore later) ↔
          LeavesNothing vol kernel p flags
            (callTarget vol flags start text)) := by
  have borrows := Volume.Borrows.refl represents.nonneg
  apply (openCall_ends represents sound cleared borrows stands noNul).mono
  intro result later opens
  exact opens.leavesNothing_iff represents

/-- A process whose descriptors are all open on the console. -/
def crowded : FileKernel :=
  { bootKernel (Image.fileSystem Image.smallTree) (some Image.rootSlot) with
    file := fun f =>
      if f.val = 0 then
        { consoleFile true true with ref := NOFILE }
      else
        unusedFile
    ofile := fun p _ => if p.val = 0 then some firstFile else none }

theorem crowded_represents :
    crowded.fs.Represents (Image.volume Image.smallTree) none :=
  Image.represents Image.smallTree_fits

theorem crowded_cleared : crowded.Cleared := by
  intro f isFree
  unfold crowded at isFree ⊢
  dsimp only at isFree ⊢
  split at isFree
  · cases isFree
  next notFirst =>
    rw [if_neg notFirst]
    exact ⟨rfl, rfl, rfl⟩

theorem crowded_stands :
    FileSystem.Stands (Image.volume Image.smallTree) (crowded.cwd firstSlot)
      ROOTINO where
  nowhere := by
    intro isNone
    cases isNone
  refers := by
    intro ip isCwd
    cases isCwd
    exact ⟨rfl, by decide⟩
  usable := Image.smallTree_usable.1

/-- The path `/` -/
def rootPath : List UInt8 := [slash]

/-- All descriptors are in use when the root directory is opened. -/
theorem openCall_failsCleanly_iff_crowded :
    (openCall firstSlot rootPath 0 crowded).Ends Exhausted
      (fun result later =>
        (result = -1 → crowded.AsBefore later) ↔
          LeavesNothing (Image.volume Image.smallTree) crowded firstSlot 0
            (callTarget (Image.volume Image.smallTree) 0 ROOTINO rootPath)) :=
  openCall_failsCleanly_iff crowded_represents Image.smallTree_sound
    crowded_cleared crowded_stands (by decide)

/-- The call fails and keeps a reference to the root directory. -/
def keepsReference : Bool :=
  match (openCall firstSlot rootPath 0).run crowded with
  | .ok (later, result) =>
      result == -1 && (later.fs.inode Image.rootSlot).ref == 2
  | .error _ => false

/-- With all descriptors in use, a failed `sys_open` keeps a reference. -/
theorem not_openCall_failsCleanly :
    ¬ ∀ (kernel : FileKernel) (vol : Volume) (p : Slot) (start flags : Nat)
        (text : List UInt8),
      kernel.fs.Represents vol none → vol.Sound → kernel.Cleared →
        FileSystem.Stands vol (kernel.cwd p) start → 0 ∉ text →
          (openCall p text flags kernel).Ends Exhausted
            (fun result later => result = -1 → kernel.AsBefore later) := by
  intro law
  have ends :=
    law crowded _ firstSlot ROOTINO 0 rootPath crowded_represents
      Image.smallTree_sound crowded_cleared crowded_stands (by decide)
  have keeps : keepsReference = true := by
    decide +kernel
  unfold keepsReference at keeps
  split at keeps
  next later result finished =>
    rw [Bool.and_eq_true] at keeps
    have asBefore := (ends.ok finished) (eq_of_beq keeps.1)
    have same := asBefore.ref Image.rootSlot
    rw [eq_of_beq keeps.2] at same
    cases same
  · cases keeps

end FileKernel

end MyOS
