import MyOS.InodeTruncation
import MyOS.Lib.MutableList

namespace MyOS

open Lib

/-!
# Volumes

What the inode layer is for: numbered nodes with a type, a link count and a
list of bytes, and handles by which the kernel refers to them.  A file system
represents a volume; every routine of the inode layer, alone, is a step of the
volume, or fails for lack of blocks, inodes or slots.
-/

/-- What an inode is for. -/
structure Node where
  type : Nat
  nlink : Nat
  bytes : List UInt8

/-- What a slot of the inode table stands for. -/
structure Handle where
  inum : Nat
  ref : Int
  valid : Bool

/-- The nodes of a file system and the kernel's handles for them. -/
@[ext]
structure Volume where
  node : Nat → Node
  handle : InodeIndex → Handle

/-- The handle in a slot. -/
def Inode.handle (inode : Inode) : Handle where
  inum := inode.inum
  ref := inode.ref
  valid := inode.valid

/-- The node that a disk inode stands for. -/
def Disk.node (disk : Disk) (dinode : Dinode) : Node where
  type := dinode.type
  nlink := dinode.nlink
  bytes := tabulate dinode.size (disk.byteAt dinode)

namespace Volume

/-- Change a node. -/
def setNode (vol : Volume) (inum : Nat) (node : Node) : Volume :=
  { vol with node := Function.update vol.node inum node }

/-- Change a handle. -/
def setHandle (vol : Volume) (ip : InodeIndex) (handle : Handle) : Volume :=
  { vol with handle := Function.update vol.handle ip handle }

/-- A handle by which the kernel works on a node. -/
structure Holds (vol : Volume) (ip : InodeIndex) (inum : Nat) : Prop where
  isInum : (vol.handle ip).inum = inum
  referenced : 0 < (vol.handle ip).ref
  valid : (vol.handle ip).valid = true

/-- What `iget` does to the volume. -/
structure Gets
    (vol : Volume)
    (inum : Nat)
    (ip : InodeIndex)
    (later : Volume) : Prop where
  node : later.node = vol.node
  others : ∀ other, other ≠ ip → later.handle other = vol.handle other
  isInum : (later.handle ip).inum = inum
  ref : (later.handle ip).ref = (vol.handle ip).ref + 1
  shared :
    0 < (vol.handle ip).ref →
      (vol.handle ip).inum = inum ∧
        (later.handle ip).valid = (vol.handle ip).valid
  fresh :
    (vol.handle ip).ref = 0 →
      (later.handle ip).valid = false ∧
        ∀ other, 0 < (vol.handle other).ref →
          (vol.handle other).inum ≠ inum

/-- What is left of a node that has been given up. -/
def freeNode : Node where
  type := 0
  nlink := 0
  bytes := []

/-- The last handle of a node without links goes. -/
def Dies (vol : Volume) (ip : InodeIndex) : Prop :=
  (vol.handle ip).ref = 1 ∧ (vol.handle ip).valid = true ∧
    (vol.node (vol.handle ip).inum).nlink = 0

instance (vol : Volume) (ip : InodeIndex) : Decidable (vol.Dies ip) :=
  inferInstanceAs (Decidable (_ ∧ _ ∧ _))

/-- A handle that has been given back once. -/
def Handle.dropped (handle : Handle) : Handle where
  inum := handle.inum
  ref := handle.ref - 1
  valid := if handle.ref = 1 then false else handle.valid

/-- What `iput` does to the volume. -/
def put (vol : Volume) (ip : InodeIndex) : Volume where
  node :=
    if vol.Dies ip then
      Function.update vol.node (vol.handle ip).inum freeNode
    else
      vol.node
  handle :=
    Function.update vol.handle ip (Handle.dropped (vol.handle ip))

end Volume

namespace FileSystem

/-- The volume of a file system whose inodes are known. -/
def volumeOf (fs : FileSystem) (m : Nat → Dinode) : Volume where
  node := fun inum => Disk.node fs.disk (m inum)
  handle := fun ip => (fs.inode ip).handle

/-- The disk and the inode table agree on what the inodes are. -/
structure Mounted
    (fs : FileSystem)
    (m : Nat → Dinode)
    (lagging : Option Nat) : Prop where
  formatted : fs.sb = imageSuperblock
  fits : DiskFits fs.disk m lagging none
  noHoles : ∀ inum, Disk.NoHoles fs.disk (m inum)
  bounded : ∀ inum, (m inum).size ≤ MAXFILE * BSIZE
  nonneg : ∀ ip, 0 ≤ (fs.inode ip).ref
  dev : ∀ {ip}, 0 < (fs.inode ip).ref → (fs.inode ip).dev = ROOTDEV
  inArea : ∀ {ip}, 0 < (fs.inode ip).ref → (fs.inode ip).inum < NINODES
  unique :
    ∀ {ip other},
      0 < (fs.inode ip).ref → 0 < (fs.inode other).ref →
      (fs.inode ip).inum = (fs.inode other).inum → ip = other
  loaded :
    ∀ {ip}, 0 < (fs.inode ip).ref → (fs.inode ip).valid = true →
      (fs.inode ip).toDinode = m (fs.inode ip).inum ∧
        (m (fs.inode ip).inum).type ≠ 0
  lags :
    ∀ {inum}, lagging = some inum →
      ∃ ip, 0 < (fs.inode ip).ref ∧ (fs.inode ip).valid = true ∧
        (fs.inode ip).inum = inum

/-- A file system stands for a volume. -/
def Represents
    (fs : FileSystem)
    (vol : Volume)
    (lagging : Option Nat) : Prop :=
  ∃ m, fs.Mounted m lagging ∧ vol = fs.volumeOf m

variable {tolerated : FileSystem → FsPanic → Prop}
variable {fs later : FileSystem} {m : Nat → Dinode} {vol : Volume}
variable {lagging : Option Nat}
variable {ip : InodeIndex} {inum : Nat}

namespace Mounted

theorem toLoaded
    (mounted : fs.Mounted m lagging)
    (lag : lagging = none ∨ lagging = some inum)
    (holds : (fs.volumeOf m).Holds ip inum) :
    fs.Loaded m lagging ip inum := by
  obtain ⟨isInum, referenced, valid⟩ := holds
  have isInum : (fs.inode ip).inum = inum := isInum
  obtain ⟨same, inUse⟩ := mounted.loaded referenced valid
  rw [isInum] at same inUse
  exact {
    formatted := mounted.formatted
    fits := mounted.fits
    lag := lag
    isInum := isInum
    same := same
    inUse := inUse
    inArea := by
      rw [← isInum]
      exact mounted.inArea referenced
    noHoles := mounted.noHoles inum
    bounded := mounted.bounded inum
  }

theorem node_kept
    (mounted : fs.Mounted m lagging)
    (kept : FileKept fs.disk (m inum) later.disk (m inum)) :
    Disk.node later.disk (m inum) = Disk.node fs.disk (m inum) := by
  unfold Disk.node
  congr 1
  apply tabulate_congr
  intro place inside
  exact kept.byteAt (mounted.noHoles inum place inside)

theorem noHoles_kept
    (mounted : fs.Mounted m lagging)
    (kept : FileKept fs.disk (m inum) later.disk (m inum)) :
    Disk.NoHoles later.disk (m inum) := by
  intro place inside
  have present := mounted.noHoles inum place inside
  rw [(kept _ present).1]
  exact present

theorem rewritten
    {dinode : Dinode}
    {lags : Option Nat}
    {value : Nat → UInt8}
    (mounted : fs.Mounted m lagging)
    (holds : (fs.volumeOf m).Holds ip inum)
    (rewrites : fs.Rewritten m ip inum later dinode lags value)
    (lag : lags = none ∨ lags = some inum) :
    later.Mounted (Function.update m inum dinode) lags ∧
      later.volumeOf (Function.update m inum dinode) =
        (fs.volumeOf m).setNode inum {
          type := dinode.type
          nlink := dinode.nlink
          bytes := tabulate dinode.size value
        } := by
  have isInum : (fs.inode ip).inum = inum := holds.isInum
  have inode := rewrites.inode
  have here :
      later.inode ip = { fs.inode ip with toDinode := dinode } := by
    rw [inode, Function.update_self]
  have elsewhere :
      ∀ other, other ≠ ip → later.inode other = fs.inode other := by
    intro other different
    rw [inode, Function.update_of_ne different]
  have sameHandle : ∀ other, (later.inode other).handle =
      (fs.inode other).handle := by
    intro other
    by_cases same : other = ip
    · rw [same, here]
      rfl
    · rw [elsewhere other same]
  have sameRef : ∀ other, (later.inode other).ref = (fs.inode other).ref :=
    fun other => congrArg Handle.ref (sameHandle other)
  have sameInum :
      ∀ other, (later.inode other).inum = (fs.inode other).inum :=
    fun other => congrArg Handle.inum (sameHandle other)
  have sameValid :
      ∀ other, (later.inode other).valid = (fs.inode other).valid :=
    fun other => congrArg Handle.valid (sameHandle other)
  have inUse := rewrites.loaded.inUse
  rw [Function.update_self] at inUse
  constructor
  · exact {
      formatted := rewrites.loaded.formatted
      fits := rewrites.loaded.fits
      noHoles := by
        intro other
        by_cases same : other = inum
        · rw [same]
          exact rewrites.loaded.noHoles
        · rw [Function.update_of_ne same]
          exact mounted.noHoles_kept (rewrites.others other same)
      bounded := by
        intro other
        by_cases same : other = inum
        · rw [same]
          exact rewrites.loaded.bounded
        · rw [Function.update_of_ne same]
          exact mounted.bounded other
      nonneg := by
        intro other
        rw [sameRef]
        exact mounted.nonneg other
      dev := by
        intro other referenced
        rw [sameRef] at referenced
        by_cases same : other = ip
        · rw [same, here]
          rw [same] at referenced
          exact mounted.dev referenced
        · rw [elsewhere other same]
          exact mounted.dev referenced
      inArea := by
        intro other referenced
        rw [sameRef] at referenced
        rw [sameInum]
        exact mounted.inArea referenced
      unique := by
        intro first second firstReferenced secondReferenced same
        rw [sameRef] at firstReferenced secondReferenced
        rw [sameInum, sameInum] at same
        exact mounted.unique firstReferenced secondReferenced same
      loaded := by
        intro other referenced valid
        rw [sameRef] at referenced
        rw [sameValid] at valid
        rw [sameInum]
        by_cases same : other = ip
        · rw [same, isInum, Function.update_self, here]
          exact ⟨rfl, inUse⟩
        · have different : (fs.inode other).inum ≠ inum := by
            intro equal
            apply same
            apply mounted.unique referenced holds.referenced
            rw [equal, isInum]
          rw [Function.update_of_ne different, elsewhere other same]
          exact mounted.loaded referenced valid
      lags := by
        intro other isLagging
        rcases lag with none | isSome
        · rw [none] at isLagging
          cases isLagging
        · rw [isSome] at isLagging
          refine ⟨ip, ?_, ?_, ?_⟩
          · rw [sameRef]
            exact holds.referenced
          · rw [sameValid]
            exact holds.valid
          · rw [sameInum, isInum]
            exact Option.some.inj isLagging
    }
  · apply Volume.ext
    · funext other
      unfold volumeOf Volume.setNode
      by_cases same : other = inum
      · rw [same]
        simp only [Function.update_self]
        unfold Disk.node
        congr 1
        exact tabulate_congr rewrites.bytes
      · simp only [Function.update_of_ne same]
        exact mounted.node_kept (rewrites.others other same)
    · funext other
      exact sameHandle other

end Mounted

end FileSystem

end MyOS
