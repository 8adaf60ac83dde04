import MyOS.DiskImage
import MyOS.FileCalls
import MyOS.FileWriting

namespace MyOS

open Lib
open Routine

/-!
# Kernels whose tables fit a volume

Every file that is open on an inode has a node that can be used, and every
process stands in one.  The calls on files keep it that way.
-/

namespace FileKernel

/-- The tables of files and directories fit a volume. -/
structure Sane (kernel : FileKernel) (vol : Volume) : Prop where
  represents : kernel.fs.Represents vol none
  sound : vol.Sound
  cleared : kernel.Cleared
  noInode :
    ∀ f, (kernel.file f).type ≠ .inode → (kernel.file f).ip = none
  opened :
    ∀ f, (kernel.file f).type = .inode →
      ∃ ip inum, OpenOn vol (kernel.file f) ip inum ∧
        ((kernel.file f).writable = true → ¬ vol.IsDir inum)
  used : ∀ p fd f, kernel.ofile p fd = some f → (kernel.file f).ref ≠ 0
  stands : ∀ p, ∃ start, FileSystem.Stands vol (kernel.cwd p) start

variable {kernel later : FileKernel} {vol after : Volume} {p : Slot}
variable {f : FileSlot} {ip : InodeIndex} {inum : Nat}

/-- What of a volume the open files depend on. -/
structure Carries (vol after : Volume) : Prop where
  sound : after.Sound
  usable : ∀ {inum}, vol.Usable inum → after.Usable inum
  dirs : ∀ {inum}, vol.Usable inum → after.IsDir inum → vol.IsDir inum

theorem Carries.of_node
    (sound : vol.Sound)
    (same : after.node = vol.node) :
    Carries vol after where
  sound := sound.of_node after same
  usable := fun usable => usable.of_node same
  dirs := by
    intro inum _ isDir
    rw [Volume.isDir_of_node same] at isDir
    exact isDir

theorem Carries.trans
    {inner : Volume}
    (first : Carries vol inner)
    (second : Carries inner after) :
    Carries vol after where
  sound := second.sound
  usable := fun usable => second.usable (first.usable usable)
  dirs := fun usable isDir =>
    first.dirs usable (second.dirs (first.usable usable) isDir)

theorem Carries.setBytes
    (sound : vol.Sound)
    (notDir : ¬ vol.IsDir inum)
    {node : Node}
    (type : node.type = (vol.node inum).type)
    (nlink : node.nlink = (vol.node inum).nlink)
    (same : after.node = (vol.setNode inum node).node) :
    Carries vol after := by
  have isNode : (vol.setNode inum node).node inum = node :=
    Volume.setNode_node_self _
  have stillNotDir : node.type ≠ T_DIR := by
    rw [type]
    exact notDir
  have soundNow : (vol.setNode inum node).Sound := by
    apply sound.setNode
    · intro inUse
      rw [type]
      exact inUse
    · intro linked
      rw [nlink]
      exact linked
    · intro isDir
      exact absurd isDir stillNotDir
    · intro isDir
      exact absurd isDir stillNotDir
    · intro isRoot
      rw [isRoot] at notDir
      exact absurd sound.root.2 notDir
  exact {
    sound := soundNow.of_node after same
    usable := by
      intro other usable
      refine ⟨usable.inArea, ?_, ?_⟩
      · rw [same]
        by_cases here : other = inum
        · rw [here, isNode, type, ← here]
          exact usable.inUse
        · rw [Volume.setNode_node_of_ne _ here]
          exact usable.inUse
      · rw [same]
        by_cases here : other = inum
        · rw [here, isNode, nlink, ← here]
          exact usable.linked
        · rw [Volume.setNode_node_of_ne _ here]
          exact usable.linked
    dirs := by
      intro other _ isDir
      unfold Volume.IsDir at isDir ⊢
      rw [same] at isDir
      by_cases here : other = inum
      · rw [here, isNode, type] at isDir
        rw [here]
        exact isDir
      · rw [Volume.setNode_node_of_ne _ here] at isDir
        exact isDir
  }

theorem OpenOn.carried
    {file : FileObject}
    {extra : InodeIndex → Nat}
    (isOpen : OpenOn vol file ip inum)
    (carries : Carries vol after)
    (borrows : Volume.Borrows vol after extra) :
    OpenOn after file ip inum where
  isInode := isOpen.isInode
  isIp := isOpen.isIp
  holds := borrows.holds isOpen.holds
  usable := carries.usable isOpen.usable

/-- A file is open on a node that it may be open on. -/
def Opened (vol : Volume) (file : FileObject) : Prop :=
  ∃ ip inum, OpenOn vol file ip inum ∧
    (file.writable = true → ¬ vol.IsDir inum)

theorem Opened.carried
    {file moved : FileObject}
    {extra : InodeIndex → Nat}
    (opened : Opened vol file)
    (carries : Carries vol after)
    (borrows : Volume.Borrows vol after extra)
    (isMoved : moved = { file with off := moved.off }) :
    Opened after moved := by
  obtain ⟨ip, inum, isOpen, notDir⟩ := opened
  have stays := isOpen.carried carries borrows
  rw [isMoved]
  refine ⟨ip, inum, ⟨stays.isInode, stays.isIp, stays.holds, stays.usable⟩, ?_⟩
  intro writable isDir
  exact notDir writable (carries.dirs isOpen.usable isDir)

theorem stands_carried
    {cwd : Option InodeIndex}
    {start : Nat}
    {extra : InodeIndex → Nat}
    (stands : FileSystem.Stands vol cwd start)
    (carries : Carries vol after)
    (borrows : Volume.Borrows vol after extra) :
    FileSystem.Stands after cwd start where
  nowhere := stands.nowhere
  refers := fun isCwd => borrows.refers (stands.refers isCwd)
  usable := carries.usable stands.usable

theorem Sane.carried
    {extra : InodeIndex → Nat}
    (sane : kernel.Sane vol)
    (represents : later.fs.Represents after none)
    (carries : Carries vol after)
    (borrows : Volume.Borrows vol after extra)
    (files :
      ∀ f, later.file f = kernel.file f ∨
        ((kernel.file f).ref ≠ 0 ∧
          later.file f =
            { kernel.file f with off := (later.file f).off }))
    (ofile : later.ofile = kernel.ofile)
    (cwd : later.cwd = kernel.cwd) :
    later.Sane after where
  represents := represents
  sound := carries.sound
  cleared := by
    intro f isFree
    rcases files f with same | ⟨isUsed, isMoved⟩
    · rw [same] at isFree ⊢
      exact sane.cleared f isFree
    · rw [isMoved] at isFree
      exact absurd isFree isUsed
  noInode := by
    intro f notInode
    rcases files f with same | ⟨_, isMoved⟩
    · rw [same] at notInode ⊢
      exact sane.noInode f notInode
    · rw [isMoved] at notInode ⊢
      exact sane.noInode f notInode
  opened := by
    intro f isInode
    rcases files f with same | ⟨_, isMoved⟩
    · rw [same] at isInode ⊢
      exact Opened.carried (sane.opened f isInode) carries borrows rfl
    · have isInode : (kernel.file f).type = .inode := by
        rw [isMoved] at isInode
        exact isInode
      exact Opened.carried (sane.opened f isInode) carries borrows isMoved
  used := by
    intro p fd f isOpen
    rw [ofile] at isOpen
    rcases files f with same | ⟨isUsed, isMoved⟩
    · rw [same]
      exact sane.used p fd f isOpen
    · rw [isMoved]
      exact isUsed
  stands := by
    intro p
    obtain ⟨start, stands⟩ := sane.stands p
    rw [cwd]
    exact ⟨start, stands_carried stands carries borrows⟩

theorem bootFile_cases (f : FileSlot) :
    ((bootFile f).type = .console ∧ (bootFile f).ref = 1 ∧
      (bootFile f).ip = none) ∨
      bootFile f = unusedFile := by
  unfold bootFile
  split
  · exact Or.inl ⟨rfl, rfl, rfl⟩
  · split
    · exact Or.inl ⟨rfl, rfl, rfl⟩
    · exact Or.inr rfl

theorem bootKernel_sane
    {fs : FileSystem}
    (represents : fs.Represents vol none)
    (sound : vol.Sound)
    (refers : vol.Refers ip ROOTINO) :
    (bootKernel fs (some ip)).Sane vol where
  represents := represents
  sound := sound
  cleared := by
    intro f isFree
    rcases bootFile_cases f with ⟨_, isUsed, _⟩ | isUnused
    · exact absurd (isUsed.symm.trans isFree) one_ne_zero
    · have isFile : (bootKernel fs (some ip)).file f = unusedFile := isUnused
      rw [isFile]
      exact ⟨rfl, rfl, rfl⟩
  noInode := by
    intro f _
    rcases bootFile_cases f with ⟨_, _, noIp⟩ | isUnused
    · exact noIp
    · exact (congrArg FileObject.ip isUnused).trans rfl
  opened := by
    intro f isInode
    rcases bootFile_cases f with ⟨isConsole, _, _⟩ | isUnused
    · exact absurd (isConsole.symm.trans isInode) (by decide)
    · exact absurd
        ((congrArg FileObject.type isUnused).symm.trans isInode) (by decide)
  used := by
    intro p fd f isOpen
    unfold bootKernel bootOfile at isOpen
    dsimp only at isOpen
    split at isOpen
    next first =>
      cases isOpen
      have isFirst : (Fin.castLE descriptors_fit fd).val < 3 := first.2
      change (bootFile (Fin.castLE descriptors_fit fd)).ref ≠ 0
      unfold bootFile
      rw [if_pos isFirst]
      split
      · exact one_ne_zero
      · exact one_ne_zero
    · cases isOpen
  stands := by
    intro p
    refine ⟨ROOTINO, ?_, ?_, sound.root.1⟩
    · intro _
      rfl
    · intro other isCwd
      unfold bootKernel at isCwd
      dsimp only at isCwd
      split at isCwd
      · cases isCwd
        exact refers
      · cases isCwd

/-- The first process on a disk with one directory. -/
def booted : FileKernel :=
  bootKernel (Image.fileSystem Image.smallTree) (some Image.rootSlot)

theorem rootSlot_refers :
    (Image.volume Image.smallTree).Refers Image.rootSlot ROOTINO :=
  ⟨rfl, one_pos⟩

theorem booted_sane : booted.Sane (Image.volume Image.smallTree) :=
  bootKernel_sane (Image.represents Image.smallTree_fits)
    Image.smallTree_sound rootSlot_refers

end FileKernel

end MyOS
