import Mathlib.Data.Fintype.Card
import MyOS.Volume

namespace MyOS

open Lib

/-!
# The inode layer as steps of a volume

The routines of `fs.c` on inodes, alone, each with the step of the volume that
it makes.
-/

namespace Volume

variable {vol : Volume} {inum : Nat}

@[simp]
theorem setNode_handle
    (node : Node) :
    (vol.setNode inum node).handle = vol.handle :=
  rfl

@[simp]
theorem setNode_node_self
    (node : Node) :
    (vol.setNode inum node).node inum = node :=
  Function.update_self ..

theorem setNode_node_of_ne
    {other : Nat}
    (node : Node)
    (different : other ≠ inum) :
    (vol.setNode inum node).node other = vol.node other :=
  Function.update_of_ne different ..

theorem setNode_self : vol.setNode inum (vol.node inum) = vol := by
  unfold setNode
  rw [Function.update_eq_self]

theorem setNode_setNode
    (first second : Node) :
    (vol.setNode inum first).setNode inum second = vol.setNode inum second := by
  unfold setNode
  rw [Function.update_idem]

theorem Holds.setNode
    {ip : InodeIndex}
    {other : Nat}
    (holds : vol.Holds ip inum)
    (node : Node) :
    (vol.setNode other node).Holds ip inum :=
  ⟨holds.isInum, holds.referenced, holds.valid⟩

end Volume

namespace FileSystem

variable {tolerated : FileSystem → FsPanic → Prop}
variable {fs later : FileSystem} {m : Nat → Dinode} {vol : Volume}
variable {lagging : Option Nat}
variable {ip : InodeIndex} {inum : Nat}

/-!
## The contents of a node
-/

theorem Represents.inode
    (represents : fs.Represents vol lagging)
    (holds : vol.Holds ip inum) :
    (fs.inode ip).inum = inum ∧ (fs.inode ip).dev = ROOTDEV ∧
      (fs.inode ip).type = (vol.node inum).type ∧
      (fs.inode ip).nlink = (vol.node inum).nlink ∧
      (fs.inode ip).size = (vol.node inum).bytes.length := by
  obtain ⟨m, mounted, isVolume⟩ := represents
  subst isVolume
  obtain ⟨isInum, referenced, valid⟩ := holds
  have isInum : (fs.inode ip).inum = inum := isInum
  have same := (mounted.loaded referenced valid).1
  rw [isInum] at same
  refine ⟨isInum, mounted.dev referenced, ?_, ?_, ?_⟩
  · exact congrArg Dinode.type same
  · exact congrArg Dinode.nlink same
  · unfold volumeOf Disk.node
    rw [length_tabulate]
    exact congrArg Dinode.size same

theorem Represents.length_le
    (represents : fs.Represents vol lagging)
    (inum : Nat) :
    (vol.node inum).bytes.length ≤ MAXFILE * BSIZE := by
  obtain ⟨m, mounted, isVolume⟩ := represents
  subst isVolume
  unfold volumeOf Disk.node
  rw [length_tabulate]
  exact mounted.bounded inum

theorem Represents.length_le_disk
    (represents : fs.Represents vol lagging)
    (inum : Nat) :
    (vol.node inum).bytes.length ≤ FSSIZE * BSIZE := by
  obtain ⟨m, mounted, isVolume⟩ := represents
  subst isVolume
  unfold volumeOf Disk.node
  rw [length_tabulate]
  by_contra larger
  have present :
      ∀ block : Fin (FSSIZE + 1),
        Disk.pointer fs.disk (m inum) (.ofBlock block.val) ≠ 0 := by
    intro block
    have inside : block.val * BSIZE < (m inum).size := by
      have bound := Nat.mul_le_mul_right BSIZE (Nat.le_of_lt_succ block.isLt)
      exact Nat.lt_of_le_of_lt bound (Nat.lt_of_not_le larger)
    have found := mounted.noHoles inum (block.val * BSIZE) inside
    rw [Nat.mul_div_cancel _ (by decide)] at found
    exact found
  let blockOf : Fin (FSSIZE + 1) → Fin FSSIZE := fun block =>
    ⟨_, (mounted.fits.inRange (present block)).2⟩
  have injective : Function.Injective blockOf := by
    intro first second same
    have samePointer := congrArg Fin.val same
    have holders :=
      mounted.fits.exclusive (present second) samePointer
    exact Fin.ext (Position.ofBlock_injective holders.2)
  have card := Fintype.card_le_of_injective blockOf injective
  rw [Fintype.card_fin, Fintype.card_fin] at card
  exact Nat.not_succ_le_self FSSIZE card

theorem readi_represents
    (represents : fs.Represents vol lagging)
    (lag : lagging = none ∨ lagging = some inum)
    (holds : vol.Holds ip inum)
    (target : ReadTarget)
    {off n : Nat}
    (narrow : off + n < uintModulus) :
    (readi ip target off n fs).Ends tolerated
      (fun bytes later =>
        later = fs ∧
          ∃ count, count ≤ n ∧
            ((∀ done m, target.accepts done m = true) → count = n) ∧
            bytes = window (vol.node inum).bytes off count) := by
  obtain ⟨m, mounted, isVolume⟩ := represents
  subst isVolume
  have loaded := mounted.toLoaded lag holds
  apply (readi_ends loaded target narrow).mono
  intro bytes later ⟨isLater, count, bound, whole, isBytes⟩
  refine ⟨isLater, ?_⟩
  unfold volumeOf Disk.node
  by_cases all : count = min n ((m inum).size - off)
  · refine ⟨n, Nat.le_refl _, fun _ => rfl, ?_⟩
    rw [window_tabulate, isBytes, all]
    rfl
  · refine ⟨count, by omega, fun accepts => absurd (whole accepts) all, ?_⟩
    rw [window_tabulate, Nat.min_eq_left (by omega), isBytes]
    rfl

/-- A node has grown, and been stored, or its disk copy is as before. -/
def lagAfter (before after : List UInt8) (lagging : Option Nat) : Option Nat :=
  if before.length < after.length then none else lagging

theorem lagAfter_none (before after : List UInt8) :
    lagAfter before after none = none :=
  ite_self _

theorem writei_represents
    (represents : fs.Represents vol lagging)
    (lag : lagging = none ∨ lagging = some inum)
    (holds : vol.Holds ip inum)
    {source : Bytes}
    {off n : Nat}
    {bytes : List UInt8}
    (inFile : off + n ≤ MAXFILE * BSIZE)
    (isBytes :
      bytes =
        overwrite 0 (vol.node inum).bytes off (tabulate n source)) :
    (writei ip source off n fs).Ends Exhausted
      (fun result later =>
        result = (n : Int) ∧
          later.Represents
            (vol.setNode inum { vol.node inum with bytes := bytes })
            (lagAfter (vol.node inum).bytes bytes lagging)) := by
  obtain ⟨m, mounted, isVolume⟩ := represents
  subst isVolume
  have loaded := mounted.toLoaded lag holds
  have bytesEq :
      bytes =
        tabulate ((m inum).sizeAfter off n)
          (bytesAfter fs (m inum) off n source) := by
    rw [isBytes]
    unfold volumeOf Disk.node Dinode.sizeAfter
    by_cases nothing : n = 0
    · rw [if_pos nothing, nothing]
      have empty : tabulate 0 source = [] := rfl
      rw [empty, overwrite_nil]
      apply tabulate_congr
      intro place inside
      unfold bytesAfter filledBytes
      rw [if_neg (by omega), if_pos inside]
    · rw [if_neg nothing]
      exact overwrite_tabulate nothing
  have size : bytes.length = (m inum).sizeAfter off n := by
    rw [bytesEq, length_tabulate]
  have lagEq :
      lagAfter ((fs.volumeOf m).node inum).bytes bytes lagging =
        (m inum).lagAfter ((m inum).sizeAfter off n) lagging := by
    unfold lagAfter Dinode.lagAfter volumeOf Disk.node
    rw [length_tabulate, size]
  apply (writei_ends loaded inFile).mono
  intro result later ⟨isResult, addrs, rewrites⟩
  refine ⟨isResult, ?_⟩
  rw [lagEq]
  have lagNow :
      (m inum).lagAfter ((m inum).sizeAfter off n) lagging = none ∨
        (m inum).lagAfter ((m inum).sizeAfter off n) lagging = some inum := by
    unfold Dinode.lagAfter
    split
    · exact Or.inl rfl
    · exact lag
  obtain ⟨mountedNow, volume⟩ := mounted.rewritten holds rewrites lagNow
  refine ⟨_, mountedNow, ?_⟩
  rw [volume, bytesEq]
  rfl

theorem itrunc_represents
    (represents : fs.Represents vol lagging)
    (lag : lagging = none ∨ lagging = some inum)
    (holds : vol.Holds ip inum) :
    (itrunc ip fs).Ends tolerated
      (fun _ later =>
        later.Represents
          (vol.setNode inum { vol.node inum with bytes := [] }) none) := by
  obtain ⟨m, mounted, isVolume⟩ := represents
  subst isVolume
  have loaded := mounted.toLoaded lag holds
  apply (itrunc_ends loaded).mono
  intro _ later rewrites
  obtain ⟨mountedNow, volume⟩ :=
    mounted.rewritten holds rewrites (Or.inl rfl)
  refine ⟨_, mountedNow, ?_⟩
  rw [volume]
  rfl

theorem Loaded.setFields
    (loaded : fs.Loaded m lagging ip inum)
    (dinode : Dinode)
    (sameAddrs : dinode.addrs = (m inum).addrs)
    (shrinks : dinode.size ≤ (m inum).size)
    (isFit : dinode.Fits)
    (inUse : dinode.type ≠ 0) :
    fs.Rewritten m ip inum (fs.withDinode ip fs.disk dinode) dinode
      (some inum) (Disk.byteAt fs.disk (m inum)) where
  inode := rfl
  loaded := {
    formatted := loaded.formatted
    fits :=
      loaded.fits.change dinode loaded.lag sameAddrs isFit
        fun none => absurd none inUse
    lag := Or.inr rfl
    isInum := by
      unfold withDinode
      simp only [Function.update_self]
      exact loaded.isInum
    same := by
      unfold withDinode
      simp only [Function.update_self]
    inUse := by
      rw [Function.update_self]
      exact inUse
    inArea := loaded.inArea
    noHoles := by
      rw [Function.update_self]
      intro place inside
      rw [Disk.pointer_of_addrs sameAddrs]
      exact loaded.noHoles place (Nat.lt_of_lt_of_le inside shrinks)
    bounded := by
      rw [Function.update_self]
      exact Nat.le_trans shrinks loaded.bounded
  }
  others := fun _ _ => FileKept.refl
  bytes := by
    intro place _
    change Disk.byteAt fs.disk dinode place = _
    rw [Disk.byteAt_of_addrs sameAddrs]

theorem Represents.setNlink
    (represents : fs.Represents vol lagging)
    (lag : lagging = none ∨ lagging = some inum)
    (holds : vol.Holds ip inum)
    {nlink : Nat}
    (narrow : nlink < shortModulus) :
    FileSystem.Represents
      { fs with
        inode :=
          Function.update fs.inode ip { fs.inode ip with nlink := nlink } }
      (vol.setNode inum { vol.node inum with nlink := nlink })
      (some inum) := by
  obtain ⟨m, mounted, isVolume⟩ := represents
  subst isVolume
  have loaded := mounted.toLoaded lag holds
  have rewrites :=
    loaded.setFields { m inum with nlink := nlink } rfl (Nat.le_refl _)
      { loaded.fits.fits inum with nlink := narrow } loaded.inUse
  obtain ⟨mountedNow, volume⟩ :=
    mounted.rewritten holds rewrites (Or.inr rfl)
  have shape :
      fs.withDinode ip fs.disk { m inum with nlink := nlink } =
        { fs with
          inode :=
            Function.update fs.inode ip
              { fs.inode ip with nlink := nlink } } := by
    unfold withDinode
    rw [← loaded.same]
  rw [shape] at mountedNow volume
  refine ⟨_, mountedNow, ?_⟩
  rw [volume]
  rfl

theorem Represents.setSize
    (represents : fs.Represents vol lagging)
    (lag : lagging = none ∨ lagging = some inum)
    (holds : vol.Holds ip inum)
    {size : Nat}
    (shrinks : size ≤ (vol.node inum).bytes.length) :
    FileSystem.Represents
      { fs with
        inode := Function.update fs.inode ip { fs.inode ip with size := size } }
      (vol.setNode inum
        { vol.node inum with bytes := (vol.node inum).bytes.take size })
      (some inum) := by
  obtain ⟨m, mounted, isVolume⟩ := represents
  subst isVolume
  have loaded := mounted.toLoaded lag holds
  have isLength :
      ((fs.volumeOf m).node inum).bytes.length = (m inum).size :=
    length_tabulate
  rw [isLength] at shrinks
  have narrow : size < uintModulus :=
    Nat.lt_of_le_of_lt shrinks (loaded.fits.fits inum).size
  have rewrites :=
    loaded.setFields { m inum with size := size } rfl shrinks
      { loaded.fits.fits inum with size := narrow } loaded.inUse
  obtain ⟨mountedNow, volume⟩ :=
    mounted.rewritten holds rewrites (Or.inr rfl)
  have shape :
      fs.withDinode ip fs.disk { m inum with size := size } =
        { fs with
          inode :=
            Function.update fs.inode ip
              { fs.inode ip with size := size } } := by
    unfold withDinode
    rw [← loaded.same]
  rw [shape] at mountedNow volume
  refine ⟨_, mountedNow, ?_⟩
  rw [volume]
  have isTaken :
      tabulate size (Disk.byteAt fs.disk (m inum)) =
        ((fs.volumeOf m).node inum).bytes.take size := by
    change _ = (tabulate (m inum).size _).take size
    rw [take_tabulate, Nat.min_eq_left shrinks]
  rw [← isTaken]
  rfl

theorem iupdate_represents
    (represents : fs.Represents vol lagging)
    (lag : lagging = none ∨ lagging = some inum)
    (holds : vol.Holds ip inum) :
    (iupdate ip fs).Ends tolerated
      (fun _ later => later.Represents vol none) := by
  obtain ⟨m, mounted, isVolume⟩ := represents
  subst isVolume
  have loaded := mounted.toLoaded lag holds
  apply Outcome.Ends.mono
  · exact iupdate_ends mounted.formatted
  · intro _ later isLater
    have kept := fun other =>
      loaded.fits.kept_storeInode (m inum) loaded.inArea other
    have rewrites :
        fs.Rewritten m ip inum later (m inum) none
          (Disk.byteAt fs.disk (m inum)) := by
      rw [isLater, loaded.isInum, loaded.same]
      exact {
        inode := by
          rw [← loaded.same, Function.update_eq_self]
        loaded := {
          formatted := loaded.formatted
          fits := by
            rw [Function.update_eq_self]
            exact loaded.fits.storeInode loaded.lag loaded.inArea
          lag := Or.inl rfl
          isInum := loaded.isInum
          same := by
            rw [Function.update_eq_self]
            exact loaded.same
          inUse := by
            rw [Function.update_eq_self]
            exact loaded.inUse
          inArea := loaded.inArea
          noHoles := by
            rw [Function.update_eq_self]
            intro place inside
            have present := loaded.noHoles place inside
            rw [((kept inum) _ present).1]
            exact present
          bounded := by
            rw [Function.update_eq_self]
            exact loaded.bounded
        }
        others := fun other _ => kept other
        bytes := by
          intro place inside
          exact (kept inum).byteAt (loaded.noHoles place inside)
      }
    obtain ⟨mountedNow, volume⟩ :=
      mounted.rewritten holds rewrites (Or.inl rfl)
    refine ⟨_, mountedNow, ?_⟩
    rw [volume]
    exact Volume.setNode_self.symm

end FileSystem

end MyOS
