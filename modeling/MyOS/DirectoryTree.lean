import MyOS.DirectoryChanges

namespace MyOS

open Lib
open Routine

/-!
# Growing trees of directories

A node that is linked into a directory leaves the other nodes, and every
directory where it stands.
-/

namespace Volume

/-- A new node is linked into a directory. -/
structure Adds
    (vol later : Volume)
    (dp new slot : Nat)
    (name : List UInt8) : Prop where
  isDir : vol.IsDir dp
  inArea : dp < NINODES
  positive : later.IsDir new → dp ≠ 0
  isFree : IsFree (vol.node dp).bytes slot
  isNew : lookup (vol.node dp).bytes name = none
  noNul : 0 ∉ name
  unused : (vol.node new).type = 0
  newInArea : new < NINODES
  newPositive : new ≠ 0
  type : (later.node dp).type = T_DIR
  linked : (later.node dp).nlink ≠ 0
  bytes :
    (later.node dp).bytes = withEntry (vol.node dp).bytes slot name new
  inUse : (later.node new).type ≠ 0
  newLinked : (later.node new).nlink ≠ 0
  others :
    ∀ {other}, other ≠ dp → other ≠ new →
      later.node other = vol.node other
  own :
    later.IsDir new →
      (later.node new).bytes =
        directoryBytes [(dotName, new), (dotDotName, dp)]

/-- A tree of directories in which every directory of another one stands. -/
structure Evolves (vol later : Volume) : Prop where
  sound : later.Sound
  tree : later.Tree
  stays : ∀ {path inum}, vol.At path inum → later.At path inum

variable {vol later : Volume} {dp new slot inum : Nat} {name : List UInt8}

theorem Sound.setNode
    (sound : vol.Sound)
    {node : Node}
    (inUse : (vol.node inum).type ≠ 0 → node.type ≠ 0)
    (linked : (vol.node inum).nlink ≠ 0 → node.nlink ≠ 0)
    (whole : node.type = T_DIR → direntSize ∣ node.bytes.length)
    (entries :
      node.type = T_DIR → ∀ index,
        direntSize * index < node.bytes.length →
          (direntAt node.bytes index).inum ≠ 0 →
            (vol.setNode inum node).Usable
              (direntAt node.bytes index).inum)
    (root : inum = ROOTINO → node.type = T_DIR) :
    (vol.setNode inum node).Sound := by
  have usable :
      ∀ {other}, vol.Usable other →
        (vol.setNode inum node).Usable other := by
    intro other isUsable
    by_cases same : other = inum
    · rw [same] at isUsable ⊢
      refine ⟨isUsable.inArea, ?_, ?_⟩
      · rw [setNode_node_self]
        exact inUse isUsable.inUse
      · rw [setNode_node_self]
        exact linked isUsable.linked
    · refine ⟨isUsable.inArea, ?_, ?_⟩
      · rw [setNode_node_of_ne node same]
        exact isUsable.inUse
      · rw [setNode_node_of_ne node same]
        exact isUsable.linked
  exact {
    whole := by
      intro other isDir
      unfold IsDir at isDir
      by_cases same : other = inum
      · rw [same, setNode_node_self] at isDir ⊢
        exact whole isDir
      · rw [setNode_node_of_ne node same] at isDir ⊢
        exact sound.whole isDir
    usable := by
      intro other index isDir inside used
      unfold IsDir at isDir
      by_cases same : other = inum
      · rw [same, setNode_node_self] at isDir inside used ⊢
        exact entries isDir index inside used
      · rw [setNode_node_of_ne node same] at isDir inside used ⊢
        exact usable (sound.usable isDir inside used)
    root := by
      refine ⟨usable sound.root.1, ?_⟩
      unfold IsDir
      by_cases same : ROOTINO = inum
      · rw [same, setNode_node_self]
        exact root same.symm
      · rw [setNode_node_of_ne node same]
        exact sound.root.2
  }

theorem linkable_dotName
    (narrow : inum < shortModulus)
    (inUse : inum ≠ 0) :
    Linkable (dotName, inum) where
  noNul := (by decide : 0 ∉ dotName)
  short := (by decide : dotName.length < DIRSIZ)
  narrow := narrow
  inUse := inUse

theorem linkable_dotDotName
    (narrow : inum < shortModulus)
    (inUse : inum ≠ 0) :
    Linkable (dotDotName, inum) where
  noNul := (by decide : 0 ∉ dotDotName)
  short := (by decide : dotDotName.length < DIRSIZ)
  narrow := narrow
  inUse := inUse

namespace Adds

variable (adds : vol.Adds later dp new slot name)

include adds

theorem notDir : ¬ vol.IsDir new := by
  intro isDir
  have unused := adds.unused
  rw [isDir] at unused
  cases unused

theorem dirs
    {other : Nat}
    (isOther : other ≠ new) :
    later.IsDir other ↔ vol.IsDir other := by
  by_cases isParent : other = dp
  · rw [isParent]
    exact iff_of_true adds.type adds.isDir
  · unfold IsDir
    rw [adds.others isParent isOther]

theorem usable
    {other : Nat}
    (isUsable : vol.Usable other) :
    later.Usable other := by
  by_cases isNew : other = new
  · rw [isNew]
    exact ⟨adds.newInArea, adds.inUse, adds.newLinked⟩
  · by_cases isParent : other = dp
    · rw [isParent]
      refine ⟨adds.inArea, ?_, adds.linked⟩
      rw [adds.type]
      decide
    · refine ⟨isUsable.inArea, ?_, ?_⟩
      · rw [adds.others isParent isNew]
        exact isUsable.inUse
      · rw [adds.others isParent isNew]
        exact isUsable.linked

theorem linkable
    (isDir : later.IsDir new) :
    ∀ entry ∈ [(dotName, new), (dotDotName, dp)], Linkable entry := by
  have narrow : NINODES < shortModulus := by decide
  intro entry member
  rcases List.mem_pair.mp member with isDot | isDotDot
  · rw [isDot]
    exact linkable_dotName (Nat.lt_trans adds.newInArea narrow)
      adds.newPositive
  · rw [isDotDot]
    exact linkable_dotDotName (Nat.lt_trans adds.inArea narrow)
      (adds.positive isDir)

theorem sound (sound : vol.Sound) : later.Sound where
  whole := by
    intro other isDir
    by_cases isNew : other = new
    · rw [isNew] at isDir ⊢
      rw [adds.own isDir, length_directoryBytes]
      exact Nat.dvd_mul_right ..
    · have wasDir := (adds.dirs isNew).mp isDir
      by_cases isParent : other = dp
      · rw [isParent, adds.bytes]
        exact whole_withEntry adds.isFree
      · rw [adds.others isParent isNew]
        exact sound.whole wasDir
  usable := by
    intro other index isDir inside used
    by_cases isNew : other = new
    · rw [isNew] at isDir inside ⊢
      rw [adds.own isDir] at inside ⊢
      rw [length_directoryBytes] at inside
      have inside := Nat.lt_of_mul_lt_mul_left inside
      rw [direntAt_directoryBytes (adds.linkable isDir) inside]
      have bound : index < 2 := inside
      rcases Nat.lt_succ_iff_lt_or_eq.mp bound with isFirst | isSecond
      · have isFirst : index = 0 := Nat.lt_one_iff.mp isFirst
        subst isFirst
        exact ⟨adds.newInArea, adds.inUse, adds.newLinked⟩
      · subst isSecond
        refine ⟨adds.inArea, ?_, adds.linked⟩
        change (later.node dp).type ≠ 0
        rw [adds.type]
        decide
    · have wasDir := (adds.dirs isNew).mp isDir
      by_cases isParent : other = dp
      · rw [isParent, adds.bytes] at inside used ⊢
        have whole := sound.whole adds.isDir
        rw [direntAt_withEntry adds.isFree] at used ⊢
        split at used
        next isSlot =>
          have narrow : NINODES < shortModulus := by decide
          rw [if_pos isSlot, ofBytes_entryBytes_inum
            (Nat.lt_trans adds.newInArea narrow)]
          exact ⟨adds.newInArea, adds.inUse, adds.newLinked⟩
        next elsewhere =>
          rw [if_neg elsewhere]
          apply adds.usable
          apply sound.usable adds.isDir _ used
          have within :
              index <
                (withEntry (vol.node dp).bytes slot name new).length /
                  direntSize := by
            obtain ⟨entries, isLength⟩ :
                direntSize ∣
                  (withEntry (vol.node dp).bytes slot name new).length :=
              whole_withEntry adds.isFree
            have isEntry : direntSize = 16 := rfl
            rw [isLength, isEntry] at inside ⊢
            omega
          have before :=
            ((inside_withEntry adds.isFree).mp within).resolve_right elsewhere
          obtain ⟨entries, isLength⟩ := whole
          have isEntry : direntSize = 16 := rfl
          rw [isLength, isEntry] at before ⊢
          omega
      · rw [adds.others isParent isNew] at inside used ⊢
        exact adds.usable (sound.usable wasDir inside used)
  root := by
    have notNew : ROOTINO ≠ new := by
      intro same
      have isDir := sound.root.2
      rw [same] at isDir
      exact adds.notDir isDir
    exact ⟨adds.usable sound.root.1, (adds.dirs notNew).mpr sound.root.2⟩

end Adds

/-- A new node in the hands of the kernel, which still holds a directory. -/
structure Takes
    (base vol held : Volume)
    (extra : InodeIndex → Nat)
    (dp ip : InodeIndex)
    (inum new type : Nat) : Prop where
  holdsParent : held.Holds dp inum
  holds : held.Holds ip new
  borrows : Borrows base held (extra + one dp + one ip)
  unused : (vol.node new).type = 0
  node : held.node = (vol.setNode new (newNode type)).node

theorem Takes.of_gets
    {base vol loaded after : Volume}
    {extra : InodeIndex → Nat}
    {dp ip : InodeIndex}
    {inum new type : Nat}
    (holds : loaded.Holds dp inum)
    (borrows : Borrows base loaded (extra + one dp))
    (unused : (vol.node new).type = 0)
    (same : loaded.node = vol.node)
    (gets : (loaded.setNode new (newNode type)).Gets new ip after) :
    Takes base vol
      (after.setHandle ip { after.handle ip with valid := true }) extra dp ip
      inum new type where
  holdsParent := ((holds.setNode (newNode type)).of_gets gets).load ip
  holds :=
    (gets.refers ((borrows.setNode new _).nonneg_now ip)).load
  borrows := ((borrows.setNode new (newNode type)).gets gets).load ip
  unused := unused
  node := by
    rw [setHandle_node, gets.node]
    unfold setNode
    dsimp only
    rw [same]

theorem Takes.node_setNode
    {base vol held : Volume}
    {extra : InodeIndex → Nat}
    {dp ip : InodeIndex}
    {inum new type : Nat}
    (takes : Takes base vol held extra dp ip inum new type)
    (node : Node) :
    (held.setNode new node).node = (vol.setNode new node).node := by
  unfold setNode
  dsimp only
  rw [takes.node]
  unfold setNode
  dsimp only
  rw [Function.update_idem]

end Volume

end MyOS
