import MyOS.DirectoryEntries

namespace MyOS

open Lib

/-!
# Images of small volumes

A disk laid out as `mkfs.c` does it, with nodes of one block each: the inodes
from the root's on, the bitmap, and the nodes' blocks one behind the other from
the root's block on.  A file system on it represents the volume of the nodes.
-/

namespace Image

variable {nodes : List Node} {inum b : Nat}

/-- A node of an image; there is none with number 0. -/
def node (nodes : List Node) (inum : Nat) : Node :=
  if inum = 0 then Volume.freeNode else nodes.getD (inum - 1) Volume.freeNode

/-- There is a node with a number. -/
def Has (nodes : List Node) (inum : Nat) : Prop :=
  0 < inum ∧ inum ≤ nodes.length

instance : Decidable (Has nodes inum) :=
  inferInstanceAs (Decidable (_ ∧ _))

/-- The block of a node. -/
def blockOf (inum : Nat) : Nat :=
  ROOT_BLOCK + (inum - 1)

/-- An inode of an image. -/
def dinode (nodes : List Node) (inum : Nat) : Dinode :=
  if Has nodes inum then
    {
      type := (node nodes inum).type
      major := 0
      minor := 0
      nlink := (node nodes inum).nlink
      size := (node nodes inum).bytes.length
      addrs := fun index => if index.val = 0 then blockOf inum else 0
    }
  else
    Dinode.zeroed 0

/-- A byte of the bitmap in which the bits below a limit are set. -/
def marks (limit : Nat) : Bytes :=
  fun index => UInt8.ofNat (Nat.pow 2 (min 8 (limit - 8 * index)) - 1)

/-- The disk of an image. -/
def disk (nodes : List Node) : Disk := fun b =>
  if b = INODE_START then
    fun index =>
      (dinode nodes (index / dinodeSize)).bytes (index % dinodeSize)
  else if b = BMAP_START then
    marks (ROOT_BLOCK + nodes.length)
  else if ROOT_BLOCK ≤ b then
    Bytes.ofList (node nodes (b - ROOT_BLOCK + 1)).bytes
  else
    fun _ => 0

/-- A file system on an image, with the root directory open in slot 0. -/
def fileSystem (nodes : List Node) : FileSystem where
  sb := imageSuperblock
  disk := disk nodes
  inode := fun ip => {
    toDinode := Dinode.zeroed 0
    dev := ROOTDEV
    inum := if ip.val = 0 then ROOTINO else 0
    ref := if ip.val = 0 then 1 else 0
    valid := false
  }

theorem NINODE_pos : 0 < NINODE := by
  decide

/-- The slot of the root directory. -/
def rootSlot : InodeIndex :=
  ⟨0, NINODE_pos⟩

/-- The volume of an image. -/
def volume (nodes : List Node) : Volume where
  node := node nodes
  handle := fun ip => {
    inum := if ip.val = 0 then ROOTINO else 0
    ref := if ip.val = 0 then 1 else 0
    valid := false
  }

/-- Nodes of which an image can be made. -/
structure Fits (nodes : List Node) : Prop where
  count : nodes.length < IPB
  root : 0 < nodes.length
  type : ∀ node ∈ nodes, node.type ≠ 0 ∧ node.type < shortModulus
  nlink : ∀ node ∈ nodes, node.nlink < shortModulus
  short : ∀ node ∈ nodes, node.bytes.length ≤ BSIZE

theorem mem_of_has
    (has : Has nodes inum) :
    node nodes inum ∈ nodes := by
  obtain ⟨positive, bound⟩ := has
  have inside : inum - 1 < nodes.length := by
    omega
  unfold node
  rw [if_neg (by omega), List.getD_eq_getElem?_getD,
    List.getElem?_eq_getElem inside]
  exact List.getElem_mem inside

theorem node_of_not_has
    (hasNot : ¬ Has nodes inum) :
    node nodes inum = Volume.freeNode := by
  unfold node
  split
  · rfl
  next notZero =>
    have behind : nodes.length ≤ inum - 1 := by
      unfold Has at hasNot
      omega
    rw [List.getD_eq_getElem?_getD, List.getElem?_eq_none behind]
    rfl

theorem dinode_fits
    (fits : Fits nodes)
    (inum : Nat) :
    (dinode nodes inum).Fits := by
  have noDevice : 0 < shortModulus := by
    decide
  have noBlock : 0 < uintModulus := by
    decide
  unfold dinode
  split
  next has =>
    have member := mem_of_has has
    have size : BSIZE < uintModulus := by
      decide
    exact {
      type := (fits.type _ member).2
      major := noDevice
      minor := noDevice
      nlink := fits.nlink _ member
      size := Nat.lt_of_le_of_lt (fits.short _ member) size
      addrs := by
        intro index
        dsimp only
        have count := fits.count
        have bound := has.2
        have small : uintModulus = 4294967296 := rfl
        rw [IPB_eq] at count
        split
        · unfold blockOf
          rw [ROOT_BLOCK_eq]
          omega
        · omega
    }
  · exact {
      type := noDevice
      major := noDevice
      minor := noDevice
      nlink := noDevice
      size := noBlock
      addrs := fun _ => noBlock
    }

theorem addrs_eq
    (nodes : List Node)
    (inum : Nat)
    (index : AddrIndex) :
    (dinode nodes inum).addrs index =
      if Has nodes inum ∧ index = 0 then blockOf inum else 0 := by
  unfold dinode
  by_cases has : Has nodes inum
  · rw [if_pos has]
    dsimp only
    by_cases first : index = 0
    · rw [if_pos (Fin.val_eq_zero_iff.mpr first), if_pos ⟨has, first⟩]
    · rw [if_neg (fun isZero => first (Fin.val_eq_zero_iff.mp isZero)),
        if_neg (fun both => first both.2)]
  · rw [if_neg has, if_neg (fun both => has both.1)]
    rfl

theorem pointer_eq
    (nodes : List Node)
    (inum : Nat)
    (position : Position) :
    Disk.pointer (disk nodes) (dinode nodes inum) position =
      if Has nodes inum ∧ position = .addr 0 then blockOf inum else 0 := by
  have direct :
      ∀ index : AddrIndex,
        Disk.pointer (disk nodes) (dinode nodes inum) (.addr index) =
          if Has nodes inum ∧ index = 0 then blockOf inum else 0 :=
    addrs_eq nodes inum
  have noIndirect :
      ∀ parent : Position, parent.isIndex = true →
        Disk.pointer (disk nodes) (dinode nodes inum) parent = 0 := by
    intro parent isIndex
    induction parent with
    | addr index =>
        rw [direct, if_neg]
        rintro ⟨_, isZero⟩
        rw [isZero] at isIndex
        cases isIndex
    | child parent index inductionHypothesis =>
        have isParent : parent.isIndex = true := by
          cases parent with
          | addr index =>
              have isDouble := eq_of_beq isIndex
              rw [isDouble]
              rfl
          | child parent index =>
              cases isIndex
        unfold Disk.pointer
        rw [if_neg]
        rintro ⟨_, _, present⟩
        exact present (inductionHypothesis isParent)
  cases position with
  | addr index =>
      rw [direct]
      simp only [Position.addr.injEq]
  | child parent index =>
      unfold Disk.pointer
      rw [if_neg, if_neg]
      · rintro ⟨_, impossible⟩
        cases impossible
      · rintro ⟨isIndex, _, present⟩
        exact present (noIndirect parent isIndex)

theorem bit_marks
    (limit index : Nat) :
    (marks limit).bit index = decide (index < limit) := by
  unfold Bytes.bit marks
  rw [Bytes.and_mask]
  have bits :
      (UInt8.ofNat (Nat.pow 2 (min 8 (limit - 8 * (index / 8))) - 1)).toNat =
        Nat.pow 2 (min 8 (limit - 8 * (index / 8))) - 1 := by
    rw [UInt8.toNat_ofNat']
    apply Nat.mod_eq_of_lt
    have bound : Nat.pow 2 (min 8 (limit - 8 * (index / 8))) ≤ Nat.pow 2 8 :=
      Nat.pow_le_pow_right (by decide) (Nat.min_le_left _ _)
    have value : Nat.pow 2 8 = 256 := rfl
    have positive : 0 < Nat.pow 2 (min 8 (limit - 8 * (index / 8))) :=
      Nat.pow_pos (by decide)
    change _ < 256
    omega
  rw [bits]
  have tested := Nat.testBit_two_pow_sub_one
    (min 8 (limit - 8 * (index / 8))) (index % 8)
  have small := Nat.mod_lt index (show 0 < 8 by decide)
  refine tested.trans ?_
  apply decide_eq_decide.mpr
  omega

theorem marked_iff
    (fits : Fits nodes)
    (b : Nat) :
    Disk.marked (disk nodes) b = true ↔ b < ROOT_BLOCK + nodes.length := by
  have count := fits.count
  rw [IPB_eq] at count
  unfold Disk.marked Disk.bitmapBlock
  rw [Bool.and_eq_true, decide_eq_true_eq]
  by_cases first : b < BPB
  · have block : disk nodes (b / BPB + BMAP_START) =
        marks (ROOT_BLOCK + nodes.length) := by
      rw [Nat.div_eq_of_lt first, Nat.zero_add]
      exact if_neg (by decide) |>.trans (if_pos rfl)
    rw [block, bit_marks, Nat.mod_eq_of_lt first, decide_eq_true_eq]
    have isRoot := ROOT_BLOCK_eq
    have isSize := FSSIZE_eq
    omega
  · constructor
    · rintro ⟨inRange, isSet⟩
      have second : b / BPB + BMAP_START = 65 := by
        rw [FSSIZE_eq] at inRange
        rw [BPB_eq] at first ⊢
        rw [BMAP_START_eq]
        omega
      rw [second] at isSet
      have clear : (disk nodes 65).bit (b % BPB) = false := by
        unfold Bytes.bit
        rw [Bytes.and_mask]
        exact Nat.zero_testBit _
      rw [clear] at isSet
      cases isSet
    · intro below
      have isRoot := ROOT_BLOCK_eq
      have isBits := BPB_eq
      omega

theorem ofBlock_of_bytes
    {block : Bytes}
    {slot : Nat}
    {inode : Dinode}
    (isFit : inode.Fits)
    (same :
      ∀ place, place < dinodeSize →
        block (slot * dinodeSize + place) = inode.bytes place) :
    Dinode.ofBlock block slot = inode := by
  have stored : inode.toBlock block slot = block := by
    funext index
    unfold Dinode.toBlock
    by_cases inside :
        slot * dinodeSize ≤ index ∧ index < slot * dinodeSize + dinodeSize
    · rw [Bytes.put_inside inside.1 inside.2, ← same _ (by omega)]
      congr 1
      omega
    · rw [Bytes.put_outside (by omega)]
  rw [← stored]
  exact Dinode.ofBlock_toBlock isFit block slot

theorem bytes_zeroed (place : Nat) : (Dinode.zeroed 0).bytes place = 0 := by
  have byte : ∀ index, Bytes.ofNat 0 index = 0 := by
    intro index
    unfold Bytes.ofNat
    rw [Nat.zero_div]
    rfl
  unfold Dinode.bytes Dinode.zeroed
  simp only [byte, ite_self]

theorem dinode_stored
    (fits : Fits nodes)
    (inRange : inum < NINODES) :
    Disk.dinode (disk nodes) inum = dinode nodes inum := by
  have count := fits.count
  rw [IPB_eq] at count
  unfold Disk.dinode
  apply ofBlock_of_bytes (dinode_fits fits inum)
  intro place inside
  unfold Disk.inodeBlock disk
  by_cases first : inum < IPB
  · rw [if_pos (by rw [Nat.div_eq_of_lt first, Nat.add_zero]),
      Nat.mod_eq_of_lt first]
    have quotient : (inum * dinodeSize + place) / dinodeSize = inum := by
      rw [dinodeSize_eq] at inside ⊢
      omega
    have rest : (inum * dinodeSize + place) % dinodeSize = place := by
      rw [dinodeSize_eq] at inside ⊢
      omega
    rw [quotient, rest]
  · have isInodes := INODE_START_eq
    have isBitmap := BMAP_START_eq
    have isRoot := ROOT_BLOCK_eq
    rw [IPB_eq] at first
    rw [NINODES_eq] at inRange
    rw [IPB_eq, if_neg (by omega), if_neg (by omega), if_neg (by omega)]
    unfold dinode
    rw [if_neg]
    · exact (bytes_zeroed place).symm
    · unfold Has
      omega

theorem owned (fits : Fits nodes) :
    Ownership (Disk.references (disk nodes) (dinode nodes))
      (Disk.marked (disk nodes)) (fun b => b < ROOT_BLOCK) FSSIZE none where
  null := by
    rw [ROOT_BLOCK_eq]
    decide
  exclusive := by
    rintro ⟨first, position⟩ ⟨second, other⟩ same present
    unfold Disk.references at same present
    rw [pointer_eq] at same present
    rw [pointer_eq] at same
    split at same
    next isFirst =>
      split at same
      next isSecond =>
        unfold blockOf at same
        have bounds := isFirst.1
        have others := isSecond.1
        unfold Has at bounds others
        have equal : first = second := by
          omega
        exact Prod.ext equal (isFirst.2.trans isSecond.2.symm)
      next =>
        unfold blockOf at same
        rw [ROOT_BLOCK_eq] at same
        omega
    next isNot =>
      exact absurd (if_neg isNot) present
  inRange := by
    rintro ⟨inum, position⟩ present
    unfold Disk.references at present ⊢
    rw [pointer_eq] at present ⊢
    split at present
    next isFirst =>
      rw [if_pos isFirst]
      have bounds := isFirst.1
      have count := fits.count
      unfold Has at bounds
      unfold blockOf
      rw [IPB_eq] at count
      rw [ROOT_BLOCK_eq, FSSIZE_eq]
      omega
    next =>
      exact absurd rfl present
  isMarked := by
    rintro ⟨inum, position⟩ present
    unfold Disk.references at present ⊢
    rw [pointer_eq] at present ⊢
    split at present
    next isFirst =>
      rw [if_pos isFirst, marked_iff fits]
      have bounds := isFirst.1
      unfold Has at bounds
      unfold blockOf
      omega
    next =>
      exact absurd rfl present
  owned := by
    intro b inRange isMarked
    have below := (marked_iff fits b).mp isMarked
    by_cases reserved : b < ROOT_BLOCK
    · exact Or.inl reserved
    · refine Or.inr (Or.inr ⟨(b - ROOT_BLOCK + 1, .addr 0), ?_⟩)
      unfold Disk.references
      rw [pointer_eq, if_pos]
      · unfold blockOf
        omega
      · unfold Has
        refine ⟨?_, rfl⟩
        omega
  keepsReserved := by
    intro b reserved
    rw [marked_iff fits]
    omega
  looseInRange := by
    intro b impossible
    cases impossible

theorem diskFits (fits : Fits nodes) :
    DiskFits (disk nodes) (dinode nodes) none none where
  owned := owned fits
  stored := fun inRange _ => dinode_stored fits inRange
  fits := dinode_fits fits
  free := by
    intro inum isFree index
    rw [addrs_eq, if_neg]
    rintro ⟨has, _⟩
    rcases isFree with isFree | outside
    · unfold dinode at isFree
      rw [if_pos has] at isFree
      exact (fits.type _ (mem_of_has has)).1 isFree
    · have count := fits.count
      rw [IPB_eq] at count
      rw [NINODES_eq] at outside
      unfold Has at has
      omega

theorem bytes_eq
    (fits : Fits nodes)
    (has : Has nodes inum)
    {place : Nat}
    (inside : place < (node nodes inum).bytes.length) :
    Disk.pointer (disk nodes) (dinode nodes inum)
        (.ofBlock (place / BSIZE)) = blockOf inum ∧
      Disk.byteAt (disk nodes) (dinode nodes inum) place =
        (node nodes inum).bytes.getD place 0 := by
  have short := fits.short _ (mem_of_has has)
  have within : place < BSIZE := Nat.lt_of_lt_of_le inside short
  have isFirst : Position.ofBlock (place / BSIZE) = .addr 0 := by
    rw [Nat.div_eq_of_lt within]
    rfl
  have pointer :
      Disk.pointer (disk nodes) (dinode nodes inum)
        (.ofBlock (place / BSIZE)) = blockOf inum := by
    rw [pointer_eq, if_pos ⟨has, isFirst⟩]
  refine ⟨pointer, ?_⟩
  unfold Disk.byteAt
  rw [pointer, Nat.mod_eq_of_lt within]
  have isInodes := INODE_START_eq
  have isBitmap := BMAP_START_eq
  have isRoot := ROOT_BLOCK_eq
  have number : blockOf inum - ROOT_BLOCK + 1 = inum := by
    have positive := has.1
    unfold blockOf
    omega
  unfold disk
  rw [if_neg (by unfold blockOf; omega), if_neg (by unfold blockOf; omega),
    if_pos (by unfold blockOf; omega), number]
  rfl

theorem node_eq
    (fits : Fits nodes)
    (inum : Nat) :
    Disk.node (disk nodes) (dinode nodes inum) = node nodes inum := by
  by_cases has : Has nodes inum
  · have isDinode :
        (dinode nodes inum).type = (node nodes inum).type ∧
          (dinode nodes inum).nlink = (node nodes inum).nlink ∧
          (dinode nodes inum).size = (node nodes inum).bytes.length := by
      unfold dinode
      rw [if_pos has]
      exact ⟨rfl, rfl, rfl⟩
    have bytes :
        tabulate (dinode nodes inum).size
            (Disk.byteAt (disk nodes) (dinode nodes inum)) =
          (node nodes inum).bytes := by
      rw [isDinode.2.2]
      refine Eq.trans (tabulate_congr ?_)
        (tabulate_getD 0 (node nodes inum).bytes)
      intro place inside
      exact (bytes_eq fits has inside).2
    unfold Disk.node
    rw [bytes, isDinode.1, isDinode.2.1]
  · rw [node_of_not_has has]
    unfold Disk.node dinode
    rw [if_neg has]
    rfl

theorem represents (fits : Fits nodes) :
    (fileSystem nodes).Represents (volume nodes) none := by
  have only :
      ∀ {ip : InodeIndex}, 0 < ((fileSystem nodes).inode ip).ref →
        ip.val = 0 := by
    intro ip referenced
    by_contra other
    have isZero : ((fileSystem nodes).inode ip).ref = 0 := if_neg other
    rw [isZero] at referenced
    exact absurd referenced (Int.lt_irrefl 0)
  have isRoot :
      ∀ {ip : InodeIndex}, 0 < ((fileSystem nodes).inode ip).ref →
        ((fileSystem nodes).inode ip).inum = ROOTINO :=
    fun referenced => if_pos (only referenced)
  refine ⟨dinode nodes, ?_, ?_⟩
  · exact {
      formatted := rfl
      fits := diskFits fits
      noHoles := by
        intro inum place inside
        by_cases has : Has nodes inum
        · have isSize :
              (dinode nodes inum).size =
                (node nodes inum).bytes.length := by
            unfold dinode
            rw [if_pos has]
          rw [isSize] at inside
          have pointer := (bytes_eq fits has inside).1
          have present : blockOf inum ≠ 0 := by
            unfold blockOf
            rw [ROOT_BLOCK_eq]
            omega
          intro isZero
          exact present (pointer.symm.trans isZero)
        · unfold dinode at inside
          rw [if_neg has] at inside
          exact absurd inside (Nat.not_lt_zero place)
      bounded := by
        intro inum
        unfold dinode
        split
        next has =>
          have short := fits.short _ (mem_of_has has)
          have room : BSIZE ≤ MAXFILE * BSIZE := by
            decide
          exact Nat.le_trans short room
        · exact Nat.zero_le _
      nonneg := by
        intro ip
        unfold fileSystem
        dsimp only
        split
        all_goals decide
      dev := fun _ => rfl
      inArea := by
        intro ip referenced
        rw [isRoot referenced]
        decide
      unique := by
        intro ip other isFirst isSecond _
        apply Fin.ext
        rw [only isFirst, only isSecond]
      loaded := by
        intro ip _ valid
        cases valid
      lags := by
        intro inum impossible
        cases impossible
    }
  · apply Volume.ext
    · funext inum
      exact (node_eq fits inum).symm
    · rfl

/-!
## A small tree
-/

/-- A directory with the entries of a list. -/
def directory (nlink : Nat) (entries : List (List UInt8 × Nat)) : Node where
  type := T_DIR
  nlink := nlink
  bytes := directoryBytes entries

/-- The name `a` -/
def nameA : List UInt8 := [97]

/-- The entries of the root directory. -/
def rootEntries : List (List UInt8 × Nat) :=
  [(dotName, 1), (dotDotName, 1), (nameA, 2)]

/-- The entries of the directory `/a`. -/
def belowEntries : List (List UInt8 × Nat) :=
  [(dotName, 2), (dotDotName, 1)]

/-- A root directory with an empty directory `a`. -/
def smallTree : List Node :=
  [directory 3 rootEntries, directory 2 belowEntries]

theorem smallTree_fits : Fits smallTree where
  count := by decide
  root := by decide
  type := by
    intro node member
    rcases List.mem_pair.mp member with isRoot | isBelow
    · rw [isRoot]
      decide
    · rw [isBelow]
      decide
  nlink := by
    intro node member
    rcases List.mem_pair.mp member with isRoot | isBelow
    · rw [isRoot]
      decide
    · rw [isBelow]
      decide
  short := by
    intro node member
    rcases List.mem_pair.mp member with isRoot | isBelow
    · rw [isRoot]
      change (directoryBytes rootEntries).length ≤ BSIZE
      rw [length_directoryBytes]
      decide
    · rw [isBelow]
      change (directoryBytes belowEntries).length ≤ BSIZE
      rw [length_directoryBytes]
      decide

theorem smallTree_isDir
    (isDir : (volume smallTree).IsDir inum) :
    (inum = 1 ∧
        (volume smallTree).node inum = directory 3 rootEntries) ∨
      inum = 2 ∧
        (volume smallTree).node inum = directory 2 belowEntries := by
  by_cases has : Has smallTree inum
  · obtain ⟨positive, bound⟩ := has
    have bound : inum ≤ 2 := bound
    rcases Nat.eq_or_lt_of_le positive with isRoot | below
    · rw [← isRoot]
      exact Or.inl ⟨rfl, rfl⟩
    · have isBelow : inum = 2 := Nat.le_antisymm bound below
      rw [isBelow]
      exact Or.inr ⟨rfl, rfl⟩
  · have isFree : (volume smallTree).node inum = Volume.freeNode :=
      node_of_not_has has
    unfold Volume.IsDir at isDir
    rw [isFree] at isDir
    cases isDir

theorem smallTree_linkable :
    (∀ entry ∈ rootEntries, Linkable entry) ∧
      ∀ entry ∈ belowEntries, Linkable entry := by
  decide

theorem smallTree_child
    {name : List UInt8}
    {next : Nat}
    (isChild : (volume smallTree).child inum name = some next) :
    (inum = 1 ∧
        ((name = dotName ∨ name = dotDotName) ∧ next = 1 ∨
          name = nameA ∧ next = 2)) ∨
      inum = 2 ∧
        (name = dotName ∧ next = 2 ∨ name = dotDotName ∧ next = 1) := by
  unfold Volume.child at isChild
  split at isChild
  next both =>
    obtain ⟨isDir, noNul⟩ := both
    rcases smallTree_isDir isDir with ⟨isRoot, isNode⟩ | ⟨isBelow, isNode⟩
    · rw [isNode] at isChild
      have member :=
        mem_of_lookup smallTree_linkable.1 (by decide) noNul isChild
      unfold rootEntries at member
      simp only [List.mem_cons, List.not_mem_nil, or_false,
        Prod.mk.injEq] at member
      rcases member with isDot | isDotDot | isA
      · exact Or.inl ⟨isRoot, Or.inl ⟨Or.inl isDot.1, isDot.2⟩⟩
      · exact Or.inl ⟨isRoot, Or.inl ⟨Or.inr isDotDot.1, isDotDot.2⟩⟩
      · exact Or.inl ⟨isRoot, Or.inr isA⟩
    · rw [isNode] at isChild
      have member :=
        mem_of_lookup smallTree_linkable.2 (by decide) noNul isChild
      unfold belowEntries at member
      simp only [List.mem_cons, List.not_mem_nil, or_false,
        Prod.mk.injEq] at member
      exact Or.inr ⟨isBelow, member⟩
  · cases isChild

theorem smallTree_dots :
    (volume smallTree).child 1 dotName = some 1 ∧
      (volume smallTree).child 1 dotDotName = some 1 ∧
      (volume smallTree).child 2 dotName = some 2 ∧
      (volume smallTree).child 2 dotDotName = some 1 := by
  have root :
      ∀ {name : List UInt8}, 0 ∉ name →
        (volume smallTree).child 1 name =
          (rootEntries.find? fun entry => entry.1 = name).map Prod.snd := by
    intro name noNul
    unfold Volume.child
    rw [if_pos ⟨rfl, noNul⟩]
    exact lookup_directoryBytes smallTree_linkable.1 (by decide) noNul
  have below :
      ∀ {name : List UInt8}, 0 ∉ name →
        (volume smallTree).child 2 name =
          (belowEntries.find? fun entry => entry.1 = name).map Prod.snd := by
    intro name noNul
    unfold Volume.child
    rw [if_pos ⟨rfl, noNul⟩]
    exact lookup_directoryBytes smallTree_linkable.2 (by decide) noNul
  refine ⟨?_, ?_, ?_, ?_⟩
  · rw [root (by decide)]
    rfl
  · rw [root (by decide)]
    rfl
  · rw [below (by decide)]
    rfl
  · rw [below (by decide)]
    rfl

theorem smallTree_usable :
    (volume smallTree).Usable 1 ∧ (volume smallTree).Usable 2 :=
  ⟨⟨by decide, by decide, by decide⟩, ⟨by decide, by decide, by decide⟩⟩

theorem smallTree_sound : (volume smallTree).Sound where
  whole := by
    intro inum isDir
    rcases smallTree_isDir isDir with ⟨_, isNode⟩ | ⟨_, isNode⟩
    all_goals
      rw [isNode]
      change direntSize ∣ (directoryBytes _).length
      rw [length_directoryBytes]
      exact Nat.dvd_mul_right ..
  usable := by
    intro inum index isDir inside _
    rcases smallTree_isDir isDir with ⟨_, isNode⟩ | ⟨_, isNode⟩
    · rw [isNode] at inside ⊢
      unfold directory at inside ⊢
      rw [length_directoryBytes] at inside
      have inside : index < rootEntries.length :=
        Nat.lt_of_mul_lt_mul_left inside
      rw [direntAt_directoryBytes smallTree_linkable.1 inside]
      have bound : index < 3 := inside
      interval_cases index
      · exact smallTree_usable.1
      · exact smallTree_usable.1
      · exact smallTree_usable.2
    · rw [isNode] at inside ⊢
      unfold directory at inside ⊢
      rw [length_directoryBytes] at inside
      have inside : index < belowEntries.length :=
        Nat.lt_of_mul_lt_mul_left inside
      rw [direntAt_directoryBytes smallTree_linkable.2 inside]
      have bound : index < 2 := inside
      interval_cases index
      · exact smallTree_usable.2
      · exact smallTree_usable.1
  root := ⟨smallTree_usable.1, rfl⟩

theorem smallTree_tree : (volume smallTree).Tree := by
  have below :
      ∀ {name : List UInt8} {parent node : Nat},
        IsProper dotName dotDotName name →
          (volume smallTree).child parent name = some node →
            parent = 1 ∧ node = 2 := by
    intro name parent node proper isChild
    rcases smallTree_child isChild with
      ⟨isRoot, (⟨isDots, _⟩ | ⟨_, isNode⟩)⟩ | ⟨_, (⟨isDot, _⟩ | ⟨isDotDot, _⟩)⟩
    · rcases isDots with isDot | isDotDot
      · exact absurd isDot proper.1
      · exact absurd isDotDot proper.2
    · exact ⟨isRoot, isNode⟩
    · exact absurd isDot proper.1
    · exact absurd isDotDot proper.2
  obtain ⟨rootDot, rootDotDot, belowDot, belowDotDot⟩ := smallTree_dots
  exact {
    distinct := by decide
    isRoot := rfl
    leaf := by
      intro node name next isChild
      unfold Volume.child at isChild
      split at isChild
      next both =>
        exact both.1
      · cases isChild
    here := by
      intro path node located
      cases located with
      | root =>
          exact rootDot
      | down above proper isChild isDir =>
          rw [(below proper isChild).2]
          exact belowDot
    top := rootDotDot
    up := by
      intro path parent name node located proper isChild isDir
      obtain ⟨isParent, isNode⟩ := below proper isChild
      rw [isParent, isNode]
      exact belowDotDot
    rootless := by
      intro path parent name located proper isRoot
      have impossible := (below proper isRoot).2
      cases impossible
  }

end Image

end MyOS
