import Mathlib.Data.List.GetD
import MyOS.Lib.Numbering
import MyOS.MkfsProgram

namespace MyOS

open Lib
open Routine

/-!
# What the image builder writes

The image is the kernel's disk: a block that `mkfs` writes at its offset is a
block of the disk, and an inode that it writes is an inode of the disk.  The
blocks of a file that is packed get consecutive numbers, and the tables in
memory and on the disk say together which position has which number.
-/

/-- A fault of `mkfs` ends it without an image. -/
def anyFailure (_ : Mkfs) (_ : MkfsError) : Prop :=
  True

/-- The bytes of a block, with nothing behind its end. -/
def cutBlock (block : Bytes) : Bytes :=
  fun index => if index < BSIZE then block index else 0

/-- The blocks of an image. -/
def diskOf (image : Bytes) : Disk :=
  fun b => cutBlock fun index => image (b * BSIZE + index)

namespace Mkfs

/-- The disk that `mkfs` is writing. -/
def disk (s : Mkfs) : Disk :=
  diskOf s.image

/-- The state after a block has been written. -/
def withBlock (s : Mkfs) (b : Nat) (buf : Bytes) : Mkfs :=
  { s with
    image := s.image.put (b * BSIZE) BSIZE buf
    offset := b * BSIZE + BSIZE }

/-- The state after an inode has been written. -/
def withInode (s : Mkfs) (inum : Nat) (inode : Dinode) : Mkfs :=
  { s with
    image :=
      s.image.put (INODE_START * BSIZE + inum * dinodeSize) dinodeSize
        inode.bytes
    offset := INODE_START * BSIZE + inum * dinodeSize + dinodeSize }

/-- The state after a block has been allocated. -/
def withNewBlock (s : Mkfs) : Mkfs :=
  { s.withBlock s.freeblock (fun _ => 0) with freeblock := s.freeblock + 1 }

variable {s : Mkfs} {b inum : Nat} {buf : Bytes} {inode : Dinode}

theorem cutBlock_of_lt
    {block : Bytes}
    {index : Nat}
    (inside : index < BSIZE) :
    cutBlock block index = block index :=
  if_pos inside

@[simp]
theorem cutBlock_disk (b : Nat) : cutBlock (s.disk b) = s.disk b := by
  funext index
  unfold disk diskOf cutBlock
  split
  · rfl
  · rfl

@[simp]
theorem disk_withBlock :
    (s.withBlock b buf).disk = Function.update s.disk b (cutBlock buf) := by
  funext c
  by_cases same : c = b
  · rw [same, Function.update_self]
    funext index
    unfold disk diskOf withBlock cutBlock
    dsimp only
    split
    next inside =>
      rw [Bytes.put_inside (Nat.le_add_right _ _)
        (Nat.add_lt_add_left inside _), Nat.add_sub_cancel_left]
    · rfl
  · rw [Function.update_of_ne same]
    funext index
    unfold disk diskOf withBlock cutBlock
    dsimp only
    split
    next inside =>
      apply Bytes.put_outside
      rw [BSIZE_eq] at inside ⊢
      omega
    · rfl

theorem disk_withInode :
    (s.withInode inum inode).disk = s.disk.setDinode inum inode := by
  have isBlock := BSIZE_eq
  have isIpb := IPB_eq
  have isSize := dinodeSize_eq
  funext c
  unfold Disk.setDinode Disk.inodeBlock
  by_cases same : c = INODE_START + inum / IPB
  · rw [same, Function.update_self]
    funext index
    unfold disk diskOf withInode cutBlock Dinode.toBlock Bytes.put
    dsimp only
    rw [INODE_START_eq, isIpb, isSize, isBlock]
    by_cases inside : index < 1024
    · rw [if_pos inside]
      by_cases written :
          inum % 16 * 64 ≤ index ∧ index < inum % 16 * 64 + 64
      · rw [if_pos written, if_pos (by omega)]
        congr 1
        omega
      · rw [if_neg written, if_neg (by omega), if_pos inside]
    · rw [if_neg inside, if_neg (by omega), if_neg inside]
  · rw [Function.update_of_ne same]
    funext index
    unfold disk diskOf withInode cutBlock
    dsimp only
    rw [isIpb, INODE_START_eq] at same
    split
    next inside =>
      apply Bytes.put_outside
      rw [isBlock] at inside
      rw [INODE_START_eq, isBlock, isSize]
      omega
    · rfl

@[simp]
theorem disk_withNewBlock :
    s.withNewBlock.disk =
      Function.update s.disk s.freeblock (cutBlock fun _ => 0) := by
  have written :
      (s.withBlock s.freeblock fun _ => 0).disk =
        Function.update s.disk s.freeblock (cutBlock fun _ => 0) :=
    disk_withBlock
  exact written

@[simp]
theorem freeblock_withBlock : (s.withBlock b buf).freeblock = s.freeblock :=
  rfl

@[simp]
theorem freeblock_withNewBlock :
    s.withNewBlock.freeblock = s.freeblock + 1 :=
  rfl

theorem writeBlock_done :
    writeBlock b buf s = .done (s.withBlock b buf) () :=
  rfl

theorem writeInode_done :
    writeInode inum inode s = .done (s.withInode inum inode) () :=
  rfl

theorem ends_allocBlock
    {Next : Type}
    {next : Nat → MkfsRoutine Next}
    {post : Next → Mkfs → Prop}
    (rest :
      s.freeblock < FSSIZE →
        (next s.freeblock s.withNewBlock).Ends anyFailure post) :
    ((allocBlock >>= next) s).Ends anyFailure post := by
  unfold allocBlock
  rw [bind_assoc]
  apply ends_get
  by_cases full : FSSIZE ≤ s.freeblock
  · rw [if_pos full]
    exact True.intro
  · rw [if_neg full]
    exact rest (Nat.lt_of_not_le full)

theorem ends_allocInode
    {Next : Type}
    {next : Nat → MkfsRoutine Next}
    {post : Next → Mkfs → Prop}
    (rest :
      s.freeinode < NINODES →
        (next s.freeinode { s with freeinode := s.freeinode + 1 }).Ends
          anyFailure post) :
    ((allocInode >>= next) s).Ends anyFailure post := by
  unfold allocInode
  rw [bind_assoc]
  apply ends_get
  by_cases full : NINODES ≤ s.freeinode
  · rw [if_pos full]
    exact True.intro
  · rw [if_neg full]
    exact rest (Nat.lt_of_not_le full)

/-- The tables that a change of blocks leaves alone. -/
structure SameTables (s later : Mkfs) : Prop where
  freeinode : later.freeinode = s.freeinode
  dirs : later.dirs = s.dirs
  files : later.files = s.files

theorem SameTables.refl (s : Mkfs) : SameTables s s :=
  ⟨rfl, rfl, rfl⟩

theorem SameTables.trans
    {later last : Mkfs}
    (first : SameTables s later)
    (second : SameTables later last) :
    SameTables s last :=
  ⟨second.freeinode.trans first.freeinode, second.dirs.trans first.dirs,
    second.files.trans first.files⟩

theorem entry_tableBytes
    {table : Nat → Nat}
    {index : Nat}
    (inside : index < NINDIRECT)
    (narrow : table index < uintModulus) :
    FileSystem.entry (cutBlock (tableBytes table)) index = table index := by
  have isTable := NINDIRECT_eq
  have isBlock := BSIZE_eq
  have byte :
      ∀ place, place < 4 →
        cutBlock (tableBytes table) (4 * index + place) =
          Bytes.ofNat (table index) place := by
    intro place isPlace
    rw [cutBlock_of_lt (by omega)]
    unfold tableBytes
    have quotient : (4 * index + place) / 4 = index := by
      omega
    have rest : (4 * index + place) % 4 = place := by
      omega
    rw [quotient, rest]
  have field :
      FileSystem.entry (cutBlock (tableBytes table)) index =
        (Bytes.ofNat (table index)).le32 0 := by
    unfold FileSystem.entry
    simp only [Bytes.le32, Bytes.le16, Nat.add_assoc]
    rw [byte 1 (by decide), byte 2 (by decide), byte 3 (by decide)]
    rw [← byte 0 (by decide), Nat.add_zero]
  rw [field, Bytes.le32_ofNat]
  exact Nat.mod_eq_of_lt narrow

end Mkfs

/-!
## The tables of a file that is packed
-/

namespace Position

/--
The block of a file with which a position is filled: its own one, or the first
one that is found through it.
-/
def due : Position → Option Nat
  | .addr index =>
      some (if index = doubleIndex then NDIRECT + NINDIRECT else index.val)
  | .child (.addr index) place =>
      if NINDIRECT ≤ place then
        none
      else if index = indirectIndex then
        some (NDIRECT + place)
      else if index = doubleIndex then
        some (NDIRECT + NINDIRECT + place * NINDIRECT)
      else
        none
  | .child (.child (.addr index) outer) inner =>
      if index = doubleIndex ∧ outer < NINDIRECT ∧ inner < NINDIRECT then
        some (NDIRECT + NINDIRECT + outer * NINDIRECT + inner)
      else
        none
  | .child (.child (.child _ _) _) _ => none

/-- The entry of the double-indirect block for a second-level block. -/
def secondLevel (outer : Nat) : Position :=
  .child (.addr doubleIndex) outer

theorem due_ofBlock
    {bn : Nat}
    (inside : bn < MAXFILE) :
    (ofBlock bn).due = some bn := by
  have isMax := MAXFILE_eq
  have isDirect := NDIRECT_eq
  have isIndirect := NINDIRECT_eq
  by_cases direct : bn < NDIRECT
  · rw [ofBlock_direct direct]
    unfold due
    dsimp only
    rw [if_neg]
    · rfl
    · intro same
      have value : bn = 12 := congrArg Fin.val same
      omega
  · by_cases indirect : bn - NDIRECT < NINDIRECT
    · rw [ofBlock_indirect direct indirect]
      unfold due
      dsimp only
      rw [if_neg (Nat.not_le_of_lt indirect), if_pos rfl,
        Nat.add_sub_cancel' (Nat.le_of_not_lt direct)]
    · rw [ofBlock_double direct indirect]
      unfold due
      dsimp only
      rw [isDirect, isIndirect] at indirect
      rw [isDirect] at direct
      rw [isDirect, isIndirect, if_pos]
      · apply congrArg some
        omega
      · exact ⟨rfl, by omega, by omega⟩

theorem due_eq_some
    {position : Position}
    {bn : Nat}
    (isDue : position.due = some bn) :
    position = ofBlock bn ∨
      (position = .addr indirectIndex ∧ bn = NDIRECT) ∨
      (position = .addr doubleIndex ∧ bn = NDIRECT + NINDIRECT) ∨
      ∃ outer, position = secondLevel outer ∧ outer < NINDIRECT ∧
        bn = NDIRECT + NINDIRECT + outer * NINDIRECT := by
  have isDirect := NDIRECT_eq
  have isIndirect := NINDIRECT_eq
  unfold due at isDue
  split at isDue
  next index =>
    split at isDue
    next isDouble =>
      rw [isDouble]
      exact Or.inr (Or.inr (Or.inl ⟨rfl, (Option.some.inj isDue).symm⟩))
    next notDouble =>
      have isBlock : index.val = bn := Option.some.inj isDue
      have bound := index.isLt
      have notLast : index.val ≠ 12 := fun isLast =>
        notDouble (Fin.ext isLast)
      by_cases direct : bn < NDIRECT
      · left
        rw [ofBlock_direct direct]
        exact congrArg Position.addr (Fin.ext isBlock)
      · have isEleven : index.val = 11 := by
          omega
        exact Or.inr (Or.inl
          ⟨congrArg Position.addr (Fin.ext isEleven), by omega⟩)
  next index place =>
    split at isDue
    · cases isDue
    next inside =>
      split at isDue
      next isIndirectIndex =>
        left
        have isBlock : NDIRECT + place = bn := Option.some.inj isDue
        rw [← isBlock, ofBlock_indirect (by omega) (by omega),
          Nat.add_sub_cancel_left, isIndirectIndex]
      next notIndirect =>
        split at isDue
        next isDouble =>
          rw [isDouble]
          exact Or.inr (Or.inr (Or.inr ⟨place, rfl, Nat.lt_of_not_le inside,
            (Option.some.inj isDue).symm⟩))
        · cases isDue
  next index outer inner =>
    split at isDue
    next both =>
      left
      obtain ⟨isDouble, isOuter, isInner⟩ := both
      have isBlock := Option.some.inj isDue
      rw [isDirect, isIndirect] at isBlock
      rw [isIndirect] at isOuter isInner
      rw [← isBlock, ofBlock_double (by omega) (by omega), isDouble,
        isDirect, isIndirect]
      have isOuterBlock :
          (11 + 256 + outer * 256 + inner - 11 - 256) / 256 = outer := by
        omega
      have isInnerBlock :
          (11 + 256 + outer * 256 + inner - 11 - 256) % 256 = inner := by
        omega
      rw [isOuterBlock, isInnerBlock]
    · cases isDue
  · cases isDue

end Position

namespace Mkfs

open Position

/-- The positions that are filled when a file has a number of blocks. -/
def FilledAt (count : Nat) (position : Position) : Prop :=
  ∃ bn, position.due = some bn ∧ bn < count

/-- Which numbers the tables in memory and on the disk give to positions. -/
structure Tables
    (p : Packing)
    (number : Position → Nat)
    (disk : Disk) : Prop where
  current :
    ∀ outer, p.currentSecond = some outer →
      outer < NINDIRECT ∧ number (secondLevel outer) ≠ 0
  addrs : ∀ index, p.inode.addrs index = number (.addr index)
  indirect :
    ∀ place, place < NINDIRECT →
      p.indirect place = number (.child (.addr indirectIndex) place)
  dindirect :
    ∀ outer, outer < NINDIRECT →
      p.dindirect outer = number (secondLevel outer)
  second :
    ∀ outer, p.currentSecond = some outer →
      ∀ inner, inner < NINDIRECT →
        p.second inner = number (.child (secondLevel outer) inner)
  written :
    ∀ outer, outer < NINDIRECT → p.currentSecond ≠ some outer →
      number (secondLevel outer) ≠ 0 →
        ∀ inner, inner < NINDIRECT →
          FileSystem.entry (disk (number (secondLevel outer))) inner =
            number (.child (secondLevel outer) inner)

/-- What `add_file_data` leaves alone, and the numbers that it has given. -/
structure Numbers
    (first s : Mkfs)
    (number : Position → Nat) : Prop where
  same : SameTables first s
  frame : ∀ b, b < first.freeblock → s.disk b = first.disk b
  order : first.freeblock ≤ s.freeblock
  room : s.freeblock ≤ FSSIZE
  numbering : Numbering number first.freeblock s.freeblock

variable {first s : Mkfs} {p : Packing} {number : Position → Nat}
variable {position : Position} {b : Nat} {buf : Bytes}

theorem Numbers.ne_freeblock
    (numbers : Numbers first s number)
    (held : number position ≠ 0) :
    number position ≠ s.freeblock :=
  Nat.ne_of_lt (numbers.numbering.inRange held).2

theorem Numbers.withNewBlock
    (numbers : Numbers first s number)
    (positive : 0 < first.freeblock)
    (room : s.freeblock < FSSIZE)
    (isEmpty : number position = 0) :
    Numbers first s.withNewBlock
      (Function.update number position s.freeblock) where
  same := numbers.same.trans ⟨rfl, rfl, rfl⟩
  frame := by
    intro b old
    have order := numbers.order
    rw [disk_withNewBlock, Function.update_of_ne (by omega)]
    exact numbers.frame b old
  order := Nat.le_succ_of_le numbers.order
  room := room
  numbering := numbers.numbering.attach positive numbers.order isEmpty

theorem Numbers.withBlock
    (numbers : Numbers first s number)
    (own : first.freeblock ≤ b) :
    Numbers first (s.withBlock b buf) number where
  same := numbers.same.trans ⟨rfl, rfl, rfl⟩
  frame := by
    intro c old
    rw [disk_withBlock, Function.update_of_ne (by omega)]
    exact numbers.frame c old
  order := numbers.order
  room := numbers.room
  numbering := numbers.numbering

theorem Tables.congr
    {disk later : Disk}
    (tables : Tables p number disk)
    (same :
      ∀ outer, p.currentSecond ≠ some outer →
        number (secondLevel outer) ≠ 0 →
          later (number (secondLevel outer)) =
            disk (number (secondLevel outer))) :
    Tables p number later where
  current := tables.current
  addrs := tables.addrs
  indirect := tables.indirect
  dindirect := tables.dindirect
  second := tables.second
  written := by
    intro outer inside notCurrent held inner isInner
    rw [same outer notCurrent held]
    exact tables.written outer inside notCurrent held inner isInner

theorem Tables.setAddr
    {disk : Disk}
    (tables : Tables p number disk)
    (index : AddrIndex)
    (b : Nat) :
    Tables (p.setAddr index b) (Function.update number (.addr index) b)
      disk where
  current := tables.current
  addrs := by
    intro other
    exact update_agrees Position.addr.inj (tables.addrs other)
  indirect := tables.indirect
  dindirect := tables.dindirect
  second := tables.second
  written := tables.written

theorem Tables.setIndirect
    {disk : Disk}
    (tables : Tables p number disk)
    (place b : Nat) :
    Tables { p with indirect := Function.update p.indirect place b }
      (Function.update number (.child (.addr indirectIndex) place) b)
      disk where
  current := by
    intro outer isCurrent
    rw [Function.update_of_ne (by intro same; cases same)]
    exact tables.current outer isCurrent
  addrs := tables.addrs
  indirect := by
    intro other inside
    exact update_agrees (fun same => (Position.child.inj same).2)
      (tables.indirect other inside)
  dindirect := by
    intro outer inside
    rw [Function.update_of_ne (by intro same; cases same)]
    exact tables.dindirect outer inside
  second := tables.second
  written := by
    intro outer inside notCurrent held inner isInner
    rw [Function.update_of_ne (by intro same; cases same)] at held ⊢
    exact tables.written outer inside notCurrent held inner isInner

theorem Tables.setSecond
    {disk : Disk}
    {outer : Nat}
    (tables : Tables p number disk)
    (isCurrent : p.currentSecond = some outer)
    (inner b : Nat) :
    Tables { p with second := Function.update p.second inner b }
      (Function.update number (.child (secondLevel outer) inner) b)
      disk where
  current := tables.current
  addrs := tables.addrs
  indirect := tables.indirect
  dindirect := tables.dindirect
  second := by
    intro other isOther place inside
    have same : outer = other :=
      Option.some.inj (isCurrent.symm.trans isOther)
    rw [← same]
    exact update_agrees (fun here => (Position.child.inj here).2)
      (tables.second outer isCurrent place inside)
  written := by
    intro other inside notCurrent held place isPlace
    have different : other ≠ outer := by
      intro same
      rw [same] at notCurrent
      exact notCurrent isCurrent
    have elsewhere :
        Position.child (secondLevel other) place ≠
          .child (secondLevel outer) inner := by
      intro equal
      exact different
        (Position.child.inj (Position.child.inj equal).1).2
    rw [Function.update_of_ne elsewhere]
    exact tables.written other inside notCurrent held place isPlace

theorem Tables.changeSecond
    {disk : Disk}
    {outer : Nat}
    (tables : Tables p number disk)
    (inside : outer < NINDIRECT)
    (positive : b ≠ 0)
    (isEmpty : ∀ inner, number (.child (secondLevel outer) inner) = 0)
    (flushed :
      ∀ current, p.currentSecond = some current →
        ∀ inner, inner < NINDIRECT →
          FileSystem.entry (disk (number (secondLevel current))) inner =
            number (.child (secondLevel current) inner)) :
    Tables
      { p with
        currentSecond := some outer
        second := fun _ => 0
        dindirect := Function.update p.dindirect outer b }
      (Function.update number (secondLevel outer) b)
      disk where
  current := by
    intro other isOther
    cases isOther
    rw [Function.update_self]
    exact ⟨inside, positive⟩
  addrs := tables.addrs
  indirect := by
    intro place isPlace
    rw [Function.update_of_ne (by intro same; cases same)]
    exact tables.indirect place isPlace
  dindirect := by
    intro other isOther
    exact update_agrees (fun same => (Position.child.inj same).2)
      (tables.dindirect other isOther)
  second := by
    intro other isOther inner _
    cases isOther
    exact (isEmpty inner).symm
  written := by
    intro other isOther notCurrent held inner isInner
    have different : other ≠ outer := by
      intro same
      rw [same] at notCurrent
      exact notCurrent rfl
    have elsewhere : secondLevel other ≠ secondLevel outer :=
      fun equal => different (Position.child.inj equal).2
    have notTable :
        Position.child (secondLevel other) inner ≠ secondLevel outer := by
      intro equal
      cases equal
    rw [Function.update_of_ne elsewhere] at held ⊢
    rw [Function.update_of_ne notTable]
    by_cases wasCurrent : p.currentSecond = some other
    · exact flushed other wasCurrent inner isInner
    · exact tables.written other isOther wasCurrent held inner isInner

/-!
## What has been packed
-/

/-- What of a file has been packed, with numbers for a set of positions. -/
structure Filling
    (first s : Mkfs)
    (p : Packing)
    (number : Position → Nat)
    (has : Position → Prop)
    (chunks : List (List UInt8)) : Prop where
  numbers : Numbers first s number
  tables : Tables p number s.disk
  filled : ∀ position, number position ≠ 0 ↔ has position
  content :
    ∀ bn, bn < chunks.length →
      number (ofBlock bn) ≠ 0 ∧
        s.disk (number (ofBlock bn)) =
          cutBlock (Bytes.ofList (chunks.getD bn []))

/-- A block of the file has been written but not been put into a table. -/
structure Pending
    (first s : Mkfs)
    (p : Packing)
    (number : Position → Nat)
    (has : Position → Prop)
    (chunks : List (List UInt8))
    (position : Position)
    (b : Nat)
    (chunk : List UInt8) : Prop where
  numbers : Numbers first s (Function.update number position b)
  tables : Tables p number s.disk
  filled : ∀ place, number place ≠ 0 ↔ has place
  missing : ¬ has position
  isData : position.isIndex = false
  positive : b ≠ 0
  content :
    ∀ bn, bn < chunks.length →
      number (ofBlock bn) ≠ 0 ∧
        s.disk (number (ofBlock bn)) =
          cutBlock (Bytes.ofList (chunks.getD bn []))
  data : s.disk b = cutBlock (Bytes.ofList chunk)

variable {has : Position → Prop} {chunks : List (List UInt8)}
variable {chunk : List UInt8}

theorem Filling.empty
    (filling : Filling first s p number has chunks)
    (missing : ¬ has position) :
    number position = 0 :=
  not_not.mp (mt (filling.filled position).mp missing)

theorem Pending.empty
    {place : Position}
    (pending : Pending first s p number has chunks position b chunk)
    (missing : ¬ has place) :
    number place = 0 :=
  not_not.mp (mt (pending.filled place).mp missing)

theorem Filling.attachAddr
    (filling : Filling first s p number has chunks)
    (positive : 0 < first.freeblock)
    (room : s.freeblock < FSSIZE)
    {index : AddrIndex}
    (missing : ¬ has (.addr index)) :
    Filling first s.withNewBlock (p.setAddr index s.freeblock)
      (Function.update number (.addr index) s.freeblock)
      (fun place => has place ∨ place = .addr index) chunks where
  numbers := filling.numbers.withNewBlock positive room (filling.empty missing)
  tables := by
    apply (filling.tables.setAddr index s.freeblock).congr
    intro outer _ held
    rw [Function.update_of_ne (by intro same; cases same)] at held ⊢
    rw [disk_withNewBlock,
      Function.update_of_ne (filling.numbers.ne_freeblock held)]
  filled :=
    update_ne_zero filling.filled
      (Nat.ne_of_gt (Nat.lt_of_lt_of_le positive filling.numbers.order))
  content := by
    intro bn inside
    obtain ⟨held, isContent⟩ := filling.content bn inside
    rw [Function.update_of_ne (ne_of_held (filling.empty missing) held),
      disk_withNewBlock,
      Function.update_of_ne (filling.numbers.ne_freeblock held)]
    exact ⟨held, isContent⟩

theorem Filling.pend
    (filling : Filling first s p number has chunks)
    (positive : 0 < first.freeblock)
    (room : s.freeblock < FSSIZE)
    (isData : position.isIndex = false)
    (missing : ¬ has position)
    (chunk : List UInt8) :
    Pending first
      (s.withNewBlock.withBlock s.freeblock (Bytes.ofList chunk)) p number has
      chunks position s.freeblock chunk := by
  have order := filling.numbers.order
  have same :
      ∀ b, b ≠ s.freeblock →
        (s.withNewBlock.withBlock s.freeblock (Bytes.ofList chunk)).disk b =
          s.disk b := by
    intro b different
    rw [disk_withBlock, Function.update_of_ne different, disk_withNewBlock,
      Function.update_of_ne different]
  exact {
    numbers :=
      (filling.numbers.withNewBlock positive room
        (filling.empty missing)).withBlock order
    tables := by
      apply filling.tables.congr
      intro outer _ held
      exact same _ (filling.numbers.ne_freeblock held)
    filled := filling.filled
    missing := missing
    isData := isData
    positive := by omega
    content := by
      intro bn inside
      obtain ⟨held, isContent⟩ := filling.content bn inside
      exact ⟨held,
        (same _ (filling.numbers.ne_freeblock held)).trans isContent⟩
    data := by
      rw [disk_withBlock, Function.update_self]
  }

theorem Pending.ne_freeblock
    {place : Position}
    (pending : Pending first s p number has chunks position b chunk)
    (held : number place ≠ 0) :
    number place ≠ s.freeblock := by
  have elsewhere : place ≠ position :=
    ne_of_held (pending.empty pending.missing) held
  have stillHeld : Function.update number position b place ≠ 0 := by
    rw [Function.update_of_ne elsewhere]
    exact held
  have different := pending.numbers.ne_freeblock stillHeld
  rw [Function.update_of_ne elsewhere] at different
  exact different

theorem Pending.ne_freeblock_self
    (pending : Pending first s p number has chunks position b chunk) :
    b ≠ s.freeblock := by
  have held : Function.update number position b position ≠ 0 := by
    rw [Function.update_self]
    exact pending.positive
  have different := pending.numbers.ne_freeblock held
  rw [Function.update_self] at different
  exact different

theorem Pending.attach
    {later : Packing}
    {place : Position}
    (pending : Pending first s p number has chunks position b chunk)
    (positive : 0 < first.freeblock)
    (room : s.freeblock < FSSIZE)
    (isIndex : place.isIndex = true)
    (missing : ¬ has place)
    (tables :
      Tables later (Function.update number place s.freeblock)
        s.withNewBlock.disk) :
    Pending first s.withNewBlock later
      (Function.update number place s.freeblock)
      (fun other => has other ∨ other = place) chunks position b chunk where
  numbers := by
    have different : place ≠ position := by
      intro same
      rw [same, pending.isData] at isIndex
      cases isIndex
    have isEmpty : Function.update number position b place = 0 := by
      rw [Function.update_of_ne different]
      exact pending.empty missing
    have attached := pending.numbers.withNewBlock positive room isEmpty
    rw [Function.update_comm different.symm] at attached
    exact attached
  tables := tables
  filled :=
    update_ne_zero pending.filled
      (Nat.ne_of_gt (Nat.lt_of_lt_of_le positive pending.numbers.order))
  missing := by
    rintro (isFilled | same)
    · exact pending.missing isFilled
    · rw [← same, pending.isData] at isIndex
      cases isIndex
  isData := pending.isData
  positive := pending.positive
  content := by
    intro bn inside
    obtain ⟨held, isContent⟩ := pending.content bn inside
    rw [Function.update_of_ne (ne_of_held (pending.empty missing) held),
      disk_withNewBlock,
      Function.update_of_ne (pending.ne_freeblock held)]
    exact ⟨held, isContent⟩
  data := by
    rw [disk_withNewBlock,
      Function.update_of_ne pending.ne_freeblock_self]
    exact pending.data

theorem Pending.place
    {later : Packing}
    (pending : Pending first s p number has chunks position b chunk)
    (isPosition : position = ofBlock chunks.length)
    (tables : Tables later (Function.update number position b) s.disk) :
    Filling first s later (Function.update number position b)
      (fun other => has other ∨ other = position) (chunks ++ [chunk]) where
  numbers := pending.numbers
  tables := tables
  filled := update_ne_zero pending.filled pending.positive
  content := by
    intro bn inside
    rw [List.length_append, List.length_singleton] at inside
    by_cases isLast : bn = chunks.length
    · rw [isLast, ← isPosition, Function.update_self,
        List.getD_append_right _ _ _ _ (Nat.le_refl _), Nat.sub_self]
      exact ⟨pending.positive, pending.data⟩
    · have before : bn < chunks.length := by
        omega
      have elsewhere : ofBlock bn ≠ position := by
        intro same
        exact isLast (ofBlock_injective (same.trans isPosition))
      rw [Function.update_of_ne elsewhere, List.getD_append _ _ _ _ before]
      exact pending.content bn before

theorem Pending.flush
    {current : Nat}
    (pending : Pending first s p number has chunks position b chunk)
    (isCurrent : p.currentSecond = some current) :
    let later := s.withBlock (p.dindirect current) (tableBytes p.second)
    Pending first later p number has chunks position b chunk ∧
      later.freeblock = s.freeblock ∧
      ∀ inner, inner < NINDIRECT →
        FileSystem.entry (later.disk (number (secondLevel current))) inner =
          number (.child (secondLevel current) inner) := by
  intro later
  obtain ⟨inside, held⟩ := pending.tables.current current isCurrent
  have isBlock := pending.tables.dindirect current inside
  have numbering := pending.numbers.numbering
  have notPosition : ∀ place : Position, place.isIndex = true →
      place ≠ position := by
    intro place isIndex same
    rw [same, pending.isData] at isIndex
    cases isIndex
  have isTable : secondLevel current ≠ position :=
    notPosition _ rfl
  have heldNow :
      Function.update number position b (secondLevel current) ≠ 0 := by
    rw [Function.update_of_ne isTable]
    exact held
  have apart :
      ∀ place, place ≠ secondLevel current → place ≠ position →
        number place ≠ number (secondLevel current) := by
    intro place different elsewhere same
    apply different
    apply numbering.exclusive
    · rw [Function.update_of_ne elsewhere, Function.update_of_ne isTable]
      exact same
    · rw [Function.update_of_ne elsewhere, same]
      exact held
  have ownBlock := numbering.inRange heldNow
  rw [Function.update_of_ne isTable] at ownBlock
  have isLater :
      later.disk =
        Function.update s.disk (number (secondLevel current))
          (cutBlock (tableBytes p.second)) := by
    rw [disk_withBlock, isBlock]
  have dataApart : b ≠ number (secondLevel current) := by
    intro same
    apply isTable
    apply numbering.exclusive _ heldNow
    rw [Function.update_of_ne isTable, Function.update_self, same]
  refine ⟨?_, rfl, ?_⟩
  · exact {
      numbers := pending.numbers.withBlock (by rw [isBlock]; exact ownBlock.1)
      tables := by
        apply pending.tables.congr
        intro outer notCurrent isHeld
        have different : secondLevel outer ≠ secondLevel current := by
          intro same
          rw [(Position.child.inj same).2] at notCurrent
          exact notCurrent isCurrent
        rw [isLater, Function.update_of_ne
          (apart _ different (notPosition _ rfl))]
      filled := pending.filled
      missing := pending.missing
      isData := pending.isData
      positive := pending.positive
      content := by
        intro bn inBlocks
        obtain ⟨isHeld, isContent⟩ := pending.content bn inBlocks
        have different : ofBlock bn ≠ secondLevel current := by
          intro same
          have isData := isIndex_ofBlock bn
          rw [same] at isData
          cases isData
        have elsewhere : ofBlock bn ≠ position :=
          ne_of_held (pending.empty pending.missing) isHeld
        rw [isLater, Function.update_of_ne (apart _ different elsewhere)]
        exact ⟨isHeld, isContent⟩
      data := by
        rw [isLater, Function.update_of_ne dataApart]
        exact pending.data
    }
  · intro inner isInner
    have isEntry := pending.tables.second current isCurrent inner isInner
    have narrow : p.second inner < uintModulus := by
      have small : FSSIZE < uintModulus := by decide
      have room := pending.numbers.room
      rw [isEntry]
      by_cases isHeld : number (.child (secondLevel current) inner) = 0
      · rw [isHeld]
        decide
      · have elsewhere :
            Position.child (secondLevel current) inner ≠ position :=
          ne_of_held (pending.empty pending.missing) isHeld
        have isHeldNow :
            Function.update number position b
              (.child (secondLevel current) inner) ≠ 0 := by
          rw [Function.update_of_ne elsewhere]
          exact isHeld
        have below := (numbering.inRange isHeldNow).2
        rw [Function.update_of_ne elsewhere] at below
        omega
    rw [isLater, Function.update_self, ← isEntry]
    exact entry_tableBytes isInner narrow

end Mkfs

end MyOS
