import MyOS.FileOpen

namespace MyOS

open Lib
open Routine

/-!
# Writing to files of a volume

`filewrite` and `sys_write`, alone: the bytes that have been written stand in
the node from the file's offset on, which has moved behind them, and everything
else is as before.
-/

namespace FileKernel

/-- The file at a slot is open on a node. -/
structure OpenOn
    (vol : Volume)
    (file : FileObject)
    (ip : InodeIndex)
    (inum : Nat) : Prop where
  isInode : file.type = .inode
  isIp : file.ip = some ip
  holds : vol.Holds ip inum
  usable : vol.Usable inum

/-- The offset of a file has been moved. -/
structure Moves
    (kernel : FileKernel)
    (f : FileSlot)
    (off : Nat)
    (later : FileKernel) : Prop where
  fs : later.fs = kernel.fs
  file :
    later.file =
      Function.update kernel.file f { kernel.file f with off := off }
  ofile : later.ofile = kernel.ofile
  cwd : later.cwd = kernel.cwd
  alive : later.alive = kernel.alive

/-- Some bytes have been written through a file. -/
structure Writes
    (kernel : FileKernel)
    (vol : Volume)
    (f : FileSlot)
    (inum total : Nat)
    (source : Nat → UInt8)
    (later : FileKernel)
    (after : Volume) : Prop where
  node :
    after.node =
      (vol.setNode inum
        { vol.node inum with
          bytes :=
            overwrite 0 (vol.node inum).bytes (kernel.file f).off
              (tabulate total source) }).node
  borrows : Volume.Borrows vol after 0
  file :
    later.file =
      Function.update kernel.file f
        { kernel.file f with off := (kernel.file f).off + total }
  ofile : later.ofile = kernel.ofile
  cwd : later.cwd = kernel.cwd
  alive : later.alive = kernel.alive

variable {kernel middle later : FileKernel} {vol inner after : Volume}
variable {f : FileSlot} {ip : InodeIndex} {inum : Nat}
variable {source : Nat → UInt8}

theorem Writes.nothing
    (same : after.node = vol.node)
    (borrows : Volume.Borrows vol after 0)
    (sameFiles : kernel.SameFiles later) :
    Writes kernel vol f inum 0 source later after where
  node := by
    have noBytes : tabulate 0 source = [] := rfl
    rw [noBytes, overwrite_nil, same]
    exact congrArg Volume.node Volume.setNode_self.symm
  borrows := borrows
  file := by
    rw [sameFiles.file]
    exact (Function.update_eq_self ..).symm
  ofile := sameFiles.ofile
  cwd := sameFiles.cwd
  alive := sameFiles.alive

theorem Writes.trans
    {count more : Nat}
    (first : Writes kernel vol f inum count source middle inner)
    (second :
      Writes middle inner f inum more (fun i => source (count + i)) later
        after) :
    Writes kernel vol f inum (count + more) source later after where
  node := by
    have isNode :
        inner.node inum =
          { vol.node inum with
            bytes :=
              overwrite 0 (vol.node inum).bytes (kernel.file f).off
                (tabulate count source) } := by
      rw [first.node]
      exact Volume.setNode_node_self _
    have isOff : (middle.file f).off = (kernel.file f).off + count := by
      rw [first.file, Function.update_self]
    have isLength :
        (kernel.file f).off + count =
          (kernel.file f).off + (tabulate count source).length := by
      rw [length_tabulate]
    rw [second.node, isNode, isOff]
    dsimp only
    rw [isLength, overwrite_overwrite, tabulate_add]
    unfold Volume.setNode
    rw [first.node]
    exact Function.update_idem ..
  borrows := by
    have both := first.borrows.trans second.borrows
    rw [add_zero] at both
    exact both
  file := by
    rw [second.file, first.file, Function.update_self, Function.update_idem,
      Nat.add_assoc]
  ofile := second.ofile.trans first.ofile
  cwd := second.cwd.trans first.cwd
  alive := second.alive.trans first.alive

theorem Writes.usable
    {total : Nat}
    (writes : Writes kernel vol f inum total source later after)
    {other : Nat}
    (usable : vol.Usable other) :
    after.Usable other := by
  by_cases same : other = inum
  · rw [same] at usable ⊢
    have isNode := congrFun writes.node inum
    rw [Volume.setNode_node_self] at isNode
    refine ⟨usable.inArea, ?_, ?_⟩
    · rw [isNode]
      exact usable.inUse
    · rw [isNode]
      exact usable.linked
  · have isNode := congrFun writes.node other
    rw [Volume.setNode_node_of_ne _ same] at isNode
    refine ⟨usable.inArea, ?_, ?_⟩
    · rw [isNode]
      exact usable.inUse
    · rw [isNode]
      exact usable.linked

theorem Writes.openOn
    {total : Nat}
    (writes : Writes kernel vol f inum total source later after)
    (isOpen : OpenOn vol (kernel.file f) ip inum) :
    OpenOn after (later.file f) ip inum := by
  rw [writes.file, Function.update_self]
  exact {
    isInode := isOpen.isInode
    isIp := isOpen.isIp
    holds := writes.borrows.holds isOpen.holds
    usable := writes.usable isOpen.usable
  }

theorem writeiRefuses_eq
    {off n : Nat}
    (few : n ≤ 128) :
    FileSystem.writeiRefuses off n = decide (MAXFILE * BSIZE < off + n) := by
  have isModulus : uintModulus = 0x100000000 := rfl
  have isLargest : MAXFILE * BSIZE = 67382272 := by decide
  apply decide_eq_decide.mpr
  rw [isModulus, isLargest]
  omega

/-- How many bytes `filewrite` writes of a chunk. -/
def chunkWritten (off n : Nat) : Nat :=
  if off + n ≤ MAXFILE * BSIZE then n else 0

theorem followIp_eq :
    followIp f kernel =
      (kernel.file f).ip.elim (.fault kernel .nullInode) (.done kernel) := by
  unfold followIp
  change Outcome.bind _ (Outcome.done kernel (kernel.file f)) = _
  unfold Outcome.bind
  cases (kernel.file f).ip
  · rfl
  · rfl

theorem followIp_done
    (isIp : (kernel.file f).ip = some ip) :
    followIp f kernel = .done kernel ip := by
  rw [followIp_eq, isIp]
  rfl

theorem ends_followIp
    {Next : Type}
    {tolerated : FileKernel → FsPanic → Prop}
    {post : Next → FileKernel → Prop}
    {next : InodeIndex → FileRoutine Next}
    (isIp : (kernel.file f).ip = some ip)
    (rest : (next ip kernel).Ends tolerated post) :
    ((followIp f >>= next) kernel).Ends tolerated post :=
  ends_done (followIp_done isIp) rest

theorem ends_seek
    {Next : Type}
    {tolerated : FileKernel → FsPanic → Prop}
    {post : Next → FileKernel → Prop}
    {move : Nat → Nat}
    {next : Unit → FileRoutine Next}
    (rest :
      ∀ later, kernel.Moves f (move (kernel.file f).off) later →
        (next () later).Ends tolerated post) :
    ((seek f move >>= next) kernel).Ends tolerated post :=
  rest _ ⟨rfl, rfl, rfl, rfl, rfl⟩

theorem filewrite_ends
    {n : Nat}
    {src : Bytes}
    (represents : kernel.fs.Represents vol none)
    (isOpen : OpenOn vol (kernel.file f) ip inum)
    (writable : (kernel.file f).writable = true)
    (positive : 0 < n)
    (few : n ≤ 128) :
    (filewrite f src n kernel).Ends Exhausted
      (fun result later =>
        ∃ after, later.fs.Represents after none ∧
          Writes kernel vol f inum (chunkWritten (kernel.file f).off n) src
            later after ∧
          result =
            if (kernel.file f).off + n ≤ MAXFILE * BSIZE then (n : Int)
            else -1) := by
  have nonneg := represents.nonneg
  unfold filewrite
  apply ends_fileAt
  have isWritable : ¬ (kernel.file f).writable = false := by
    rw [writable]
    decide
  rw [if_neg isWritable]
  apply ends_followIp
  · exact isOpen.isIp
  apply ends_onFs
    (FileSystem.ilock_represents represents isOpen.holds.refers
      isOpen.usable.inUse)
  intro _ fs represents
  have holds := isOpen.holds.refers.load
  have borrows := (Volume.Borrows.refl nonneg).load ip
  generalize isLoaded :
    vol.setHandle ip { vol.handle ip with valid := true } = loaded at *
  have same : loaded.node = vol.node := by
    rw [← isLoaded]
    rfl
  apply ends_fileAt
  apply ends_followIp
  · exact isOpen.isIp
  dsimp only
  generalize isOff : (kernel.file f).off = off
  by_cases fits : off + n ≤ MAXFILE * BSIZE
  · apply ends_onFs
    · exact FileSystem.writei_represents represents (Or.inl rfl) holds fits rfl
    rintro r fs ⟨isCount, represents⟩
    rw [FileSystem.lagAfter_none] at represents
    rw [isCount, if_pos (Int.natCast_pos.mpr positive)]
    unfold advance
    apply ends_seek
    intro later moves
    have moved : (off + ((n : Int)).toNat) % uintModulus = off + n := by
      have largest : MAXFILE * BSIZE < uintModulus := by decide
      rw [Int.toNat_natCast]
      exact Nat.mod_eq_of_lt (Nat.lt_of_le_of_lt fits largest)
    have isFile :
        later.file =
          Function.update kernel.file f
            { kernel.file f with off := off + n } := by
      rw [moves.file, ← moved, ← isOff]
    have representsLater :
        later.fs.Represents
          (loaded.setNode inum
            { loaded.node inum with
              bytes :=
                overwrite 0 (loaded.node inum).bytes off (tabulate n src) })
          none := by
      rw [moves.fs]
      exact represents
    apply ends_followIp
    · rw [isFile, Function.update_self]
      exact isOpen.isIp
    apply ends_onFs
    · exact FileSystem.iunlock_represents representsLater
        (holds.setNode _).refers
    rintro _ fs isFs
    rw [isFs]
    refine ⟨_, representsLater, ?_, ?_⟩
    · unfold chunkWritten
      rw [if_pos fits]
      exact {
        node := by
          rw [isOff, same]
          unfold Volume.setNode
          rw [same]
        borrows := borrows.setNode _ _
        file := by
          rw [isOff]
          exact isFile
        ofile := moves.ofile
        cwd := moves.cwd
        alive := moves.alive
      }
    · rw [if_pos fits]
      exact if_pos (Int.natCast_pos.mpr positive)
  · have refused : FileSystem.writeiRefuses off n = true := by
      rw [writeiRefuses_eq few, decide_eq_true_iff]
      exact Nat.lt_of_not_le fits
    apply ends_onFs
    · exact FileSystem.writei_refused refused
    rintro r fs ⟨isMinusOne, isFs⟩
    rw [isMinusOne, isFs]
    have notPositive : ¬ (0 : Int) < -1 := by decide
    rw [if_neg notPositive, if_neg notPositive]
    apply ends_followIp
    · exact isOpen.isIp
    apply ends_onFs
    · exact FileSystem.iunlock_represents represents holds.refers
    rintro _ fs isFs
    rw [isFs]
    refine ⟨loaded, represents, ?_, ?_⟩
    · unfold chunkWritten
      rw [if_neg fits]
      exact .nothing same borrows ⟨rfl, rfl, rfl, rfl⟩
    · exact (if_neg fits).symm

/-- A chunk of what `sys_write` writes is in the user's memory. -/
def chunkPresent
    (source : Nat → Option UInt8)
    (written count : Nat) :
    Bool :=
  (List.range count).all fun i => (source (written + i)).isSome

/-- The bytes in the user's memory. -/
def userBytes (source : Nat → Option UInt8) : Nat → UInt8 :=
  fun i => (source i).getD 0

/-- The next chunk of `sys_write` is written. -/
def WritesNext
    (off : Nat)
    (source : Nat → Option UInt8)
    (written left : Nat) :
    Prop :=
  0 < left ∧ chunkPresent source written (min left 128) = true ∧
    off + min left 128 ≤ MAXFILE * BSIZE

/-- What the loop of `sys_write` has come to. -/
def WritesFrom
    (kernel : FileKernel)
    (vol : Volume)
    (f : FileSlot)
    (inum : Nat)
    (source : Nat → Option UInt8)
    (written left : Nat)
    (result : Int)
    (later : FileKernel) : Prop :=
  ∃ total after, later.fs.Represents after none ∧
    Writes kernel vol f inum total (userBytes source) later after ∧
    (result = total ∨ (result = -1 ∧ total = 0)) ∧
    written ≤ total ∧
    (written < total ↔
      WritesNext ((kernel.file f).off + written) source written left)

variable {source : Nat → Option UInt8}

theorem WritesFrom.stop
    {written left : Nat}
    {result : Int}
    (represents : later.fs.Represents after none)
    (writes :
      Writes kernel vol f inum written (userBytes source) later after)
    (isResult : result = written ∨ (result = -1 ∧ written = 0))
    (stops :
      ¬ WritesNext ((kernel.file f).off + written) source written left) :
    WritesFrom kernel vol f inum source written left result later := by
  refine ⟨written, after, represents, writes, isResult, le_rfl, ?_⟩
  constructor
  · intro impossible
    exact absurd impossible (Nat.lt_irrefl written)
  · intro writesNext
    exact absurd writesNext stops

theorem writeCountFrom_ends
    {written left : Nat}
    (fuel : Nat)
    (represents : middle.fs.Represents inner none)
    (writes :
      Writes kernel vol f inum written (userBytes source) middle inner)
    (isOpen : OpenOn inner (middle.file f) ip inum)
    (writable : (middle.file f).writable = true)
    (enough : left ≤ fuel) :
    (writeCountFrom f source fuel written left middle).Ends Exhausted
      (WritesFrom kernel vol f inum source written left) := by
  have gaveUp :
      ∀ written : Nat,
        (if 0 < written then (written : Int) else -1) = written ∨
          ((if 0 < written then (written : Int) else -1) = -1 ∧
            written = 0) := by
    intro written
    split
    next => exact Or.inl rfl
    next nothing =>
      exact Or.inr ⟨rfl, Nat.eq_zero_of_not_pos nothing⟩
  induction fuel generalizing written left middle inner with
  | zero =>
      have noneLeft : left = 0 := Nat.le_zero.mp enough
      apply WritesFrom.stop represents writes (Or.inl rfl)
      rintro ⟨positive, _⟩
      omega
  | succ fuel inductionHypothesis =>
      unfold writeCountFrom
      by_cases noneLeft : left = 0
      · rw [if_pos noneLeft]
        apply WritesFrom.stop represents writes (Or.inl rfl)
        rintro ⟨positive, _⟩
        omega
      rw [if_neg noneLeft]
      have isOff :
          (middle.file f).off = (kernel.file f).off + written := by
        rw [writes.file, Function.update_self]
      apply ends_fileAt
      by_cases present : chunkPresent source written (min left 128) = true
      · rw [if_pos ⟨present, isOpen.isInode⟩]
        have positive : 0 < min left 128 := by omega
        apply ends_bind
        · exact filewrite_ends represents isOpen writable positive
            (Nat.min_le_right ..)
        rintro ret later ⟨after, representsLater, chunk, isRet⟩
        rw [isOff] at isRet chunk
        by_cases fits :
          (kernel.file f).off + written + min left 128 ≤ MAXFILE * BSIZE
        · rw [if_pos fits] at isRet
          have isCount :
              chunkWritten ((kernel.file f).off + written) (min left 128) =
                min left 128 :=
            if_pos fits
          rw [isCount] at chunk
          rw [if_pos isRet]
          have writable : (later.file f).writable = true := by
            rw [chunk.file, Function.update_self]
            exact writable
          apply (inductionHypothesis representsLater (writes.trans chunk)
            (chunk.openOn isOpen) writable (by omega)).mono
          rintro result last ⟨total, end_, representsLast, writesAll, isResult,
            more, _⟩
          refine ⟨total, end_, representsLast, writesAll, isResult, by omega, ?_⟩
          constructor
          · intro _
            exact ⟨Nat.pos_of_ne_zero noneLeft, present, fits⟩
          · intro _
            omega
        · rw [if_neg fits] at isRet
          have isShort : ¬ ret = ((min left 128 : Nat) : Int) := by
            rw [isRet]
            omega
          rw [if_neg isShort]
          have noBytes :
              chunkWritten ((kernel.file f).off + written) (min left 128) =
                0 :=
            if_neg fits
          rw [noBytes] at chunk
          apply WritesFrom.stop representsLater (writes.trans chunk)
            (gaveUp written)
          rintro ⟨_, _, isFit⟩
          exact fits isFit
      · have absent :
            ¬ (((List.range (min left 128)).all fun i =>
                (source (written + i)).isSome) = true ∧
              (middle.file f).type = .inode) :=
          fun both => present both.1
        rw [if_neg absent]
        apply WritesFrom.stop represents writes (gaveUp written)
        rintro ⟨_, isPresent, _⟩
        exact present isPresent

end FileKernel

end MyOS
