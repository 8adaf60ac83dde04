import Mathlib.Data.List.Basic
import Mathlib.Logic.Function.Basic

namespace MyOS

/-!
# Copying and moving files

`cp` and `mv` read a file in pieces of up to 512 bytes and write each piece in
as many calls as the kernel takes for it.  `mv` removes the name of the file
once all of it has been written.  What the kernel answers is given beforehand:
how much a call takes or gives, and which calls fail.
-/

namespace Copying

/-- Names and files, as programs see them: a path leads to an entry of a
directory, which may name a file. -/
structure FileTree where
  entry : List UInt8 → Nat
  inode : Nat → Option Nat
  isDir : Nat → Bool
  bytes : Nat → List UInt8

/-- How a call of `open` ends: it is refused, or it fails after it has created
or emptied the file, or it succeeds. -/
inductive OpenOutcome where
  | refused
  | failsLate
  | opens
  deriving Repr, DecidableEq

/-- What the kernel answers.  Reads are given by their offsets, and writes by
the length of the file that is written to. -/
structure CopyWorld where
  fresh : Nat
  srcOpens : Bool
  dstStat : Bool
  dstOpens : OpenOutcome
  readFails : Nat → Bool
  readSize : Nat → Nat
  accepts : Nat → Int
  closes : Bool
  unlinks : Bool

/-- `COPY_CAP` -/
def COPY_CAP : Nat := 512

namespace FileTree

/-- The file that a path names. -/
def named (tree : FileTree) (path : List UInt8) : Option Nat :=
  tree.inode (tree.entry path)

/-- Change the bytes of a file. -/
def setBytes (tree : FileTree) (i : Nat) (bytes : List UInt8) : FileTree :=
  { tree with bytes := Function.update tree.bytes i bytes }

/-- What `open` does to the tree, with `O_WRONLY | O_CREAT | O_TRUNC`. -/
def truncated (tree : FileTree) (fresh : Nat) (path : List UInt8) :
    Nat × FileTree :=
  match tree.named path with
  | some i => (i, tree.setBytes i [])
  | none =>
      (fresh,
        ({ tree with
          inode := Function.update tree.inode (tree.entry path) (some fresh)
          isDir := Function.update tree.isDir fresh false }).setBytes fresh [])

/-- The bytes that a call of `read` returns. -/
def readAt (tree : FileTree) (size : Nat) (i offset : Nat) : List UInt8 :=
  ((tree.bytes i).drop offset).take (max 1 (min size COPY_CAP))

end FileTree

section Programs

variable (world : CopyWorld)

/-- `open` for writing, with `O_CREAT` and `O_TRUNC`; a directory cannot be
written to. -/
def openOut (dst : List UInt8) (tree : FileTree) : Option Nat × FileTree :=
  if (tree.named dst).any tree.isDir then
    (none, tree)
  else
    match world.dstOpens with
    | .refused => (none, tree)
    | .failsLate => (none, (tree.truncated world.fresh dst).2)
    | .opens =>
        (some (tree.truncated world.fresh dst).1,
          (tree.truncated world.fresh dst).2)

/-- The loop that writes a piece, one call after the other; every call that does
not fail takes a byte. -/
def writeLoop (out : Nat) :
    Nat → List UInt8 → FileTree → Bool × FileTree
  | _, [], tree => (true, tree)
  | 0, _ :: _, tree => (false, tree)
  | calls + 1, c :: buf, tree =>
      let m := world.accepts (tree.bytes out).length
      if m ≤ 0 then
        (false, tree)
      else
        writeLoop out calls ((c :: buf).drop m.toNat)
          (tree.setBytes out (tree.bytes out ++ (c :: buf).take m.toNat))

/-- The loop that reads the file; every round that goes on reads a byte. -/
def copyLoop (inp out : Nat) : Nat → Nat → FileTree → Int × FileTree
  | 0, _, tree => (-1, tree)
  | rounds + 1, offset, tree =>
      if world.readFails offset then
        (-1, tree)
      else
        let buf := tree.readAt (world.readSize offset) inp offset
        if buf = [] then
          (0, tree)
        else
          match writeLoop world out buf.length buf tree with
          | (false, tree) => (-1, tree)
          | (true, tree) => copyLoop inp out rounds (offset + buf.length) tree

/-- Copy an open file to a path: what `copy_file` and `copy_fd_to_path` do from
the opening of the copy on. -/
def copyTo (inp : Nat) (dst : List UInt8) (tree : FileTree) :
    Int × FileTree :=
  match openOut world dst tree with
  | (none, tree) => (-1, tree)
  | (some out, tree) =>
      match copyLoop world inp out ((tree.bytes inp).length + 1) 0 tree with
      | (status, tree) =>
          if status < 0 then
            (-1, tree)
          else if world.closes then
            (0, tree)
          else
            (-1, tree)

/-- `copy_file` of `cp` -/
def copyFile (src dst : List UInt8) (tree : FileTree) : Int × FileTree :=
  match tree.named src with
  | none => (-1, tree)
  | some inp =>
      if world.srcOpens then
        copyTo world inp dst tree
      else
        (-1, tree)

end Programs

/-- Names are as before, and so are all files but one. -/
structure OnlyWrites (out : Nat) (tree after : FileTree) : Prop where
  entry : after.entry = tree.entry
  inode : after.inode = tree.inode
  isDir : after.isDir = tree.isDir
  bytes : ∀ i, i ≠ out → after.bytes i = tree.bytes i

section Copies

variable {world : CopyWorld} {inp out : Nat} {tree : FileTree}

theorem OnlyWrites.refl : OnlyWrites out tree tree :=
  ⟨rfl, rfl, rfl, fun _ _ => rfl⟩

theorem OnlyWrites.trans
    {middle after : FileTree}
    (first : OnlyWrites out tree middle)
    (second : OnlyWrites out middle after) :
    OnlyWrites out tree after where
  entry := second.entry.trans first.entry
  inode := second.inode.trans first.inode
  isDir := second.isDir.trans first.isDir
  bytes := fun i other => (second.bytes i other).trans (first.bytes i other)

theorem setBytes_bytes
    {bytes : List UInt8} :
    (tree.setBytes out bytes).bytes out = bytes := by
  unfold FileTree.setBytes
  exact Function.update_self out bytes tree.bytes

theorem onlyWrites_setBytes
    {bytes : List UInt8} :
    OnlyWrites out tree (tree.setBytes out bytes) :=
  ⟨rfl, rfl, rfl, fun _ other => Function.update_of_ne other _ _⟩

theorem writeLoop_spec
    {calls : Nat}
    {buf : List UInt8} :
    let written := writeLoop world out calls buf tree
    OnlyWrites out tree written.2 ∧
      ∃ front, front <+: buf ∧
        written.2.bytes out = tree.bytes out ++ front ∧
        (written.1 = true → front = buf) := by
  induction calls generalizing buf tree with
  | zero =>
      cases buf with
      | nil =>
          exact ⟨.refl, [], List.prefix_refl _, (List.append_nil _).symm,
            fun _ => rfl⟩
      | cons c buf =>
          refine ⟨.refl, [], List.nil_prefix, (List.append_nil _).symm, ?_⟩
          intro impossible
          cases impossible
  | succ calls inductionHypothesis =>
      cases buf with
      | nil =>
          exact ⟨.refl, [], List.prefix_refl _, (List.append_nil _).symm,
            fun _ => rfl⟩
      | cons c buf =>
          unfold writeLoop
          dsimp only
          generalize (world.accepts (tree.bytes out).length).toNat = m
          split
          · refine ⟨.refl, [], List.nil_prefix, (List.append_nil _).symm, ?_⟩
            intro impossible
            cases impossible
          · obtain ⟨only, front, isFront, isBytes, whole⟩ :=
              @inductionHypothesis
                (tree.setBytes out (tree.bytes out ++ (c :: buf).take m))
                ((c :: buf).drop m)
            refine ⟨onlyWrites_setBytes.trans only,
              (c :: buf).take m ++ front, ?_, ?_, ?_⟩
            · obtain ⟨rest, isRest⟩ := isFront
              refine ⟨rest, ?_⟩
              rw [List.append_assoc, isRest, List.take_append_drop]
            · rw [isBytes, setBytes_bytes, List.append_assoc]
            · intro works
              rw [whole works, List.take_append_drop]

theorem copyLoop_spec
    {rounds offset : Nat}
    (different : inp ≠ out)
    (enough : (tree.bytes inp).length < rounds + offset) :
    let copied := copyLoop world inp out rounds offset tree
    OnlyWrites out tree copied.2 ∧
      ∃ front, front <+: (tree.bytes inp).drop offset ∧
        copied.2.bytes out = tree.bytes out ++ front ∧
        (0 ≤ copied.1 → front = (tree.bytes inp).drop offset) := by
  induction rounds generalizing offset tree with
  | zero =>
      refine ⟨.refl, [], List.nil_prefix, (List.append_nil _).symm, ?_⟩
      intro impossible
      cases impossible
  | succ rounds inductionHypothesis =>
      unfold copyLoop
      split
      · refine ⟨.refl, [], List.nil_prefix, (List.append_nil _).symm, ?_⟩
        intro impossible
        cases impossible
      · generalize isBuf :
          tree.readAt (world.readSize offset) inp offset = buf
        unfold FileTree.readAt at isBuf
        have some_ : 0 < max 1 (min (world.readSize offset) COPY_CAP) :=
          Nat.lt_of_lt_of_le Nat.one_pos (Nat.le_max_left _ _)
        generalize max 1 (min (world.readSize offset) COPY_CAP) = size
          at isBuf some_
        dsimp only
        split
        · next isEmpty =>
          have atEnd : (tree.bytes inp).drop offset = [] := by
            rw [isEmpty, List.take_eq_nil_iff] at isBuf
            exact isBuf.resolve_left (Nat.ne_of_gt some_)
          rw [atEnd]
          exact ⟨.refl, [], List.prefix_refl _, (List.append_nil _).symm,
            fun _ => rfl⟩
        · next notEmpty =>
          have parts :
              (tree.bytes inp).drop offset =
                buf ++ (tree.bytes inp).drop (offset + buf.length) := by
            have cut := List.take_append_drop size ((tree.bytes inp).drop offset)
            have isLength : buf.length = size ∨
                buf = (tree.bytes inp).drop offset := by
              rw [← isBuf, List.length_take]
              by_cases short : ((tree.bytes inp).drop offset).length ≤ size
              · exact Or.inr (List.take_of_length_le short)
              · exact Or.inl (by omega)
            rw [← List.drop_drop]
            rcases isLength with isSize | isAll
            · rw [isSize, ← isBuf]
              exact cut.symm
            · rw [← isAll, List.drop_length, List.append_nil]
          obtain ⟨only, front, isFront, isBytes, whole⟩ :=
            @writeLoop_spec world out tree buf.length buf
          rcases isWritten : writeLoop world out buf.length buf tree with
            ⟨works, written⟩
          rw [isWritten] at only isBytes whole
          dsimp only at only isBytes whole
          cases works with
          | false =>
              refine ⟨only, front, ?_, isBytes, ?_⟩
              · rw [parts]
                exact isFront.trans (List.prefix_append _ _)
              · intro impossible
                cases impossible
          | true =>
              have same := only.bytes inp different
              have longer : 0 < buf.length := List.length_pos_iff.mpr notEmpty
              obtain ⟨onlyRest, rest, isRest, restBytes, restWhole⟩ :=
                @inductionHypothesis written (offset + buf.length)
                  (by rw [same]; omega)
              rw [same] at isRest restWhole
              refine ⟨only.trans onlyRest, buf ++ rest, ?_, ?_, ?_⟩
              · rw [parts, List.prefix_append_right_inj]
                exact isRest
              · rw [restBytes, isBytes, whole rfl, List.append_assoc]
              · intro works
                rw [parts, restWhole works]

theorem truncated_spec
    {fresh : Nat}
    {dst : List UInt8} :
    let opened := tree.truncated fresh dst
    opened.2.named dst = some opened.1 ∧
      opened.2.bytes opened.1 = [] ∧
      opened.1 = (tree.named dst).getD fresh ∧
      opened.2.entry = tree.entry ∧
      (∀ place, place ≠ tree.entry dst →
        opened.2.inode place = tree.inode place) ∧
      ∀ i, i ≠ opened.1 → opened.2.bytes i = tree.bytes i := by
  unfold FileTree.truncated
  cases isNamed : tree.named dst with
  | none =>
      refine ⟨Function.update_self _ _ _, setBytes_bytes, rfl, rfl, ?_, ?_⟩
      · intro place other
        exact Function.update_of_ne other _ _
      · intro i other
        exact Function.update_of_ne other _ _
  | some i =>
      refine ⟨isNamed, setBytes_bytes, rfl, rfl, fun _ _ => rfl, ?_⟩
      intro j other
      exact Function.update_of_ne other _ _

/-- What is the same behind a call that opens a path for writing, and writes to
the file that it then names. -/
structure Rewrites (fresh : Nat) (dst : List UInt8) (tree after : FileTree) :
    Prop where
  entry : after.entry = tree.entry
  inode :
    ∀ place, place ≠ tree.entry dst → after.inode place = tree.inode place
  named :
    after.named dst = tree.named dst ∨
      tree.named dst = none ∧ after.named dst = some fresh
  bytes :
    ∀ i, i ≠ (tree.named dst).getD fresh → after.bytes i = tree.bytes i

theorem Rewrites.refl
    {fresh : Nat}
    {dst : List UInt8} :
    Rewrites fresh dst tree tree :=
  ⟨rfl, fun _ _ => rfl, Or.inl rfl, fun _ _ => rfl⟩

theorem rewrites_truncated
    {fresh : Nat}
    {dst : List UInt8} :
    Rewrites fresh dst tree (tree.truncated fresh dst).2 := by
  obtain ⟨isNamed, _, isOut, entry, inode, bytes⟩ :=
    @truncated_spec tree fresh dst
  refine ⟨entry, inode, ?_, fun i other => bytes i (isOut ▸ other)⟩
  rw [isNamed, isOut]
  cases tree.named dst with
  | none => exact Or.inr ⟨rfl, rfl⟩
  | some i => exact Or.inl rfl

theorem Rewrites.write
    {fresh : Nat}
    {dst : List UInt8}
    {middle after : FileTree}
    (opened : Rewrites fresh dst tree middle)
    (written : OnlyWrites ((tree.named dst).getD fresh) middle after) :
    Rewrites fresh dst tree after where
  entry := written.entry.trans opened.entry
  inode := fun place other => by
    rw [written.inode]
    exact opened.inode place other
  named := by
    unfold FileTree.named
    rw [written.entry, written.inode]
    exact opened.named
  bytes := fun i other =>
    (written.bytes i other).trans (opened.bytes i other)

/-- What the loop reads and writes, once the copy is open. -/
def looped (world : CopyWorld) (inp : Nat) (dst : List UInt8)
    (tree : FileTree) : Int × FileTree :=
  let opened := tree.truncated world.fresh dst
  copyLoop world inp opened.1 ((opened.2.bytes inp).length + 1) 0 opened.2

theorem copyTo_cases (dst : List UInt8) :
    let copied := copyTo world inp dst tree
    (copied.1 = -1 ∧
        (copied.2 = tree ∨ copied.2 = (tree.truncated world.fresh dst).2 ∨
          copied.2 = (looped world inp dst tree).2)) ∨
      (copied.2 = (looped world inp dst tree).2 ∧
        0 ≤ (looped world inp dst tree).1) := by
  unfold copyTo openOut
  by_cases isDir : (tree.named dst).any tree.isDir = true
  · rw [if_pos isDir]
    exact Or.inl ⟨rfl, Or.inl rfl⟩
  rw [if_neg isDir]
  cases world.dstOpens with
  | refused =>
      exact Or.inl ⟨rfl, Or.inl rfl⟩
  | failsLate =>
      exact Or.inl ⟨rfl, Or.inr (Or.inl rfl)⟩
  | opens =>
      have isLooped :
          copyLoop world inp (tree.truncated world.fresh dst).1
              (((tree.truncated world.fresh dst).2.bytes inp).length + 1) 0
              (tree.truncated world.fresh dst).2 =
            looped world inp dst tree :=
        rfl
      dsimp only
      rw [isLooped]
      by_cases failed : (looped world inp dst tree).1 < 0
      · rw [if_pos failed]
        exact Or.inl ⟨rfl, Or.inr (Or.inr rfl)⟩
      rw [if_neg failed]
      cases world.closes with
      | false =>
          exact Or.inl ⟨rfl, Or.inr (Or.inr rfl)⟩
      | true =>
          exact Or.inr ⟨rfl, Int.not_lt.mp failed⟩

theorem copyTo_spec
    {dst : List UInt8}
    (different : inp ≠ (tree.named dst).getD world.fresh) :
    let copied := copyTo world inp dst tree
    Rewrites world.fresh dst tree copied.2 ∧
      (0 ≤ copied.1 →
        copied.2.named dst = some ((tree.named dst).getD world.fresh) ∧
          copied.2.bytes ((tree.named dst).getD world.fresh) =
            tree.bytes inp) := by
  obtain ⟨isNamed, isEmpty, isOut, _, _, bytes⟩ :=
    @truncated_spec tree world.fresh dst
  have opened := @rewrites_truncated tree world.fresh dst
  have result := @copyTo_cases world inp tree dst
  unfold looped at result
  generalize tree.truncated world.fresh dst = middle
    at isNamed isEmpty isOut bytes opened result
  dsimp only at result ⊢
  rw [← isOut] at different ⊢
  obtain ⟨only, front, _, isBytes, whole⟩ :=
    @copyLoop_spec world inp middle.1 middle.2
      ((middle.2.bytes inp).length + 1) 0 different (Nat.lt_succ_self _)
  rw [isOut] at only
  have written := opened.write only
  rw [← isOut] at written only
  rcases result with ⟨isStatus, isCopied⟩ | ⟨isCopied, works⟩
  · refine ⟨?_, fun impossible => ?_⟩
    · rcases isCopied with isTree | isOpened | isLooped
      · rw [isTree]
        exact .refl
      · rw [isOpened]
        exact opened
      · rw [isLooped]
        exact written
    · rw [isStatus] at impossible
      cases impossible
  · rw [isCopied]
    refine ⟨written, fun _ => ⟨?_, ?_⟩⟩
    · unfold FileTree.named
      rw [only.entry, only.inode]
      exact isNamed
    · rw [isBytes, isEmpty, whole works, bytes inp different]
      rfl

end Copies

/-!
## What is kept
-/

section Keeping

variable (world : CopyWorld) (src dst : List UInt8) (tree : FileTree)

variable {world src dst tree} in
theorem other_of_named
    {inp : Nat}
    (isNamed : tree.named src = some inp)
    (isFresh : ∀ place, tree.inode place ≠ some world.fresh)
    (other : tree.named dst ≠ some inp) :
    inp ≠ (tree.named dst).getD world.fresh := by
  rintro isOut
  cases found : tree.named dst with
  | none =>
      rw [found] at isOut
      have isFresh_ := isFresh (tree.entry src)
      exact isFresh_ (isNamed.trans (congrArg some isOut))
  | some out =>
      rw [found] at isOut other
      exact other (congrArg some isOut.symm)

theorem copyTo_itself
    {inp : Nat}
    (same : tree.named dst = some inp) :
    let copied := copyTo world inp dst tree
    Rewrites world.fresh dst tree copied.2 ∧
      (0 ≤ copied.1 → copied.2.bytes inp = []) := by
  obtain ⟨_, isEmpty, isOut, _, _, _⟩ := @truncated_spec tree world.fresh dst
  have opened := @rewrites_truncated tree world.fresh dst
  have result := @copyTo_cases world inp tree dst
  have isInp : (tree.truncated world.fresh dst).1 = inp := by
    rw [isOut, same]
    rfl
  rw [isInp] at isEmpty
  -- There is nothing left to read, whatever the first call answers.
  have nothing :
      (looped world inp dst tree).2 = (tree.truncated world.fresh dst).2 := by
    unfold looped copyLoop FileTree.readAt
    dsimp only
    rw [isEmpty, List.drop_nil, List.take_nil]
    split
    · rfl
    · rfl
  rw [nothing] at result
  dsimp only at result ⊢
  rcases result with ⟨isStatus, isCopied⟩ | ⟨isCopied, _⟩
  · refine ⟨?_, fun impossible => ?_⟩
    · rcases isCopied with isTree | isOpened | isOpened
      · rw [isTree]
        exact .refl
      · rw [isOpened]
        exact opened
      · rw [isOpened]
        exact opened
    · rw [isStatus] at impossible
      cases impossible
  · rw [isCopied]
    exact ⟨opened, fun _ => isEmpty⟩

/--
`cp` writes to no file but the one that the second path names then, and changes
no name but that one.  If it succeeds and the paths do not name the same file,
the second one names a file with the bytes of the first; if they name the same
file, nothing is left of this.
-/
theorem cp_copies
    {inp : Nat}
    (isNamed : tree.named src = some inp)
    (isFresh : ∀ place, tree.inode place ≠ some world.fresh) :
    let copied := copyFile world src dst tree
    Rewrites world.fresh dst tree copied.2 ∧
      (tree.named dst ≠ some inp → 0 ≤ copied.1 →
        copied.2.bytes inp = tree.bytes inp ∧
          ∃ out, copied.2.named dst = some out ∧
            copied.2.bytes out = tree.bytes inp) ∧
      (tree.named dst = some inp → 0 ≤ copied.1 →
        copied.2.bytes inp = []) := by
  unfold copyFile
  rw [isNamed]
  dsimp only
  split
  · by_cases same : tree.named dst = some inp
    · obtain ⟨rewrites, isEmpty⟩ := copyTo_itself world dst tree same
      exact ⟨rewrites, fun other => absurd same other, fun _ => isEmpty⟩
    · have different := other_of_named isNamed isFresh same
      obtain ⟨rewrites, copies⟩ :=
        @copyTo_spec world inp tree dst different
      refine ⟨rewrites, fun _ works => ?_, fun isSame => absurd isSame same⟩
      obtain ⟨names, isBytes⟩ := copies works
      exact ⟨rewrites.bytes inp different, _, names, isBytes⟩
  · refine ⟨.refl, fun _ impossible => ?_, fun _ impossible => ?_⟩
    · cases impossible
    · cases impossible

/-- A tree in which one file has a name. -/
def oneFile : FileTree where
  entry := List.length
  inode := fun place => if place = 1 then some 0 else none
  isDir := fun _ => false
  bytes := fun _ => [1, 2, 3]

/-- A kernel that takes one byte at a time, and fails nowhere. -/
def slowWorld : CopyWorld :=
  ⟨1, true, true, .opens, fun _ => false, fun _ => 2, fun _ => 1, true, true⟩

theorem oneFile_fresh (place : Nat) :
    oneFile.inode place ≠ some slowWorld.fresh := by
  unfold oneFile slowWorld
  dsimp only
  split <;> decide

/-- A file is copied byte by byte. -/
theorem cp_copies_slowly :
    let copied := copyFile slowWorld [97] [98, 98] oneFile
    Rewrites 1 [98, 98] oneFile copied.2 ∧
      (oneFile.named [98, 98] ≠ some 0 → 0 ≤ copied.1 →
        copied.2.bytes 0 = [1, 2, 3] ∧
          ∃ out, copied.2.named [98, 98] = some out ∧
            copied.2.bytes out = [1, 2, 3]) ∧
      (oneFile.named [98, 98] = some 0 → 0 ≤ copied.1 →
        copied.2.bytes 0 = []) :=
  @cp_copies slowWorld [97] [98, 98] oneFile 0 rfl oneFile_fresh

end Keeping

end Copying

end MyOS
