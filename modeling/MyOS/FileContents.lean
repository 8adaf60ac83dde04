import MyOS.FileSanity

namespace MyOS

open Lib
open Routine

/-!
# The contents of a file

What `writei`, `readi`, `itrunc` and `sys_ftruncate` do to an inode, one after
the other: to its callers the inode is a list of bytes that is overwritten,
read, emptied, and cut or filled up with zeros.
-/

namespace FileKernel

/-- A call on the contents of an inode. -/
inductive ContentCall where
  | writei (source : List UInt8) (off : Nat)
  | readi (target : FileSystem.ReadTarget) (off n : Nat)
  | itrunc
  | ftruncate (p : Slot) (fd length : Int)

/-- What a call on the contents of an inode returns. -/
inductive ContentAnswer where
  | count (result : Int)
  | bytes (read : List UInt8)
  | done

/-- A routine on an inode, under the inode's lock. -/
def lockedInode
    {Result : Type}
    (ip : InodeIndex)
    (routine : FsRoutine Result) :
    FileRoutine Result := do
  onFs (FileSystem.ilock ip)
  let result ← onFs routine
  onFs (FileSystem.iunlock ip)
  return result

/-- A call on the contents of an inode. -/
def contentCall (ip : InodeIndex) : ContentCall → FileRoutine ContentAnswer
  | .writei source off => do
      let result ←
        lockedInode ip
          (FileSystem.writei ip (fun i => source.getD i 0) off source.length)
      return .count result
  | .readi target off n => do
      let read ← lockedInode ip (FileSystem.readi ip target off n)
      return .bytes read
  | .itrunc => do
      lockedInode ip (FileSystem.itrunc ip)
      return .done
  | .ftruncate p fd length => do
      let result ← ftruncateCall p fd length
      return .count result

/-- Calls on the contents of an inode, one after the other. -/
def contentCalls (ip : InodeIndex) :
    List ContentCall → FileRoutine (List ContentAnswer)
  | [] => pure []
  | call :: rest => do
      let answer ← contentCall ip call
      let answers ← contentCalls ip rest
      return answer :: answers

/-!
## A mutable list of bytes
-/

/-- `sys_ftruncate` works on a file of this type. -/
def mayTruncate
    (kernel : FileKernel)
    (type : Nat)
    (p : Slot)
    (fd length : Int) : Bool :=
  (kernel.argfd p fd).any fun found =>
    (kernel.file found.2).writable && type == T_FILE && decide (0 ≤ length)

section Contents

variable (mayResize : Slot → Int → Int → Bool)

/-- The bytes behind a call. -/
def bytesBehind : ContentCall → List UInt8 → List UInt8
  | .writei source off, bytes =>
      if off + source.length ≤ MAXFILE * BSIZE then
        overwrite 0 bytes off source
      else
        bytes
  | .readi _ _ _, bytes => bytes
  | .itrunc, _ => []
  | .ftruncate p fd length, bytes =>
      if mayResize p fd length then
        resize 0 bytes length.toNat
      else
        bytes

/-- The bytes behind a list of calls. -/
def bytesBehindAll (calls : List ContentCall) (bytes : List UInt8) :
    List UInt8 :=
  calls.foldl (fun bytes call => bytesBehind mayResize call bytes) bytes

/-- The answer of a call on a list of bytes. -/
def Answers : ContentCall → List UInt8 → ContentAnswer → Prop
  | .writei source off, _, answer =>
      answer =
        .count
          (if off + source.length ≤ MAXFILE * BSIZE then
            (source.length : Int)
          else
            -1)
  | .readi target off n, bytes, answer =>
      ∃ count, count ≤ n ∧
        ((∀ done m, target.accepts done m = true) → count = n) ∧
        answer = .bytes (window bytes off count)
  | .itrunc, _, answer => answer = .done
  | .ftruncate p fd length, _, answer =>
      answer = .count (if mayResize p fd length then 0 else -1)

/-- The answers of a list of calls on a list of bytes. -/
def AnswersAll : List ContentCall → List UInt8 → List ContentAnswer → Prop
  | [], _, answers => answers = []
  | call :: rest, bytes, answers =>
      ∃ answer others, answers = answer :: others ∧
        Answers mayResize call bytes answer ∧
        AnswersAll rest (bytesBehind mayResize call bytes) others

end Contents

/-- Offsets, lengths and sizes are within the largest file. -/
def ContentCall.Within : ContentCall → Prop
  | .writei source off =>
      off ≤ MAXFILE * BSIZE ∧ source.length ≤ MAXFILE * BSIZE
  | .readi _ off n => off ≤ MAXFILE * BSIZE ∧ n ≤ MAXFILE * BSIZE
  | .itrunc => True
  | .ftruncate _ _ length => length ≤ (MAXFILE * BSIZE : Nat)

/-- A call is on an inode: so is the descriptor of `sys_ftruncate`, if open. -/
def ContentCall.IsOn (kernel : FileKernel) (ip : InodeIndex) :
    ContentCall → Prop
  | .ftruncate p fd _ =>
      ∀ slot f, kernel.argfd p fd = some (slot, f) →
        (kernel.file f).type = .inode ∧ (kernel.file f).ip = some ip
  | _ => True

/-- The bytes of a node have been replaced, and offsets of files moved. -/
structure Stores
    (kernel : FileKernel)
    (vol : Volume)
    (inum : Nat)
    (bytes : List UInt8)
    (later : FileKernel)
    (after : Volume) : Prop where
  represents : later.fs.Represents after none
  node :
    after.node =
      (vol.setNode inum { vol.node inum with bytes := bytes }).node
  borrows : Volume.Borrows vol after 0
  ofile : later.ofile = kernel.ofile
  file :
    ∀ f, ∃ off, later.file f = { kernel.file f with off := off }

variable {kernel later : FileKernel} {vol after : Volume}
variable {ip : InodeIndex} {inum : Nat}

theorem Stores.bytes_eq
    {bytes : List UInt8}
    (stores : Stores kernel vol inum bytes later after) :
    after.node inum = { vol.node inum with bytes := bytes } := by
  rw [stores.node]
  exact Volume.setNode_node_self _

theorem Stores.trans
    {middle : FileKernel}
    {inner : Volume}
    {bytes more : List UInt8}
    (first : Stores kernel vol inum bytes middle inner)
    (second : Stores middle inner inum more later after) :
    Stores kernel vol inum more later after where
  represents := second.represents
  node := by
    rw [second.node, first.bytes_eq]
    unfold Volume.setNode
    rw [first.node]
    exact Function.update_idem ..
  borrows := by
    have both := first.borrows.trans second.borrows
    rw [add_zero] at both
    exact both
  ofile := second.ofile.trans first.ofile
  file := by
    intro f
    obtain ⟨off, isFile⟩ := first.file f
    obtain ⟨other, isLater⟩ := second.file f
    exact ⟨other, isLater.trans (by rw [isFile])⟩

theorem mayTruncate_iff
    {type : Nat}
    {p : Slot}
    {fd length : Int} :
    kernel.mayTruncate type p fd length = true ↔
      ∃ slot f, kernel.argfd p fd = some (slot, f) ∧
        (kernel.file f).writable = true ∧ type = T_FILE ∧ 0 ≤ length := by
  unfold mayTruncate
  rw [Option.any_eq_true]
  constructor
  · rintro ⟨⟨slot, f⟩, found, permits⟩
    rw [Bool.and_eq_true, Bool.and_eq_true, beq_iff_eq,
      decide_eq_true_iff] at permits
    exact ⟨slot, f, found, permits.1.1, permits.1.2, permits.2⟩
  · rintro ⟨slot, f, found, writable, isFile, nonneg⟩
    refine ⟨(slot, f), found, ?_⟩
    rw [Bool.and_eq_true, Bool.and_eq_true, beq_iff_eq, decide_eq_true_iff]
    exact ⟨⟨writable, isFile⟩, nonneg⟩

theorem Stores.mayTruncate_eq
    {bytes : List UInt8}
    (stores : Stores kernel vol inum bytes later after)
    (type : Nat) :
    later.mayTruncate type = kernel.mayTruncate type := by
  funext p fd length
  unfold mayTruncate argfd
  rw [stores.ofile]
  congr 1
  funext found
  obtain ⟨off, isFile⟩ := stores.file found.2
  rw [isFile]

theorem Stores.isOn
    {bytes : List UInt8}
    {call : ContentCall}
    (stores : Stores kernel vol inum bytes later after)
    (isOn : call.IsOn kernel ip) :
    call.IsOn later ip := by
  cases call with
  | ftruncate p fd length =>
      intro slot f isFile
      have isFile : kernel.argfd p fd = some (slot, f) := by
        unfold argfd at isFile ⊢
        rw [← stores.ofile]
        exact isFile
      obtain ⟨off, isLater⟩ := stores.file f
      rw [isLater]
      exact isOn slot f isFile
  | writei => exact trivial
  | readi => exact trivial
  | itrunc => exact trivial

theorem Stores.refl
    (represents : kernel.fs.Represents vol none) :
    Stores kernel vol inum (vol.node inum).bytes kernel vol where
  represents := represents
  node := congrArg Volume.node Volume.setNode_self.symm
  borrows := Volume.Borrows.refl represents.nonneg
  ofile := rfl
  file := fun f => ⟨(kernel.file f).off, rfl⟩

/-!
## The calls
-/

theorem ends_lockedInode
    {Result Next : Type}
    {routine : FsRoutine Result}
    {next : Result → FileRoutine Next}
    {middle : Result → List UInt8 → Prop}
    {post : Next → FileKernel → Prop}
    (represents : kernel.fs.Represents vol none)
    (refers : vol.Refers ip inum)
    (inUse : (vol.node inum).type ≠ 0)
    (ends :
      ∀ fs loaded, fs.Represents loaded none → loaded.Holds ip inum →
        loaded.node = vol.node →
        (routine fs).Ends FileSystem.Exhausted
          (fun result later =>
            ∃ bytes, middle result bytes ∧
              later.Represents
                (loaded.setNode inum { vol.node inum with bytes := bytes })
                none))
    (rest :
      ∀ result bytes later after, middle result bytes →
        Stores kernel vol inum bytes later after →
        (next result later).Ends Exhausted post) :
    ((lockedInode ip routine >>= next) kernel).Ends Exhausted post := by
  have nonneg := represents.nonneg
  unfold lockedInode
  rw [bind_assoc]
  apply ends_onFs (FileSystem.ilock_represents represents refers inUse)
  intro _ fs represents
  have holds := refers.load
  have borrows := (Volume.Borrows.refl nonneg).load ip
  generalize isLoaded :
    vol.setHandle ip { vol.handle ip with valid := true } = loaded at *
  have same : loaded.node = vol.node := by
    rw [← isLoaded]
    rfl
  rw [bind_assoc]
  apply ends_onFs (ends fs loaded represents holds same)
  rintro result fs ⟨bytes, isMiddle, represents⟩
  rw [bind_assoc]
  apply ends_onFs
  · exact FileSystem.iunlock_represents represents (holds.setNode _).refers
  rintro _ fs isFs
  rw [isFs]
  refine rest result bytes _ _ isMiddle ⟨represents, ?_, ?_, rfl, ?_⟩
  · unfold Volume.setNode
    rw [same]
  · exact borrows.setNode _ _
  · exact fun f => ⟨(kernel.file f).off, rfl⟩

theorem off_add_lt
    {off n : Nat}
    (narrow : off ≤ MAXFILE * BSIZE)
    (few : n ≤ MAXFILE * BSIZE) :
    off + n < uintModulus := by
  have largest : MAXFILE * BSIZE + MAXFILE * BSIZE < uintModulus := by
    decide
  exact Nat.lt_of_le_of_lt (Nat.add_le_add narrow few) largest

theorem writeiRefuses_within
    {off n : Nat}
    (narrow : off ≤ MAXFILE * BSIZE)
    (few : n ≤ MAXFILE * BSIZE) :
    FileSystem.writeiRefuses off n = decide (MAXFILE * BSIZE < off + n) := by
  have isModulus : uintModulus = 0x100000000 := rfl
  have isLargest : MAXFILE * BSIZE = 67382272 := by decide
  rw [isLargest] at narrow few
  apply decide_eq_decide.mpr
  rw [isModulus, isLargest]
  omega

theorem writei_stores
    {fs : FileSystem}
    {loaded : Volume}
    {source : List UInt8}
    {off : Nat}
    (narrow : off ≤ MAXFILE * BSIZE)
    (few : source.length ≤ MAXFILE * BSIZE)
    (represents : fs.Represents loaded none)
    (holds : loaded.Holds ip inum)
    (same : loaded.node = vol.node) :
    (FileSystem.writei ip (fun i => source.getD i 0) off source.length
      fs).Ends FileSystem.Exhausted
      (fun result later =>
        ∃ bytes,
          (result =
              (if off + source.length ≤ MAXFILE * BSIZE then
                (source.length : Int)
              else
                -1) ∧
            bytes =
              if off + source.length ≤ MAXFILE * BSIZE then
                overwrite 0 (vol.node inum).bytes off source
              else
                (vol.node inum).bytes) ∧
            later.Represents
              (loaded.setNode inum { vol.node inum with bytes := bytes })
              none) := by
  by_cases fits : off + source.length ≤ MAXFILE * BSIZE
  · apply
      (FileSystem.writei_represents represents (Or.inl rfl) holds fits
        rfl).mono
    rintro result later ⟨isCount, represents⟩
    rw [FileSystem.lagAfter_none, tabulate_getD, same] at represents
    refine ⟨_, ⟨?_, rfl⟩, ?_⟩
    · rw [if_pos fits]
      exact isCount
    · rw [if_pos fits]
      exact represents
  · have refused : FileSystem.writeiRefuses off source.length = true := by
      rw [writeiRefuses_within narrow few, decide_eq_true_iff]
      exact Nat.lt_of_not_le fits
    apply (FileSystem.writei_refused refused).mono
    rintro result later ⟨isMinusOne, isLater⟩
    refine ⟨_, ⟨?_, rfl⟩, ?_⟩
    · rw [if_neg fits]
      exact isMinusOne
    · rw [if_neg fits, isLater]
      have isSelf : { vol.node inum with bytes := (vol.node inum).bytes } =
          loaded.node inum := by
        rw [same]
      rw [isSelf, Volume.setNode_self]
      exact represents

theorem readi_stores
    {fs : FileSystem}
    {loaded : Volume}
    {target : FileSystem.ReadTarget}
    {off n : Nat}
    (narrow : off ≤ MAXFILE * BSIZE)
    (few : n ≤ MAXFILE * BSIZE)
    (represents : fs.Represents loaded none)
    (holds : loaded.Holds ip inum)
    (same : loaded.node = vol.node) :
    (FileSystem.readi ip target off n fs).Ends FileSystem.Exhausted
      (fun read later =>
        ∃ bytes,
          ((∃ count, count ≤ n ∧
              ((∀ done m, target.accepts done m = true) → count = n) ∧
              read = window (vol.node inum).bytes off count) ∧
            bytes = (vol.node inum).bytes) ∧
            later.Represents
              (loaded.setNode inum { vol.node inum with bytes := bytes })
              none) := by
  apply
    (FileSystem.readi_represents represents (Or.inl rfl) holds target
      (off_add_lt narrow few)).mono
  rintro read later ⟨isLater, count, bound, whole, isRead⟩
  rw [same] at isRead
  refine ⟨_, ⟨⟨count, bound, whole, isRead⟩, rfl⟩, ?_⟩
  have isSelf :
      { vol.node inum with bytes := (vol.node inum).bytes } =
        loaded.node inum := by
    rw [same]
  rw [isSelf, Volume.setNode_self, isLater]
  exact represents

theorem fillUp_ends
    {fs : FileSystem}
    {loaded : Volume}
    {length fuel : Nat}
    (represents : fs.Represents loaded none)
    (holds : loaded.Holds ip inum)
    (within : length ≤ MAXFILE * BSIZE)
    (grows : (loaded.node inum).bytes.length ≤ length)
    (enough : length - (loaded.node inum).bytes.length ≤ fuel) :
    (fillUp ip length fuel fs).Ends FileSystem.Exhausted
      (fun filled later =>
        filled = true ∧
          later.Represents
            (loaded.setNode inum
              { loaded.node inum with
                bytes := resize 0 (loaded.node inum).bytes length })
            none) := by
  induction fuel generalizing fs loaded with
  | zero =>
      have isWhole : length = (loaded.node inum).bytes.length := by
        omega
      refine ⟨rfl, ?_⟩
      rw [isWhole, resize_of_le (Nat.le_refl _), List.take_length,
        Volume.setNode_self]
      exact represents
  | succ fuel inductionHypothesis =>
      have isSize : (fs.inode ip).size = (loaded.node inum).bytes.length :=
        (represents.inode holds).2.2.2.2
      unfold fillUp
      apply FileSystem.ends_inodeAt
      rw [isSize]
      split
      next shorter =>
        dsimp only
        generalize isCount :
          min (length - (loaded.node inum).bytes.length) 128 = n
        have fits :
            (loaded.node inum).bytes.length + n ≤ MAXFILE * BSIZE := by
          omega
        apply ends_bind
          (FileSystem.writei_represents represents (Or.inl rfl) holds fits
            rfl)
        rintro written middle ⟨isWritten, represents⟩
        rw [FileSystem.lagAfter_none, overwrite_fillers] at represents
        rw [if_neg (not_not.mpr isWritten)]
        generalize isInner :
          loaded.setNode inum
            { loaded.node inum with
              bytes :=
                resize 0 (loaded.node inum).bytes
                  ((loaded.node inum).bytes.length + n) } =
            inner at represents
        have isNode :
            inner.node inum =
              { loaded.node inum with
                bytes :=
                  resize 0 (loaded.node inum).bytes
                    ((loaded.node inum).bytes.length + n) } := by
          rw [← isInner]
          exact Volume.setNode_node_self _
        have lengthNow :
            (inner.node inum).bytes.length =
              (loaded.node inum).bytes.length + n := by
          rw [isNode]
          exact length_resize _
        have holdsNow : inner.Holds ip inum := by
          rw [← isInner]
          exact holds.setNode _
        apply
          (inductionHypothesis represents holdsNow (by omega) (by omega)).mono
        rintro filled later ⟨isFilled, represents⟩
        refine ⟨isFilled, ?_⟩
        rw [isNode, ← isInner, Volume.setNode_setNode] at represents
        dsimp only at represents
        rw [resize_resize (Nat.le_add_right ..) (by omega)] at represents
        exact represents
      next longer =>
        have isWhole : length = (loaded.node inum).bytes.length := by
          omega
        refine ⟨rfl, ?_⟩
        rw [isWhole, resize_of_le (Nat.le_refl _), List.take_length,
          Volume.setNode_self]
        exact represents

/-- `sys_ftruncate` behind its loops. -/
def clipFile (f : FileSlot) (ip : InodeIndex) (length : Int) (filled : Bool) :
    FileRoutine Int := do
  if filled = false then
    onFs (FileSystem.iunlock ip)
    return -1
  else
    let file ← fileAt f
    if length.toNat < file.off then
      setFile f fun file => { file with off := length.toNat }
      moveOpened f fun _ => length.toNat
    onFs (FileSystem.iunlock ip)
    return 0

theorem clipFile_ends
    {f : FileSlot}
    {length : Int}
    (represents : kernel.fs.Represents vol none)
    (refers : vol.Refers ip inum) :
    (clipFile f ip length true kernel).Ends Exhausted
      (fun result later =>
        result = 0 ∧ later.fs = kernel.fs ∧ later.ofile = kernel.ofile ∧
          ∀ g, ∃ off, later.file g = { kernel.file g with off := off }) := by
  unfold clipFile
  have notFailed : ¬ true = false := by
    decide
  rw [if_neg notFailed]
  apply ends_fileAt
  split
  next behind =>
    apply ends_setFile
    refine ends_modify ?_
    apply ends_onFs
    · exact FileSystem.iunlock_represents represents refers
    rintro _ fs isFs
    rw [isFs]
    refine ⟨rfl, rfl, rfl, ?_⟩
    intro g
    by_cases same : g = f
    · rw [same]
      exact ⟨length.toNat, Function.update_self ..⟩
    · exact ⟨(kernel.file g).off, Function.update_of_ne same ..⟩
  next =>
    apply ends_onFs
    · exact FileSystem.iunlock_represents represents refers
    rintro _ fs isFs
    rw [isFs]
    exact ⟨rfl, rfl, rfl, fun g => ⟨(kernel.file g).off, rfl⟩⟩

theorem ftruncateCall_stores
    {p : Slot}
    {fd length : Int}
    {slot : Descriptor}
    {f : FileSlot}
    (represents : kernel.fs.Represents vol none)
    (refers : vol.Refers ip inum)
    (within : length ≤ (MAXFILE * BSIZE : Nat))
    (found : kernel.argfd p fd = some (slot, f))
    (isInode : (kernel.file f).type = .inode)
    (isIp : (kernel.file f).ip = some ip)
    (writable : (kernel.file f).writable = true)
    (nonneg : 0 ≤ length)
    (isFile : (vol.node inum).type = T_FILE) :
    (ftruncateCall p fd length kernel).Ends Exhausted
      (fun result later =>
        result = 0 ∧
          ∃ after,
            Stores kernel vol inum
              (resize 0 (vol.node inum).bytes length.toNat) later after) := by
  have borrows := Volume.Borrows.refl represents.nonneg
  have inUse : (vol.node inum).type ≠ 0 := by
    rw [isFile]
    decide
  unfold ftruncateCall
  apply ends_get
  rw [found]
  have passes :
      ¬ ((kernel.file f).type ≠ .inode ∨
        (kernel.file f).writable = false ∨ length < 0) := by
    rintro (notInode | notWritable | negative)
    · exact notInode isInode
    · rw [writable] at notWritable
      cases notWritable
    · omega
  dsimp only
  rw [if_neg passes]
  apply ends_followIp isIp
  apply ends_onFs (FileSystem.ilock_represents represents refers inUse)
  intro _ fs representsLoaded
  have holds := refers.load
  have borrows := borrows.load ip
  generalize isLoaded :
    vol.setHandle ip { vol.handle ip with valid := true } = loaded at *
  have same : loaded.node = vol.node := by
    rw [← isLoaded]
    rfl
  have inode := representsLoaded.inode holds
  have isSize := inode.2.2.2.2
  apply ends_onFs_inodeAt
  dsimp only
  rw [inode.2.2.1, isSize, same, if_neg (not_not.mpr isFile)]
  -- Behind each of the three loops the file is what it should be.
  have rest :
      ∀ fs : FileSystem,
        fs.Represents
          (loaded.setNode inum
            { vol.node inum with
              bytes := resize 0 (vol.node inum).bytes length.toNat })
          none →
        (clipFile f ip length true { kernel with fs := fs }).Ends Exhausted
          (fun result later =>
            result = 0 ∧
              ∃ after,
                Stores kernel vol inum
                  (resize 0 (vol.node inum).bytes length.toNat) later
                  after) := by
    intro fs represents
    have representsNow :
        ({ kernel with fs := fs } : FileKernel).fs.Represents
          (loaded.setNode inum
            { vol.node inum with
              bytes := resize 0 (vol.node inum).bytes length.toNat })
          none :=
      represents
    apply (clipFile_ends representsNow (holds.setNode _).refers).mono
    rintro result later ⟨isZero, isFs, ofile, file⟩
    rw [← isFs] at representsNow
    refine ⟨isZero, _, representsNow, ?_, borrows.setNode _ _, ofile, file⟩
    unfold Volume.setNode
    rw [same]
  rw [same] at isSize
  by_cases isZero : length = 0
  · rw [if_pos isZero]
    apply ends_onFs
    · exact
        FileSystem.itrunc_represents representsLoaded (Or.inl rfl) holds
    intro _ fs represents
    rw [same] at represents
    have isEmpty : resize 0 (vol.node inum).bytes length.toNat = [] := by
      rw [isZero]
      exact resize_of_le (Nat.zero_le _)
    rw [← isEmpty] at represents
    exact rest fs represents
  rw [if_neg isZero]
  by_cases grows : (vol.node inum).bytes.length < length.toNat
  · rw [if_pos grows]
    have isNode : loaded.node inum = vol.node inum := by
      rw [same]
    apply ends_onFs
    · apply fillUp_ends representsLoaded holds (by omega)
      · rw [isNode]
        exact Nat.le_of_lt grows
      · exact Nat.sub_le ..
    rintro filled fs ⟨isFilled, represents⟩
    rw [isNode] at represents
    rw [isFilled]
    exact rest fs represents
  · rw [if_neg grows]
    have short : length.toNat ≤ (loaded.node inum).bytes.length := by
      rw [same]
      exact Nat.le_of_not_lt grows
    apply ends_onFs_setInode
    apply ends_onFs
    · exact
        FileSystem.iupdate_represents
          (representsLoaded.setSize (Or.inl rfl) holds short) (Or.inr rfl)
          (holds.setNode _)
    intro _ fs represents
    have isCut :
        resize 0 (vol.node inum).bytes length.toNat =
          (vol.node inum).bytes.take length.toNat :=
      resize_of_le (Nat.le_of_not_lt grows)
    rw [same, ← isCut] at represents
    exact rest fs represents

theorem ftruncateCall_refused
    {p : Slot}
    {fd length : Int}
    (represents : kernel.fs.Represents vol none)
    (refers : vol.Refers ip inum)
    (inUse : (vol.node inum).type ≠ 0)
    (isOn : (ContentCall.ftruncate p fd length).IsOn kernel ip)
    (refused : kernel.mayTruncate (vol.node inum).type p fd length = false) :
    (ftruncateCall p fd length kernel).Ends Exhausted
      (fun result later =>
        result = -1 ∧
          ∃ after,
            Stores kernel vol inum (vol.node inum).bytes later after) := by
  have borrows := Volume.Borrows.refl represents.nonneg
  have unchanged :
      Stores kernel vol inum (vol.node inum).bytes kernel vol :=
    Stores.refl represents
  unfold ftruncateCall
  apply ends_get
  cases found : kernel.argfd p fd with
  | none =>
      exact ⟨rfl, vol, unchanged⟩
  | some pair =>
      obtain ⟨slot, f⟩ := pair
      obtain ⟨isInode, isIp⟩ := isOn slot f found
      dsimp only
      split
      · exact ⟨rfl, vol, unchanged⟩
      next passes =>
        have notFile : (vol.node inum).type ≠ T_FILE := by
          intro isFile
          apply passes
          unfold mayTruncate at refused
          rw [found, isFile] at refused
          dsimp only [Option.any_some] at refused
          rw [beq_self_eq_true, Bool.and_true, Bool.and_eq_false_iff] at refused
          rcases refused with notWritable | negative
          · exact Or.inr (Or.inl notWritable)
          · have negative := of_decide_eq_false negative
            exact Or.inr (Or.inr (Int.not_le.mp negative))
        apply ends_followIp isIp
        apply ends_onFs (FileSystem.ilock_represents represents refers inUse)
        intro _ fs representsLoaded
        have holds := refers.load
        have borrows := borrows.load ip
        generalize isLoaded :
          vol.setHandle ip { vol.handle ip with valid := true } = loaded at *
        have same : loaded.node = vol.node := by
          rw [← isLoaded]
          rfl
        apply ends_onFs_inodeAt
        dsimp only
        rw [(representsLoaded.inode holds).2.2.1, same, if_pos notFile]
        apply ends_onFs
        · exact FileSystem.iunlock_represents representsLoaded holds.refers
        rintro _ fs isFs
        rw [isFs]
        refine ⟨rfl, loaded, representsLoaded, ?_, borrows, rfl, ?_⟩
        · rw [same]
          exact congrArg Volume.node Volume.setNode_self.symm
        · exact fun g => ⟨(kernel.file g).off, rfl⟩

theorem contentCall_ends
    {call : ContentCall}
    (represents : kernel.fs.Represents vol none)
    (refers : vol.Refers ip inum)
    (inUse : (vol.node inum).type ≠ 0)
    (isOn : call.IsOn kernel ip)
    (within : call.Within) :
    (contentCall ip call kernel).Ends Exhausted
      (fun answer later =>
        Answers (kernel.mayTruncate (vol.node inum).type) call
            (vol.node inum).bytes answer ∧
          ∃ after,
            Stores kernel vol inum
              (bytesBehind (kernel.mayTruncate (vol.node inum).type) call
                (vol.node inum).bytes)
              later after) := by
  cases call with
  | writei source off =>
      obtain ⟨narrow, few⟩ := within
      apply ends_lockedInode represents refers inUse
      · intro fs loaded represents holds same
        exact writei_stores narrow few represents holds same
      · rintro result bytes later after ⟨isResult, isBytes⟩ stores
        rw [isBytes] at stores
        rw [isResult]
        exact ⟨rfl, after, stores⟩
  | readi target off n =>
      obtain ⟨narrow, few⟩ := within
      apply ends_lockedInode represents refers inUse
      · intro fs loaded represents holds same
        exact readi_stores narrow few represents holds same
      · rintro read bytes later after ⟨reads, isBytes⟩ stores
        obtain ⟨count, bound, whole, isRead⟩ := reads
        rw [isBytes] at stores
        rw [isRead]
        exact ⟨⟨count, bound, whole, rfl⟩, after, stores⟩
  | itrunc =>
      apply ends_lockedInode represents refers inUse
      · intro fs loaded represents holds same
        apply
          (FileSystem.itrunc_represents represents (Or.inl rfl) holds).mono
        rintro _ later represents
        rw [same] at represents
        exact ⟨[], rfl, represents⟩
      · rintro _ bytes later after isEmpty stores
        rw [← isEmpty] at stores
        exact ⟨rfl, after, stores⟩
  | ftruncate p fd length =>
      have within : length ≤ (MAXFILE * BSIZE : Nat) := within
      cases permitted :
          kernel.mayTruncate (vol.node inum).type p fd length with
      | false =>
          have notPermitted :
              ¬ kernel.mayTruncate (vol.node inum).type p fd length = true := by
            rw [permitted]
            decide
          apply ends_bind
            (ftruncateCall_refused represents refers inUse isOn permitted)
          rintro result later ⟨isMinusOne, after, stores⟩
          rw [isMinusOne]
          refine ⟨congrArg ContentAnswer.count (if_neg notPermitted).symm,
            after, ?_⟩
          rw [bytesBehind, if_neg notPermitted]
          exact stores
      | true =>
          obtain ⟨slot, f, found, writable, isFile, nonneg⟩ :=
            mayTruncate_iff.mp permitted
          obtain ⟨isInode, isIp⟩ := isOn slot f found
          apply ends_bind
            (ftruncateCall_stores represents refers within found isInode isIp
              writable nonneg isFile)
          rintro result later ⟨isZero, after, stores⟩
          rw [isZero]
          refine ⟨congrArg ContentAnswer.count (if_pos permitted).symm, after,
            ?_⟩
          rw [bytesBehind, if_pos permitted]
          exact stores

theorem contentCalls_store
    (calls : List ContentCall)
    (represents : kernel.fs.Represents vol none)
    (refers : vol.Refers ip inum)
    (inUse : (vol.node inum).type ≠ 0)
    (areOn : ∀ call ∈ calls, call.IsOn kernel ip)
    (within : ∀ call ∈ calls, call.Within) :
    (contentCalls ip calls kernel).Ends Exhausted
      (fun answers later =>
        AnswersAll (kernel.mayTruncate (vol.node inum).type) calls
            (vol.node inum).bytes answers ∧
          ∃ after,
            Stores kernel vol inum
              (bytesBehindAll (kernel.mayTruncate (vol.node inum).type) calls
                (vol.node inum).bytes)
              later after) := by
  induction calls generalizing kernel vol with
  | nil =>
      exact ⟨rfl, vol, Stores.refl represents⟩
  | cons call rest inductionHypothesis =>
      have isFirst : call ∈ call :: rest := List.mem_cons_self
      apply ends_bind
        (contentCall_ends represents refers inUse (areOn call isFirst)
          (within call isFirst))
      rintro answer middle ⟨isAnswer, inner, stores⟩
      have isNode := stores.bytes_eq
      have sameType : (inner.node inum).type = (vol.node inum).type := by
        rw [isNode]
      have sameCalls :
          middle.mayTruncate (inner.node inum).type =
            kernel.mayTruncate (vol.node inum).type := by
        rw [stores.mayTruncate_eq, sameType]
      have inUseNow : (inner.node inum).type ≠ 0 := by
        rw [sameType]
        exact inUse
      apply ends_bind
        (inductionHypothesis stores.represents (stores.borrows.refers refers)
          inUseNow
          (fun next isNext =>
            stores.isOn (areOn next (List.mem_cons_of_mem _ isNext)))
          (fun next isNext => within next (List.mem_cons_of_mem _ isNext)))
      rintro answers later ⟨areAnswers, after, storesRest⟩
      rw [sameCalls, isNode] at areAnswers storesRest
      exact ⟨⟨answer, answers, rfl, isAnswer, areAnswers⟩, after,
        stores.trans storesRest⟩

/--
An inode behaves as a mutable list of bytes under every sequence of calls on
its contents within the largest file, as long as there are free blocks: every
answer is the list's, behind the calls the inode's bytes are the list's, and no
other inode has changed.
-/
theorem contentCalls_areBytes
    (calls : List ContentCall)
    (represents : kernel.fs.Represents vol none)
    (refers : vol.Refers ip inum)
    (inUse : (vol.node inum).type ≠ 0)
    (areOn : ∀ call ∈ calls, call.IsOn kernel ip)
    (within : ∀ call ∈ calls, call.Within) :
    (contentCalls ip calls kernel).Ends Exhausted
      (fun answers later =>
        AnswersAll (kernel.mayTruncate (vol.node inum).type) calls
            (vol.node inum).bytes answers ∧
          ∃ after, later.fs.Represents after none ∧
            after.node inum =
              { vol.node inum with
                bytes :=
                  bytesBehindAll (kernel.mayTruncate (vol.node inum).type)
                    calls (vol.node inum).bytes } ∧
            ∀ other, other ≠ inum → after.node other = vol.node other) := by
  apply
    (contentCalls_store calls represents refers inUse areOn within).mono
  rintro answers later ⟨areAnswers, after, stores⟩
  refine ⟨areAnswers, after, stores.represents, stores.bytes_eq, ?_⟩
  intro other different
  rw [stores.node]
  exact Volume.setNode_node_of_ne _ different

/-!
## One file
-/

/-- A disk whose first inode is an empty file. -/
def oneFileNodes : List Node :=
  [⟨T_FILE, 1, []⟩]

theorem oneFileNodes_fits : Image.Fits oneFileNodes where
  count := by decide
  root := by decide
  type := by
    intro node member
    rw [List.mem_singleton.mp member]
    decide
  nlink := by
    intro node member
    rw [List.mem_singleton.mp member]
    decide
  short := by
    intro node member
    rw [List.mem_singleton.mp member]
    exact Nat.zero_le _

/-- The file is open, for reading and writing. -/
def oneFile : FileKernel :=
  { bootKernel (Image.fileSystem oneFileNodes) none with
    file := fun f =>
      if f.val = 0 then
        ⟨.inode, 1, true, true, some Image.rootSlot, 0⟩
      else
        unusedFile
    ofile := fun p fd =>
      if p.val = 0 ∧ fd.val = 0 then some firstFile else none }

/-- A write behind the end, a cut and a filling up -/
example :
    bytesBehindAll (oneFile.mayTruncate T_FILE)
        [.writei [7, 8, 9] 2, .ftruncate firstSlot 0 4,
          .ftruncate firstSlot 0 6] [] =
      [0, 0, 7, 8, 0, 0] := by
  decide

/-- The file is filled up through its descriptor. -/
def oneFileCalls : List ContentCall :=
  [.ftruncate firstSlot 0 6]

theorem oneFileCalls_areOn :
    ∀ call ∈ oneFileCalls, call.IsOn oneFile Image.rootSlot := by
  have opens :
      ∀ slot f, oneFile.argfd firstSlot 0 = some (slot, f) →
        (oneFile.file f).type = .inode ∧
          (oneFile.file f).ip = some Image.rootSlot := by
    intro slot f found
    cases found
    exact ⟨rfl, rfl⟩
  intro call member
  rw [List.mem_singleton.mp member]
  exact opens

theorem oneFileCalls_within : ∀ call ∈ oneFileCalls, call.Within := by
  have isLargest : MAXFILE * BSIZE = 67382272 := by
    decide
  intro call member
  rw [List.mem_singleton.mp member]
  unfold ContentCall.Within
  dsimp only
  rw [isLargest]
  decide

/-- The calls on the file of the first process. -/
theorem contentCalls_areBytes_oneFile :
    (contentCalls Image.rootSlot oneFileCalls oneFile).Ends Exhausted
      (fun answers later =>
        AnswersAll (oneFile.mayTruncate T_FILE) oneFileCalls [] answers ∧
          ∃ after, later.fs.Represents after none ∧
            after.node ROOTINO =
              ⟨T_FILE, 1,
                bytesBehindAll (oneFile.mayTruncate T_FILE) oneFileCalls
                  []⟩ ∧
            ∀ other, other ≠ ROOTINO →
              after.node other = (Image.volume oneFileNodes).node other) := by
  have represents :
      oneFile.fs.Represents (Image.volume oneFileNodes) none :=
    Image.represents oneFileNodes_fits
  have isNode :
      (Image.volume oneFileNodes).node ROOTINO = ⟨T_FILE, 1, []⟩ :=
    rfl
  have refers :
      (Image.volume oneFileNodes).Refers Image.rootSlot ROOTINO :=
    ⟨rfl, one_pos⟩
  have inUse : ((Image.volume oneFileNodes).node ROOTINO).type ≠ 0 := by
    rw [isNode]
    decide
  have ends :=
    contentCalls_areBytes oneFileCalls represents refers inUse
      oneFileCalls_areOn oneFileCalls_within
  rw [isNode] at ends
  exact ends

end FileKernel

end MyOS
