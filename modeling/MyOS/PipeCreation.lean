import MyOS.InodeLayer
import MyOS.KallocModel
import MyOS.FileTable

namespace MyOS

open Lib
open Routine

/-!
# Creating a pipe

`sys_pipe` with everything that it takes: a page, two slots of the file table
and two descriptors.  The page of a pipe begins with the word of its lock, and a
free page with the address of the next one.
-/

/-- The flags at the end of `struct pipe`. -/
structure PipePage where
  readopen : Nat
  writeopen : Nat
  deriving Repr, DecidableEq

/-- `struct file`, without what belongs to inodes. -/
structure PipeFile where
  type : FileType
  ref : Int
  readable : Bool
  writable : Bool
  pipe : Nat
  deriving Repr, DecidableEq

/-- What is done to a page, as proofs alone look at it. -/
inductive PageUse where
  | freed (page : Nat)
  | touched (page : Nat)
  deriving Repr, DecidableEq

/-- Why a call does not return. -/
inductive PipeStop where
  /-- A lock is waited for whose holder will never run. -/
  | spins
  | kfree
  | fileclose
  | walk
  /-- `iput`, of a file that has never been filled in -/
  | inode
  deriving Repr, DecidableEq

/-- The pages, the file table and the descriptors. -/
structure PipeSystem where
  memory : PageMemory
  pipes : Nat → PipePage
  file : FileSlot → PipeFile
  ofile : Slot → Descriptor → Option FileSlot
  uses : List PageUse

/-- A routine on pipes. -/
abbrev PipeCode (Result : Type) : Type :=
  Routine PipeStop PipeSystem Result

namespace PipeSystem

/-- Something is done to a page. -/
def withUse (use : PageUse) (s : PipeSystem) : PipeSystem :=
  { s with uses := s.uses ++ [use] }

/-- Change a slot of the file table. -/
def setFile (f : FileSlot) (file : PipeFile) (s : PipeSystem) : PipeSystem :=
  { s with file := Function.update s.file f file }

/-- Change an entry of a process's descriptor table. -/
def setOfile
    (p : Slot)
    (fd : Descriptor)
    (f : Option FileSlot)
    (s : PipeSystem) : PipeSystem :=
  { s with
    ofile := Function.update s.ofile p (Function.update (s.ofile p) fd f) }

/-- The first doubleword of a page with another lower half, `lock.locked`. -/
def setLocked (pi locked : Nat) (s : PipeSystem) : PipeSystem :=
  { s with
    memory := { s.memory with
      next :=
        Function.update s.memory.next pi
          (s.memory.next pi / uintModulus * uintModulus + locked) } }

/-- `lock.locked` -/
def locked (pi : Nat) (s : PipeSystem) : Nat :=
  s.memory.next pi % uintModulus

/-- `kalloc` -/
def kallocPage : PipeCode Nat := do
  let s ← Routine.get
  Routine.modify fun s => { s with memory := (MyOS.kalloc s.memory).2 }
  return (MyOS.kalloc s.memory).1

/-- `kfree` -/
def kfreePage (image : KernelImage) (pa : Nat) : PipeCode Unit := do
  let s ← Routine.get
  match MyOS.kfree image s.memory pa with
  | none => Routine.fault .kfree
  | some memory =>
      Routine.modify fun s => ({ s with memory := memory }).withUse (.freed pa)

/-- The first slot without references. -/
def freeFile? (s : PipeSystem) : Option FileSlot :=
  fileSlots.find? fun f => (s.file f).ref == 0

/-- The first descriptor that is not in use. -/
def freeDescriptor? (s : PipeSystem) (p : Slot) : Option Descriptor :=
  descriptors.find? fun fd => s.ofile p fd == none

/-- `filealloc` -/
def filealloc : PipeCode (Option FileSlot) := do
  let s ← Routine.get
  match s.freeFile? with
  | none => return none
  | some f =>
      Routine.modify fun s => s.setFile f { s.file f with ref := 1 }
      return some f

/-- `fdalloc` -/
def fdalloc (p : Slot) (f : FileSlot) : PipeCode (Option Descriptor) := do
  let s ← Routine.get
  match s.freeDescriptor? p with
  | none => return none
  | some fd =>
      Routine.modify (setOfile p fd (some f))
      return some fd

/-- `acquire(&pi->lock)`; nobody else runs while it is waited for. -/
def acquire (pi : Nat) : PipeCode Unit := do
  let s ← Routine.get
  if s.locked pi ≠ 0 then
    Routine.fault .spins
  else
    Routine.modify fun s => (s.setLocked pi 1).withUse (.touched pi)

/-- `release(&pi->lock)` -/
def release (pi : Nat) : PipeCode Unit :=
  Routine.modify fun s => (s.setLocked pi 0).withUse (.touched pi)

/-- The end of a pipe is closed. -/
def closeEnd (writable : Bool) (page : PipePage) : PipePage :=
  if writable then
    { page with writeopen := 0 }
  else
    { page with readopen := 0 }

/-- `pipeclose` -/
def pipeclose (image : KernelImage) (pi : Nat) (writable : Bool) :
    PipeCode Unit := do
  acquire pi
  Routine.modify fun s =>
    { s with
      pipes := Function.update s.pipes pi (closeEnd writable (s.pipes pi)) }
  let s ← Routine.get
  release pi
  if (s.pipes pi).readopen = 0 ∧ (s.pipes pi).writeopen = 0 then
    kfreePage image pi

/-- What `fileclose` gives back with the last reference. -/
def closeLast (image : KernelImage) (copy : PipeFile) : PipeCode Unit :=
  match copy.type with
  | .inode => Routine.fault .inode
  | .pipe => pipeclose image copy.pipe copy.writable
  | .console => pure ()
  | .none => pure ()

/-- `fileclose` -/
def fileclose (image : KernelImage) (f : FileSlot) : PipeCode Unit := do
  let s ← Routine.get
  let copy := s.file f
  if copy.ref < 1 then
    Routine.fault .fileclose
  else do
    Routine.modify (setFile f { copy with ref := copy.ref - 1 })
    if copy.ref - 1 = 0 then
      closeLast image copy
      Routine.modify fun s => s.setFile f { s.file f with type := .none }

/-- `initlock` and the fields of a new pipe. -/
def initPipe (pi : Nat) : PipeCode Unit :=
  Routine.modify fun s =>
    ({ s.setLocked pi 0 with
      pipes := Function.update s.pipes pi ⟨1, 1⟩ }).withUse (.touched pi)

/-- A file of `sys_pipe` is filled in. -/
def fillPipe (f : FileSlot) (pi : Nat) (writable : Bool) : PipeCode Unit :=
  Routine.modify fun s =>
    s.setFile f
      { s.file f with
        type := .pipe
        readable := !writable
        writable := writable
        pipe := pi }

/-- The loop that stores the descriptors; whether it comes to its end.
`mapped` says where `walk` finds an entry that is valid. -/
def storeFds (mapped : Nat → Bool) : Nat → Nat → PipeCode Bool
  | 0, _ => pure true
  | left + 1, va =>
      if MAXVA ≤ pgRoundDown va then
        Routine.fault .walk
      else if mapped (pgRoundDown va) then
        storeFds mapped left ((va + 1) % 0x10000000000000000)
      else
        pure false

/-- A file of a failed `sys_pipe` is given back. -/
def giveBack
    (image : KernelImage)
    (p : Slot)
    (f : Option FileSlot)
    (fd : Option Descriptor) : PipeCode Unit :=
  match f with
  | none => pure ()
  | some f => do
      match fd with
      | none => fileclose image f
      | some fd => do
          Routine.modify (setOfile p fd none)
          fileclose image f

/-- `bad:` -/
def bad
    (image : KernelImage)
    (p : Slot)
    (pi : Nat)
    (rf wf : Option FileSlot)
    (fd0 fd1 : Option Descriptor) : PipeCode Int := do
  kfreePage image pi
  giveBack image p rf fd0
  giveBack image p wf fd1
  return -1

/-- `sys_pipe` once it has its files. -/
def pipeDescriptors
    (image : KernelImage)
    (mapped : Nat → Bool)
    (p : Slot)
    (fdarray pi : Nat)
    (rf wf : FileSlot) : PipeCode Int := do
  fillPipe rf pi false
  fillPipe wf pi true
  match ← fdalloc p rf with
  | none => bad image p pi (some rf) (some wf) none none
  | some fd0 =>
      match ← fdalloc p wf with
      | none => bad image p pi (some rf) (some wf) (some fd0) none
      | some fd1 =>
          match ← storeFds mapped 8 fdarray with
          | true => return 0
          | false => bad image p pi (some rf) (some wf) (some fd0) (some fd1)

/-- `sys_pipe` once it has its page. -/
def pipeFiles
    (image : KernelImage)
    (mapped : Nat → Bool)
    (p : Slot)
    (fdarray pi : Nat) : PipeCode Int := do
  match ← filealloc with
  | none => bad image p pi none none none none
  | some rf =>
      match ← filealloc with
      | none => bad image p pi (some rf) none none none
      | some wf => pipeDescriptors image mapped p fdarray pi rf wf

/-- `sys_pipe` -/
def sysPipe
    (image : KernelImage)
    (mapped : Nat → Bool)
    (p : Slot)
    (fdarray : Nat) : PipeCode Int := do
  let pi ← kallocPage
  if pi = 0 then
    return -1
  else do
    initPipe pi
    pipeFiles image mapped p fdarray pi

/-!
## What failing must leave behind
-/

/-- No page is written to once it has been freed. -/
def UntouchedOnceFreed (uses : List PageUse) : Prop :=
  ∀ before after page,
    uses = before ++ .freed page :: after → .touched page ∉ after

/-- A page that is taken is given back, once. -/
def FreedOnce (uses : List PageUse) : Prop :=
  ∀ page, .touched page ∈ uses → uses.count (.freed page) = 1

/-- The state after a call is as before in everything that counts. -/
structure AsBefore (pages : List Nat) (s later : PipeSystem) : Prop where
  ofile : later.ofile = s.ofile
  ref : ∀ f, (later.file f).ref = (s.file f).ref
  file : ∀ f, (s.file f).ref ≠ 0 → later.file f = s.file f
  pipes : ∀ page, page ∉ pages → later.pipes page = s.pipes page
  next : ∀ page, page ∉ pages → later.memory.next page = s.memory.next page
  free : ∃ left, later.memory.FreeList left ∧ left.Perm pages
  untouched : UntouchedOnceFreed later.uses
  freedOnce : FreedOnce later.uses

/-- What holds between system calls, with the free pages in their order: a slot
of the file table that is not in use has never been filled in, or `fileclose`
has cleared it. -/
structure Sound (image : KernelImage) (pages : List Nat) (s : PipeSystem) :
    Prop where
  freeList : s.memory.FreeList pages
  valid : ∀ page ∈ pages, image.validPage page
  cleared : ∀ f, (s.file f).ref = 0 → (s.file f).type = .none
  uses : s.uses = []

/-- There are two free slots in the file table. -/
def TwoFiles (s : PipeSystem) : Prop :=
  ∃ f g, f ≠ g ∧ (s.file f).ref = 0 ∧ (s.file g).ref = 0

/-- There are two free descriptors. -/
def TwoDescriptors (p : Slot) (s : PipeSystem) : Prop :=
  ∃ fd other, fd ≠ other ∧ s.ofile p fd = none ∧ s.ofile p other = none

/-- Of the bytes of the array, one is not mapped, and no address that is looked
up before it is out of range. -/
def Unstorable (mapped : Nat → Bool) (va : Nat) : Nat → Prop
  | 0 => False
  | left + 1 =>
      pgRoundDown va < MAXVA ∧
        (mapped (pgRoundDown va) = true →
          Unstorable mapped ((va + 1) % 0x10000000000000000) left)

end PipeSystem

end MyOS
