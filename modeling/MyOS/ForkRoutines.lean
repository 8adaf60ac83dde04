import MyOS.PageTable
import MyOS.PageRoutines
import MyOS.ProcTable

namespace MyOS

/-!
# `sys_fork`

`allocproc` and `sys_fork` on the process table, the page store, and the
reference counts of open files and in-core inodes.  The caller is not
interrupted.
-/

/-- The fields of `struct proc` that `allocproc` and `sys_fork` use. -/
structure ForkProc where
  status : TaskStatus
  pid : BitVec 32
  pagetable : Word
  trapframe : Word
  kstack : Word
  sz : Word
  parent : Option Slot
  xstate : BitVec 32
  chan : Option Channel
  killed : Bool
  ofile : Nat → Option Nat
  cwd : Option Nat
  cwd_path : List UInt8

/-- The processes, the counts that they share, and the pages. -/
structure ForkKernel where
  proc : Slot → ForkProc
  nextpid : BitVec 32
  fileRef : Nat → Int
  inodeRef : Nat → Int
  userret : Word
  uservec : Word
  end_address : Word
  store : PageStore

/-- What `sys_fork` comes to: a panic, -1, or the child and its number. -/
inductive ForkResult where
  | panic
  | refused (k : ForkKernel)
  | forked (np : Slot) (k : ForkKernel)

/-- `sizeof(struct trapframe)` -/
def trapframeSize : Nat := 552

/-- The offset of `a0` in `struct trapframe` -/
def trapframeA0 : Word := 112

/-- `*np->trapframe = *p->trapframe; np->trapframe->a0 = 0;` -/
def PageStore.copyTrapframe
    (store : PageStore)
    (dst src : Word) : PageStore :=
  { store with
    load := fun address =>
      if address = dst + trapframeA0 then 0
      else if (address - dst).toNat < trapframeSize then
        store.load (src + (address - dst))
      else store.load address }

namespace ForkKernel

/-- Change one slot of the process table. -/
def setProc (k : ForkKernel) (slot : Slot) (proc : ForkProc) : ForkKernel :=
  { k with proc := Function.update k.proc slot proc }

/-- The pages that `proc_pagetable` maps for a process. -/
def pagesOf (k : ForkKernel) (slot : Slot) : KernelPages where
  userret := k.userret
  uservec := k.uservec
  trapframe := (k.proc slot).trapframe

/-- The first free slot of the process table. -/
def freeSlot (k : ForkKernel) : Option Slot :=
  (List.finRange NPROC).find? fun slot => (k.proc slot).status = .free

/-- What `allocproc` makes of a slot. -/
def allocated
    (k : ForkKernel)
    (np : Slot)
    (status : TaskStatus)
    (trapframe : Word) : ForkProc :=
  { k.proc np with
    status := status
    pid := k.nextpid
    killed := false
    xstate := 0
    chan := none
    parent := none
    sz := 0
    trapframe := trapframe }

/-- `allocproc()` -/
def allocproc (k : ForkKernel) : Option Slot × ForkKernel :=
  match k.freeSlot with
  | none => (none, k)
  | some np =>
      match k.store.kalloc with
      | (none, store) =>
          (none,
            { k with nextpid := k.nextpid + 1, store := store }.setProc np
              (k.allocated np .free 0))
      | (some page, store) =>
          (some np,
            { k with nextpid := k.nextpid + 1, store := store }.setProc np
              (k.allocated np .allocated page))

/-- The reference counts after `filedup` of some descriptors. -/
def filedups (ofile : Nat → Option Nat) (ref : Nat → Int) :
    List Nat → Nat → Int
  | [] => ref
  | fd :: rest =>
      match ofile fd with
      | none => filedups ofile ref rest
      | some f => filedups ofile (Function.update ref f (ref f + 1)) rest

/-- `idup` of the current directory, if there is one -/
def idups (cwd : Option Nat) (ref : Nat → Int) : Nat → Int :=
  match cwd with
  | none => ref
  | some ip => Function.update ref ip (ref ip + 1)

/-- The end of `sys_fork`, from the copy of the descriptors. -/
def publish (k : ForkKernel) (p np : Slot) : ForkKernel :=
  { k with
    fileRef := filedups (k.proc p).ofile k.fileRef (List.range NOFILE)
    inodeRef := idups (k.proc p).cwd k.inodeRef }.setProc np
      { k.proc np with
        status := .ready
        sz := (k.proc p).sz
        ofile := fun fd =>
          if fd < NOFILE ∧ (k.proc p).ofile fd ≠ none then
            (k.proc p).ofile fd
          else
            (k.proc np).ofile fd
        parent := some p
        cwd := (k.proc p).cwd.or (k.proc np).cwd
        cwd_path :=
          if (k.proc p).cwd_path = [] then [0x2F]
          else (k.proc p).cwd_path.take (MAXPATH - 1) }

/-- `sys_fork` where it gives the slot and the trapframe back. -/
def giveBack (k : ForkKernel) (np : Slot) : ForkResult :=
  match k.store.kfree k.end_address (k.proc np).trapframe with
  | none => .panic
  | some store =>
      .refused ({ k with store := store }.setProc np
        { k.proc np with status := .free })

/-- `sys_fork` from the copy of the trapframe on. -/
def copyProcess
    (k : ForkKernel)
    (p np : Slot)
    (pagetable : Word) : ForkResult :=
  match (k.store.copyTrapframe (k.proc np).trapframe
      (k.proc p).trapframe).uvmcopy k.end_address (k.proc p).pagetable
        pagetable (k.proc p).sz with
  | none => .panic
  | some (result, store) =>
      let k := { k with store := store }.setProc np
        { k.proc np with pagetable := pagetable }
      if result < 0 then
        .refused k
      else
        .forked np (k.publish p np)

/-- `sys_fork` from `proc_pagetable(np)` on. -/
def makeTable (k : ForkKernel) (p np : Slot) : ForkResult :=
  match procPagetable (k.pagesOf np) k.store with
  | .error _ => .panic
  | .ok (none, store) =>
      match store.kfree k.end_address (k.proc np).kstack with
      | none => .panic
      | some store =>
          { k with store := store }.setProc np
            { k.proc np with pagetable := 0 } |>.giveBack np
  | .ok (some pagetable, store) =>
      { k with store := store }.copyProcess p np pagetable

/-- `sys_fork()`, called by a process. -/
def sysFork (k : ForkKernel) (p : Slot) : ForkResult :=
  match k.allocproc with
  | (none, k) => .refused k
  | (some np, k) =>
      match k.store.kalloc with
      | (none, store) =>
          { k with store := store }.setProc np
            { k.proc np with kstack := 0 } |>.giveBack np
      | (some kstack, store) =>
          { k with store := store }.setProc np
            { k.proc np with kstack := kstack } |>.makeTable p np

end ForkKernel

end MyOS
