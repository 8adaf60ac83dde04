import MyOS.ForkCopy
import MyOS.ForkRoutines
import MyOS.Sbrk

namespace MyOS

open Lib
open PageStore

/-!
# `fork` clones an address space, or changes nothing

Which of the two, and when neither, is decided by the pages below the break and
by the free pages: the table of the child begins with pages of the kernel, and
the failure of `uvmcopy` gives nothing back.
-/

theorem fills_copyTrapframe
    {src : Word} :
    Fills fun mem store => store.copyTrapframe mem src := by
  intro mem store isPage
  refine ⟨rfl, ?_⟩
  intro frame elsewhere
  have different : PGROUNDDOWN (frameAddress frame) ≠ mem := by
    rw [pgrounddown_frameAddress]
    exact elsewhere
  funext index
  have bound := index.isLt
  have frameBound := frame.isLt
  have place := toNat_entryAddress frame index
  have start := congrArg BitVec.toNat isPage
  rw [toNat_pgrounddown] at start
  have apart : (frameAddress frame).toNat ≠ mem.toNat :=
    fun same => elsewhere (BitVec.eq_of_toNat_eq same)
  rw [toNat_frameAddress] at apart
  have size : trapframeSize = 552 := rfl
  have outside : ¬ (entryAddress frame index - mem).toNat < trapframeSize := by
    rw [BitVec.toNat_sub, place, size]
    omega
  have notA0 : entryAddress frame index ≠ mem + trapframeA0 := by
    intro same
    apply outside
    have isA0 : trapframeA0.toNat = 112 := rfl
    rw [same, BitVec.toNat_sub, BitVec.toNat_add, isA0, size]
    omega
  unfold entries copyTrapframe
  dsimp only
  rw [if_neg notA0, if_neg outside]

namespace ForkKernel

variable {k later : ForkKernel} {p np : Slot} {old : Frame}

/-- The memory of a process -/
def memory (k : ForkKernel) (p : Slot) : ProcMemory where
  sz := (k.proc p).sz
  pagetable := (k.proc p).pagetable
  store := k.store

/-- The pages of the kernel's text that every process maps. -/
structure Text (end_address userret uservec : Word) : Prop where
  userretLow : userret.toNat < MAXVA
  uservecLow : uservec.toNat < MAXVA
  near :
    tablePath (PGROUNDDOWN uservec) = tablePath (PGROUNDDOWN userret)
  userretBelow : PGROUNDDOWN userret < end_address
  uservecBelow : PGROUNDDOWN uservec < end_address

/-- A process that calls `fork`. -/
structure Forkable (k : ForkKernel) (p : Slot) (old : Frame) : Prop where
  space : (k.memory p).Space k.end_address old
  text : Text k.end_address k.userret k.uservec
  inUse : (k.proc p).status ≠ .free

/-- Nothing has changed but the next number and a slot that is free. -/
structure AsBefore (k later : ForkKernel) : Prop where
  status :
    ∀ slot, (later.proc slot).status = .free ↔ (k.proc slot).status = .free
  proc :
    ∀ slot, (k.proc slot).status ≠ .free → later.proc slot = k.proc slot
  free : ∀ page, page ∈ later.store.free ↔ page ∈ k.store.free
  pages :
    ∀ frame, frameAddress frame ∉ k.store.free →
      later.store.entries frame = k.store.entries frame
  fileRef : later.fileRef = k.fileRef
  inodeRef : later.inodeRef = k.inodeRef

/-- The pages that the table of the child begins with. -/
def childPages (k : ForkKernel) : KernelPages where
  userret := k.userret
  uservec := k.uservec
  trapframe := k.store.free.headD 0

/-- The addresses of the mapped pages of a process. -/
def mappedPages (k : ForkKernel) (p : Slot) (old : Frame) : List Word :=
  k.store.mappedFrom old (copyTurns (k.proc p).sz) 0

/--
What becomes of the table of the child, with the pages that are left once the
child has its trapframe and its stack.
-/
def forkOutline (k : ForkKernel) (p : Slot) (old : Frame) : Outlined :=
  if k.store.free.length - 2 < 1 + k.childPages.need then
    .bad
  else
    (Outline.ofKernel k.childPages (k.store.free.length - 2)).placeAll
      (k.mappedPages p old)

theorem freeSlot_free
    (isFree : k.freeSlot = some np) :
    (k.proc np).status = .free := by
  have found := List.find?_some isFree
  exact of_decide_eq_true found

theorem Forkable.slot_ne
    (forkable : k.Forkable p old)
    (isFree : k.freeSlot = some np) :
    p ≠ np := by
  intro same
  apply forkable.inUse
  rw [same]
  exact freeSlot_free isFree

theorem Forkable.supplies
    {rest : List Word}
    {trapframe kstack : Word}
    {store : PageStore}
    (forkable : k.Forkable p old)
    (isFree : k.store.free = trapframe :: kstack :: rest)
    (isRest : store.free = rest) :
    Supplies k.end_address k.childPages store := by
  have table : k.store.HoldsTable old := forkable.space.maps.table
  have isTrapframe : k.childPages.trapframe = trapframe := by
    unfold childPages
    rw [isFree]
    rfl
  have trapframeFree : trapframe ∈ k.store.free := by
    rw [isFree]
    exact List.mem_cons_self
  have restFree : ∀ page ∈ store.free, page ∈ k.store.free := by
    intro page isIn
    rw [isFree]
    rw [isRest] at isIn
    exact List.mem_cons_of_mem _ (List.mem_cons_of_mem _ isIn)
  have distinct := table.distinct
  rw [isFree, List.nodup_cons, List.nodup_cons] at distinct
  have isPage : PGROUNDDOWN trapframe = trapframe :=
    table.aligned trapframe trapframeFree
  have freeable := forkable.space.freeable trapframe trapframeFree
  have notFree (page : Word) (below : page < k.end_address) :
      page ∉ k.store.free := by
    intro isIn
    exact forkable.space.freeable page isIn (Or.inr (Or.inl below))
  have apart (text : Word) (below : PGROUNDDOWN text < k.end_address) :
      pageOf k.childPages.trapframe ≠ pageOf text := by
    intro same
    rw [isTrapframe] at same
    apply notFree (PGROUNDDOWN text) below
    rw [← frameAddress_pageOf, ← same, frameAddress_pageOf, isPage]
    exact trapframeFree
  refine ⟨⟨forkable.text.userretLow, forkable.text.uservecLow, ?_,
    forkable.text.near, apart _ forkable.text.userretBelow,
    apart _ forkable.text.uservecBelow⟩, ?_, ?_, ?_, ?_⟩
  · have isMax : MAXVA = 274877906944 := rfl
    have isStop : PHYSTOP = 2281701376 := rfl
    obtain ⟨_, inside⟩ := not_or.mp freeable
    have below := Nat.lt_of_not_le (not_or.mp inside).2
    rw [isTrapframe]
    omega
  · intro entry isIn isFreeNow
    rcases List.mem_cons.mp isIn with isFrame | isText
    · rw [isFrame] at isFreeNow
      unfold KernelPages.trapframePage at isFreeNow
      dsimp only at isFreeNow
      rw [isTrapframe, isPage, isRest] at isFreeNow
      exact distinct.1 (List.mem_cons_of_mem _ isFreeNow)
    · rcases List.mem_cons.mp isText with isVec | isLast
      · rw [isVec] at isFreeNow
        exact notFree _ forkable.text.uservecBelow (restFree _ isFreeNow)
      · rw [List.mem_singleton.mp isLast] at isFreeNow
        exact notFree _ forkable.text.userretBelow (restFree _ isFreeNow)
  · rw [isRest]
    exact distinct.2.2
  · exact fun page isIn => table.aligned page (restFree page isIn)
  · exact fun page isIn => forkable.space.freeable page (restFree page isIn)

/-! ## What `sys_fork` comes to -/

/-- What `sys_fork` comes to, by its free slots and its outline. -/
inductive Forks (k : ForkKernel) (p : Slot) (old : Frame) :
    ForkResult → Prop
  | asBefore
      {later : ForkKernel}
      (early : k.freeSlot = none ∨ k.store.free.length ≤ 2)
      (same : AsBefore k later) :
      Forks k p old (.refused later)
  | leaks
      {later : ForkKernel}
      (slot : k.freeSlot ≠ none)
      (some : 2 < k.store.free.length)
      (isBad : k.forkOutline p old = .bad)
      (leaks : ¬ AsBefore k later) :
      Forks k p old (.refused later)
  | panic
      (slot : k.freeSlot ≠ none)
      (some : 2 < k.store.free.length)
      (isPanic : k.forkOutline p old = .panic) :
      Forks k p old .panic
  | forked
      {np : Slot}
      {later : ForkKernel}
      {first : PageStore}
      {new : Frame}
      {outline : Outline}
      {frames : List Frame}
      (isFree : k.freeSlot = some np)
      (some : 2 < k.store.free.length)
      (isDone : k.forkOutline p old = .done outline)
      (made : k.store.NewTable first new)
      (outlines :
        Outlines k.end_address new first
          (Outline.ofKernel k.childPages (k.store.free.length - 2)))
      (laid :
        Laid new first
          ((k.mappedPages p old).map (k.store.copyItem old)) frames
          later.store)
      (memory :
        (later.proc np).sz = (k.proc p).sz ∧
          (later.proc np).pagetable = frameAddress new) :
      Forks k p old (.forked np later)

theorem kalloc_cons
    {store : PageStore}
    {page : Word}
    {rest : List Word}
    (isFree : store.free = page :: rest) :
    store.kalloc = (some page, store.taking rest) := by
  unfold PageStore.kalloc
  rw [isFree]
  rfl

theorem kalloc_nil
    {store : PageStore}
    (isFree : store.free = []) :
    store.kalloc = (none, store) := by
  unfold PageStore.kalloc
  rw [isFree]

/-- The slot of the child has been given back, and pages with it. -/
structure GivesBack
    (k : ForkKernel)
    (np : Slot)
    (pages : List Word)
    (later : ForkKernel) : Prop where
  proc :
    ∃ child : ForkProc, child.status = .free ∧
      later.proc = Function.update k.proc np child
  free : later.store.free = pages ++ k.store.free
  pages :
    ∀ frame, frameAddress frame ∉ pages →
      later.store.entries frame = k.store.entries frame
  fileRef : later.fileRef = k.fileRef
  inodeRef : later.inodeRef = k.inodeRef

/-- The kernel while `sys_fork` holds a slot and pages for the child. -/
def holding
    (k : ForkKernel)
    (np : Slot)
    (child : ForkProc)
    (store : PageStore) : ForkKernel :=
  { k with
    proc := Function.update k.proc np child
    nextpid := k.nextpid + 1
    store := store }

theorem GivesBack.asBefore
    {pages : List Word}
    {child : ForkProc}
    {store : PageStore}
    (gives : GivesBack (k.holding np child store) np pages later)
    (isSlot : k.freeSlot = some np)
    (free : ∀ page, page ∈ pages ++ store.free ↔ page ∈ k.store.free)
    (entries :
      ∀ frame, frameAddress frame ∉ k.store.free →
        store.entries frame = k.store.entries frame) :
    AsBefore k later := by
  have slotFree := freeSlot_free isSlot
  obtain ⟨last, isLastFree, lastProc⟩ := gives.proc
  have isUpdate : later.proc = Function.update k.proc np last :=
    lastProc.trans (Function.update_idem ..)
  refine ⟨?_, ?_, ?_, ?_, gives.fileRef, gives.inodeRef⟩
  · intro slot
    rw [isUpdate]
    by_cases same : slot = np
    · rw [same, Function.update_self]
      exact ⟨fun _ => slotFree, fun _ => isLastFree⟩
    · rw [Function.update_of_ne same]
  · intro slot used
    have different : slot ≠ np := by
      intro same
      rw [same] at used
      exact used slotFree
    rw [isUpdate, Function.update_of_ne different]
  · intro page
    rw [gives.free]
    exact free page
  · intro frame notFree
    have isNew : frameAddress frame ∉ pages := by
      intro isIn
      exact notFree ((free _).mp (List.mem_append_left _ isIn))
    exact (gives.pages frame isNew).trans (entries frame notFree)

theorem giveBack_spec
    (k : ForkKernel)
    (np : Slot)
    (freeable : Freeable k.end_address (k.proc np).trapframe)
    (isPage :
      PGROUNDDOWN (k.proc np).trapframe = (k.proc np).trapframe) :
    ∃ later, k.giveBack np = .refused later ∧
      GivesBack k np [(k.proc np).trapframe] later := by
  obtain ⟨store, isDone⟩ :=
    kfree_of_freeable freeable
  obtain ⟨_, free, entries⟩ := kfree_some isDone
  unfold giveBack
  rw [isDone]
  refine ⟨_, rfl, ⟨_, rfl, rfl⟩, free, ?_, rfl, rfl⟩
  intro frame elsewhere
  apply entries
  rw [isPage]
  exact fun same => elsewhere (List.mem_singleton.mpr same)

/-- The child when it has its trapframe and its stack. -/
def stacked
    (k : ForkKernel)
    (np : Slot)
    (trapframe kstack : Word) : ForkProc :=
  { k.allocated np .allocated trapframe with kstack := kstack }

variable {trapframe kstack : Word} {rest : List Word}

theorem sysFork_stacked
    (isSlot : k.freeSlot = some np)
    (isFree : k.store.free = trapframe :: kstack :: rest) :
    k.sysFork p =
      (k.holding np (k.stacked np trapframe kstack)
        (k.store.taking rest)).makeTable p np := by
  have second :
      (k.store.taking (kstack :: rest)).kalloc =
        (some kstack, (k.store.taking (kstack :: rest)).taking rest) :=
    kalloc_cons rfl
  unfold sysFork allocproc
  rw [isSlot]
  dsimp only
  rw [kalloc_cons isFree]
  dsimp only [setProc]
  rw [second]
  dsimp only
  rw [Function.update_idem, Function.update_self]
  rfl

theorem AsBefore.refl : AsBefore k k where
  status := fun _ => Iff.rfl
  proc := fun _ _ => rfl
  free := fun _ => Iff.rfl
  pages := fun _ _ => rfl
  fileRef := rfl
  inodeRef := rfl

theorem sysFork_noTrapframe
    (isSlot : k.freeSlot = some np)
    (isFree : k.store.free = []) :
    ∃ later, k.sysFork p = .refused later ∧ AsBefore k later := by
  unfold sysFork allocproc
  rw [isSlot]
  dsimp only
  rw [kalloc_nil isFree]
  refine ⟨_, rfl, ?_⟩
  have gives :
      GivesBack (k.holding np (k.allocated np .free 0) k.store) np []
        (k.holding np (k.allocated np .free 0) k.store) :=
    ⟨⟨_, rfl, (Function.update_idem ..).symm⟩, rfl, fun _ _ => rfl, rfl, rfl⟩
  exact gives.asBefore isSlot (fun _ => Iff.rfl) (fun _ _ => rfl)

theorem sysFork_noStack
    (forkable : k.Forkable p old)
    (isSlot : k.freeSlot = some np)
    (isFree : k.store.free = [trapframe]) :
    ∃ later, k.sysFork p = .refused later ∧ AsBefore k later := by
  have table : k.store.HoldsTable old := forkable.space.maps.table
  have isIn : trapframe ∈ k.store.free := by
    rw [isFree]
    exact List.mem_cons_self
  have noMore : (k.store.taking []).kalloc = (none, k.store.taking []) :=
    kalloc_nil rfl
  have isChild :
      (k.holding np (k.stacked np trapframe 0) (k.store.taking [])).proc np =
        k.stacked np trapframe 0 :=
    Function.update_self ..
  have gives :=
    giveBack_spec
      (k.holding np (k.stacked np trapframe 0) (k.store.taking [])) np
  rw [isChild] at gives
  obtain ⟨later, isRefused, givesBack⟩ :=
    gives (forkable.space.freeable trapframe isIn)
      (table.aligned trapframe isIn)
  unfold sysFork allocproc
  rw [isSlot]
  dsimp only
  rw [kalloc_cons isFree]
  dsimp only [setProc]
  rw [noMore]
  dsimp only
  rw [Function.update_idem, Function.update_self]
  refine ⟨later, isRefused, givesBack.asBefore isSlot ?_ fun _ _ => rfl⟩
  intro page
  rw [isFree]
  exact Iff.rfl

end ForkKernel

end MyOS
