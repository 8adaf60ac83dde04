import MyOS.Param
import MyOS.TrapMachine

namespace MyOS

/-!
# Page tables

`walk` and `mappages` of `vm.c` on the doublewords of the pages that hold page
tables, and `proc_pagetable`, which every process's table starts as.  The free
pages are a list; `kalloc` takes its head.
-/

/-- `PTE_V` -/
def PTE_V : Word := 0x01

/-- `PTE_R` -/
def PTE_R : Word := 0x02

/-- `PTE_W` -/
def PTE_W : Word := 0x04

/-- `PTE_X` -/
def PTE_X : Word := 0x08

/-- `PTE_U` -/
def PTE_U : Word := 0x10

/-- `PX(level, va)` -/
def PX (level : Nat) (va : Word) : Word :=
  (va >>> (12 + 9 * level)) &&& 0x1FF

/-- `PA2PTE(pa)` -/
def PA2PTE (pa : Word) : Word :=
  (pa >>> 12) <<< 10

/-- `PTE2PA(pte)` -/
def PTE2PA (pte : Word) : Word :=
  (pte >>> 10) <<< 12

/-- `PGROUNDDOWN(a)` -/
def PGROUNDDOWN (a : Word) : Word :=
  a &&& ~~~0xFFF

/-- A page table entry carries a permission bit. -/
def carries (pte bit : Word) : Bool :=
  pte &&& bit != 0

/-- The doublewords of the pages that hold page tables, and the free pages. -/
structure PageStore where
  load : Word → Word
  free : List Word

namespace PageStore

/-- Clear a page. -/
def zero (store : PageStore) (page : Word) : PageStore :=
  { store with
    load := fun address =>
      if PGROUNDDOWN address = page then 0 else store.load address }

/-- Store a doubleword. -/
def set (store : PageStore) (address value : Word) : PageStore :=
  { store with load := Function.update store.load address value }

/-- `kalloc()` -/
def kalloc (store : PageStore) : Option Word × PageStore :=
  match store.free with
  | [] => (none, store)
  | page :: rest => (some page, { store with free := rest })

/-- The loop of `walk` from a level down to level 0. -/
def walkFrom
    (alloc : Bool)
    (va : Word) :
    Nat → Word → PageStore → Option Word × PageStore
  | 0, pagetable, store =>
      (some (pagetable + 8 * PX 0 va), store)
  | level + 1, pagetable, store =>
      let pte := pagetable + 8 * PX (level + 1) va
      if carries (store.load pte) PTE_V then
        walkFrom alloc va level (PTE2PA (store.load pte)) store
      else if alloc then
        match store.kalloc with
        | (none, store) => (none, store)
        | (some page, store) =>
            walkFrom alloc va level page
              ((store.zero page).set pte (PA2PTE page ||| PTE_V))
      else
        (none, store)

end PageStore

/-- What `walk` comes to: its panic, a null pointer, or an entry. -/
inductive Walk where
  | outOfRange
  | null
  | entry (pte : Word)
  deriving Repr, DecidableEq

namespace PageStore

/-- `walk(pagetable, va, alloc)` -/
def walk
    (alloc : Bool)
    (pagetable va : Word)
    (store : PageStore) : Walk × PageStore :=
  if MAXVA ≤ va.toNat then
    (.outOfRange, store)
  else
    match store.walkFrom alloc va 2 pagetable with
    | (none, store) => (.null, store)
    | (some pte, store) => (.entry pte, store)

theorem walk_outOfRange_iff
    {alloc : Bool}
    {pagetable va : Word}
    {store : PageStore} :
    (store.walk alloc pagetable va).1 = .outOfRange ↔ MAXVA ≤ va.toNat := by
  unfold walk
  by_cases high : MAXVA ≤ va.toNat
  · simp [high]
  · have below : va.toNat < MAXVA := Nat.lt_of_not_le high
    simp only [if_neg high]
    cases store.walkFrom alloc va 2 pagetable with
    | mk found after =>
        cases found
        all_goals simp [below]

end PageStore

/-- What `mappages` comes to: a panic, -1, or 0. -/
inductive Mapping where
  | panic
  | failed (store : PageStore)
  | mapped (store : PageStore)

namespace PageStore

/-- The loop of `mappages`, with as many turns as there are pages left. -/
def mappagesFrom
    (pagetable last perm : Word) :
    Nat → Word → Word → PageStore → Mapping
  | 0, _, _, store => .mapped store
  | turns + 1, a, pa, store =>
      match store.walk true pagetable a with
      | (.outOfRange, _) => .panic
      | (.null, store) => .failed store
      | (.entry pte, store) =>
          if carries (store.load pte) PTE_V then
            .panic
          else
            let store := store.set pte (PA2PTE pa ||| (perm ||| PTE_V))
            if a = last then
              .mapped store
            else
              mappagesFrom pagetable last perm turns (a + 4096) (pa + 4096)
                store

/-- `mappages(pagetable, pa, va, size, perm)` -/
def mappages
    (pagetable pa va size perm : Word)
    (store : PageStore) : Mapping :=
  if size = 0 then
    .panic
  else
    let a := PGROUNDDOWN va
    let last := PGROUNDDOWN (va + size - 1)
    store.mappagesFrom pagetable last perm
      (((last - a) >>> 12).toNat + 1) a pa

end PageStore

/-- The addresses that `proc_pagetable` maps. -/
structure KernelPages where
  userret : Word
  uservec : Word
  trapframe : Word

/--
`proc_pagetable(p)`: the root page, or null; the pages taken before a failure
are not given back.
-/
def procPagetable
    (pages : KernelPages)
    (store : PageStore) : Except Unit (Option Word × PageStore) :=
  match store.kalloc with
  | (none, store) => .ok (none, store)
  | (some pgtbl, store) =>
      let userret_pa := PGROUNDDOWN pages.userret
      match (store.zero pgtbl).mappages pgtbl userret_pa userret_pa 4096
        (PTE_R ||| PTE_X) with
      | .panic => .error ()
      | .failed store => .ok (none, store)
      | .mapped store =>
          let uservec_pa := PGROUNDDOWN pages.uservec
          let second :=
            if uservec_pa ≠ userret_pa then
              store.mappages pgtbl uservec_pa uservec_pa 4096
                (PTE_R ||| PTE_X)
            else
              .mapped store
          match second with
          | .panic => .error ()
          | .failed store | .mapped store =>
              let tf_pa := PGROUNDDOWN pages.trapframe
              match store.mappages pgtbl tf_pa tf_pa 4096
                (PTE_R ||| PTE_W) with
              | .panic => .error ()
              | .failed store => .ok (none, store)
              | .mapped store => .ok (some pgtbl, store)

end MyOS
