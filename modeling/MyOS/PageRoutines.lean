import MyOS.PageTable

namespace MyOS

/-!
# Routines on user memory

`kfree`, `walkaddr`, `uvmunmap`, `uvmcopy`, `uvmdealloc` and `uvmalloc`, and
`growproc` and `sys_sbrk` on top of them.  The page store holds the doublewords
of the mapped pages too; a panic is the absence of a result.
-/

/-- `PTE_FLAGS(pte)` -/
def PTE_FLAGS (pte : Word) : Word :=
  pte &&& 0x3FF

/-- `PGROUNDUP(sz)` -/
def PGROUNDUP (sz : Word) : Word :=
  (sz + 4096 - 1) &&& ~~~0xFFF

namespace PageStore

/-- Copy a page: `memmove(dst, src, PGSIZE)`. -/
def copyPage (store : PageStore) (dst src : Word) : PageStore :=
  { store with
    load := fun address =>
      if PGROUNDDOWN address = dst then store.load (src + (address - dst))
      else store.load address }

/-- `kfree(pa)`; the pages below `end_address` hold the kernel. -/
def kfree
    (end_address pa : Word)
    (store : PageStore) : Option PageStore :=
  if pa.toNat % PGSIZE ≠ 0 ∨ pa < end_address ∨ PHYSTOP ≤ pa.toNat then
    none
  else
    some {
      load := Function.update store.load pa (store.free.headD 0)
      free := pa :: store.free
    }

/-- `walkaddr(pagetable, va)` -/
def walkaddr
    (pagetable va : Word)
    (store : PageStore) : Option Word :=
  match (store.walk false pagetable va).1 with
  | .outOfRange => none
  | .null => some 0
  | .entry pte =>
      if carries (store.load pte) PTE_V && carries (store.load pte) PTE_U then
        some (PTE2PA (store.load pte) ||| (va &&& 0xFFF))
      else
        some 0

/-- The loop of `uvmunmap`, with as many turns as there are pages left. -/
def uvmunmapFrom
    (end_address pagetable : Word)
    (do_free : Bool) :
    Nat → Word → PageStore → Option PageStore
  | 0, _, store => some store
  | turns + 1, a, store =>
      match (store.walk false pagetable a).1 with
      | .outOfRange => none
      | .null => none
      | .entry pte =>
          if ¬ carries (store.load pte) PTE_V then
            none
          else if PTE_FLAGS (store.load pte) = PTE_V then
            none
          else
            match
              (if do_free then
                store.kfree end_address (PTE2PA (store.load pte))
              else
                some store) with
            | none => none
            | some store =>
                uvmunmapFrom end_address pagetable do_free turns (a + 4096)
                  (store.set pte 0)

/--
`uvmunmap(pagetable, va, npages, do_free)`; the loop does not begin where the
end of the pages, which is computed modulo 2^64, is not above their beginning.
-/
def uvmunmap
    (end_address pagetable va npages : Word)
    (do_free : Bool)
    (store : PageStore) : Option PageStore :=
  if va.toNat % PGSIZE ≠ 0 then
    none
  else
    store.uvmunmapFrom end_address pagetable do_free
      (if va < va + npages * 4096 then (npages * 4096).toNat / PGSIZE else 0)
      va

/--
A page from `kalloc` is filled and mapped with `mappages`, as the loops of
`uvmcopy`, `uvmalloc` and `sys_exec` do it; where it cannot be mapped it is
given back.
-/
def mapFresh
    (end_address pagetable a perm : Word)
    (fill : Word → PageStore → PageStore)
    (store : PageStore) : Mapping :=
  match store.kalloc with
  | (none, store) => .failed store
  | (some mem, store) =>
      match (fill mem store).mappages pagetable mem a 4096 perm with
      | .panic => .panic
      | .failed store =>
          match store.kfree end_address mem with
          | none => .panic
          | some store => .failed store
      | .mapped store => .mapped store

/-- The loop of `uvmcopy`, with as many turns as there are pages left. -/
def uvmcopyFrom
    (end_address old new : Word) :
    Nat → Word → PageStore → Option (Int × PageStore)
  | 0, _, store => some (0, store)
  | turns + 1, i, store =>
      match (store.walk false old i).1 with
      | .outOfRange => none
      | .null => uvmcopyFrom end_address old new turns (i + 4096) store
      | .entry pte =>
          if ¬ carries (store.load pte) PTE_V then
            uvmcopyFrom end_address old new turns (i + 4096) store
          else
            let pa := PTE2PA (store.load pte)
            let flags := PTE_FLAGS (store.load pte)
            match store.mapFresh end_address new i flags
              (fun mem store => store.copyPage mem pa) with
            | .panic => none
            | .failed store => some (-1, store)
            | .mapped store =>
                uvmcopyFrom end_address old new turns (i + 4096) store

/-- `uvmcopy(old, new, sz)` -/
def uvmcopy
    (end_address old new sz : Word)
    (store : PageStore) : Option (Int × PageStore) :=
  store.uvmcopyFrom end_address old new ((sz.toNat + (PGSIZE - 1)) / PGSIZE) 0

/-- `uvmdealloc(pagetable, oldsz, newsz)`; the number of pages is an `int`. -/
def uvmdealloc
    (end_address pagetable oldsz newsz : Word)
    (store : PageStore) : Option (Word × PageStore) :=
  if oldsz ≤ newsz then
    some (oldsz, store)
  else if PGROUNDUP newsz < PGROUNDUP oldsz then
    let npages := (PGROUNDUP oldsz - PGROUNDUP newsz) / 4096
    match store.uvmunmap end_address pagetable (PGROUNDUP newsz)
      ((npages.setWidth 32).signExtend 64) true with
    | none => none
    | some store => some (newsz, store)
  else
    some (newsz, store)

/-- `uvmdealloc` on the way out of `uvmalloc` -/
def uvmallocFails
    (end_address pagetable oldsz a : Word)
    (store : PageStore) : Option (Word × PageStore) :=
  match store.uvmdealloc end_address pagetable a oldsz with
  | none => none
  | some (_, store) => some (0, store)

/-- The loop of `uvmalloc`, with as many turns as there are pages left. -/
def uvmallocFrom
    (end_address pagetable oldsz newsz : Word) :
    Nat → Word → PageStore → Option (Word × PageStore)
  | 0, _, store => some (newsz, store)
  | turns + 1, a, store =>
      match store.mapFresh end_address pagetable a (PTE_W ||| PTE_R ||| PTE_U)
        (fun mem store => store.zero mem) with
      | .panic => none
      | .failed store => store.uvmallocFails end_address pagetable oldsz a
      | .mapped store =>
          uvmallocFrom end_address pagetable oldsz newsz turns (a + 4096)
            store

/-- `uvmalloc(pagetable, oldsz, newsz)` -/
def uvmalloc
    (end_address pagetable oldsz newsz : Word)
    (store : PageStore) : Option (Word × PageStore) :=
  if newsz < oldsz then
    some (oldsz, store)
  else
    let oldsz := PGROUNDUP oldsz
    store.uvmallocFrom end_address pagetable oldsz newsz
      (if oldsz < newsz then
        ((newsz - oldsz).toNat + (PGSIZE - 1)) / PGSIZE
      else
        0)
      oldsz

end PageStore

/-- The memory of a process: its break, its page table and the pages. -/
structure ProcMemory where
  sz : Word
  pagetable : Word
  store : PageStore

namespace ProcMemory

/-- A 32-bit argument as a 64-bit addend. -/
def ofInt32 (n : BitVec 32) : Word :=
  n.signExtend 64

/-- `growproc(n)` -/
def growproc
    (end_address : Word)
    (n : BitVec 32)
    (memory : ProcMemory) : Option (Int × ProcMemory) :=
  if 0 < n.toInt then
    match memory.store.uvmalloc end_address memory.pagetable memory.sz
      (memory.sz + ofInt32 n) with
    | none => none
    | some (sz, store) =>
        if sz = 0 then
          some (-1, { memory with store := store })
        else
          some (0, { memory with sz := sz, store := store })
  else if n.toInt < 0 then
    match memory.store.uvmdealloc end_address memory.pagetable memory.sz
      (memory.sz + ofInt32 n) with
    | none => none
    | some (sz, store) => some (0, { memory with sz := sz, store := store })
  else
    some (0, memory)

/-- `sys_sbrk()`; the break goes through an `int` on the way out. -/
def sysSbrk
    (end_address : Word)
    (n : BitVec 32)
    (memory : ProcMemory) : Option (Word × ProcMemory) :=
  let addr := memory.sz.setWidth 32
  match memory.growproc end_address n with
  | none => none
  | some (result, memory) =>
      if result < 0 then some (-1, memory) else some (ofInt32 addr, memory)

end ProcMemory

end MyOS
