import MyOS.PageUnmapping

namespace MyOS

open Lib

/-!
# A page table is a finite map

`walkaddr` reads a map from the pages below `MAXVA`.  `mappages` sets the pages
that it is asked for and `uvmunmap` removes those that it is given; both leave
all others alone, and `mappages` does so where it fails too.
-/

namespace PageStore

variable {store later : PageStore} {root : Frame}
variable {end_address pa va size perm npages : Word} {do_free : Bool}

/-- An address is in a page of the range of `mappages`. -/
def Covers (va size address : Word) : Prop :=
  PGROUNDDOWN va ≤ PGROUNDDOWN address ∧
    PGROUNDDOWN address ≤ PGROUNDDOWN (va + size - 1)

/-- A range is not empty, lies below `MAXVA` and has no mapped page. -/
structure Unmapped
    (store : PageStore)
    (root : Frame)
    (va size : Word) : Prop where
  someBytes : size ≠ 0
  below : va.toNat + size.toNat ≤ MAXVA
  unmapped :
    ∀ address, Covers va size address →
      ¬ carries (store.pteAt root address) PTE_V = true

/-- Every address keeps its entry and its translation but for some. -/
structure Keeps
    (root : Frame)
    (store later : PageStore)
    (changed : Word → Prop) : Prop where
  pte :
    ∀ address : Word, address.toNat < MAXVA → ¬ changed address →
      later.pteAt root address = store.pteAt root address
  walkaddr :
    ∀ address, ¬ changed address →
      later.walkaddr (frameAddress root) address =
        store.walkaddr (frameAddress root) address

theorem InPages.mono
    {a address : Word}
    {count turns : Nat}
    (inPages : InPages a count address)
    (before : count ≤ turns) :
    InPages a turns address :=
  ⟨inPages.1, Nat.lt_of_lt_of_le inPages.2
    (Nat.add_le_add_left (Nat.mul_le_mul_left 4096 before) _)⟩

theorem Unmapped.spec
    (unmapped : store.Unmapped root va size)
    (pa perm : Word)
    (table : store.HoldsTable root) :
    MapsTo root store (PGROUNDDOWN va) pa perm
        ((PGROUNDDOWN (va + size - 1) - PGROUNDDOWN va).toNat / 4096 + 1)
        (store.mappages (frameAddress root) pa va size perm) :=
  mappages_spec table unmapped.someBytes

end PageStore

end MyOS
