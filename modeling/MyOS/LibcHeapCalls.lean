import MyOS.LibcHeapList

namespace MyOS

open Lib

/-!
# What `free` does

The list is set up at the first call, and a block is put back where its address
belongs; all memory outside of the free blocks stays as it was.
-/

/-- The heap has been set up, and its list has these free blocks. -/
structure HeapList
    {K : Type}
    (base limit : Nat)
    (heap : LibcHeap K)
    (free : List Extent) : Prop where
  list : FreeList base limit heap.memory free
  roves : Roves base heap.freep free

section Calls

variable {K : Type} {sbrk : SbrkCall K} {base limit : Nat}
variable {heap : LibcHeap K} {free : List Extent}

theorem HeapList.freep_ne_zero
    (area : HeapArea base limit)
    (held : HeapList base limit heap free) :
    heap.freep ≠ 0 := by
  obtain ⟨member, isMember, same⟩ := held.roves
  rw [same]
  have positive := area.positive
  rcases List.mem_cons.mp isMember with isBase | isFree
  · rw [isBase]
    exact Nat.ne_of_gt positive
  · have above := (held.list.blocks member isFree).above
    omega

theorem HeapList.setUp_eq
    (area : HeapArea base limit)
    (held : HeapList base limit heap free) :
    setUp base heap = heap :=
  if_neg (held.freep_ne_zero area)

theorem heapList_setUp
    (area : HeapArea base limit)
    (fresh : heap.freep = 0) :
    HeapList base limit (setUp base heap) [] := by
  have above := area.above
  have fits := area.fits
  have small : base < WORD_RANGE := by omega
  have zero : 0 < WORD_RANGE := by decide
  unfold setUp
  rw [if_pos fresh]
  refine ⟨⟨⟨?_, ?_, trivial⟩, ⟨List.Pairwise.nil, ?_⟩, ?_⟩,
    baseBlock base, List.mem_cons_self, rfl⟩
  · change headerPtr (setHeaderSize (setHeaderPtr heap.memory base base) base 0)
      base = base
    rw [headerPtr_setHeaderSize_self, headerPtr_setHeaderPtr_self small]
  · change lengthAt (setHeaderSize (setHeaderPtr heap.memory base base) base 0)
      base = 0
    unfold lengthAt
    rw [headerSize_setHeaderSize_self zero, Nat.zero_mul]
  · exact fun block member => absurd member List.not_mem_nil
  · exact fun block member => absurd member List.not_mem_nil

theorem setUp_memory
    {address : Nat}
    (outside : ¬ (⟨base, HEADER_SIZE⟩ : Extent).Has address) :
    (setUp base heap).memory address = heap.memory address := by
  unfold setUp
  split
  · have same :
        SameBesides base heap.memory
          (setHeaderSize (setHeaderPtr heap.memory base base) base 0) :=
      sameBesides_setHeaderPtr.trans sameBesides_setHeaderSize
    apply same
    simp only [Extent.Has, Extent.stop] at outside
    omega
  · rfl

theorem setUp_kernel : (setUp base heap).kernel = heap.kernel := by
  unfold setUp
  split <;> rfl

theorem FreeList.congr
    {memory later : Bytes}
    (list : FreeList base limit memory free)
    (same :
      ∀ address,
        (⟨base, HEADER_SIZE⟩ : Extent).Has address ∨ Covers free address →
          later address = memory address) :
    FreeList base limit later free := by
  have headers :
      ∀ member ∈ baseBlock base :: free, ∀ address,
        member.start ≤ address → address < member.start + HEADER_SIZE →
          later address = memory address := by
    intro member isMember address lower upper
    apply same
    rcases List.mem_cons.mp isMember with isBase | isFree
    · rw [isBase] at lower upper
      exact Or.inl ⟨lower, upper⟩
    · have size := (list.blocks member isFree).hasHeader
      refine Or.inr ⟨member, isFree, lower, ?_⟩
      simp only [Extent.stop]
      omega
  have links :
      ∀ member ∈ baseBlock base :: free,
        headerPtr later member.start = headerPtr memory member.start := by
    intro member isMember
    apply le64_congr
    intro address lower upper
    apply headers member isMember address lower
    simp only [HEADER_SIZE]
    omega
  have sizes :
      ∀ member ∈ baseBlock base :: free,
        lengthAt later member.start = lengthAt memory member.start := by
    intro member isMember
    unfold lengthAt headerSize
    rw [le64_congr]
    intro address lower upper
    apply headers member isMember address (by omega)
    simp only [HEADER_SIZE]
    omega
  refine ⟨?_, list.spaced, list.blocks⟩
  apply Follows.congr_concat list.ring (links _ List.mem_cons_self)
  · intro member isFree
    have isMember := List.mem_cons_of_mem (baseBlock base) isFree
    exact ⟨links member isMember, sizes member isMember⟩
  · exact sizes _ List.mem_cons_self

theorem headerOf_eq
    {start : Nat}
    (fits : start < WORD_RANGE) :
    headerOf (start + HEADER_SIZE) = start := by
  unfold headerOf
  simp only [HEADER_SIZE, WORD_RANGE] at fits ⊢
  omega

/-- What a call leaves of the heap: the addresses that the free blocks cover,
and all memory outside of them. -/
structure HeapMoves
    (base limit : Nat)
    (heap later : LibcHeap K)
    (free after : List Extent)
    (covered : Nat → Prop) : Prop where
  held : HeapList base limit later after
  covers : ∀ address, Covers after address ↔ covered address
  memory :
    ∀ address, ¬ (⟨base, HEADER_SIZE⟩ : Extent).Has address →
      ¬ Covers free address → ¬ covered address →
      later.memory address = heap.memory address

theorem heapFree_spec
    {new : Extent}
    (area : HeapArea base limit)
    (held : HeapList base limit (setUp base heap) free)
    (returns : Returns base limit (setUp base heap).memory free new) :
    ∃ later after,
      (∀ fuel, free.length < fuel →
        heapFree base (fuel + 1) (new.start + HEADER_SIZE) heap =
          some later) ∧
        HeapMoves base limit (setUp base heap) later free after
          (fun address => Covers free address ∨ new.Has address) ∧
        later.kernel = heap.kernel ∧
        after.length ≤ free.length + 1 ∧
        ∃ block ∈ after, new.length ≤ block.length := by
  have above : base < new.start := by
    have above := returns.block.above
    simp only [HEADER_SIZE] at above
    omega
  have apart : ∀ block ∈ free, block.start ≠ new.start :=
    fun block isFree =>
      returns.start_ne held.list (List.mem_cons_of_mem _ isFree)
  obtain ⟨before, member, behind, split, finds⟩ :=
    held.list.freeLoop_finds held.roves above apart
  obtain ⟨list, roves, memory⟩ := held.list.insert area returns split
  have startFits : new.start < WORD_RANGE := by
    have below := returns.block.below
    have fits := area.fits
    simp only [Extent.stop] at below
    omega
  generalize written :
      joinPrevious (joinNext (setUp base heap).memory new.start member.start)
        new.start member.start = changed at list memory
  refine ⟨⟨changed, member.start, (setUp base heap).kernel⟩,
    insertBetween (belowOf before member) new behind, ?_,
    ⟨⟨list, roves⟩, ?_, ?_⟩, ?_, ?_, ?_⟩
  · intro fuel enough
    have notNull : new.start + HEADER_SIZE ≠ 0 := by
      simp only [HEADER_SIZE]
      omega
    unfold heapFree
    rw [if_neg notNull, headerOf_eq startFits]
    dsimp only
    rw [finds fuel enough, ← written]
  · intro address
    rw [covers_insertBetween, ← free_eq_of_ring split.1]
  · intro address notBase notFree notCovered
    exact memory address notBase notFree fun inNew =>
      notCovered (Or.inr inNew)
  · exact setUp_kernel
  · have length := length_insertBetween_le (belowOf before member) new behind
    rw [← List.length_append, ← free_eq_of_ring split.1] at length
    exact length
  · exact exists_insertBetween (belowOf before member) new behind

end Calls

end MyOS
