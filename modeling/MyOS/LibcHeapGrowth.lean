import MyOS.LibcHeapTake

namespace MyOS

open Lib

/-!
# What `malloc` does

Its loop goes once around the ring and takes the first block that is large
enough.  If there is none it asks for more memory, which `free` puts into the
list, and finds a block on the next way around.
-/

section Search

variable {K : Type} {sbrk : SbrkCall K} {base limit nunits : Nat}
variable {heap : LibcHeap K} {free : List Extent}

theorem mallocLoop_found
    {fuel prevp p : Nat}
    (enough : nunits ≤ headerSize heap.memory p) :
    mallocLoop sbrk base nunits (fuel + 1) prevp p heap =
      some (takeBlock nunits prevp p heap) := by
  unfold mallocLoop
  exact if_pos enough

theorem mallocLoop_pass
    {fuel prevp p : Nat}
    (small : headerSize heap.memory p < nunits)
    (notRover : p ≠ heap.freep) :
    mallocLoop sbrk base nunits (fuel + 1) prevp p heap =
      mallocLoop sbrk base nunits fuel p (headerPtr heap.memory p) heap := by
  conv_lhs => unfold mallocLoop
  rw [if_neg (Nat.not_le_of_lt small), if_neg notRover]

theorem mallocLoop_along
    (sbrk : SbrkCall K)
    (base nunits : Nat)
    {path : List Extent}
    {previous rover : Extent}
    (follows :
      Follows (headerPtr heap.memory) (lengthAt heap.memory) previous.start
        (path ++ [rover]))
    (isRover : rover.start = heap.freep)
    (others : ∀ member ∈ path, member.start ≠ heap.freep) :
    (∃ first before block last,
      previous :: (path ++ [rover]) = first ++ before :: block :: last ∧
        nunits ≤ headerSize heap.memory block.start ∧
        ∀ fuel, path.length < fuel →
          mallocLoop sbrk base nunits fuel previous.start
              (headerPtr heap.memory previous.start) heap =
            some (takeBlock nunits before.start block.start heap)) ∨
      (∀ member ∈ path ++ [rover],
        headerSize heap.memory member.start < nunits) ∧
      ∃ stop, ∀ fuel,
        mallocLoop sbrk base nunits (path.length + (fuel + 1)) previous.start
            (headerPtr heap.memory previous.start) heap =
          mallocLoop sbrk base nunits (fuel + 1) stop heap.freep heap := by
  induction path generalizing previous with
  | nil =>
      obtain ⟨isNext, _, _⟩ := follows
      by_cases enough : nunits ≤ headerSize heap.memory rover.start
      · refine Or.inl ⟨[], previous, rover, [], rfl, enough, ?_⟩
        intro fuel positive
        obtain ⟨fuel, rfl⟩ := Nat.exists_eq_succ_of_ne_zero
          (Nat.ne_of_gt positive)
        rw [isNext]
        exact mallocLoop_found enough
      · refine Or.inr ⟨?_, previous.start, fun fuel => ?_⟩
        · intro member isMember
          rw [List.mem_singleton.mp isMember]
          exact Nat.lt_of_not_le enough
        · rw [isNext, isRover, List.length_nil, Nat.zero_add]
  | cons next path inductionHypothesis =>
      obtain ⟨isNext, _, rest⟩ := follows
      rw [List.forall_mem_cons] at others
      by_cases enough : nunits ≤ headerSize heap.memory next.start
      · refine Or.inl ⟨[], previous, next, path ++ [rover], rfl, enough, ?_⟩
        intro fuel positive
        obtain ⟨fuel, rfl⟩ := Nat.exists_eq_succ_of_ne_zero
          (Nat.ne_of_gt (Nat.lt_of_le_of_lt (Nat.zero_le _) positive))
        rw [isNext]
        exact mallocLoop_found enough
      have small := Nat.lt_of_not_le enough
      have passes :
          ∀ fuel,
            mallocLoop sbrk base nunits (fuel + 1) previous.start
                (headerPtr heap.memory previous.start) heap =
              mallocLoop sbrk base nunits fuel next.start
                (headerPtr heap.memory next.start) heap := by
        intro fuel
        rw [isNext]
        exact mallocLoop_pass small others.1
      rcases inductionHypothesis rest others.2 with
        ⟨first, before, block, last, split, large, takes⟩ |
        ⟨allSmall, stop, arrives⟩
      · refine Or.inl ⟨previous :: first, before, block, last, ?_, large, ?_⟩
        · rw [List.cons_append, List.cons_append, split]
        · intro fuel enoughFuel
          obtain ⟨fuel, rfl⟩ := Nat.exists_eq_succ_of_ne_zero
            (Nat.ne_of_gt (Nat.lt_of_le_of_lt (Nat.zero_le _) enoughFuel))
          rw [Nat.succ_eq_add_one, passes]
          exact takes fuel (Nat.lt_of_succ_lt_succ enoughFuel)
      · refine Or.inr ⟨?_, stop, fun fuel => ?_⟩
        · rw [List.cons_append, List.forall_mem_cons]
          exact ⟨small, allSmall⟩
        · rw [List.length_cons, Nat.succ_add, Nat.succ_eq_add_one, passes]
          exact arrives fuel

theorem HeapList.mallocLoop_turn
    (sbrk : SbrkCall K)
    (held : HeapList base limit heap free)
    (positive : 0 < nunits) :
    (∃ before previous block behind,
      baseBlock base :: free = before ++ previous :: block :: behind ∧
        nunits ≤ headerSize heap.memory block.start ∧
        ∀ fuel, free.length < fuel →
          mallocLoop sbrk base nunits fuel heap.freep
              (headerPtr heap.memory heap.freep) heap =
            some (takeBlock nunits previous.start block.start heap)) ∨
      (∀ block ∈ free, headerSize heap.memory block.start < nunits) ∧
      ∃ stop, ∀ fuel,
        mallocLoop sbrk base nunits (free.length + (fuel + 1)) heap.freep
            (headerPtr heap.memory heap.freep) heap =
          mallocLoop sbrk base nunits (fuel + 1) stop heap.freep heap := by
  obtain ⟨rover, isMember, isRover⟩ := held.roves
  obtain ⟨start, rest, turned⟩ := List.append_of_mem isMember
  have around := held.list.ring.turn turned
  have sorted := held.list.starts_sorted
  rw [turned, List.pairwise_append, List.pairwise_cons] at sorted
  have others :
      ∀ member ∈ rest ++ start, member.start ≠ heap.freep := by
    intro member inPath
    rw [isRover]
    rcases List.mem_append.mp inPath with inRest | inStart
    · exact Nat.ne_of_gt (sorted.2.1.1 member inRest)
    · exact Nat.ne_of_lt (sorted.2.2 member inStart rover List.mem_cons_self)
  have length : (rest ++ start).length = free.length := by
    have lengths := congrArg List.length turned
    simp only [List.length_cons, List.length_append] at lengths ⊢
    omega
  have turn :=
    mallocLoop_along sbrk base nunits around isRover.symm others
  rw [length, ← isRover] at turn
  rcases turn with
    ⟨first, before, block, last, split, large, takes⟩ |
    ⟨allSmall, stop, arrives⟩
  · have notBase : block ≠ baseBlock base := by
      intro same
      have length := held.list.ring.length_eq List.mem_cons_self
      rw [same] at large
      unfold lengthAt at length
      simp only [baseBlock, HEADER_SIZE] at length large
      omega
    obtain ⟨lower, upper, neighbours⟩ :=
      ring_neighbours turned split notBase
    exact Or.inl ⟨lower, before, block, upper, neighbours, large, takes⟩
  · refine Or.inr ⟨?_, stop, arrives⟩
    intro block isFree
    apply allSmall
    have isRing := List.mem_cons_of_mem (baseBlock base) isFree
    rw [turned] at isRing
    simp only [List.mem_append, List.mem_cons] at isRing ⊢
    tauto

end Search

section Growth

variable {K : Type} {sbrk : SbrkCall K} {base limit nunits : Nat}
variable {heap : LibcHeap K} {free : List Extent}

/-- The units that `morecore` asks for. -/
def grownUnits (nunits : Nat) : Nat :=
  if nunits < MORECORE_UNITS then MORECORE_UNITS else nunits

theorem le_grownUnits : nunits ≤ grownUnits nunits := by
  unfold grownUnits
  split
  · exact Nat.le_of_lt ‹_›
  · exact Nat.le_refl _

theorem grownUnits_fits
    (fits : nunits * HEADER_SIZE < WORD_RANGE) :
    grownUnits nunits * HEADER_SIZE < WORD_RANGE := by
  unfold grownUnits
  split
  · decide
  · exact fits

theorem morecore_refused
    {fuel : Nat}
    {kernel : K}
    (refused :
      sbrk (grownUnits nunits * HEADER_SIZE % WORD_RANGE) heap.kernel =
        some (SBRK_FAILED, kernel)) :
    morecore sbrk base fuel nunits heap =
      some (0, ⟨heap.memory, heap.freep, kernel⟩) := by
  unfold grownUnits at refused
  unfold morecore
  dsimp only
  rw [refused]
  exact if_pos rfl

/-- A region for the heap: above the static block, and apart from what is
free. -/
structure IsRegion
    (base limit : Nat)
    (free : List Extent)
    (region : Extent) : Prop where
  block : IsBlock base limit region
  apart : ∀ address, region.Has address → ¬ Covers free address

theorem morecore_grown
    {region : Extent}
    {kernel : K}
    (area : HeapArea base limit)
    (held : HeapList base limit heap free)
    (length : region.length = grownUnits nunits * HEADER_SIZE)
    (granted :
      sbrk (grownUnits nunits * HEADER_SIZE % WORD_RANGE) heap.kernel =
        some (region.start, kernel))
    (isRegion : IsRegion base limit free region) :
    ∃ later after,
      (∀ fuel, free.length < fuel →
        morecore sbrk base (fuel + 1) nunits heap =
          some (later.freep, later)) ∧
        HeapMoves base limit heap later free after
          (fun address => Covers free address ∨ region.Has address) ∧
        later.kernel = kernel ∧
        after.length ≤ free.length + 1 ∧
        ∃ block ∈ after, region.length ≤ block.length := by
  have fits : region.stop < WORD_RANGE :=
    Nat.lt_of_le_of_lt isRegion.block.below area.fits
  have room := isRegion.block.hasHeader
  have aligned := isRegion.block.aligned
  simp only [Extent.stop] at fits
  have notFailed : region.start ≠ SBRK_FAILED := by
    intro failed
    rw [failed] at aligned
    exact absurd aligned (by decide)
  have unitsFit : grownUnits nunits < WORD_RANGE := by
    simp only [HEADER_SIZE] at length
    omega
  have same :
      SameBesides region.start heap.memory
        (setHeaderSize heap.memory region.start (grownUnits nunits)) :=
    sameBesides_setHeaderSize
  have sized :
      lengthAt (setHeaderSize heap.memory region.start (grownUnits nunits))
          region.start =
        region.length := by
    unfold lengthAt
    rw [headerSize_setHeaderSize_self unitsFit, length]
  have grows :
      ∀ fuel,
        morecore sbrk base fuel nunits heap =
          (heapFree base fuel (region.start + HEADER_SIZE)
              ⟨setHeaderSize heap.memory region.start (grownUnits nunits),
                heap.freep, kernel⟩).map
            fun heap => (heap.freep, heap) := by
    intro fuel
    unfold grownUnits at granted
    unfold morecore grownUnits
    dsimp only
    rw [granted]
    dsimp only
    rw [if_neg notFailed, Nat.mod_eq_of_lt (by omega)]
    cases heapFree base fuel (region.start + HEADER_SIZE) _ <;> rfl
  generalize setHeaderSize heap.memory region.start (grownUnits nunits) =
    written at same sized grows
  have outside :
      ∀ address, ¬ region.Has address →
        written address = heap.memory address := by
    intro address notRegion
    apply same
    simp only [Extent.Has, Extent.stop] at notRegion
    omega
  have list : FreeList base limit written free := by
    apply held.list.congr
    intro address inList
    apply outside
    intro inRegion
    rcases inList with inBase | isFree
    · have above := isRegion.block.above
      simp only [Extent.Has, Extent.stop] at inBase inRegion
      omega
    · exact isRegion.apart address inRegion isFree
  have writtenHeld : HeapList base limit ⟨written, heap.freep, kernel⟩ free :=
    ⟨list, held.roves⟩
  have noSetUp := writtenHeld.setUp_eq area
  have returns : Returns base limit written free region :=
    ⟨isRegion.block, sized, isRegion.apart⟩
  have writtenBack :=
    @heapFree_spec K base limit ⟨written, heap.freep, kernel⟩ free region area
  rw [noSetUp] at writtenBack
  obtain ⟨later, after, ends, moves, isKernel, count, block⟩ :=
    writtenBack writtenHeld returns
  refine ⟨later, after, ?_, ⟨moves.held, moves.covers, ?_⟩, isKernel, count,
    block⟩
  · intro fuel enough
    rw [grows, ends fuel enough]
    rfl
  · intro address notBase notFree notCovered
    rw [moves.memory address notBase notFree notCovered]
    exact outside address fun inRegion => notCovered (Or.inr inRegion)

theorem mallocLoop_refused
    {fuel prevp : Nat}
    {later : LibcHeap K}
    (small : headerSize heap.memory heap.freep < nunits)
    (refused : morecore sbrk base fuel nunits heap = some (0, later)) :
    mallocLoop sbrk base nunits (fuel + 1) prevp heap.freep heap =
      some (0, later) := by
  unfold mallocLoop
  rw [if_neg (Nat.not_le_of_lt small), if_pos rfl, refused]
  exact if_pos rfl

theorem mallocLoop_grown
    {fuel prevp p : Nat}
    {later : LibcHeap K}
    (small : headerSize heap.memory heap.freep < nunits)
    (grown : morecore sbrk base fuel nunits heap = some (p, later))
    (notNull : p ≠ 0) :
    mallocLoop sbrk base nunits (fuel + 1) prevp heap.freep heap =
      mallocLoop sbrk base nunits fuel p (headerPtr later.memory p) later := by
  conv_lhs => unfold mallocLoop
  rw [if_neg (Nat.not_le_of_lt small), if_pos rfl, grown]
  exact if_neg notNull

theorem HeapList.rover_small
    (held : HeapList base limit heap free)
    (positive : 0 < nunits)
    (small : ∀ block ∈ free, headerSize heap.memory block.start < nunits) :
    headerSize heap.memory heap.freep < nunits := by
  obtain ⟨rover, isMember, isRover⟩ := held.roves
  rw [isRover]
  rcases List.mem_cons.mp isMember with isBase | isFree
  · have length := held.list.ring.length_eq isMember
    rw [isBase] at length ⊢
    unfold lengthAt at length
    simp only [baseBlock, HEADER_SIZE] at length ⊢
    omega
  · exact small rover isFree

theorem HeapList.mallocLoop_takes
    (sbrk : SbrkCall K)
    (area : HeapArea base limit)
    (held : HeapList base limit heap free)
    (positive : 0 < nunits)
    (large : ∃ block ∈ free, nunits ≤ headerSize heap.memory block.start) :
    ∃ later after taken,
      (∀ fuel, free.length < fuel →
        mallocLoop sbrk base nunits fuel heap.freep
            (headerPtr heap.memory heap.freep) heap =
          some (taken.start + HEADER_SIZE, later)) ∧
        Takes base limit nunits heap later free after taken := by
  rcases held.mallocLoop_turn sbrk positive with
    ⟨before, previous, block, behind, split, enough, ends⟩ | ⟨small, _⟩
  · obtain ⟨later, after, taken, result, takes⟩ :=
      takeBlock_spec area held split positive enough
    refine ⟨later, after, taken, fun fuel enoughFuel => ?_, takes⟩
    rw [ends fuel enoughFuel, result]
  · obtain ⟨block, isFree, enough⟩ := large
    exact absurd enough (Nat.not_le_of_lt (small block isFree))

end Growth

section Malloc

variable {K : Type} {sbrk : SbrkCall K} {base limit nbytes : Nat}
variable {heap : LibcHeap K} {free : List Extent}

theorem unitsFor_pos : 0 < unitsFor nbytes :=
  Nat.succ_pos _

theorem heapMalloc_found
    (sbrk : SbrkCall K)
    (area : HeapArea base limit)
    (held : HeapList base limit (setUp base heap) free)
    (large :
      ∃ block ∈ free,
        unitsFor nbytes ≤
          headerSize (setUp base heap).memory block.start) :
    ∃ later after taken,
      (∀ fuel, free.length < fuel →
        heapMalloc sbrk base fuel nbytes heap =
          some (taken.start + HEADER_SIZE, later)) ∧
        Takes base limit (unitsFor nbytes) (setUp base heap) later free after
          taken :=
  held.mallocLoop_takes sbrk area unitsFor_pos large

theorem heapMalloc_refused
    {kernel : K}
    (held : HeapList base limit (setUp base heap) free)
    (small :
      ∀ block ∈ free,
        headerSize (setUp base heap).memory block.start < unitsFor nbytes)
    (refused :
      sbrk (grownUnits (unitsFor nbytes) * HEADER_SIZE % WORD_RANGE)
          heap.kernel =
        some (SBRK_FAILED, kernel)) :
    ∀ fuel, free.length < fuel →
      heapMalloc sbrk base fuel nbytes heap =
        some (0, ⟨(setUp base heap).memory, (setUp base heap).freep,
          kernel⟩) := by
  intro fuel enough
  obtain ⟨rest, rfl⟩ := Nat.exists_eq_add_of_lt enough
  rcases held.mallocLoop_turn sbrk unitsFor_pos with
    ⟨before, previous, block, behind, split, large, _⟩ | ⟨_, stop, arrives⟩
  · have isFree : block ∈ free := by
      rw [free_eq_of_ring split]
      exact List.mem_append_right _ List.mem_cons_self
    exact absurd large (Nat.not_le_of_lt (small block isFree))
  · unfold heapMalloc
    dsimp only
    rw [Nat.add_assoc, arrives rest]
    apply mallocLoop_refused (held.rover_small unitsFor_pos small)
    apply morecore_refused
    rw [setUp_kernel]
    exact refused

/-- What `malloc` leaves: a block is taken from what was free and from a region
that the kernel may have granted. -/
structure Allocates
    (base limit nunits : Nat)
    (heap later : LibcHeap K)
    (free after : List Extent)
    (granted taken : Extent) : Prop where
  held : HeapList base limit later after
  covers :
    ∀ address,
      Covers after address ↔
        (Covers free address ∨ granted.Has address) ∧ ¬ taken.Has address
  memory :
    ∀ address, ¬ (⟨base, HEADER_SIZE⟩ : Extent).Has address →
      ¬ Covers free address → ¬ granted.Has address →
      later.memory address = heap.memory address
  block : IsBlock base limit taken
  length : taken.length = nunits * HEADER_SIZE
  sized : lengthAt later.memory taken.start = taken.length
  wasFree :
    ∀ address, taken.Has address →
      Covers free address ∨ granted.Has address

theorem Takes.allocates
    {nunits place : Nat}
    {later : LibcHeap K}
    {after : List Extent}
    {taken : Extent}
    (takes : Takes base limit nunits heap later free after taken) :
    Allocates base limit nunits heap later free after ⟨place, 0⟩ taken := by
  have nothing : ∀ address, ¬ (⟨place, 0⟩ : Extent).Has address := by
    intro address inside
    simp only [Extent.Has, Extent.stop] at inside
    omega
  refine ⟨takes.moves.held, ?_, ?_, takes.block, takes.length, takes.sized,
    fun address inside => Or.inl (takes.wasFree address inside)⟩
  · intro address
    rw [takes.moves.covers]
    simp only [nothing address, or_false]
  · intro address notBase notFree _
    exact takes.moves.memory address notBase notFree fun isFree =>
      notFree isFree.1

theorem heapMalloc_grown
    {region : Extent}
    {kernel : K}
    (area : HeapArea base limit)
    (held : HeapList base limit (setUp base heap) free)
    (small :
      ∀ block ∈ free,
        headerSize (setUp base heap).memory block.start < unitsFor nbytes)
    (length :
      region.length = grownUnits (unitsFor nbytes) * HEADER_SIZE)
    (granted :
      sbrk (grownUnits (unitsFor nbytes) * HEADER_SIZE % WORD_RANGE)
          heap.kernel =
        some (region.start, kernel))
    (isRegion : IsRegion base limit free region) :
    ∃ later after taken,
      (∀ fuel, 2 * free.length + 2 < fuel →
        heapMalloc sbrk base fuel nbytes heap =
          some (taken.start + HEADER_SIZE, later)) ∧
        later.kernel = kernel ∧
        Allocates base limit (unitsFor nbytes) (setUp base heap) later free
          after region taken := by
  rcases held.mallocLoop_turn sbrk unitsFor_pos with
    ⟨before, previous, block, behind, split, large, _⟩ | ⟨_, stop, arrives⟩
  · have isFree : block ∈ free := by
      rw [free_eq_of_ring split]
      exact List.mem_append_right _ List.mem_cons_self
    exact absurd large (Nat.not_le_of_lt (small block isFree))
  have sameKernel : (setUp base heap).kernel = heap.kernel := setUp_kernel
  rw [← sameKernel] at granted
  obtain ⟨grown, between, grows, moves, isKernel, count, block, isFree,
    isLong⟩ :=
    morecore_grown area held length granted isRegion
  have enough : unitsFor nbytes ≤ headerSize grown.memory block.start := by
    have sized :=
      moves.held.list.ring.length_eq
        (List.mem_cons_of_mem (baseBlock base) isFree)
    have units : unitsFor nbytes ≤ grownUnits (unitsFor nbytes) :=
      le_grownUnits
    unfold lengthAt at sized
    simp only [HEADER_SIZE] at sized length
    omega
  obtain ⟨later, after, taken, ends, takes⟩ :=
    moves.held.mallocLoop_takes sbrk area unitsFor_pos
      ⟨block, isFree, enough⟩
  refine ⟨later, after, taken, ?_, takes.kernel.trans isKernel,
    ⟨takes.moves.held, ?_, ?_, takes.block, takes.length, takes.sized, ?_⟩⟩
  · intro fuel enoughFuel
    obtain ⟨rest, rfl⟩ : ∃ rest, fuel = free.length + (rest + 1 + 1) :=
      ⟨fuel - free.length - 2, by omega⟩
    unfold heapMalloc
    dsimp only
    rw [arrives, mallocLoop_grown (held.rover_small unitsFor_pos small)
      (grows rest (by omega)) (moves.held.freep_ne_zero area)]
    exact ends _ (by omega)
  · intro address
    rw [takes.moves.covers, moves.covers]
  · intro address notBase notFree notRegion
    have notCovered :
        ¬ (Covers free address ∨ region.Has address) := fun covered =>
      covered.elim notFree notRegion
    have notBetween : ¬ Covers between address := by
      rw [moves.covers]
      exact notCovered
    rw [takes.moves.memory address notBase notBetween fun isFree =>
        notBetween isFree.1,
      moves.memory address notBase notFree notCovered]
  · intro address inside
    exact (moves.covers address).mp (takes.wasFree address inside)

end Malloc

end MyOS
