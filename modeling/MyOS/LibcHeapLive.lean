import MyOS.LibcHeapGrowth

namespace MyOS

open Lib

/-!
# The blocks that callers hold

The heap together with the blocks that `malloc` has returned and nobody has
freed.  They are apart from each other and from the free blocks, and lie where
the kernel has granted memory.
-/

/-- A block that a caller holds, and the bytes that it asked for. -/
structure LiveBlock where
  block : Extent
  bytes : Nat
  deriving Repr, DecidableEq

/-- The pointer that the caller holds. -/
def LiveBlock.pointer (live : LiveBlock) : Nat :=
  live.block.start + HEADER_SIZE

/-- The address is of one of the caller's bytes. -/
def LiveBlock.Owns (live : LiveBlock) (address : Nat) : Prop :=
  live.pointer ≤ address ∧ address < live.pointer + live.bytes

/-- The heap, and the blocks that callers hold. -/
structure HeapSystem (K : Type) where
  heap : LibcHeap K
  live : List LiveBlock

/-- The last address. -/
def LAST_ADDRESS : Nat := WORD_RANGE - 1

/-- A region above the static data and above all earlier ones. -/
structure IsFresh
    (base : Nat)
    (granted : List Extent)
    (region : Extent) : Prop where
  aligned : HEADER_SIZE ∣ region.start
  above : base + HEADER_SIZE ≤ region.start
  increasing : ∀ earlier ∈ granted, earlier.stop ≤ region.start
  fits : region.stop < WORD_RANGE

/-- `sbrk` returns fresh regions of the size asked for, or fails. -/
structure FreshRegions
    {K : Type}
    (sbrk : SbrkCall K)
    (base : Nat)
    (granted : K → List Extent) : Prop where
  answers :
    ∀ increment kernel, ∃ p later,
      sbrk increment kernel = some (p, later) ∧
        (p = SBRK_FAILED ∧ granted later = granted kernel ∨
          IsFresh base (granted kernel) ⟨p, increment⟩ ∧
            granted later = granted kernel ++ [⟨p, increment⟩])

/-- A caller's block is a block of the heap, with its size in its header and
room for the caller's bytes, and none of it is free. -/
structure IsLive
    (base : Nat)
    (memory : Bytes)
    (free : List Extent)
    (live : LiveBlock) : Prop where
  block : IsBlock base LAST_ADDRESS live.block
  sized : lengthAt memory live.block.start = live.block.length
  room : HEADER_SIZE + live.bytes ≤ live.block.length
  apart : ∀ address, live.block.Has address → ¬ Covers free address

/-- Two callers' blocks have no address in common. -/
def LiveApart (first second : LiveBlock) : Prop :=
  ∀ address, first.block.Has address → ¬ second.block.Has address

/-- The heap is intact with these free blocks. -/
structure HeapIntact
    {K : Type}
    (base : Nat)
    (granted : K → List Extent)
    (system : HeapSystem K)
    (free : List Extent) : Prop where
  held : HeapList base LAST_ADDRESS (setUp base system.heap) free
  ready : system.heap.freep = 0 → system.live = []
  live : ∀ live ∈ system.live, IsLive base system.heap.memory free live
  apart : system.live.Pairwise LiveApart
  freeGranted :
    ∀ address, Covers free address →
      Covers (granted system.heap.kernel) address
  liveGranted :
    ∀ live ∈ system.live, ∀ address, live.block.Has address →
      Covers (granted system.heap.kernel) address

section Live

variable {K : Type} {base : Nat} {granted : K → List Extent}
variable {heap : LibcHeap K} {blocks : List LiveBlock} {free : List Extent}

theorem IsBlock.outside_base
    {limit address : Nat}
    {block : Extent}
    (isBlock : IsBlock base limit block)
    (inside : block.Has address) :
    ¬ (⟨base, HEADER_SIZE⟩ : Extent).Has address := by
  have above := isBlock.above
  simp only [Extent.Has, Extent.stop] at inside ⊢
  omega

theorem lengthAt_congr
    {memory later : Bytes}
    {block : Extent}
    (room : HEADER_SIZE ≤ block.length)
    (same :
      ∀ address, block.Has address → later address = memory address) :
    lengthAt later block.start = lengthAt memory block.start := by
  unfold lengthAt headerSize
  rw [le64_congr]
  intro address lower upper
  apply same
  simp only [Extent.Has, Extent.stop, HEADER_SIZE] at room ⊢
  omega

theorem liveApart_of_mem
    {first second : LiveBlock}
    (apart : blocks.Pairwise LiveApart)
    (isFirst : first ∈ blocks)
    (isSecond : second ∈ blocks)
    (different : first ≠ second) :
    LiveApart first second := by
  induction blocks with
  | nil => exact absurd isFirst List.not_mem_nil
  | cons block blocks inductionHypothesis =>
      rw [List.pairwise_cons] at apart
      rcases List.mem_cons.mp isFirst with rfl | inFirst
      · rcases List.mem_cons.mp isSecond with rfl | inSecond
        · exact absurd rfl different
        · exact apart.1 second inSecond
      · rcases List.mem_cons.mp isSecond with rfl | inSecond
        · exact fun address isHere isThere =>
            apart.1 first inFirst address isThere isHere
        · exact inductionHypothesis apart.2 inFirst inSecond

/-- The blocks without the one at a pointer. -/
def dropLive (ptr : Nat) (blocks : List LiveBlock) : List LiveBlock :=
  blocks.filter fun live => decide (live.pointer ≠ ptr)

theorem mem_dropLive
    {ptr : Nat}
    {live : LiveBlock} :
    live ∈ dropLive ptr blocks ↔ live ∈ blocks ∧ live.pointer ≠ ptr := by
  simp [dropLive]

theorem heapIntact_start
    (area : HeapArea base LAST_ADDRESS)
    (fresh : heap.freep = 0) :
    HeapIntact base granted ⟨heap, []⟩ [] where
  held := heapList_setUp area fresh
  ready := fun _ => rfl
  live := fun _ isLive => absurd isLive List.not_mem_nil
  apart := List.Pairwise.nil
  freeGranted := fun _ covered => absurd covered covers_nil
  liveGranted := fun _ isLive => absurd isLive List.not_mem_nil

theorem HeapIntact.returns
    {live : LiveBlock}
    (intact : HeapIntact base granted ⟨heap, blocks⟩ free)
    (isLive : live ∈ blocks) :
    Returns base LAST_ADDRESS (setUp base heap).memory free live.block where
  block := (intact.live live isLive).block
  sized := by
    have held := intact.live live isLive
    rw [lengthAt_congr held.block.hasHeader fun address inside =>
      setUp_memory (held.block.outside_base inside)]
    exact held.sized
  apart := (intact.live live isLive).apart

theorem HeapIntact.store
    {memory : Bytes}
    {live : LiveBlock}
    (intact : HeapIntact base granted ⟨heap, blocks⟩ free)
    (isLive : live ∈ blocks)
    (same :
      ∀ address, ¬ (live.pointer ≤ address ∧ address < live.block.stop) →
        memory address = heap.memory address) :
    HeapIntact base granted ⟨⟨memory, heap.freep, heap.kernel⟩, blocks⟩
      free := by
  have notNull : heap.freep ≠ 0 := fun isNull => by
    have none := intact.ready isNull
    change blocks = [] at none
    rw [none] at isLive
    exact absurd isLive List.not_mem_nil
  have noSetUp : setUp base heap = heap := if_neg notNull
  have stillNone :
      setUp base ⟨memory, heap.freep, heap.kernel⟩ =
        ⟨memory, heap.freep, heap.kernel⟩ := if_neg notNull
  have isHeld := intact.live live isLive
  have held := intact.held
  change HeapList base LAST_ADDRESS (setUp base heap) free at held
  rw [noSetUp] at held
  have others :
      ∀ address, ¬ live.block.Has address →
        memory address = heap.memory address := by
    intro address outside
    apply same
    intro written
    apply outside
    simp only [LiveBlock.pointer, Extent.Has] at written ⊢
    omega
  refine ⟨?_, intact.ready, ?_, intact.apart, intact.freeGranted,
    intact.liveGranted⟩
  · change HeapList base LAST_ADDRESS
      (setUp base ⟨memory, heap.freep, heap.kernel⟩) free
    rw [stillNone]
    refine ⟨held.list.congr fun address inList => ?_, held.roves⟩
    apply others
    intro inside
    exact inList.elim (isHeld.block.outside_base inside)
      (isHeld.apart address inside)
  · intro other isOther
    have isHeldOther := intact.live other isOther
    refine ⟨isHeldOther.block, ?_, isHeldOther.room, isHeldOther.apart⟩
    rw [← isHeldOther.sized]
    by_cases isSame : other = live
    · rw [isSame]
      unfold lengthAt headerSize
      change memory.le64 _ * _ = heap.memory.le64 _ * _
      rw [le64_congr]
      intro address lower upper
      apply same
      simp only [LiveBlock.pointer, HEADER_SIZE]
      omega
    · apply lengthAt_congr isHeldOther.block.hasHeader
      intro address inside
      exact others address
        (liveApart_of_mem intact.apart isOther isLive isSame address inside)

theorem HeapIntact.putBack
    {live : LiveBlock}
    (area : HeapArea base LAST_ADDRESS)
    (intact : HeapIntact base granted ⟨heap, blocks⟩ free)
    (isLive : live ∈ blocks) :
    ∃ later after,
      (∀ fuel, free.length < fuel →
        heapFree base (fuel + 1) live.pointer heap = some later) ∧
        HeapIntact base granted ⟨later, dropLive live.pointer blocks⟩ after ∧
        later.kernel = heap.kernel ∧
        ∀ other ∈ blocks, other.pointer ≠ live.pointer →
          ∀ address, other.block.Has address →
            later.memory address = heap.memory address := by
  have isHeld := intact.live live isLive
  obtain ⟨later, after, ends, moves, sameKernel, _, _⟩ :=
    heapFree_spec area intact.held (intact.returns isLive)
  have kept :
      ∀ other ∈ blocks, other.pointer ≠ live.pointer →
        ∀ address, other.block.Has address →
          ¬ (Covers free address ∨ live.block.Has address) ∧
            later.memory address = heap.memory address := by
    intro other isOther apart address inside
    have isHeldOther := intact.live other isOther
    have different : other ≠ live := fun same => apart (by rw [same])
    have notCovered : ¬ (Covers free address ∨ live.block.Has address) :=
      fun covered =>
        covered.elim (isHeldOther.apart address inside)
          (liveApart_of_mem intact.apart isOther isLive different address
            inside)
    have notBase := isHeldOther.block.outside_base inside
    refine ⟨notCovered, ?_⟩
    rw [moves.memory address notBase (isHeldOther.apart address inside)
      notCovered]
    exact setUp_memory notBase
  refine ⟨later, after, ends, ⟨?_, ?_, ?_, ?_, ?_, ?_⟩, sameKernel, ?_⟩
  · change HeapList base LAST_ADDRESS (setUp base later) after
    rw [moves.held.setUp_eq area]
    exact moves.held
  · exact fun isNull => absurd isNull (moves.held.freep_ne_zero area)
  · intro other isOther
    obtain ⟨isBefore, apart⟩ := mem_dropLive.mp isOther
    have isHeldOther := intact.live other isBefore
    refine ⟨isHeldOther.block, ?_, isHeldOther.room, ?_⟩
    · rw [← isHeldOther.sized]
      exact lengthAt_congr isHeldOther.block.hasHeader fun address inside =>
        (kept other isBefore apart address inside).2
    · intro address inside
      rw [moves.covers]
      exact (kept other isBefore apart address inside).1
  · exact intact.apart.filter _
  · intro address covered
    change Covers (granted later.kernel) address
    rw [sameKernel]
    rcases (moves.covers address).mp covered with isFree | inLive
    · exact intact.freeGranted address isFree
    · exact intact.liveGranted live isLive address inLive
  · intro other isOther
    change ∀ address, other.block.Has address →
      Covers (granted later.kernel) address
    rw [sameKernel]
    exact intact.liveGranted other (mem_dropLive.mp isOther).1
  · exact fun other isOther apart address inside =>
      (kept other isOther apart address inside).2

/-- What the kernel granted during a call. -/
structure Grants
    (granted : K → List Extent)
    (before later : K)
    (region : Extent) : Prop where
  covers :
    ∀ address,
      Covers (granted later) address ↔
        Covers (granted before) address ∨ region.Has address
  fresh : ∀ address, region.Has address → ¬ Covers (granted before) address

theorem grants_nothing
    {kernel later : K}
    {place : Nat}
    (same : granted later = granted kernel) :
    Grants granted kernel later ⟨place, 0⟩ := by
  have nothing : ∀ address, ¬ (⟨place, 0⟩ : Extent).Has address := by
    intro address inside
    simp only [Extent.Has, Extent.stop] at inside
    omega
  constructor
  · intro address
    rw [same]
    simp only [nothing address, or_false]
  · exact fun address inside => absurd inside (nothing address)

theorem IsFresh.grants
    {kernel later : K}
    {region : Extent}
    (fresh : IsFresh base (granted kernel) region)
    (adds : granted later = granted kernel ++ [region]) :
    Grants granted kernel later region := by
  constructor
  · intro address
    rw [adds]
    simp only [covers_append, covers_cons, covers_nil, or_false]
  · rintro address inside ⟨earlier, isEarlier, inEarlier⟩
    have below := fresh.increasing earlier isEarlier
    simp only [Extent.Has] at inside inEarlier
    omega

theorem IsFresh.isRegion
    {region : Extent}
    (fresh : IsFresh base (granted heap.kernel) region)
    (intact : HeapIntact base granted ⟨heap, blocks⟩ free)
    (hasHeader : HEADER_SIZE ≤ region.length) :
    IsRegion base LAST_ADDRESS free region where
  block := {
    aligned := fresh.aligned
    above := fresh.above
    below := Nat.le_sub_one_of_lt fresh.fits
    hasHeader := hasHeader
  }
  apart := by
    intro address inside isFree
    obtain ⟨earlier, isEarlier, inEarlier⟩ :=
      intact.freeGranted address isFree
    have below := fresh.increasing earlier isEarlier
    simp only [Extent.Has] at inside inEarlier
    omega

theorem HeapIntact.kept
    {later : LibcHeap K}
    {after : List Extent}
    {region taken : Extent}
    {nunits : Nat}
    (intact : HeapIntact base granted ⟨heap, blocks⟩ free)
    (allocates :
      Allocates base LAST_ADDRESS nunits (setUp base heap) later free after
        region taken)
    (grants : Grants granted heap.kernel later.kernel region) :
    ∀ live ∈ blocks, ∀ address, live.block.Has address →
      ¬ (Covers free address ∨ region.Has address) ∧
        later.memory address = heap.memory address := by
  intro live isLive address inside
  have isHeld := intact.live live isLive
  have notFree := isHeld.apart address inside
  have notRegion : ¬ region.Has address := fun inRegion =>
    grants.fresh address inRegion
      (intact.liveGranted live isLive address inside)
  have notBase := isHeld.block.outside_base inside
  refine ⟨fun covered => covered.elim notFree notRegion, ?_⟩
  rw [allocates.memory address notBase notFree notRegion]
  exact setUp_memory notBase

theorem HeapIntact.allocated
    {later : LibcHeap K}
    {after : List Extent}
    {region taken : Extent}
    {nbytes : Nat}
    (area : HeapArea base LAST_ADDRESS)
    (intact : HeapIntact base granted ⟨heap, blocks⟩ free)
    (allocates :
      Allocates base LAST_ADDRESS (unitsFor nbytes) (setUp base heap) later
        free after region taken)
    (grants : Grants granted heap.kernel later.kernel region)
    (room : HEADER_SIZE + nbytes ≤ taken.length) :
    HeapIntact base granted ⟨later, ⟨taken, nbytes⟩ :: blocks⟩ after := by
  have kept := intact.kept allocates grants
  have wasThere :
      ∀ address, Covers free address ∨ region.Has address →
        Covers (granted later.kernel) address := by
    intro address wasFree
    rw [grants.covers]
    exact wasFree.imp_left (intact.freeGranted address)
  refine ⟨?_, ?_, ?_, ?_, ?_, ?_⟩
  · change HeapList base LAST_ADDRESS (setUp base later) after
    rw [allocates.held.setUp_eq area]
    exact allocates.held
  · exact fun isNull => absurd isNull (allocates.held.freep_ne_zero area)
  · rw [List.forall_mem_cons]
    refine ⟨⟨allocates.block, allocates.sized, room, ?_⟩, ?_⟩
    · intro address inside covered
      exact ((allocates.covers address).mp covered).2 inside
    · intro live isLive
      have isHeld := intact.live live isLive
      refine ⟨isHeld.block, ?_, isHeld.room, ?_⟩
      · rw [← isHeld.sized]
        exact lengthAt_congr isHeld.block.hasHeader fun address inside =>
          (kept live isLive address inside).2
      · intro address inside covered
        exact (kept live isLive address inside).1
          ((allocates.covers address).mp covered).1
  · rw [List.pairwise_cons]
    refine ⟨?_, intact.apart⟩
    intro live isLive address inTaken inLive
    exact (kept live isLive address inLive).1
      (allocates.wasFree address inTaken)
  · intro address covered
    exact wasThere address ((allocates.covers address).mp covered).1
  · rw [List.forall_mem_cons]
    refine ⟨fun address inside =>
      wasThere address (allocates.wasFree address inside), ?_⟩
    intro live isLive address inside
    exact (grants.covers address).mpr
      (Or.inl (intact.liveGranted live isLive address inside))

theorem unitsFor_fits
    {nbytes : Nat}
    (fits : nbytes + 2 * HEADER_SIZE ≤ WORD_RANGE) :
    unitsFor nbytes * HEADER_SIZE < WORD_RANGE ∧
      HEADER_SIZE + nbytes ≤ unitsFor nbytes * HEADER_SIZE := by
  unfold unitsFor
  simp only [HEADER_SIZE, WORD_RANGE] at fits ⊢
  split <;> omega

theorem HeapIntact.malloc
    {sbrk : SbrkCall K}
    {nbytes : Nat}
    (area : HeapArea base LAST_ADDRESS)
    (regions : FreshRegions sbrk base granted)
    (intact : HeapIntact base granted ⟨heap, blocks⟩ free)
    (fits : nbytes + 2 * HEADER_SIZE ≤ WORD_RANGE) :
    (∃ kernel,
      granted kernel = granted heap.kernel ∧
        ∀ fuel, 2 * free.length + 2 < fuel →
          heapMalloc sbrk base fuel nbytes heap =
            some (0, ⟨(setUp base heap).memory, (setUp base heap).freep,
              kernel⟩)) ∨
      ∃ later after region taken,
        (∀ fuel, 2 * free.length + 2 < fuel →
          heapMalloc sbrk base fuel nbytes heap =
            some (taken.start + HEADER_SIZE, later)) ∧
          Allocates base LAST_ADDRESS (unitsFor nbytes) (setUp base heap)
            later free after region taken ∧
          Grants granted heap.kernel later.kernel region ∧
          HEADER_SIZE + nbytes ≤ taken.length := by
  obtain ⟨unitsFit, room⟩ := unitsFor_fits fits
  by_cases large :
      ∃ block ∈ free,
        unitsFor nbytes ≤ headerSize (setUp base heap).memory block.start
  · obtain ⟨later, after, taken, ends, takes⟩ :=
      heapMalloc_found sbrk area intact.held large
    have sameKernel : later.kernel = heap.kernel :=
      takes.kernel.trans setUp_kernel
    refine Or.inr ⟨later, after, ⟨0, 0⟩, taken, ?_, takes.allocates,
      grants_nothing (by rw [sameKernel]), ?_⟩
    · exact fun fuel enough => ends fuel (by omega)
    · rw [takes.length]
      exact room
  have small :
      ∀ block ∈ free,
        headerSize (setUp base heap).memory block.start < unitsFor nbytes :=
    fun block isFree => Nat.lt_of_not_le fun enough =>
      large ⟨block, isFree, enough⟩
  obtain ⟨p, kernel, answer, failed | ⟨fresh, adds⟩⟩ :=
    regions.answers (grownUnits (unitsFor nbytes) * HEADER_SIZE % WORD_RANGE)
      heap.kernel
  · rw [failed.1] at answer
    exact Or.inl ⟨kernel, failed.2, fun fuel enough =>
      heapMalloc_refused intact.held small answer fuel (by omega)⟩
  · rw [Nat.mod_eq_of_lt (grownUnits_fits unitsFit)] at fresh adds
    have units : unitsFor nbytes ≤ grownUnits (unitsFor nbytes) :=
      le_grownUnits
    have hasHeader :
        HEADER_SIZE ≤ grownUnits (unitsFor nbytes) * HEADER_SIZE :=
      Nat.le_mul_of_pos_left _ (Nat.lt_of_lt_of_le unitsFor_pos units)
    obtain ⟨later, after, taken, ends, isKernel, allocates⟩ :=
      heapMalloc_grown area intact.held small rfl answer
        (fresh.isRegion intact hasHeader)
    refine Or.inr ⟨later, after, _, taken, ends, allocates, ?_, ?_⟩
    · rw [isKernel]
      exact fresh.grants adds
    · rw [allocates.length]
      exact room

end Live

end MyOS
