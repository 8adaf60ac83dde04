import MyOS.LibcHeapRuns

namespace MyOS

open Lib

/-!
# The heap stays intact

Each of the four functions comes back, keeps the heap intact and leaves the
blocks alone that it is not about; so does every run of calls.
-/

section Calls

variable {K : Type} {sbrk : SbrkCall K} {base : Nat}
variable {granted : K → List Extent}
variable {heap : LibcHeap K} {blocks : List LiveBlock} {free : List Extent}

theorem HeapIntact.addLive_eq
    {later : LibcHeap K}
    {after : List Extent}
    {taken : Extent}
    {bytes : Nat}
    (intact : HeapIntact base granted ⟨later, ⟨taken, bytes⟩ :: blocks⟩ after) :
    addLive (taken.start + HEADER_SIZE) bytes later blocks =
      ⟨later, ⟨taken, bytes⟩ :: blocks⟩ := by
  have isHeld := intact.live ⟨taken, bytes⟩ List.mem_cons_self
  have below := isHeld.block.below
  have room := isHeld.block.hasHeader
  have fits : taken.start < WORD_RANGE := by
    simp only [Extent.stop, LAST_ADDRESS, HEADER_SIZE, WORD_RANGE]
      at below room ⊢
    omega
  have notNull : taken.start + HEADER_SIZE ≠ 0 := by
    simp only [HEADER_SIZE]
    omega
  unfold addLive
  rw [if_neg notNull, headerOf_eq fits]
  have sized := isHeld.sized
  change lengthAt later.memory taken.start = taken.length at sized
  rw [sized]

theorem HeapIntact.refused
    {kernel : K}
    (area : HeapArea base LAST_ADDRESS)
    (intact : HeapIntact base granted ⟨heap, blocks⟩ free)
    (same : granted kernel = granted heap.kernel) :
    HeapIntact base granted
      ⟨⟨(setUp base heap).memory, (setUp base heap).freep, kernel⟩, blocks⟩
      free := by
  have held := intact.held
  change HeapList base LAST_ADDRESS (setUp base heap) free at held
  have notNull := held.freep_ne_zero area
  refine ⟨?_, fun isNull => absurd isNull notNull, ?_, intact.apart, ?_, ?_⟩
  · change HeapList base LAST_ADDRESS
      (setUp base
        ⟨(setUp base heap).memory, (setUp base heap).freep, kernel⟩) free
    unfold setUp at held notNull ⊢
    rw [if_neg notNull]
    exact ⟨held.list, held.roves⟩
  · intro live isLive
    have isHeld := intact.live live isLive
    have returns := intact.returns isLive
    exact ⟨isHeld.block, returns.sized, isHeld.room, isHeld.apart⟩
  · intro address covered
    change Covers (granted kernel) address
    rw [same]
    exact intact.freeGranted address covered
  · intro live isLive address inside
    change Covers (granted kernel) address
    rw [same]
    exact intact.liveGranted live isLive address inside

theorem HeapIntact.setUp_memory
    {live : LiveBlock}
    {address : Nat}
    (intact : HeapIntact base granted ⟨heap, blocks⟩ free)
    (isLive : live ∈ blocks)
    (inside : live.block.Has address) :
    (setUp base heap).memory address = heap.memory address :=
  MyOS.setUp_memory ((intact.live live isLive).block.outside_base inside)

/-- What a call does to an intact heap. -/
def CallIntact
    (sbrk : SbrkCall K)
    (base : Nat)
    (granted : K → List Extent)
    (system : HeapSystem K)
    (call : HeapCall) : Prop :=
  ∃ p later after,
    Ends (fun fuel => performCall sbrk base fuel call system) (p, later) ∧
      HeapIntact base granted later after ∧
      CallKeeps base system call p later

theorem HeapIntact.call_malloc
    {nbytes : Nat}
    (area : HeapArea base LAST_ADDRESS)
    (regions : FreshRegions sbrk base granted)
    (intact : HeapIntact base granted ⟨heap, blocks⟩ free)
    (fits : nbytes + 2 * HEADER_SIZE ≤ WORD_RANGE) :
    CallIntact sbrk base granted ⟨heap, blocks⟩ (.malloc nbytes) := by
  rcases intact.malloc area regions fits with
    ⟨kernel, same, ends⟩ |
    ⟨later, after, region, taken, ends, allocates, grants, room⟩
  · refine ⟨0, _, free,
      Ends.map ⟨_, ends⟩ fun result =>
        (result.1, addLive result.1 nbytes result.2 blocks),
      intact.refused area same, ?_, fun _ => rfl, ?_⟩
    · intro live isLive _
      exact ⟨isLive, fun address inside =>
        intact.setUp_memory isLive inside⟩
    · intro ptr bytes isRealloc
      cases isRealloc
  · have laterIntact := intact.allocated area allocates grants room
    have kept := intact.kept allocates grants
    have result :=
      Ends.map ⟨_, ends⟩ fun result =>
        (result.1, addLive result.1 nbytes result.2 blocks)
    rw [laterIntact.addLive_eq] at result
    refine ⟨_, _, after, result, laterIntact, ?_, ?_, ?_⟩
    · intro live isLive _
      exact ⟨List.mem_cons_of_mem _ isLive, fun address inside =>
        (kept live isLive address inside).2⟩
    · intro isNull
      exact absurd isNull (Nat.succ_ne_zero _)
    · intro ptr bytes isRealloc
      cases isRealloc

theorem IsLive.fits
    {memory : Bytes}
    {live : LiveBlock}
    (isLive : IsLive base memory free live) :
    live.pointer + live.bytes ≤ live.block.stop ∧
      live.block.stop < WORD_RANGE := by
  have below := isLive.block.below
  have room := isLive.room
  simp only [LiveBlock.pointer, Extent.stop, LAST_ADDRESS, WORD_RANGE]
    at below room ⊢
  omega

theorem HeapIntact.call_calloc
    {nmemb size : Nat}
    (area : HeapArea base LAST_ADDRESS)
    (regions : FreshRegions sbrk base granted)
    (intact : HeapIntact base granted ⟨heap, blocks⟩ free)
    (fits : nmemb * size + 2 * HEADER_SIZE ≤ WORD_RANGE) :
    CallIntact sbrk base granted ⟨heap, blocks⟩ (.calloc nmemb size) := by
  have total : nmemb * size % WORD_RANGE = nmemb * size := by
    apply Nat.mod_eq_of_lt
    simp only [HEADER_SIZE] at fits
    omega
  rcases intact.malloc area regions fits with
    ⟨kernel, same, ends⟩ |
    ⟨later, after, region, taken, ends, allocates, grants, room⟩
  · have returns :
        Ends (fun fuel => heapCalloc sbrk base fuel nmemb size heap)
          (0, ⟨(setUp base heap).memory, (setUp base heap).freep,
            kernel⟩) := by
      refine ⟨2 * free.length + 2, fun fuel enough => ?_⟩
      dsimp only [heapCalloc]
      rw [total, ends fuel enough]
      exact if_pos rfl
    refine ⟨0, _, free,
      returns.map fun result =>
        (result.1, addLive result.1 (nmemb * size) result.2 blocks),
      intact.refused area same, ?_, fun _ => rfl, ?_⟩
    · intro live isLive _
      exact ⟨isLive, fun address inside =>
        intact.setUp_memory isLive inside⟩
    · intro ptr bytes isRealloc
      cases isRealloc
  · have kept := intact.kept allocates grants
    have laterIntact := intact.allocated area allocates grants room
    have isNew := laterIntact.live _ List.mem_cons_self
    obtain ⟨inside, below⟩ := isNew.fits
    simp only [LiveBlock.pointer] at inside below
    have cleared :
        ∀ address,
          ¬ (taken.start + HEADER_SIZE ≤ address ∧ address < taken.stop) →
            memsetZero later.memory (taken.start + HEADER_SIZE)
                (nmemb * size) address =
              later.memory address := by
      intro address outside
      apply memsetZero_outside <;> omega
    have returns :
        Ends (fun fuel => heapCalloc sbrk base fuel nmemb size heap)
          (taken.start + HEADER_SIZE,
            ⟨memsetZero later.memory (taken.start + HEADER_SIZE)
              (nmemb * size), later.freep, later.kernel⟩) := by
      refine ⟨2 * free.length + 2, fun fuel enough => ?_⟩
      dsimp only [heapCalloc]
      rw [total, ends fuel enough]
      exact if_neg (Nat.succ_ne_zero _)
    generalize
      memsetZero later.memory (taken.start + HEADER_SIZE) (nmemb * size) =
        zeroed at cleared returns
    have zeroedIntact := laterIntact.store List.mem_cons_self cleared
    have result :=
      returns.map fun result =>
        (result.1, addLive result.1 (nmemb * size) result.2 blocks)
    rw [zeroedIntact.addLive_eq] at result
    refine ⟨_, _, after, result, zeroedIntact, ?_, ?_, ?_⟩
    · intro live isLive _
      refine ⟨List.mem_cons_of_mem _ isLive, fun address isIn => ?_⟩
      have apart :=
        (List.pairwise_cons.mp laterIntact.apart).1 live isLive address
      have isKept := (kept live isLive address isIn).2
      change zeroed address = heap.memory address
      rw [cleared address, isKept]
      intro written
      exact apart ⟨Nat.le_of_add_right_le written.1, written.2⟩ isIn
    · intro isNull
      exact absurd isNull (Nat.succ_ne_zero _)
    · intro ptr bytes isRealloc
      cases isRealloc

theorem LiveBlock.pointer_ne_zero (live : LiveBlock) : live.pointer ≠ 0 :=
  Nat.succ_ne_zero _

theorem dropLive_zero : dropLive 0 blocks = blocks := by
  unfold dropLive
  rw [List.filter_eq_self]
  intro live _
  exact decide_eq_true live.pointer_ne_zero

theorem HeapIntact.call_free
    {ptr : Nat}
    (area : HeapArea base LAST_ADDRESS)
    (intact : HeapIntact base granted ⟨heap, blocks⟩ free)
    (held : Held ⟨heap, blocks⟩ ptr) :
    CallIntact sbrk base granted ⟨heap, blocks⟩ (.free ptr) := by
  rcases held with rfl | ⟨live, isLive, rfl⟩
  · have returns : Ends (fun fuel => heapFree base fuel 0 heap) heap :=
      ⟨0, fun fuel _ => if_pos rfl⟩
    have result :=
      returns.map fun heap => (0, (⟨heap, dropLive 0 blocks⟩ : HeapSystem K))
    rw [dropLive_zero] at result
    refine ⟨0, _, free, ?_, intact, ?_, fun fails => fails.elim, ?_⟩
    · unfold performCall
      dsimp only
      rw [dropLive_zero]
      exact result
    · exact fun live isLive _ => ⟨isLive, fun _ _ => rfl⟩
    · intro ptr bytes isRealloc
      cases isRealloc
  · obtain ⟨later, after, ends, laterIntact, _, kept⟩ :=
      intact.putBack area isLive
    have returns :
        Ends (fun fuel => heapFree base fuel live.pointer heap) later := by
      refine ⟨free.length + 1, fun fuel enough => ?_⟩
      obtain ⟨fuel, rfl⟩ := Nat.exists_eq_succ_of_ne_zero
        (Nat.ne_of_gt (Nat.lt_of_le_of_lt (Nat.zero_le _) enough))
      exact ends fuel (Nat.lt_of_succ_lt_succ enough)
    have result :=
      returns.map fun heap =>
        (0, (⟨heap, dropLive live.pointer blocks⟩ : HeapSystem K))
    refine ⟨0, _, after, result, laterIntact, ?_, fun fails => fails.elim, ?_⟩
    · intro other isOther apart
      exact ⟨mem_dropLive.mpr ⟨isOther, apart⟩, kept other isOther apart⟩
    · intro ptr bytes isRealloc
      cases isRealloc

theorem HeapIntact.call_store
    {address : Nat}
    {value : UInt8}
    (intact : HeapIntact base granted ⟨heap, blocks⟩ free)
    (owned : ∃ live ∈ blocks, live.Owns address) :
    CallIntact sbrk base granted ⟨heap, blocks⟩ (.store address value) := by
  obtain ⟨live, isLive, owns⟩ := owned
  have isHeld := intact.live live isLive
  obtain ⟨room, _⟩ := isHeld.fits
  have written :
      ∀ place, place ≠ address →
        heap.memory.put address 1 (fun _ => value) place =
          heap.memory place := by
    intro place apart
    apply Bytes.put_outside
    omega
  refine ⟨0, _, free, ⟨0, fun _ _ => rfl⟩, intact.store isLive ?_, ?_,
    fun fails => fails.elim, ?_⟩
  · intro place outside
    apply written
    rintro rfl
    apply outside
    exact ⟨owns.1, Nat.lt_of_lt_of_le owns.2 room⟩
  · intro other isOther spared
    refine ⟨isOther, fun place inside => written place ?_⟩
    rintro rfl
    exact spared inside
  · intro ptr bytes isRealloc
    cases isRealloc

theorem IsLive.oldBytes_eq
    {memory : Bytes}
    {live : LiveBlock}
    (isLive : IsLive base memory free live) :
    HEADER_SIZE + oldBytes memory live.pointer = live.block.length := by
  have sized := isLive.sized
  have room := isLive.block.hasHeader
  obtain ⟨_, fits⟩ := isLive.fits
  have startFits : live.block.start < WORD_RANGE :=
    Nat.lt_of_le_of_lt (Nat.le_add_right _ _) fits
  unfold oldBytes LiveBlock.pointer
  rw [headerOf_eq startFits]
  unfold lengthAt at sized
  simp only [Extent.stop, HEADER_SIZE, WORD_RANGE] at sized room fits ⊢
  omega

theorem HeapIntact.resize
    {live : LiveBlock}
    {nbytes : Nat}
    (intact : HeapIntact base granted ⟨heap, blocks⟩ free)
    (isLive : live ∈ blocks)
    (room : HEADER_SIZE + nbytes ≤ live.block.length) :
    HeapIntact base granted
      ⟨heap, ⟨live.block, nbytes⟩ :: dropLive live.pointer blocks⟩ free := by
  have isHeld := intact.live live isLive
  refine ⟨intact.held, ?_, ?_, ?_, intact.freeGranted, ?_⟩
  · intro isNull
    have none := intact.ready isNull
    change blocks = [] at none
    rw [none] at isLive
    exact absurd isLive List.not_mem_nil
  · rw [List.forall_mem_cons]
    exact ⟨⟨isHeld.block, isHeld.sized, room, isHeld.apart⟩,
      fun other isOther => intact.live other (mem_dropLive.mp isOther).1⟩
  · rw [List.pairwise_cons]
    refine ⟨fun other isOther => ?_, intact.apart.filter _⟩
    obtain ⟨isBefore, apart⟩ := mem_dropLive.mp isOther
    have different : live ≠ other := fun same => apart (by rw [same])
    exact fun address =>
      liveApart_of_mem intact.apart isLive isBefore different address
  · rw [List.forall_mem_cons]
    exact ⟨intact.liveGranted live isLive,
      fun other isOther =>
        intact.liveGranted other (mem_dropLive.mp isOther).1⟩

theorem HeapIntact.call_realloc_same
    {live : LiveBlock}
    {nbytes : Nat}
    (intact : HeapIntact base granted ⟨heap, blocks⟩ free)
    (isLive : live ∈ blocks)
    (positive : nbytes ≠ 0)
    (enough : nbytes ≤ oldBytes heap.memory live.pointer) :
    CallIntact sbrk base granted ⟨heap, blocks⟩
      (.realloc live.pointer nbytes) := by
  have isHeld := intact.live live isLive
  have old := isHeld.oldBytes_eq
  have laterIntact :=
    intact.resize isLive (Nat.le_trans (Nat.add_le_add_left enough _)
      (Nat.le_of_eq old))
  have returns :
      Ends (fun fuel => heapRealloc sbrk base fuel live.pointer nbytes heap)
        (live.pointer, heap) := by
    refine ⟨0, fun fuel _ => ?_⟩
    dsimp only [heapRealloc]
    rw [if_neg live.pointer_ne_zero, if_neg positive, if_pos enough]
  have result :=
    returns.map fun result =>
      (result.1,
        if ReallocFails live.pointer nbytes result.1 then
          (⟨result.2, blocks⟩ : HeapSystem K)
        else
          addLive result.1 nbytes result.2 (dropLive live.pointer blocks))
  have succeeds : ¬ ReallocFails live.pointer nbytes live.pointer :=
    fun fails => live.pointer_ne_zero fails.1
  rw [if_neg succeeds] at result
  have added := laterIntact.addLive_eq
  change addLive live.pointer nbytes heap (dropLive live.pointer blocks) = _
    at added
  rw [added] at result
  refine ⟨_, _, free, result, laterIntact, ?_,
    fun fails => absurd fails succeeds, ?_⟩
  · intro other isOther apart
    exact ⟨List.mem_cons_of_mem _ (mem_dropLive.mpr ⟨isOther, apart⟩),
      fun _ _ => rfl⟩
  · intro ptr bytes isRealloc _ other _ isPointer index _
    rw [HeapCall.realloc.injEq] at isRealloc
    rw [isRealloc.1]

theorem HeapIntact.call_realloc_refused
    {ptr nbytes : Nat}
    {kernel : K}
    (area : HeapArea base LAST_ADDRESS)
    (intact : HeapIntact base granted ⟨heap, blocks⟩ free)
    (same : granted kernel = granted heap.kernel)
    (grows : ptr = 0 ∨ nbytes ≠ 0)
    (returns :
      Ends (fun fuel => heapRealloc sbrk base fuel ptr nbytes heap)
        (0, ⟨(setUp base heap).memory, (setUp base heap).freep, kernel⟩)) :
    CallIntact sbrk base granted ⟨heap, blocks⟩ (.realloc ptr nbytes) := by
  have result :=
    returns.map fun result =>
      (result.1,
        if ReallocFails ptr nbytes result.1 then
          (⟨result.2, blocks⟩ : HeapSystem K)
        else
          addLive result.1 nbytes result.2 (dropLive ptr blocks))
  rw [if_pos ⟨rfl, grows⟩] at result
  refine ⟨0, _, free, result, intact.refused area same, ?_, fun _ => rfl, ?_⟩
  · intro live isLive _
    exact ⟨isLive, fun address inside =>
      intact.setUp_memory isLive inside⟩
  · exact fun _ _ _ notNull => absurd rfl notNull

theorem HeapIntact.call_realloc_null
    {nbytes : Nat}
    (area : HeapArea base LAST_ADDRESS)
    (regions : FreshRegions sbrk base granted)
    (intact : HeapIntact base granted ⟨heap, blocks⟩ free)
    (fits : nbytes + 2 * HEADER_SIZE ≤ WORD_RANGE) :
    CallIntact sbrk base granted ⟨heap, blocks⟩ (.realloc 0 nbytes) := by
  have isMalloc :
      ∀ fuel, heapRealloc sbrk base fuel 0 nbytes heap =
        heapMalloc sbrk base fuel nbytes heap := fun fuel => if_pos rfl
  rcases intact.malloc area regions fits with
    ⟨kernel, same, ends⟩ |
    ⟨later, after, region, taken, ends, allocates, grants, room⟩
  · apply intact.call_realloc_refused area same (Or.inl rfl)
    exact ⟨_, fun fuel enough => (isMalloc fuel).trans (ends fuel enough)⟩
  · have kept := intact.kept allocates grants
    have laterIntact := intact.allocated area allocates grants room
    have returns :
        Ends (fun fuel => heapRealloc sbrk base fuel 0 nbytes heap)
          (taken.start + HEADER_SIZE, later) :=
      ⟨_, fun fuel enough => (isMalloc fuel).trans (ends fuel enough)⟩
    have succeeds :
        ¬ ReallocFails 0 nbytes (taken.start + HEADER_SIZE) :=
      fun fails => Nat.succ_ne_zero _ fails.1
    have result :=
      returns.map fun result =>
        (result.1,
          if ReallocFails 0 nbytes result.1 then
            (⟨result.2, blocks⟩ : HeapSystem K)
          else
            addLive result.1 nbytes result.2 (dropLive 0 blocks))
    rw [if_neg succeeds, dropLive_zero, laterIntact.addLive_eq] at result
    refine ⟨_, _, after, ?_, laterIntact, ?_,
      fun fails => absurd fails succeeds, ?_⟩
    · unfold performCall
      dsimp only
      rw [dropLive_zero]
      exact result
    · intro live isLive _
      exact ⟨List.mem_cons_of_mem _ isLive, fun address inside =>
        (kept live isLive address inside).2⟩
    · intro ptr bytes isRealloc _ live _ isPointer
      rw [HeapCall.realloc.injEq] at isRealloc
      rw [← isRealloc.1] at isPointer
      exact absurd isPointer live.pointer_ne_zero

theorem HeapIntact.call_realloc_zero
    {live : LiveBlock}
    (area : HeapArea base LAST_ADDRESS)
    (intact : HeapIntact base granted ⟨heap, blocks⟩ free)
    (isLive : live ∈ blocks) :
    CallIntact sbrk base granted ⟨heap, blocks⟩ (.realloc live.pointer 0) := by
  obtain ⟨later, after, ends, laterIntact, _, kept⟩ :=
    intact.putBack area isLive
  have returns :
      Ends (fun fuel => heapRealloc sbrk base fuel live.pointer 0 heap)
        (0, later) := by
    refine ⟨free.length + 1, fun fuel enough => ?_⟩
    obtain ⟨fuel, rfl⟩ := Nat.exists_eq_succ_of_ne_zero
      (Nat.ne_of_gt (Nat.lt_of_le_of_lt (Nat.zero_le _) enough))
    dsimp only [heapRealloc]
    rw [if_neg live.pointer_ne_zero, if_pos rfl, Nat.succ_eq_add_one,
      ends fuel (Nat.lt_of_succ_lt_succ enough)]
  have succeeds : ¬ ReallocFails live.pointer 0 0 := fun fails =>
    fails.2.elim live.pointer_ne_zero fun positive => positive rfl
  have result :=
    returns.map fun result =>
      (result.1,
        if ReallocFails live.pointer 0 result.1 then
          (⟨result.2, blocks⟩ : HeapSystem K)
        else
          addLive result.1 0 result.2 (dropLive live.pointer blocks))
  rw [if_neg succeeds] at result
  refine ⟨0, _, after, result, laterIntact, ?_,
    fun fails => absurd fails succeeds, ?_⟩
  · intro other isOther apart
    exact ⟨mem_dropLive.mpr ⟨isOther, apart⟩, kept other isOther apart⟩
  · exact fun _ _ _ notNull => absurd rfl notNull

theorem HeapIntact.call_realloc_grow
    {live : LiveBlock}
    {nbytes : Nat}
    (area : HeapArea base LAST_ADDRESS)
    (regions : FreshRegions sbrk base granted)
    (intact : HeapIntact base granted ⟨heap, blocks⟩ free)
    (isLive : live ∈ blocks)
    (fits : nbytes + 2 * HEADER_SIZE ≤ WORD_RANGE)
    (positive : nbytes ≠ 0)
    (more : oldBytes heap.memory live.pointer < nbytes) :
    CallIntact sbrk base granted ⟨heap, blocks⟩
      (.realloc live.pointer nbytes) := by
  have isHeld : IsLive base heap.memory free live := intact.live live isLive
  have old := isHeld.oldBytes_eq
  rcases intact.malloc area regions fits with
    ⟨kernel, same, ends⟩ |
    ⟨later, after, region, taken, ends, allocates, grants, room⟩
  · apply intact.call_realloc_refused area same (Or.inr positive)
    refine ⟨2 * free.length + 2, fun fuel enough => ?_⟩
    dsimp only [heapRealloc]
    rw [if_neg live.pointer_ne_zero, if_neg positive,
      if_neg (Nat.not_le_of_lt more), ends fuel enough]
    exact if_pos rfl
  have kept := intact.kept allocates grants
  have laterIntact := intact.allocated area allocates grants room
  have newApart := (List.pairwise_cons.mp laterIntact.apart).1
  have isNew : IsLive base later.memory after ⟨taken, nbytes⟩ :=
    laterIntact.live _ List.mem_cons_self
  have newBelow : taken.stop < WORD_RANGE := isNew.fits.2
  have liveBelow := isHeld.fits.2
  have liveRoom := isHeld.room
  have returns :
      ∀ freed : LibcHeap K,
        (∀ fuel, after.length < fuel →
          heapFree base (fuel + 1) live.pointer
              ⟨memcpyBytes later.memory (taken.start + HEADER_SIZE)
                live.pointer (oldBytes heap.memory live.pointer),
                later.freep, later.kernel⟩ =
            some freed) →
        Ends (fun fuel => heapRealloc sbrk base fuel live.pointer nbytes heap)
          (taken.start + HEADER_SIZE, freed) := by
    intro freed frees
    refine ⟨2 * free.length + 2 + after.length + 1, fun fuel enough => ?_⟩
    obtain ⟨fuel, rfl⟩ := Nat.exists_eq_succ_of_ne_zero
      (Nat.ne_of_gt (Nat.lt_of_le_of_lt (Nat.zero_le _) enough))
    dsimp only [heapRealloc]
    rw [if_neg live.pointer_ne_zero, if_neg positive,
      if_neg (Nat.not_le_of_lt more), ends _ (by omega)]
    dsimp only
    have notNull : taken.start + HEADER_SIZE ≠ 0 := Nat.succ_ne_zero _
    rw [if_neg notNull, Nat.succ_eq_add_one, frees fuel (by omega)]
  generalize oldBytes heap.memory live.pointer = count at old more returns
  have inLive :
      ∀ index, index < count → live.block.Has (live.pointer + index) := by
    intro index inside
    simp only [Extent.Has, Extent.stop, LiveBlock.pointer]
    omega
  have copiedOutside :
      ∀ address,
        ¬ (taken.start + HEADER_SIZE ≤ address ∧ address < taken.stop) →
          memcpyBytes later.memory (taken.start + HEADER_SIZE) live.pointer
              count address =
            later.memory address := by
    intro address outside
    simp only [Extent.stop] at outside newBelow
    apply memcpyBytes_outside <;> omega
  have copiedInside :
      ∀ index, index < count →
        memcpyBytes later.memory (taken.start + HEADER_SIZE) live.pointer
            count (taken.start + HEADER_SIZE + index) =
          heap.memory (live.pointer + index) := by
    intro index inside
    rw [← (kept live isLive _ (inLive index inside)).2]
    simp only [Extent.stop] at newBelow liveBelow
    have sourceFits : live.pointer + count ≤ WORD_RANGE := by
      simp only [LiveBlock.pointer]
      omega
    apply memcpyBytes_inside (by omega) sourceFits _ inside
    intro i small inNew
    apply newApart live isLive (live.pointer + i) _ (inLive i small)
    simp only [Extent.Has, Extent.stop]
    omega
  generalize
    memcpyBytes later.memory (taken.start + HEADER_SIZE) live.pointer count =
      copied
    at copiedOutside copiedInside returns
  have copiedIntact := laterIntact.store List.mem_cons_self copiedOutside
  obtain ⟨freed, last, frees, freedIntact, _, freedKept⟩ :=
    copiedIntact.putBack area (List.mem_cons_of_mem _ isLive)
  have newPointer : taken.start + HEADER_SIZE ≠ live.pointer := by
    intro same
    apply newApart live isLive taken.start <;>
      simp only [Extent.Has, Extent.stop, LiveBlock.pointer, HEADER_SIZE]
        at same room liveRoom ⊢ <;> omega
  have dropped :
      dropLive live.pointer (⟨taken, nbytes⟩ :: blocks) =
        ⟨taken, nbytes⟩ :: dropLive live.pointer blocks :=
    List.filter_cons_of_pos (decide_eq_true newPointer)
  rw [dropped] at freedIntact
  have succeeds :
      ¬ ReallocFails live.pointer nbytes (taken.start + HEADER_SIZE) :=
    fun fails => Nat.succ_ne_zero _ fails.1
  have result :=
    (returns freed frees).map fun result =>
      (result.1,
        if ReallocFails live.pointer nbytes result.1 then
          (⟨result.2, blocks⟩ : HeapSystem K)
        else
          addLive result.1 nbytes result.2 (dropLive live.pointer blocks))
  rw [if_neg succeeds, freedIntact.addLive_eq] at result
  refine ⟨_, _, last, result, freedIntact, ?_,
    fun fails => absurd fails succeeds, ?_⟩
  · intro other isOther apart
    refine ⟨List.mem_cons_of_mem _ (mem_dropLive.mpr ⟨isOther, apart⟩),
      fun address inside => ?_⟩
    rw [freedKept other (List.mem_cons_of_mem _ isOther) apart address inside]
    change copied address = heap.memory address
    rw [copiedOutside address, (kept other isOther address inside).2]
    intro written
    apply newApart other isOther address ⟨_, written.2⟩ inside
    exact Nat.le_of_add_right_le written.1
  · intro ptr bytes isRealloc _ other isOther isPointer index inside
    rw [HeapCall.realloc.injEq] at isRealloc
    obtain ⟨rfl, rfl⟩ := isRealloc
    have isCount : other.bytes ≤ count := by
      have sameRoom := (intact.live other isOther).room
      have sameStart : other.block.start = live.block.start :=
        Nat.add_right_cancel isPointer
      have same : other = live := by
        by_contra different
        apply liveApart_of_mem intact.apart isOther isLive different
          live.block.start <;>
            simp only [Extent.Has, Extent.stop, HEADER_SIZE]
              at sameRoom liveRoom ⊢ <;> omega
      rw [same] at sameRoom ⊢
      omega
    have inCount : index < count := by omega
    rw [← copiedInside index inCount]
    apply freedKept _ List.mem_cons_self newPointer
    simp only [Extent.Has, Extent.stop]
    omega

theorem HeapIntact.call
    {system : HeapSystem K}
    {call : HeapCall}
    (area : HeapArea base LAST_ADDRESS)
    (regions : FreshRegions sbrk base granted)
    (intact : HeapIntact base granted system free)
    (admissible : Admissible system call) :
    CallIntact sbrk base granted system call := by
  obtain ⟨heap, blocks⟩ := system
  cases call with
  | malloc nbytes => exact intact.call_malloc area regions admissible
  | calloc nmemb size => exact intact.call_calloc area regions admissible
  | free ptr => exact intact.call_free area admissible
  | store address value => exact intact.call_store admissible
  | realloc ptr nbytes =>
      obtain ⟨rfl | ⟨live, isLive, rfl⟩, fits⟩ := admissible
      · exact intact.call_realloc_null area regions fits
      by_cases nothing : nbytes = 0
      · rw [nothing]
        exact intact.call_realloc_zero area isLive
      by_cases enough : nbytes ≤ oldBytes heap.memory live.pointer
      · exact intact.call_realloc_same isLive nothing enough
      · exact intact.call_realloc_grow area regions isLive fits nothing
          (Nat.lt_of_not_le enough)

theorem HeapIntact.step
    {system later : HeapSystem K}
    {call : HeapCall}
    (area : HeapArea base LAST_ADDRESS)
    (regions : FreshRegions sbrk base granted)
    (intact : HeapIntact base granted system free)
    (step : HeapStep sbrk base system call later) :
    ∃ after, HeapIntact base granted later after := by
  obtain ⟨admissible, p, ends⟩ := step
  obtain ⟨_, _, after, known, laterIntact, _⟩ :=
    intact.call area regions admissible
  obtain ⟨_, rfl⟩ := Prod.mk.inj (ends.unique known)
  exact ⟨after, laterIntact⟩

/-- After every run of calls from a heap that has not been used the free list
is in order, with all live blocks apart from it and from each other in granted
memory; every further call comes back, keeps that, and leaves the blocks alone
that it is not about. -/
theorem libcHeap_intact
    {start system : HeapSystem K}
    {trace : List (HeapSystem K × HeapCall)}
    (area : HeapArea base LAST_ADDRESS)
    (regions : FreshRegions sbrk base granted)
    (unused : start.heap.freep = 0)
    (nothing : start.live = [])
    (run : Run (HeapStep sbrk base) start trace system) :
    (∃ free, HeapIntact base granted system free) ∧
      ∀ call, Admissible system call →
        ∃ p later,
          Ends (fun fuel => performCall sbrk base fuel call system)
              (p, later) ∧
            CallKeeps base system call p later := by
  have intact : ∃ free, HeapIntact base granted system free := by
    refine @Run.invariant_all _ _ _ _
      (fun system => ∃ free, HeapIntact base granted system free) ?_ ?_ _ _ run
    · obtain ⟨heap, blocks⟩ := start
      change blocks = [] at nothing
      rw [nothing]
      exact ⟨[], heapIntact_start area unused⟩
    · rintro current action final ⟨free, isIntact⟩ taken
      exact isIntact.step area regions taken
  refine ⟨intact, fun call admissible => ?_⟩
  obtain ⟨free, isIntact⟩ := intact
  obtain ⟨p, later, _, ends, _, keeps⟩ :=
    isIntact.call area regions admissible
  exact ⟨p, later, ends, keeps⟩

end Calls

section Bump

/-- The end of the regions that have been granted. -/
def regionsTop (base : Nat) : List Extent → Nat
  | [] => base + HEADER_SIZE
  | region :: regions => max region.stop (regionsTop base regions)

/-- A kernel that grants the next aligned region while there is room. -/
def bumpSbrk (base : Nat) : SbrkCall (List Extent) :=
  fun increment regions =>
    let start := (regionsTop base regions + 15) / HEADER_SIZE * HEADER_SIZE
    if start + increment < WORD_RANGE then
      some (start, regions ++ [⟨start, increment⟩])
    else
      some (SBRK_FAILED, regions)

theorem le_regionsTop (base : Nat) (regions : List Extent) :
    base + HEADER_SIZE ≤ regionsTop base regions ∧
      ∀ region ∈ regions, region.stop ≤ regionsTop base regions := by
  induction regions with
  | nil =>
      exact ⟨Nat.le_refl _, fun _ member => absurd member List.not_mem_nil⟩
  | cons region regions inductionHypothesis =>
      unfold regionsTop
      rw [List.forall_mem_cons]
      refine ⟨?_, Nat.le_max_left _ _, fun other member => ?_⟩
      · exact Nat.le_trans inductionHypothesis.1 (Nat.le_max_right _ _)
      · exact Nat.le_trans (inductionHypothesis.2 other member)
          (Nat.le_max_right _ _)

theorem freshRegions_bump (base : Nat) :
    FreshRegions (bumpSbrk base) base fun regions => regions := by
  constructor
  intro increment regions
  obtain ⟨above, increasing⟩ := le_regionsTop base regions
  unfold bumpSbrk
  dsimp only
  generalize isStart :
    (regionsTop base regions + 15) / HEADER_SIZE * HEADER_SIZE = start
  have top : regionsTop base regions ≤ start := by
    simp only [HEADER_SIZE] at isStart
    omega
  by_cases room : start + increment < WORD_RANGE
  · rw [if_pos room]
    refine ⟨start, _, rfl, Or.inr ⟨⟨?_, ?_, ?_, room⟩, rfl⟩⟩
    · exact ⟨_, isStart.symm.trans (Nat.mul_comm _ _)⟩
    · exact Nat.le_trans above top
    · exact fun earlier member =>
        Nat.le_trans (increasing earlier member) top
  · rw [if_neg room]
    exact ⟨SBRK_FAILED, regions, rfl, Or.inl ⟨rfl, rfl⟩⟩

/-- A heap that has not been used. -/
def unusedHeap : HeapSystem (List Extent) :=
  ⟨⟨fun _ => 0, 0, []⟩, []⟩

/-- The heap of the bump kernel is intact after a first request. -/
theorem libcHeap_intact_bump :
    ∃ system,
      Run (HeapStep (bumpSbrk 64) 64) unusedHeap
          [(unusedHeap, .malloc 100)] system ∧
        (∃ free, HeapIntact 64 (fun regions => regions) system free) ∧
        ∀ call, Admissible system call →
          ∃ p later,
            Ends (fun fuel => performCall (bumpSbrk 64) 64 fuel call system)
                (p, later) ∧
              CallKeeps 64 system call p later := by
  have area : HeapArea 64 LAST_ADDRESS :=
    ⟨by decide, by decide, by decide⟩
  have unused : HeapIntact 64 (fun regions => regions) unusedHeap [] :=
    heapIntact_start area rfl
  have fits : Admissible unusedHeap (.malloc 100) := by
    change 100 + 2 * HEADER_SIZE ≤ WORD_RANGE
    decide
  obtain ⟨p, system, _, ends, _, _⟩ :=
    unused.call area (freshRegions_bump 64) fits
  have run :
      Run (HeapStep (bumpSbrk 64) 64) unusedHeap
        [(unusedHeap, .malloc 100)] system :=
    .next .start ⟨fits, p, ends⟩
  exact ⟨system, run,
    libcHeap_intact area (freshRegions_bump 64) rfl rfl run⟩

end Bump

end MyOS
