import MyOS.Lib.ExtentRing
import MyOS.LibcHeap

namespace MyOS

open Lib

/-!
# The list of free blocks

The free blocks are extents with gaps between them, in a ring of headers
through the static block.  `free` puts a block where its address belongs and
joins it with its neighbours.
-/

section Headers

variable {memory : Bytes} {p q value : Nat}

/-- Where headers are: the static one, and those in the area above it. -/
def IsHeader (base p : Nat) : Prop :=
  p = base ∨ base + HEADER_SIZE ≤ p ∧ HEADER_SIZE ∣ p

theorem IsHeader.apart
    {base : Nat}
    (isHeader : IsHeader base p)
    (other : IsHeader base q)
    (different : p ≠ q) :
    p + HEADER_SIZE ≤ q ∨ q + HEADER_SIZE ≤ p := by
  rcases isHeader with rfl | ⟨above, i, rfl⟩
  · exact Or.inl (other.resolve_left different.symm).1
  · rcases other with rfl | ⟨_, j, rfl⟩
    · exact Or.inr above
    · simp only [HEADER_SIZE] at different ⊢
      omega

theorem headerPtr_setHeaderPtr_self
    (fits : value < WORD_RANGE) :
    headerPtr (setHeaderPtr memory p value) p = value := by
  unfold headerPtr setHeaderPtr
  rw [Bytes.le64_put_inside (Nat.le_refl _) (Nat.le_refl _), Nat.sub_self,
    Bytes.le64_ofNat]
  exact Nat.mod_eq_of_lt fits

theorem headerSize_setHeaderSize_self
    (fits : value < WORD_RANGE) :
    headerSize (setHeaderSize memory p value) p = value := by
  unfold headerSize setHeaderSize
  rw [Bytes.le64_put_inside (Nat.le_refl _) (Nat.le_refl _), Nat.sub_self,
    Bytes.le64_ofNat]
  exact Nat.mod_eq_of_lt fits

theorem headerSize_setHeaderPtr_self :
    headerSize (setHeaderPtr memory p value) p = headerSize memory p :=
  Bytes.le64_put_outside (Or.inr (Nat.le_refl _))

theorem headerPtr_setHeaderSize_self :
    headerPtr (setHeaderSize memory p value) p = headerPtr memory p :=
  Bytes.le64_put_outside (Or.inl (Nat.le_refl _))

/-- Memories that differ at one header only. -/
def SameBesides (p : Nat) (memory other : Bytes) : Prop :=
  ∀ address, (address < p ∨ p + HEADER_SIZE ≤ address) →
    other address = memory address

theorem sameBesides_setHeaderPtr :
    SameBesides p memory (setHeaderPtr memory p value) := by
  intro address outside
  apply Bytes.put_outside
  simp only [HEADER_SIZE] at outside
  omega

theorem sameBesides_setHeaderSize :
    SameBesides p memory (setHeaderSize memory p value) := by
  intro address outside
  apply Bytes.put_outside
  simp only [HEADER_SIZE] at outside
  omega

theorem SameBesides.trans
    {first second third : Bytes}
    (begins : SameBesides p first second)
    (goesOn : SameBesides p second third) :
    SameBesides p first third :=
  fun address outside =>
    (goesOn address outside).trans (begins address outside)

theorem le64_congr
    {other : Bytes}
    {place : Nat}
    (same :
      ∀ address, place ≤ address → address < place + 8 →
        other address = memory address) :
    other.le64 place = memory.le64 place := by
  simp only [Bytes.le64, Bytes.le32, Bytes.le16]
  rw [same place (by omega) (by omega),
    same (place + 1) (by omega) (by omega),
    same (place + 2) (by omega) (by omega),
    same (place + 2 + 1) (by omega) (by omega),
    same (place + 4) (by omega) (by omega),
    same (place + 4 + 1) (by omega) (by omega),
    same (place + 4 + 2) (by omega) (by omega),
    same (place + 4 + 2 + 1) (by omega) (by omega)]

theorem SameBesides.le64
    {other : Bytes}
    {place : Nat}
    (same : SameBesides p memory other)
    (outside : place + 8 ≤ p ∨ p + HEADER_SIZE ≤ place) :
    other.le64 place = memory.le64 place := by
  simp only [HEADER_SIZE] at outside
  apply le64_congr
  intro address lower upper
  apply same
  simp only [HEADER_SIZE]
  omega

theorem SameBesides.headerPtr
    {base : Nat}
    {other : Bytes}
    (same : SameBesides p memory other)
    (isHeader : IsHeader base p)
    (isOther : IsHeader base q)
    (apart : q ≠ p) :
    headerPtr other q = headerPtr memory q := by
  have outside := isHeader.apart isOther apart.symm
  apply same.le64
  simp only [HEADER_SIZE] at outside ⊢
  omega

theorem SameBesides.headerSize
    {base : Nat}
    {other : Bytes}
    (same : SameBesides p memory other)
    (isHeader : IsHeader base p)
    (isOther : IsHeader base q)
    (apart : q ≠ p) :
    headerSize other q = headerSize memory q := by
  have outside := isHeader.apart isOther apart.symm
  apply same.le64
  simp only [HEADER_SIZE] at outside ⊢
  omega

end Headers

/-- The bytes of the block at a header, as its size tells. -/
def lengthAt (memory : Bytes) (p : Nat) : Nat :=
  headerSize memory p * HEADER_SIZE

theorem SameBesides.lengthAt
    {memory other : Bytes}
    {base p q : Nat}
    (same : SameBesides p memory other)
    (isHeader : IsHeader base p)
    (isOther : IsHeader base q)
    (apart : q ≠ p) :
    lengthAt other q = lengthAt memory q := by
  unfold MyOS.lengthAt
  rw [same.headerSize isHeader isOther apart]

/-- The static block. -/
def baseBlock (base : Nat) : Extent :=
  ⟨base, 0⟩

/-- Where the heap's blocks lie: above the static block. -/
structure HeapArea (base limit : Nat) : Prop where
  positive : 0 < base
  above : base + HEADER_SIZE ≤ limit
  fits : limit < WORD_RANGE

/-- The block is one of the area. -/
structure IsBlock (base limit : Nat) (block : Extent) : Prop where
  aligned : HEADER_SIZE ∣ block.start
  above : base + HEADER_SIZE ≤ block.start
  below : block.stop ≤ limit
  hasHeader : HEADER_SIZE ≤ block.length

theorem IsBlock.isHeader
    {base limit : Nat}
    {block : Extent}
    (isBlock : IsBlock base limit block) :
    IsHeader base block.start :=
  Or.inr ⟨isBlock.above, isBlock.aligned⟩

/-- The heap's list has these blocks, in the order of their addresses. -/
structure FreeList
    (base limit : Nat)
    (memory : Bytes)
    (free : List Extent) : Prop where
  ring :
    LinkRing (headerPtr memory) (lengthAt memory) (baseBlock base) free
  spaced : Spaced free
  blocks : ∀ block ∈ free, IsBlock base limit block

/-- The roving pointer is at a member of the ring. -/
def Roves (base freep : Nat) (free : List Extent) : Prop :=
  ∃ member ∈ baseBlock base :: free, freep = member.start

section Search

variable {base limit : Nat} {memory : Bytes} {free : List Extent} {bp : Nat}

/-- The test of the loop of `free`. -/
def stopsAt (memory : Bytes) (bp p : Nat) : Prop :=
  (p < bp ∧ bp < headerPtr memory p) ∨
    (headerPtr memory p ≤ p ∧ (p < bp ∨ bp < headerPtr memory p))

theorem freeLoop_stop
    {place fuel : Nat}
    (here : stopsAt memory bp place) :
    freeLoop memory bp (fuel + 1) place = some place := by
  unfold freeLoop
  by_cases between : place < bp ∧ bp < headerPtr memory place
  · exact if_pos between
  · rw [if_neg between, if_pos (here.resolve_left between)]

theorem freeLoop_pass
    {place fuel : Nat}
    (notHere : ¬ stopsAt memory bp place) :
    freeLoop memory bp (fuel + 1) place =
      freeLoop memory bp fuel (headerPtr memory place) := by
  rw [stopsAt, not_or] at notHere
  conv_lhs => unfold freeLoop
  rw [if_neg notHere.1, if_neg notHere.2]

theorem freeLoop_along
    {place : Nat}
    {path : List Extent}
    (follows : Follows (headerPtr memory) (lengthAt memory) place path)
    (found :
      stopsAt memory bp place ∨
        ∃ member ∈ path, stopsAt memory bp member.start) :
    ∃ stop, (stop = place ∨ ∃ member ∈ path, stop = member.start) ∧
      stopsAt memory bp stop ∧
        ∀ fuel, path.length ≤ fuel →
          freeLoop memory bp (fuel + 1) place = some stop := by
  induction path generalizing place with
  | nil =>
      have here : stopsAt memory bp place := by
        rcases found with here | ⟨member, inPath, _⟩
        · exact here
        · exact absurd inPath List.not_mem_nil
      exact ⟨place, Or.inl rfl, here, fun _ _ => freeLoop_stop here⟩
  | cons next path inductionHypothesis =>
      by_cases here : stopsAt memory bp place
      · exact ⟨place, Or.inl rfl, here, fun _ _ => freeLoop_stop here⟩
      obtain ⟨isNext, _, rest⟩ := follows
      have later :
          stopsAt memory bp next.start ∨
            ∃ member ∈ path, stopsAt memory bp member.start := by
        obtain ⟨member, inPath, stops⟩ := found.resolve_left here
        rcases List.mem_cons.mp inPath with rfl | inRest
        · exact Or.inl stops
        · exact Or.inr ⟨member, inRest, stops⟩
      obtain ⟨stop, isMember, stops, ends⟩ := inductionHypothesis rest later
      refine ⟨stop, Or.inr ?_, stops, ?_⟩
      · rcases isMember with isFirst | ⟨member, inPath, same⟩
        · exact ⟨next, List.mem_cons_self, isFirst⟩
        · exact ⟨member, List.mem_cons_of_mem _ inPath, same⟩
      · intro fuel enough
        cases fuel with
        | zero => exact absurd enough (Nat.not_succ_le_zero _)
        | succ fuel =>
            rw [freeLoop_pass here, isNext]
            exact ends fuel (Nat.le_of_succ_le_succ enough)

theorem FreeList.starts_sorted
    (list : FreeList base limit memory free) :
    (baseBlock base :: free).Pairwise fun first second =>
      first.start < second.start := by
  rw [List.pairwise_cons]
  constructor
  · intro block member
    have above := (list.blocks block member).above
    simp only [baseBlock, HEADER_SIZE] at above ⊢
    omega
  · apply List.Pairwise.imp_of_mem ?_ list.spaced.apart
    intro first second _ _ gap
    exact Nat.lt_of_le_of_lt (Nat.le_add_right _ _) gap

/-- The members below an address and those above it. -/
def SplitAt
    (base : Nat)
    (free : List Extent)
    (bp : Nat)
    (before : List Extent)
    (member : Extent)
    (behind : List Extent) : Prop :=
  baseBlock base :: free = before ++ member :: behind ∧
    member.start < bp ∧ ∀ block ∈ behind, bp < block.start

theorem FreeList.exists_splitAt
    (list : FreeList base limit memory free)
    (above : base < bp)
    (apart : ∀ block ∈ free, block.start ≠ bp) :
    ∃ before member behind,
      SplitAt base free bp before member behind := by
  have sorted := list.starts_sorted
  have first : (baseBlock base).start < bp := above
  have others :
      ∀ block ∈ baseBlock base :: free, block.start ≠ bp := by
    rw [List.forall_mem_cons]
    exact ⟨Nat.ne_of_lt first, apart⟩
  unfold SplitAt
  generalize baseBlock base = head at sorted first others ⊢
  clear list apart
  induction free generalizing head with
  | nil =>
      exact ⟨[], head, [], rfl, first, fun block member =>
        absurd member List.not_mem_nil⟩
  | cons next free inductionHypothesis =>
      rw [List.pairwise_cons] at sorted
      rw [List.forall_mem_cons] at others
      by_cases below : next.start < bp
      · obtain ⟨before, member, behind, split, under, atop⟩ :=
          inductionHypothesis next sorted.2 below others.2
        exact ⟨head :: before, member, behind, by rw [split]; rfl, under,
          atop⟩
      · refine ⟨[], head, next :: free, rfl, first, ?_⟩
        have notSame := others.2 next List.mem_cons_self
        have later := (List.pairwise_cons.mp sorted.2).1
        rw [List.forall_mem_cons]
        refine ⟨by omega, fun block member => ?_⟩
        have further := later block member
        omega

theorem FreeList.stopsAt_of_splitAt
    {before behind : List Extent}
    {member : Extent}
    (list : FreeList base limit memory free)
    (split : SplitAt base free bp before member behind) :
    stopsAt memory bp member.start := by
  obtain ⟨whole, under, atop⟩ := split
  cases behind with
  | nil =>
      have isBase : headerPtr memory member.start = base :=
        list.ring.next_last whole
      refine Or.inr ⟨?_, Or.inl under⟩
      rw [isBase]
      have sorted := list.starts_sorted
      rw [whole, List.pairwise_append] at sorted
      cases before with
      | nil =>
          cases whole
          exact Nat.le_refl _
      | cons first before =>
          cases whole
          exact Nat.le_of_lt
            (sorted.2.2 _ List.mem_cons_self _ List.mem_cons_self)
  | cons next behind =>
      have isNext : headerPtr memory member.start = next.start :=
        list.ring.next_cons whole
      refine Or.inl ⟨under, ?_⟩
      rw [isNext]
      exact atop next List.mem_cons_self

theorem FreeList.splitAt_of_stopsAt
    {member : Extent}
    (list : FreeList base limit memory free)
    (above : base < bp)
    (isMember : member ∈ baseBlock base :: free)
    (stops : stopsAt memory bp member.start) :
    ∃ before behind, SplitAt base free bp before member behind := by
  obtain ⟨before, behind, whole⟩ := List.append_of_mem isMember
  have sorted := list.starts_sorted
  rw [whole, List.pairwise_append, List.pairwise_cons] at sorted
  refine ⟨before, behind, whole, ?_⟩
  cases behind with
  | nil =>
      have isBase : headerPtr memory member.start = base :=
        list.ring.next_last whole
      rw [stopsAt, isBase] at stops
      refine ⟨by omega, fun block inNil => absurd inNil List.not_mem_nil⟩
  | cons next behind =>
      have isNext : headerPtr memory member.start = next.start :=
        list.ring.next_cons whole
      have gap := sorted.2.1.1 next List.mem_cons_self
      have later := (List.pairwise_cons.mp sorted.2.1.2).1
      rw [stopsAt, isNext] at stops
      refine ⟨by omega, ?_⟩
      rw [List.forall_mem_cons]
      refine ⟨by omega, fun block inBehind => ?_⟩
      have further := later block inBehind
      omega

theorem FreeList.freeLoop_finds
    {freep : Nat}
    (list : FreeList base limit memory free)
    (roves : Roves base freep free)
    (above : base < bp)
    (apart : ∀ block ∈ free, block.start ≠ bp) :
    ∃ before member behind, SplitAt base free bp before member behind ∧
      ∀ fuel, free.length < fuel →
        freeLoop memory bp (fuel + 1) freep = some member.start := by
  obtain ⟨rover, isRover, rfl⟩ := roves
  obtain ⟨start, rest, turned⟩ := List.append_of_mem isRover
  have around := list.ring.turn turned
  have within :
      ∀ member, member ∈ baseBlock base :: free →
        member ∈ rest ++ start ++ [rover] := by
    intro member inRing
    rw [turned] at inRing
    simp only [List.mem_append, List.mem_cons] at inRing ⊢
    tauto
  have back :
      ∀ member, member ∈ rest ++ start ++ [rover] →
        member ∈ baseBlock base :: free := by
    intro member inPath
    rw [turned]
    simp only [List.mem_append, List.mem_cons, List.not_mem_nil, or_false]
      at inPath ⊢
    tauto
  obtain ⟨first, target, last, isTarget⟩ := list.exists_splitAt above apart
  have targetIn : target ∈ baseBlock base :: free := by
    rw [isTarget.1]
    exact List.mem_append_right _ List.mem_cons_self
  obtain ⟨stop, isMember, stops, ends⟩ :=
    freeLoop_along around
      (Or.inr ⟨target, within target targetIn,
        list.stopsAt_of_splitAt isTarget⟩)
  have member : ∃ member ∈ baseBlock base :: free, stop = member.start := by
    rcases isMember with isStart | ⟨member, inPath, same⟩
    · exact ⟨rover, isRover, isStart⟩
    · exact ⟨member, back member inPath, same⟩
  obtain ⟨member, inRing, rfl⟩ := member
  obtain ⟨before, behind, split⟩ :=
    list.splitAt_of_stopsAt above inRing stops
  refine ⟨before, member, behind, split, ?_⟩
  intro fuel enough
  apply ends
  have lengths := congrArg List.length turned
  simp only [List.length_cons, List.length_append, List.length_nil]
    at lengths ⊢
  omega

end Search

section Joins

variable {base limit : Nat} {memory : Bytes} {free : List Extent}
variable {before behind : List Extent} {member new : Extent}

theorem unitsAhead_eq
    {block : Extent}
    (sized : lengthAt memory block.start = block.length)
    (fits : block.stop < WORD_RANGE) :
    unitsAhead block.start (headerSize memory block.start) = block.stop := by
  unfold unitsAhead
  unfold lengthAt at sized
  rw [sized]
  exact Nat.mod_eq_of_lt fits

theorem units_add
    {p q first second : Nat}
    (isFirst : lengthAt memory p = first)
    (isSecond : lengthAt memory q = second)
    (fits : first + second < WORD_RANGE) :
    headerSize memory p + headerSize memory q < WORD_RANGE ∧
      (headerSize memory p + headerSize memory q) * HEADER_SIZE =
        first + second := by
  unfold lengthAt at isFirst isSecond
  simp only [HEADER_SIZE] at *
  omega

theorem FreeList.isHeader
    {block : Extent}
    (list : FreeList base limit memory free)
    (isMember : block ∈ baseBlock base :: free) :
    IsHeader base block.start := by
  rcases List.mem_cons.mp isMember with same | inFree
  · rw [same]
    exact Or.inl rfl
  · exact (list.blocks block inFree).isHeader

/-- A block that is put back: it has its size, and touches no free block. -/
structure Returns
    (base limit : Nat)
    (memory : Bytes)
    (free : List Extent)
    (new : Extent) : Prop where
  block : IsBlock base limit new
  sized : lengthAt memory new.start = new.length
  apart : ∀ address, new.Has address → ¬ Covers free address

theorem Returns.besides
    {block : Extent}
    (list : FreeList base limit memory free)
    (returns : Returns base limit memory free new)
    (isFree : block ∈ free) :
    block.stop ≤ new.start ∨ new.stop ≤ block.start := by
  have blockSize := (list.blocks block isFree).hasHeader
  have newSize := returns.block.hasHeader
  by_contra overlap
  rw [not_or] at overlap
  by_cases lower : block.start ≤ new.start
  · apply returns.apart new.start ⟨Nat.le_refl _, by
      simp only [Extent.stop, HEADER_SIZE] at *
      omega⟩
    exact ⟨block, isFree, lower, by omega⟩
  · apply returns.apart block.start ⟨by omega, by omega⟩
    exact ⟨block, isFree, Nat.le_refl _, by
      simp only [Extent.stop, HEADER_SIZE] at *
      omega⟩

theorem Returns.start_ne
    {block : Extent}
    (list : FreeList base limit memory free)
    (returns : Returns base limit memory free new)
    (isMember : block ∈ baseBlock base :: free) :
    block.start ≠ new.start := by
  rcases List.mem_cons.mp isMember with same | inFree
  · have above := returns.block.above
    rw [same]
    simp only [baseBlock, HEADER_SIZE] at above ⊢
    omega
  · have besides := returns.besides list inFree
    have size := (list.blocks block inFree).hasHeader
    have newSize := returns.block.hasHeader
    simp only [Extent.stop, HEADER_SIZE] at besides size newSize
    omega

theorem joinNext_spec
    (area : HeapArea base limit)
    (list : FreeList base limit memory free)
    (returns : Returns base limit memory free new)
    (split : SplitAt base free new.start before member behind) :
    SameBesides new.start memory
        (joinNext memory new.start member.start) ∧
      lengthAt (joinNext memory new.start member.start) new.start =
        (joinAbove new behind).1.length ∧
      Follows (headerPtr (joinNext memory new.start member.start))
        (lengthAt (joinNext memory new.start member.start)) new.start
        ((joinAbove new behind).2 ++ [baseBlock base]) := by
  have ahead :=
    unitsAhead_eq returns.sized
      (Nat.lt_of_le_of_lt returns.block.below area.fits)
  have header := returns.block.isHeader
  have onward := list.ring.onward split.1
  have inRing :
      ∀ block, block = member ∨ block ∈ behind →
        block ∈ baseBlock base :: free := by
    intro block isMember
    rw [split.1]
    exact List.mem_append_right _ (List.mem_cons.mpr isMember)
  have baseIn : baseBlock base ∈ baseBlock base :: free := List.mem_cons_self
  have besides :
      ∀ {other : Bytes}, SameBesides new.start memory other →
        ∀ block ∈ baseBlock base :: free,
          headerPtr other block.start = headerPtr memory block.start ∧
            lengthAt other block.start = lengthAt memory block.start := by
    intro other same block isMember
    have isHeader := list.isHeader isMember
    have apart := returns.start_ne list isMember
    exact ⟨same.headerPtr header isHeader apart,
      same.lengthAt header isHeader apart⟩
  cases behind with
  | nil =>
      have link : headerPtr memory member.start = base :=
        list.ring.next_last split.1
      have notBase : new.stop ≠ base := by
        have above := returns.block.above
        simp only [Extent.stop, HEADER_SIZE] at above ⊢
        omega
      have joined :
          joinNext memory new.start member.start =
            setHeaderPtr memory new.start base := by
        unfold joinNext
        rw [ahead, link, if_neg notBase]
      have same : SameBesides new.start memory
          (setHeaderPtr memory new.start base) := sameBesides_setHeaderPtr
      have baseFits : base < WORD_RANGE := by
        have above := area.above
        have fits := area.fits
        omega
      rw [joined]
      refine ⟨same, ?_, ?_, ?_, trivial⟩
      · unfold lengthAt
        rw [headerSize_setHeaderPtr_self]
        exact returns.sized
      · exact headerPtr_setHeaderPtr_self baseFits
      · rw [(besides same _ baseIn).2]
        exact list.ring.length_eq baseIn
  | cons next behind =>
      have nextIn := inRing next (Or.inr List.mem_cons_self)
      have behindIn :
          ∀ block ∈ behind, block ∈ baseBlock base :: free :=
        fun block member => inRing block
          (Or.inr (List.mem_cons_of_mem _ member))
      obtain ⟨link, nextSized, further⟩ := onward
      by_cases touches : new.stop = next.start
      · rw [joinAbove_of_touches touches]
        have free_next : next ∈ free := by
          rcases List.mem_cons.mp nextIn with isBase | inFree
          · have above := returns.block.above
            rw [isBase] at touches
            simp only [baseBlock, Extent.stop, HEADER_SIZE] at touches above
            omega
          · exact inFree
        have together :
            new.length + next.length < WORD_RANGE := by
          have below := (list.blocks next free_next).below
          have fits := area.fits
          simp only [Extent.stop] at touches below
          omega
        obtain ⟨sumFits, sum⟩ :=
          units_add returns.sized nextSized together
        let sized := setHeaderSize memory new.start
          (headerSize memory new.start + headerSize memory next.start)
        have sameSized : SameBesides new.start memory sized :=
          sameBesides_setHeaderSize
        have memberSame :=
          (besides sameSized member (inRing member (Or.inl rfl))).1
        have nextSame := (besides sameSized next nextIn).1
        have joined :
            joinNext memory new.start member.start =
              setHeaderPtr sized new.start (headerPtr memory next.start) := by
          unfold joinNext
          rw [ahead, link, if_pos touches]
          dsimp only
          rw [Nat.mod_eq_of_lt sumFits]
          change setHeaderPtr sized new.start
            (headerPtr sized (headerPtr sized member.start)) = _
          rw [memberSame, link, nextSame]
        have same :
            SameBesides new.start memory
              (setHeaderPtr sized new.start (headerPtr memory next.start)) :=
          sameSized.trans sameBesides_setHeaderPtr
        rw [joined]
        refine ⟨same, ?_, ?_⟩
        · unfold lengthAt
          rw [headerSize_setHeaderPtr_self,
            headerSize_setHeaderSize_self sumFits]
          exact sum
        · apply further.congr_concat
          · exact headerPtr_setHeaderPtr_self (Bytes.le64_lt _ _)
          · exact fun block member => besides same block (behindIn block member)
          · exact (besides same _ baseIn).2
      · rw [joinAbove_of_gap touches]
        have joined :
            joinNext memory new.start member.start =
              setHeaderPtr memory new.start next.start := by
          unfold joinNext
          rw [ahead, link, if_neg touches]
        have same : SameBesides new.start memory
            (setHeaderPtr memory new.start next.start) :=
          sameBesides_setHeaderPtr
        have nextFits : next.start < WORD_RANGE := by
          rw [← link]
          exact Bytes.le64_lt _ _
        rw [joined]
        refine ⟨same, ?_, ?_, ?_, ?_⟩
        · unfold lengthAt
          rw [headerSize_setHeaderPtr_self]
          exact returns.sized
        · exact headerPtr_setHeaderPtr_self nextFits
        · rw [(besides same next nextIn).2]
          exact nextSized
        · apply further.congr_concat
          · exact (besides same next nextIn).1
          · exact fun block member => besides same block (behindIn block member)
          · exact (besides same _ baseIn).2

theorem joinPrevious_spec
    {rest : List Extent}
    {joined : Extent}
    (isHeader : IsHeader base member.start)
    (sized : lengthAt memory member.start = member.length)
    (memberFits : member.stop < WORD_RANGE)
    (isNew : joined.start ≠ member.start)
    (newHeader : IsHeader base joined.start)
    (newSized : lengthAt memory joined.start = joined.length)
    (newFits : joined.stop < WORD_RANGE)
    (restHeaders :
      ∀ block ∈ rest,
        IsHeader base block.start ∧ block.start ≠ member.start)
    (baseTouches : member.start = base → member.stop ≠ joined.start)
    (follows :
      Follows (headerPtr memory) (lengthAt memory) joined.start
        (rest ++ [baseBlock base])) :
    SameBesides member.start memory
        (joinPrevious memory joined.start member.start) ∧
      if member.stop = joined.start then
        lengthAt (joinPrevious memory joined.start member.start)
            member.start = (member.join joined).length ∧
          Follows (headerPtr (joinPrevious memory joined.start member.start))
            (lengthAt (joinPrevious memory joined.start member.start))
            member.start (rest ++ [baseBlock base])
      else
        lengthAt (joinPrevious memory joined.start member.start)
            member.start = member.length ∧
          Follows (headerPtr (joinPrevious memory joined.start member.start))
            (lengthAt (joinPrevious memory joined.start member.start))
            member.start (joined :: rest ++ [baseBlock base]) := by
  have ahead := unitsAhead_eq sized memberFits
  have besides :
      ∀ {other : Bytes}, SameBesides member.start memory other →
        ∀ block : Extent, IsHeader base block.start →
          block.start ≠ member.start →
          headerPtr other block.start = headerPtr memory block.start ∧
            lengthAt other block.start = lengthAt memory block.start := by
    intro other same block otherHeader apart
    exact ⟨same.headerPtr isHeader otherHeader apart,
      same.lengthAt isHeader otherHeader apart⟩
  by_cases touches : member.stop = joined.start
  · have notBase : base ≠ member.start := fun same =>
      baseTouches same.symm touches
    have together : member.length + joined.length < WORD_RANGE := by
      simp only [Extent.stop] at touches newFits
      omega
    obtain ⟨sumFits, sum⟩ := units_add sized newSized together
    let larger := setHeaderSize memory member.start
      (headerSize memory member.start + headerSize memory joined.start)
    have sameLarger : SameBesides member.start memory larger :=
      sameBesides_setHeaderSize
    have same :
        SameBesides member.start memory
          (setHeaderPtr larger member.start
            (headerPtr memory joined.start)) :=
      sameLarger.trans sameBesides_setHeaderPtr
    have result :
        joinPrevious memory joined.start member.start =
          setHeaderPtr larger member.start
            (headerPtr memory joined.start) := by
      unfold joinPrevious
      rw [ahead, if_pos touches]
      dsimp only
      rw [Nat.mod_eq_of_lt sumFits]
      change setHeaderPtr larger member.start
        (headerPtr larger joined.start) = _
      rw [(besides sameLarger joined newHeader isNew).1]
    rw [result, if_pos touches]
    refine ⟨same, ?_, ?_⟩
    · unfold lengthAt
      rw [headerSize_setHeaderPtr_self,
        headerSize_setHeaderSize_self sumFits]
      exact sum
    · apply follows.congr_concat
      · exact headerPtr_setHeaderPtr_self (Bytes.le64_lt _ _)
      · exact fun block inRest => besides same block
          (restHeaders block inRest).1 (restHeaders block inRest).2
      · exact (besides same (baseBlock base) (Or.inl rfl) notBase).2
  · have result :
        joinPrevious memory joined.start member.start =
          setHeaderPtr memory member.start joined.start := by
      unfold joinPrevious
      rw [ahead, if_neg touches]
    have same :
        SameBesides member.start memory
          (setHeaderPtr memory member.start joined.start) :=
      sameBesides_setHeaderPtr
    have startFits : joined.start < WORD_RANGE :=
      Nat.lt_of_le_of_lt (Nat.le_add_right _ _) newFits
    rw [result, if_neg touches]
    refine ⟨same, ?_, ?_, ?_, ?_⟩
    · unfold lengthAt
      rw [headerSize_setHeaderPtr_self]
      exact sized
    · exact headerPtr_setHeaderPtr_self startFits
    · rw [(besides same joined newHeader isNew).2]
      exact newSized
    · apply follows.congr_concat
      · exact (besides same joined newHeader isNew).1
      · exact fun block inRest => besides same block
          (restHeaders block inRest).1 (restHeaders block inRest).2
      · by_cases isBase : base = member.start
        · change lengthAt _ base = lengthAt memory base
          rw [isBase]
          unfold lengthAt
          rw [headerSize_setHeaderPtr_self]
        · exact (besides same (baseBlock base) (Or.inl rfl) isBase).2

theorem IsBlock.join
    {lower upper : Extent}
    (isLower : IsBlock base limit lower)
    (isUpper : IsBlock base limit upper)
    (touches : lower.stop = upper.start) :
    IsBlock base limit (lower.join upper) where
  aligned := isLower.aligned
  above := isLower.above
  below := by
    rw [Extent.stop_join touches]
    exact isUpper.below
  hasHeader := Nat.le_trans isLower.hasHeader (Nat.le_add_right _ _)

/-- The free blocks below a new one. -/
def belowOf (before : List Extent) (member : Extent) : List Extent :=
  (before ++ [member]).tail

theorem free_eq_of_ring
    (whole : baseBlock base :: free = before ++ member :: behind) :
    free = belowOf before member ++ behind := by
  have blocks := congrArg List.tail whole
  unfold belowOf
  cases before with
  | nil => exact blocks
  | cons first before =>
      rw [List.cons_append, List.tail_cons]
      rw [List.tail_cons, List.cons_append, List.tail_cons] at blocks
      rw [blocks, List.append_assoc]
      rfl

theorem FreeList.outside_header
    {address : Nat}
    (list : FreeList base limit memory free)
    (isMember : member ∈ baseBlock base :: free)
    (notBase : ¬ (⟨base, HEADER_SIZE⟩ : Extent).Has address)
    (notFree : ¬ Covers free address) :
    address < member.start ∨ member.start + HEADER_SIZE ≤ address := by
  rcases List.mem_cons.mp isMember with isBase | isFree
  · rw [isBase]
    simp only [Extent.Has, Extent.stop, baseBlock] at notBase ⊢
    omega
  · have size := (list.blocks member isFree).hasHeader
    have outside : ¬ member.Has address := fun inside =>
      notFree ⟨member, isFree, inside⟩
    simp only [Extent.Has, Extent.stop] at outside
    omega

theorem FreeList.insert
    (area : HeapArea base limit)
    (list : FreeList base limit memory free)
    (returns : Returns base limit memory free new)
    (split : SplitAt base free new.start before member behind) :
    FreeList base limit
        (joinPrevious (joinNext memory new.start member.start) new.start
          member.start)
        (insertBetween (belowOf before member) new behind) ∧
      Roves base member.start
        (insertBetween (belowOf before member) new behind) ∧
      ∀ address,
        ¬ (⟨base, HEADER_SIZE⟩ : Extent).Has address →
        ¬ Covers free address → ¬ new.Has address →
        joinPrevious (joinNext memory new.start member.start) new.start
            member.start address =
          memory address := by
  have whole := free_eq_of_ring split.1
  have sorted := list.starts_sorted
  rw [split.1, List.pairwise_append, List.pairwise_cons] at sorted
  have inFree :
      ∀ block, block ∈ belowOf before member ∨ block ∈ behind →
        block ∈ free := by
    intro block isPart
    rw [whole]
    exact List.mem_append.mpr isPart
  have inRing :
      ∀ block, block ∈ before ∨ block = member ∨ block ∈ behind →
        block ∈ baseBlock base :: free := by
    intro block isPart
    rw [split.1]
    exact List.mem_append.mpr (isPart.imp_right List.mem_cons.mpr)
  have under : ∀ block ∈ belowOf before member, block.stop ≤ new.start := by
    intro block inBelow
    have besides := returns.besides list (inFree block (Or.inl inBelow))
    have notAbove : block.start ≤ member.start := by
      rcases List.mem_append.mp (List.mem_of_mem_tail inBelow) with
        inBefore | isMember
      · exact Nat.le_of_lt
          (sorted.2.2 block inBefore member List.mem_cons_self)
      · rw [List.mem_singleton.mp isMember]
    have lower := split.2.1
    simp only [Extent.stop] at besides ⊢
    omega
  have atop : ∀ block ∈ behind, new.stop ≤ block.start := by
    intro block inBehind
    have besides := returns.besides list (inFree block (Or.inr inBehind))
    have higher := split.2.2 block inBehind
    simp only [Extent.stop] at besides ⊢
    omega
  have newBlocks :=
    forall_joinAbove (IsBlock base limit)
      (fun _ _ lower upper => lower.join upper) returns.block
      (fun block inBehind => list.blocks block (inFree block (Or.inr inBehind)))
  obtain ⟨sameNext, nextSized, nextFollows⟩ :=
    joinNext_spec area list returns split
  have start := joinAbove_start new behind
  have restIn :
      ∀ block ∈ (joinAbove new behind).2, block ∈ behind :=
    fun block isRest => mem_of_mem_joinAbove isRest
  have spaced :=
    spaced_insertBetween (whole ▸ list.spaced)
      (Nat.lt_of_lt_of_le (by decide) returns.block.hasHeader) under atop
  have blocks :=
    forall_insertBetween (IsBlock base limit)
      (fun _ _ lower upper => lower.join upper)
      (fun block inBelow => list.blocks block (inFree block (Or.inl inBelow)))
      returns.block
      (fun block inBehind => list.blocks block (inFree block (Or.inr inBehind)))
  generalize joinNext memory new.start member.start = linked
    at sameNext nextSized nextFollows ⊢
  have header := returns.block.isHeader
  have memberIn := inRing member (Or.inr (Or.inl rfl))
  have memberHeader := list.isHeader memberIn
  have memberApart := returns.start_ne list memberIn
  have memberSized :
      lengthAt linked member.start = member.length :=
    (sameNext.lengthAt header memberHeader memberApart).trans
      (list.ring.length_eq memberIn)
  have memberFits : member.stop < WORD_RANGE := by
    apply Nat.lt_of_le_of_lt _ area.fits
    rcases List.mem_cons.mp memberIn with isBase | isFree
    · rw [isBase]
      exact Nat.le_trans (Nat.le_add_right _ _) area.above
    · exact (list.blocks member isFree).below
  have joinedBlock := newBlocks _ List.mem_cons_self
  have baseTouches :
      member.start = base → member.stop ≠ (joinAbove new behind).1.start := by
    intro isBase
    rw [start]
    rcases List.mem_cons.mp memberIn with same | isFree
    · rw [same]
      exact (returns.start_ne list List.mem_cons_self)
    · have above := (list.blocks member isFree).above
      simp only [HEADER_SIZE] at above
      omega
  have previous :=
    joinPrevious_spec memberHeader memberSized memberFits
      (by rw [start]; exact memberApart.symm) (by rw [start]; exact header)
      (by rw [start]; exact nextSized)
      (Nat.lt_of_le_of_lt joinedBlock.below area.fits)
      (fun block isRest => by
        have isBehind := restIn block isRest
        exact ⟨list.isHeader
          (inRing block (Or.inr (Or.inr isBehind))),
          Nat.ne_of_gt (sorted.2.1.1 block isBehind)⟩)
      baseTouches (by rw [start]; exact nextFollows)
  rw [start] at previous baseTouches
  obtain ⟨sameMember, result⟩ := previous
  generalize joinPrevious linked new.start member.start = later
    at sameMember result ⊢
  have kept :
      ∀ block ∈ before,
        headerPtr later block.start = headerPtr memory block.start ∧
          lengthAt later block.start = lengthAt memory block.start := by
    intro block inBefore
    have isMember := inRing block (Or.inl inBefore)
    have isHeader := list.isHeader isMember
    have apart := returns.start_ne list isMember
    have lower : block.start ≠ member.start :=
      Nat.ne_of_lt (sorted.2.2 block inBefore member List.mem_cons_self)
    exact ⟨(sameMember.headerPtr memberHeader isHeader lower).trans
        (sameNext.headerPtr header isHeader apart),
      (sameMember.lengthAt memberHeader isHeader lower).trans
        (sameNext.lengthAt header isHeader apart)⟩
  have ringAndRover :
      LinkRing (headerPtr later) (lengthAt later) (baseBlock base)
          (insertBetween (belowOf before member) new behind) ∧
        Roves base member.start
          (insertBetween (belowOf before member) new behind) := by
    cases before with
    | nil =>
        obtain ⟨rfl, rfl⟩ := List.cons.inj split.1
        rw [if_neg (baseTouches rfl)] at result
        exact ⟨result.2, baseBlock base, List.mem_cons_self, rfl⟩
    | cons first before =>
        have below :
            belowOf (first :: before) member = before ++ [member] := rfl
        rw [below]
        by_cases touches : member.stop = new.start
        · rw [if_pos touches] at result
          rw [insertBetween_of_touches touches]
          refine ⟨?_, _, List.mem_cons_of_mem _
            (List.mem_append_right _ List.mem_cons_self), rfl⟩
          have ring :=
            list.ring.relink split.1 kept
              (member.join (joinAbove new behind).1) rfl result.1
              result.2
          rw [List.cons_append, List.tail_cons, List.append_assoc] at ring
          exact ring
        · rw [if_neg touches] at result
          rw [insertBetween_of_gap touches]
          refine ⟨?_, member, List.mem_cons_of_mem _
            (List.mem_append_right _ List.mem_cons_self), rfl⟩
          have ring :=
            list.ring.relink split.1 kept member rfl result.1
              result.2
          rw [List.cons_append, List.tail_cons, List.append_assoc] at ring
          exact ring
  refine ⟨⟨ringAndRover.1, spaced, blocks⟩, ringAndRover.2, ?_⟩
  intro address notBase notFree notNew
  rw [sameMember address, sameNext address]
  · have size := returns.block.hasHeader
    simp only [Extent.Has, Extent.stop] at notNew
    omega
  · exact list.outside_header memberIn notBase notFree

end Joins

end MyOS
