import MyOS.LibcHeapCalls

namespace MyOS

open Lib

/-!
# Taking a block out of the list

`malloc` takes a block of exactly the size out of the ring, or cuts the end of
a larger one, which stays in its place.
-/

section Taking

variable {K : Type} {base limit : Nat}
variable {heap : LibcHeap K} {free : List Extent}

/-- What `malloc` takes: a block of the size asked for. -/
structure Takes
    (base limit nunits : Nat)
    (heap later : LibcHeap K)
    (free after : List Extent)
    (taken : Extent) : Prop where
  moves :
    HeapMoves base limit heap later free after
      (fun address => Covers free address ∧ ¬ taken.Has address)
  block : IsBlock base limit taken
  length : taken.length = nunits * HEADER_SIZE
  sized : lengthAt later.memory taken.start = taken.length
  wasFree : ∀ address, taken.Has address → Covers free address
  kernel : later.kernel = heap.kernel
  count : after.length ≤ free.length

theorem lengthAt_setHeaderPtr
    {memory : Bytes}
    {p q value : Nat}
    (isHeader : IsHeader base p)
    (other : IsHeader base q) :
    lengthAt (setHeaderPtr memory p value) q = lengthAt memory q := by
  by_cases same : q = p
  · unfold lengthAt
    rw [same, headerSize_setHeaderPtr_self]
  · exact sameBesides_setHeaderPtr.lengthAt isHeader other same

theorem headerPtr_setHeaderSize
    {memory : Bytes}
    {p q value : Nat}
    (isHeader : IsHeader base p)
    (other : IsHeader base q) :
    headerPtr (setHeaderSize memory p value) q = headerPtr memory q := by
  by_cases same : q = p
  · rw [same, headerPtr_setHeaderSize_self]
  · exact sameBesides_setHeaderSize.headerPtr isHeader other same

theorem roves_belowOf
    {before behind : List Extent}
    {previous : Extent}
    (split : baseBlock base :: free = before ++ previous :: behind)
    (later : List Extent) :
    Roves base previous.start (belowOf before previous ++ later) := by
  cases before with
  | nil =>
      obtain ⟨rfl, _⟩ := List.cons.inj split
      exact ⟨_, List.mem_cons_self, rfl⟩
  | cons first before =>
      exact ⟨previous, List.mem_cons_of_mem _ (List.mem_append_left _
        (List.mem_append_right _ List.mem_cons_self)), rfl⟩

theorem take_exact
    {before behind : List Extent}
    {previous block : Extent}
    {nunits : Nat}
    (held : HeapList base limit heap free)
    (split : baseBlock base :: free = before ++ previous :: block :: behind)
    (exact_ : headerSize heap.memory block.start = nunits) :
    Takes base limit nunits heap
      { heap with
        memory := setHeaderPtr heap.memory previous.start
          (headerPtr heap.memory block.start)
        freep := previous.start }
      free (belowOf before previous ++ behind) block := by
  have list := held.list
  have whole := free_eq_of_ring split
  have atBlock :
      baseBlock base :: free = (before ++ [previous]) ++ block :: behind := by
    rw [split, List.append_assoc]
    rfl
  have sorted := list.starts_sorted
  rw [split, List.pairwise_append, List.pairwise_cons] at sorted
  have inRing :
      ∀ member, member ∈ before ∨ member = previous ∨ member = block ∨
        member ∈ behind → member ∈ baseBlock base :: free := by
    intro member isPart
    rw [split]
    simp only [List.mem_append, List.mem_cons]
    exact isPart
  have isPrevious := inRing previous (Or.inr (Or.inl rfl))
  have isBlock : block ∈ free := by
    rw [whole]
    exact List.mem_append_right _ List.mem_cons_self
  have header := list.isHeader isPrevious
  have blockHeader := (list.blocks block isBlock).isHeader
  have lengths :
      ∀ member ∈ baseBlock base :: free,
        lengthAt
            (setHeaderPtr heap.memory previous.start
              (headerPtr heap.memory block.start)) member.start =
          member.length := fun member isMember =>
    (lengthAt_setHeaderPtr header (list.isHeader isMember)).trans
      (list.ring.length_eq isMember)
  have links :
      ∀ member ∈ baseBlock base :: free, member.start ≠ previous.start →
        headerPtr
            (setHeaderPtr heap.memory previous.start
              (headerPtr heap.memory block.start)) member.start =
          headerPtr heap.memory member.start := fun member isMember apart =>
    sameBesides_setHeaderPtr.headerPtr header (list.isHeader isMember)
      apart
  have linked :
      headerPtr
          (setHeaderPtr heap.memory previous.start
            (headerPtr heap.memory block.start)) previous.start =
        headerPtr heap.memory block.start :=
    headerPtr_setHeaderPtr_self (Bytes.le64_lt _ _)
  have same :
      SameBesides previous.start heap.memory
        (setHeaderPtr heap.memory previous.start
          (headerPtr heap.memory block.start)) :=
    sameBesides_setHeaderPtr
  generalize
    setHeaderPtr heap.memory previous.start
      (headerPtr heap.memory block.start) = later
    at lengths links linked same ⊢
  have sizes :
      ∀ member ∈ baseBlock base :: free,
        lengthAt later member.start = lengthAt heap.memory member.start :=
    fun member isMember =>
      (lengths member isMember).trans (list.ring.length_eq isMember).symm
  have onward :
      Follows (headerPtr later) (lengthAt later) previous.start
        (behind ++ [baseBlock base]) := by
    apply (list.ring.onward atBlock).congr_concat linked
    · intro member isBehind
      have isMember := inRing member (Or.inr (Or.inr (Or.inr isBehind)))
      have above :=
        sorted.2.1.1 member (List.mem_cons_of_mem _ isBehind)
      exact ⟨links member isMember (Nat.ne_of_gt above),
        sizes member isMember⟩
    · exact sizes _ List.mem_cons_self
  have ring :
      LinkRing (headerPtr later) (lengthAt later) (baseBlock base)
        (belowOf before previous ++ behind) := by
    apply list.ring.relink split ?_ previous rfl
      (lengths previous isPrevious) onward
    intro member isBefore
    have isMember := inRing member (Or.inl isBefore)
    have below := sorted.2.2 member isBefore previous List.mem_cons_self
    exact ⟨links member isMember (Nat.ne_of_lt below), sizes member isMember⟩
  have gaps : Spaced (belowOf before previous ++ block :: behind) :=
    whole ▸ list.spaced
  have roves := roves_belowOf split behind
  refine ⟨⟨⟨⟨ring, gaps.remove, ?_⟩, roves⟩, ?_, ?_⟩,
    list.blocks block isBlock, ?_, ?_, ?_, rfl, ?_⟩
  · intro member isMember
    apply list.blocks
    rw [whole]
    exact (List.Sublist.append_left (List.sublist_cons_self _ _) _).subset
      isMember
  · intro address
    rw [gaps.covers_remove, ← whole]
  · intro address notBase notFree _
    exact same address (list.outside_header isPrevious notBase notFree)
  · rw [← exact_]
    exact (list.ring.length_eq (List.mem_cons_of_mem _ isBlock)).symm
  · exact lengths block (List.mem_cons_of_mem _ isBlock)
  · exact fun address inside => ⟨block, isBlock, inside⟩
  · rw [whole, List.length_append, List.length_append, List.length_cons]
    exact Nat.add_le_add_left (Nat.le_succ _) _

theorem take_tail
    {before behind : List Extent}
    {previous block : Extent}
    {nunits : Nat}
    (held : HeapList base limit heap free)
    (split : baseBlock base :: free = before ++ previous :: block :: behind)
    (positive : 0 < nunits)
    (larger : nunits < headerSize heap.memory block.start) :
    Takes base limit nunits heap
      { heap with
        memory :=
          setHeaderSize
            (setHeaderSize heap.memory block.start
              (headerSize heap.memory block.start - nunits))
            (block.tail (block.length - nunits * HEADER_SIZE)).start nunits
        freep := previous.start }
      free
      (belowOf before previous ++
        block.keep (block.length - nunits * HEADER_SIZE) :: behind)
      (block.tail (block.length - nunits * HEADER_SIZE)) := by
  have list := held.list
  have whole := free_eq_of_ring split
  have atBlock :
      baseBlock base :: free = (before ++ [previous]) ++ block :: behind := by
    rw [split, List.append_assoc]
    rfl
  have isBlock : block ∈ free := by
    rw [whole]
    exact List.mem_append_right _ List.mem_cons_self
  have inRing := List.mem_cons_of_mem (baseBlock base) isBlock
  have isArea := list.blocks block isBlock
  have blockHeader := isArea.isHeader
  have length := list.ring.length_eq inRing
  obtain ⟨cut, isCut⟩ :
      ∃ cut, cut = block.length - nunits * HEADER_SIZE := ⟨_, rfl⟩
  rw [← isCut]
  have left :
      (headerSize heap.memory block.start - nunits) * HEADER_SIZE = cut := by
    rw [isCut, ← length, Nat.sub_mul]
    rfl
  have inside : cut ≤ block.length := by
    rw [isCut]
    exact Nat.sub_le _ _
  have tailLength : (block.tail cut).length = nunits * HEADER_SIZE := by
    have fits : nunits * HEADER_SIZE ≤ block.length := by
      rw [← length]
      exact Nat.mul_le_mul_right _ (Nat.le_of_lt larger)
    simp only [Extent.tail]
    omega
  have cutHeader : HEADER_SIZE ∣ cut := by
    rw [← left]
    exact Nat.dvd_mul_left _ _
  have hasHeader : HEADER_SIZE ≤ cut := by
    rw [← left]
    exact Nat.le_mul_of_pos_left _ (Nat.sub_pos_of_lt larger)
  have tailAligned : HEADER_SIZE ∣ (block.tail cut).start :=
    Nat.dvd_add isArea.aligned cutHeader
  have tailAbove : base + HEADER_SIZE ≤ (block.tail cut).start :=
    Nat.le_trans isArea.above (Nat.le_add_right _ _)
  have tailHeader : IsHeader base (block.tail cut).start :=
    Or.inr ⟨tailAbove, tailAligned⟩
  have tailSize : HEADER_SIZE ≤ (block.tail cut).length := by
    rw [tailLength]
    exact Nat.le_mul_of_pos_left _ positive
  have sizeFits : headerSize heap.memory block.start < WORD_RANGE :=
    Bytes.le64_lt _ _
  have leftFits :
      headerSize heap.memory block.start - nunits < WORD_RANGE :=
    Nat.lt_of_le_of_lt (Nat.sub_le _ _) sizeFits
  have nunitsFits : nunits < WORD_RANGE := Nat.lt_trans larger sizeFits
  have apartTail : block.start ≠ (block.tail cut).start := by
    simp only [Extent.tail, HEADER_SIZE] at hasHeader ⊢
    omega
  have noMember :
      ∀ member ∈ baseBlock base :: free,
        member.start ≠ (block.tail cut).start := by
    intro member isMember atTail
    rcases List.mem_cons.mp isMember with isBase | isFree
    · have above := isArea.above
      rw [isBase] at atTail
      simp only [Extent.tail, baseBlock, HEADER_SIZE] at above atTail
      omega
    · have size := (list.blocks member isFree).hasHeader
      have inMember : member.Has member.start := by
        simp only [Extent.Has, Extent.stop, HEADER_SIZE] at size ⊢
        omega
      have inBlock : block.Has member.start := by
        simp only [Extent.Has, Extent.tail, Extent.stop, HEADER_SIZE]
          at atTail tailSize ⊢
        omega
      have same : member = block :=
        list.spaced.unique isFree isBlock inMember inBlock
      rw [same] at atTail
      exact apartTail atTail
  have lower :
      SameBesides block.start heap.memory
        (setHeaderSize heap.memory block.start
          (headerSize heap.memory block.start - nunits)) :=
    sameBesides_setHeaderSize
  have lowerSize :
      lengthAt
          (setHeaderSize heap.memory block.start
            (headerSize heap.memory block.start - nunits)) block.start =
        cut := by
    unfold lengthAt
    rw [headerSize_setHeaderSize_self leftFits]
    exact left
  have lowerLinks :
      ∀ member ∈ baseBlock base :: free,
        headerPtr
            (setHeaderSize heap.memory block.start
              (headerSize heap.memory block.start - nunits)) member.start =
          headerPtr heap.memory member.start := fun member isMember =>
    headerPtr_setHeaderSize blockHeader (list.isHeader isMember)
  generalize
    setHeaderSize heap.memory block.start
      (headerSize heap.memory block.start - nunits) = shorter
    at lower lowerSize lowerLinks ⊢
  have upper :
      SameBesides (block.tail cut).start shorter
        (setHeaderSize shorter (block.tail cut).start nunits) :=
    sameBesides_setHeaderSize
  have upperSize :
      lengthAt (setHeaderSize shorter (block.tail cut).start nunits)
          (block.tail cut).start =
        (block.tail cut).length := by
    unfold lengthAt
    rw [headerSize_setHeaderSize_self nunitsFits, tailLength]
  generalize setHeaderSize shorter (block.tail cut).start nunits = later
    at upper upperSize ⊢
  have links :
      ∀ member ∈ baseBlock base :: free,
        headerPtr later member.start = headerPtr heap.memory member.start :=
    fun member isMember =>
      (upper.headerPtr tailHeader (list.isHeader isMember)
        (noMember member isMember)).trans (lowerLinks member isMember)
  have sizes :
      ∀ member ∈ baseBlock base :: free, member.start ≠ block.start →
        lengthAt later member.start = lengthAt heap.memory member.start :=
    fun member isMember apart =>
      (upper.lengthAt tailHeader (list.isHeader isMember)
        (noMember member isMember)).trans
          (lower.lengthAt blockHeader (list.isHeader isMember) apart)
  have blockSize : lengthAt later block.start = (block.keep cut).length :=
    (upper.lengthAt tailHeader blockHeader apartTail).trans lowerSize
  have sorted := list.starts_sorted
  rw [atBlock, List.pairwise_append, List.pairwise_cons] at sorted
  have isMember :
      ∀ member, member ∈ before ++ [previous] ∨ member ∈ behind →
        member ∈ baseBlock base :: free := by
    intro member isPart
    rw [atBlock]
    exact List.mem_append.mpr
      (isPart.imp_right (List.mem_cons_of_mem _))
  have onward :
      Follows (headerPtr later) (lengthAt later) (block.keep cut).start
        (behind ++ [baseBlock base]) := by
    apply (list.ring.onward atBlock).congr_concat (links block inRing)
    · intro member isBehind
      have above := sorted.2.1.1 member isBehind
      exact ⟨links member (isMember member (Or.inr isBehind)),
        sizes member (isMember member (Or.inr isBehind))
          (Nat.ne_of_gt above)⟩
    · apply sizes _ List.mem_cons_self
      have above := isArea.above
      simp only [baseBlock, HEADER_SIZE] at above ⊢
      omega
  have ring :
      LinkRing (headerPtr later) (lengthAt later) (baseBlock base)
        (belowOf before previous ++ block.keep cut :: behind) := by
    have relinked :
        LinkRing (headerPtr later) (lengthAt later) (baseBlock base)
          ((before ++ [previous] ++ [block.keep cut]).tail ++ behind) := by
      apply list.ring.relink atBlock ?_ (block.keep cut) rfl blockSize onward
      intro member isBefore
      have below := sorted.2.2 member isBefore block List.mem_cons_self
      exact ⟨links member (isMember member (Or.inl isBefore)),
        sizes member (isMember member (Or.inl isBefore))
          (Nat.ne_of_lt below)⟩
    rw [List.tail_append_of_ne_nil (by simp), List.append_assoc] at relinked
    exact relinked
  have gaps : Spaced (belowOf before previous ++ block :: behind) :=
    whole ▸ list.spaced
  have cutGaps :=
    gaps.keep (Nat.lt_of_lt_of_le (by decide) hasHeader) inside
  have roves :=
    roves_belowOf split (block.keep cut :: behind)
  refine ⟨⟨⟨⟨ring, cutGaps, ?_⟩, roves⟩, ?_, ?_⟩, ?_, tailLength, upperSize,
    ?_, rfl, ?_⟩
  · intro member isPart
    rcases List.mem_append.mp isPart with isBelow | isRest
    · apply list.blocks
      rw [whole]
      exact List.mem_append_left _ isBelow
    · rcases List.mem_cons.mp isRest with isKept | isBehind
      · rw [isKept]
        refine ⟨isArea.aligned, isArea.above, ?_, hasHeader⟩
        have below := isArea.below
        simp only [Extent.keep, Extent.stop] at below ⊢
        omega
      · apply list.blocks
        rw [whole]
        exact List.mem_append_right _ (List.mem_cons_of_mem _ isBehind)
  · intro address
    rw [gaps.covers_keep inside, ← whole]
  · intro address notBase notFree _
    have outside : ¬ block.Has address := fun isIn =>
      notFree ⟨block, isBlock, isIn⟩
    have size := isArea.hasHeader
    change later address = heap.memory address
    rw [upper address, lower address]
    · exact list.outside_header inRing notBase notFree
    · simp only [Extent.Has, Extent.tail, Extent.stop]
        at outside tailSize ⊢
      omega
  · refine ⟨tailAligned, tailAbove, ?_, tailSize⟩
    · have below := isArea.below
      simp only [Extent.tail, Extent.stop] at below ⊢
      omega
  · intro address isIn
    exact ⟨block, isBlock, (Extent.has_cut address inside).mpr (Or.inr isIn)⟩
  · rw [whole, List.length_append, List.length_append, List.length_cons,
      List.length_cons]

theorem takeBlock_spec
    {before behind : List Extent}
    {previous block : Extent}
    {nunits : Nat}
    (area : HeapArea base limit)
    (held : HeapList base limit heap free)
    (split : baseBlock base :: free = before ++ previous :: block :: behind)
    (positive : 0 < nunits)
    (enough : nunits ≤ headerSize heap.memory block.start) :
    ∃ later after taken,
      takeBlock nunits previous.start block.start heap =
          (taken.start + HEADER_SIZE, later) ∧
        Takes base limit nunits heap later free after taken := by
  have isBlock : block ∈ free := by
    rw [free_eq_of_ring split]
    exact List.mem_append_right _ List.mem_cons_self
  have isArea := held.list.blocks block isBlock
  have length :=
    held.list.ring.length_eq (List.mem_cons_of_mem (baseBlock base) isBlock)
  have fits : block.stop < WORD_RANGE :=
    Nat.lt_of_le_of_lt isArea.below area.fits
  have room := isArea.hasHeader
  simp only [Extent.stop] at fits
  unfold takeBlock
  by_cases same : headerSize heap.memory block.start = nunits
  · rw [if_pos same, Nat.mod_eq_of_lt (by omega)]
    exact ⟨_, _, block, rfl, take_exact held split same⟩
  · rw [if_neg same]
    have larger : nunits < headerSize heap.memory block.start :=
      Nat.lt_of_le_of_ne enough (Ne.symm same)
    have left :
        (headerSize heap.memory block.start - nunits) * HEADER_SIZE =
          block.length - nunits * HEADER_SIZE := by
      rw [← length, Nat.sub_mul]
      rfl
    have takes := take_tail held split positive larger
    have tailFits :=
      Nat.lt_of_le_of_lt takes.block.below area.fits
    have tailRoom := takes.block.hasHeader
    have ahead :
        unitsAhead block.start
            (headerSize heap.memory block.start - nunits) =
          (block.tail (block.length - nunits * HEADER_SIZE)).start := by
      unfold unitsAhead
      rw [left]
      apply Nat.mod_eq_of_lt
      simp only [Extent.stop, Extent.tail] at tailFits ⊢
      omega
    dsimp only
    rw [ahead, Nat.mod_eq_of_lt (by
      simp only [Extent.stop] at tailFits
      omega)]
    exact ⟨_, _, _, rfl, takes⟩

end Taking

end MyOS
