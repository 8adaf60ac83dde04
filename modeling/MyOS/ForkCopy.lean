import MyOS.ExecRefinement

namespace MyOS

open Lib
open PageStore

/-!
# Copies of address spaces

`uvmcopy` maps a filled copy of each page of one table in another one.  The
first table and its pages are neither free nor in the second one, so that they
stay as they are while the second one grows.
-/

namespace PageStore

variable {store later inner : PageStore} {old new frame : Frame}
variable {end_address va i mem pa : Word} {turns : Nat}
variable {items : List PageItem} {frames tables : List Frame}

/-- The page of an entry, to be copied to the address where it is mapped. -/
def copyItem (store : PageStore) (old : Frame) (va : Word) : PageItem where
  va := va
  perm := PTE_FLAGS (store.pteAt old va)
  fill := fun mem inner => inner.copyPage mem (PTE2PA (store.pteAt old va))

/-- The pages that are mapped among those that follow an address. -/
def mappedFrom (store : PageStore) (old : Frame) : Nat → Word → List Word
  | 0, _ => []
  | turns + 1, i =>
      if carries (store.pteAt old i) PTE_V then
        i :: mappedFrom store old turns (i + 4096)
      else
        mappedFrom store old turns (i + 4096)

/-- The pages of the two tables are different, and those of the first in use. -/
structure TablesApart (store : PageStore) (old new : Frame) : Prop where
  notOwned : ∀ frame, store.Owns old frame → ¬ store.Owns new frame
  notFree :
    ∀ frame, store.Owns old frame → frameAddress frame ∉ store.free

theorem TablesApart.same
    (apart : store.TablesApart old new)
    (uses : Uses new store later tables frames) :
    SameTable old store later :=
  fun frame owns =>
    uses.rest frame (apart.notOwned frame owns) (apart.notFree frame owns)

theorem TablesApart.uses
    (apart : store.TablesApart old new)
    (uses : Uses new store later tables frames) :
    later.TablesApart old new where
  notOwned := by
    intro frame owns isNew
    have owned := (apart.same uses).owns.mp owns
    rcases (uses.owns frame).mp isNew with isTable | before
    · exact apart.notFree frame owned (uses.table_free isTable)
    · exact apart.notOwned frame owned before
  notFree := by
    intro frame owns isFree
    exact apart.notFree frame ((apart.same uses).owns.mp owns)
      (uses.free_subset isFree)

/-- How `uvmcopy` goes on after a page. -/
def copyThen
    (next : PageStore → Option (Int × PageStore)) :
    Mapping → Option (Int × PageStore)
  | .panic => none
  | .failed store => some (-1, store)
  | .mapped store => next store

/-- What `uvmcopy` returns, by what becomes of its pages. -/
def copyResult : Mapping → Option (Int × PageStore) :=
  copyThen fun store => some (0, store)

theorem copyResult_cons
    {pagetable : Word}
    {item : PageItem} :
    copyResult (inner.mapAll end_address pagetable (item :: items)) =
      copyThen
        (fun store =>
          copyResult (store.mapAll end_address pagetable items))
        (inner.mapFresh end_address pagetable item.va item.perm
          item.fill) := by
  conv_lhs => unfold mapAll
  cases inner.mapFresh end_address pagetable item.va item.perm item.fill with
  | panic => rfl
  | failed failing => rfl
  | mapped later => rfl

theorem flags_small (pte : Word) : (PTE_FLAGS pte).toNat < 1024 := by
  have mask : (0x3FF : Word).toNat = 1023 := rfl
  unfold PTE_FLAGS
  rw [BitVec.toNat_and, mask]
  exact Nat.lt_of_le_of_lt Nat.and_le_right (by decide)

theorem copyItem_fits
    (aligned : va.toNat % 4096 = 0) :
    (store.copyItem old va).Fits where
  aligned := aligned
  flags := flags_small _
  fills := fills_copyPage

theorem uvmcopyFrom_succ
    (below : i.toNat < MAXVA) :
    inner.uvmcopyFrom end_address (frameAddress old) (frameAddress new)
        (turns + 1) i =
      if carries (inner.pteAt old i) PTE_V = true then
        copyThen
          (fun store =>
            store.uvmcopyFrom end_address (frameAddress old)
              (frameAddress new) turns (i + 4096))
          (inner.mapFresh end_address (frameAddress new) i
            (PTE_FLAGS (inner.pteAt old i))
            (fun mem store =>
              store.copyPage mem (PTE2PA (inner.pteAt old i))))
      else
        inner.uvmcopyFrom end_address (frameAddress old) (frameAddress new)
          turns (i + 4096) := by
  have found := inner.walks old i
  conv_lhs => unfold uvmcopyFrom
  generalize (inner.walk false (frameAddress old) i).1 = walk at found ⊢
  cases found with
  | outOfRange high => exact absurd below (Nat.not_lt_of_le high)
  | null _ invalid => rw [if_neg invalid]
  | entry _ isEntry =>
      dsimp only
      rw [isEntry]
      by_cases valid : carries (inner.pteAt old i) PTE_V = true
      · rw [if_neg (not_not_intro valid), if_pos valid]
        cases inner.mapFresh end_address (frameAddress new) i
            (PTE_FLAGS (inner.pteAt old i))
            (fun mem store =>
              store.copyPage mem (PTE2PA (inner.pteAt old i))) with
        | panic => rfl
        | failed failing => rfl
        | mapped later => rfl
      · rw [if_pos valid, if_neg valid]

theorem uvmcopyFrom_eq
    (apart : inner.TablesApart old new)
    (table : inner.HoldsTable new)
    (freeable : ∀ page ∈ inner.free, Freeable end_address page)
    (aligned : i.toNat % 4096 = 0)
    (high : i.toNat + 4096 * turns ≤ MAXVA)
    (same :
      ∀ va : Word, inner.pteAt old va = store.pteAt old va) :
    inner.uvmcopyFrom end_address (frameAddress old) (frameAddress new) turns
        i =
      copyResult
        (inner.mapAll end_address (frameAddress new)
          ((store.mappedFrom old turns i).map (store.copyItem old))) := by
  induction turns generalizing inner i with
  | zero => rfl
  | succ turns inductionHypothesis =>
      have below : i.toNat < MAXVA := by
        omega
      have next := toNat_next below
      have nextAligned : (i + 4096).toNat % 4096 = 0 := by
        rw [next]
        omega
      have nextHigh : (i + 4096).toNat + 4096 * turns ≤ MAXVA := by
        rw [next]
        omega
      rw [uvmcopyFrom_succ below, same i]
      unfold mappedFrom
      by_cases valid : carries (store.pteAt old i) PTE_V = true
      · rw [if_pos valid, if_pos valid, List.map_cons]
        have itemFits : (store.copyItem old i).Fits := copyItem_fits aligned
        have fresh :
            MapsFresh new inner i (store.copyItem old i).perm
              (store.copyItem old i).fill _ :=
          mapFresh_spec table itemFits.fills aligned freeable
        rw [copyResult_cons]
        change
          copyThen _
              (inner.mapFresh end_address (frameAddress new) i
                (store.copyItem old i).perm (store.copyItem old i).fill) =
            copyThen _
              (inner.mapFresh end_address (frameAddress new) i
                (store.copyItem old i).perm (store.copyItem old i).fill)
        generalize
          inner.mapFresh end_address (frameAddress new) i
            (store.copyItem old i).perm (store.copyItem old i).fill = result
            at fresh ⊢
        cases result with
        | panic => rfl
        | failed failing => rfl
        | mapped later =>
            have placed :
                ∃ mem tables,
                  Places new inner (store.copyItem old i) mem later tables :=
              MapsFresh.places fresh
            obtain ⟨mem, tables, first⟩ := placed
            exact inductionHypothesis (apart.uses first.uses) first.uses.table
              (fun page isFree =>
                freeable page (first.uses.free_subset isFree))
              nextAligned nextHigh
              (fun va => (apart.same first.uses).pteAt.trans (same va))
      · rw [if_neg valid, if_neg valid]
        exact inductionHypothesis apart table freeable nextAligned nextHigh
          same

theorem mem_mappedFrom
    (aligned : i.toNat % 4096 = 0)
    (high : i.toNat + 4096 * turns ≤ MAXVA) :
    va ∈ store.mappedFrom old turns i ↔
      va.toNat % 4096 = 0 ∧ InPages i turns va ∧
        carries (store.pteAt old va) PTE_V = true := by
  induction turns generalizing i with
  | zero =>
      unfold mappedFrom InPages
      constructor
      · intro isIn
        cases isIn
      · rintro ⟨_, ⟨lower, upper⟩, _⟩
        exact absurd upper (Nat.not_lt_of_le lower)
  | succ turns inductionHypothesis =>
      have below : i.toNat < MAXVA := by
        omega
      have next := toNat_next below
      have nextAligned : (i + 4096).toNat % 4096 = 0 := by
        rw [next]
        omega
      have nextHigh : (i + 4096).toNat + 4096 * turns ≤ MAXVA := by
        rw [next]
        omega
      have rest := inductionHypothesis nextAligned nextHigh
      have first :
          va.toNat % 4096 = 0 → InPages i 1 va → va = i := by
        intro isAligned isFirst
        unfold InPages at isFirst
        apply BitVec.eq_of_toNat_eq
        omega
      rw [inPages_succ below]
      unfold mappedFrom
      by_cases valid : carries (store.pteAt old i) PTE_V = true
      · rw [if_pos valid, List.mem_cons, rest]
        constructor
        · rintro (isFirst | ⟨isAligned, inPages, isValid⟩)
          · rw [isFirst]
            exact ⟨aligned, Or.inl ⟨Nat.le_refl _, by omega⟩, valid⟩
          · exact ⟨isAligned, Or.inr inPages, isValid⟩
        · rintro ⟨isAligned, isFirst | inPages, isValid⟩
          · exact Or.inl (first isAligned isFirst)
          · exact Or.inr ⟨isAligned, inPages, isValid⟩
      · rw [if_neg valid, rest]
        constructor
        · rintro ⟨isAligned, inPages, isValid⟩
          exact ⟨isAligned, Or.inr inPages, isValid⟩
        · rintro ⟨isAligned, isFirst | inPages, isValid⟩
          · rw [first isAligned isFirst] at isValid
            exact absurd isValid valid
          · exact ⟨isAligned, inPages, isValid⟩

/-! ## The copy -/

/-- What a new table maps is a copy of what another one maps below a break. -/
structure Clones
    (store : PageStore)
    (old : Frame)
    (sz : Word)
    (later : PageStore)
    (new : Frame) : Prop where
  mapped :
    ∀ va pte : Word, va.toNat < sz.toNat →
      store.mappingAt old va = some pte →
        ∃ copied, later.mappingAt new va = some copied ∧
          PTE_FLAGS copied = PTE_FLAGS pte ∧
            later.contents (frameOf copied) = store.contents (frameOf pte) ∧
              frameAddress (frameOf copied) ∈ store.free ∧
                frameAddress (frameOf copied) ∉ later.free
  unmapped :
    ∀ va : Word, va.toNat < sz.toNat →
      store.mappingAt old va = none → later.mappingAt new va = none
  single :
    ∀ {va other pte otherPte : Word},
      va.toNat < sz.toNat → other.toNat < sz.toNat →
        later.mappingAt new va = some pte →
          later.mappingAt new other = some otherPte →
            frameOf pte = frameOf otherPte → pageOf va = pageOf other
  parent :
    ∀ va : Word, later.mappingAt old va = store.mappingAt old va
  rest :
    ∀ frame, frameAddress frame ∉ store.free →
      later.entries frame = store.entries frame

theorem entries_copyPage
    {source : Frame} :
    (store.copyPage (frameAddress frame) (frameAddress source)).entries
        frame =
      store.entries source := by
  funext index
  have place :
      frameAddress source +
          (entryAddress frame index - frameAddress frame) =
        entryAddress source index := by
    have bound := index.isLt
    have frameBound := frame.isLt
    have sourceBound := source.isLt
    apply BitVec.eq_of_toNat_eq
    rw [BitVec.toNat_add, BitVec.toNat_sub, toNat_entryAddress,
      toNat_entryAddress, toNat_frameAddress, toNat_frameAddress]
    omega
  unfold entries copyPage
  dsimp only
  rw [pgrounddown_entryAddress, if_pos rfl, place]

theorem flags_pteFor
    {pte : Word}
    (valid : carries pte PTE_V = true) :
    PTE_FLAGS (pteFor pa (PTE_FLAGS pte)) = PTE_FLAGS pte := by
  have mask (i : Nat) : (0x3FF : Word).getLsbD i = decide (i < 10) :=
    Nat.testBit_two_pow_sub_one 10 i
  have validMask (i : Nat) : (PTE_V : Word).getLsbD i = decide (i = 0) :=
    Nat.testBit_two_pow_sub_one 1 i |>.trans
      (decide_eq_decide.mpr Nat.lt_one_iff)
  have isValid : pte.getLsbD 0 = true := by
    by_contra isClear
    have isZero : pte &&& PTE_V = 0 := by
      apply BitVec.eq_of_getLsbD_eq
      intro i bound
      rw [BitVec.getLsbD_and, validMask]
      by_cases first : i = 0
      · rw [first, Bool.eq_false_iff.mpr isClear]
        rfl
      · simp [first]
    unfold carries at valid
    rw [isZero] at valid
    cases valid
  apply BitVec.eq_of_getLsbD_eq
  intro i bound
  unfold PTE_FLAGS pteFor PA2PTE
  rw [BitVec.getLsbD_and, BitVec.getLsbD_and, BitVec.getLsbD_or,
    BitVec.getLsbD_or, BitVec.getLsbD_and, BitVec.getLsbD_shiftLeft, mask,
    validMask]
  by_cases low : i < 10
  · by_cases first : i = 0
    · rw [first, isValid]
      rfl
    · simp [low, first]
  · simp [low]

/-- A table has been made of free pages, and nothing else has been touched. -/
structure NewTable
    (store first : PageStore)
    (new : Frame) : Prop where
  apart : first.MapsApart new
  owns : ∀ frame, first.Owns new frame → frameAddress frame ∈ store.free
  free : ∀ page ∈ first.free, page ∈ store.free
  rest :
    ∀ frame, frameAddress frame ∉ store.free →
      first.entries frame = store.entries frame

section Clones

variable {first : PageStore} {sz : Word}
variable (parent : store.MapsApart old)
variable (high : sz.toNat ≤ MAXVA)
variable (made : store.NewTable first new)
include parent made

theorem NewTable.same :
    SameTable old store first :=
  fun frame owns => made.rest frame (parent.table.outside frame owns)

theorem NewTable.tablesApart :
    first.TablesApart old new where
  notOwned := by
    intro frame owns isNew
    exact parent.table.outside frame ((made.same parent).owns.mp owns)
      (made.owns frame isNew)
  notFree := by
    intro frame owns isFree
    exact parent.table.outside frame ((made.same parent).owns.mp owns)
      (made.free _ isFree)

/-- How many pages `uvmcopy` looks at. -/
def copyTurns (sz : Word) : Nat :=
  (sz.toNat + (PGSIZE - 1)) / PGSIZE

omit parent made in
include high in
theorem copyTurns_high :
    (0 : Word).toNat + 4096 * copyTurns sz ≤ MAXVA := by
  have isMax : MAXVA = 274877906944 := rfl
  have isPage : PGSIZE = 4096 := rfl
  have isZero : (0 : Word).toNat = 0 := rfl
  unfold copyTurns
  rw [isZero, isPage]
  omega

omit parent made in
include high in
theorem mem_mapped_iff :
    va ∈ store.mappedFrom old (copyTurns sz) 0 ↔
      va.toNat % 4096 = 0 ∧ va.toNat < sz.toNat ∧
        carries (store.pteAt old va) PTE_V = true := by
  have isPage : PGSIZE = 4096 := rfl
  have isZero : (0 : Word).toNat = 0 := rfl
  rw [mem_mappedFrom rfl (copyTurns_high high)]
  unfold InPages copyTurns
  rw [isZero, isPage]
  constructor
  · rintro ⟨aligned, ⟨_, upper⟩, valid⟩
    exact ⟨aligned, by omega, valid⟩
  · rintro ⟨aligned, below, valid⟩
    exact ⟨aligned, ⟨Nat.zero_le _, by omega⟩, valid⟩

theorem copyItem_makes
    {item : PageItem}
    (isIn :
      item ∈ (store.mappedFrom old (copyTurns sz) 0).map
        (store.copyItem old))
    (below : sz.toNat ≤ MAXVA)
    (isPage : PGROUNDDOWN mem = mem)
    (same :
      ∀ frame, ¬ first.Owns new frame → frameAddress frame ∉ first.free →
        inner.entries frame = first.entries frame) :
    (item.fill mem inner).entries (pageOf mem) =
      store.entries (frameOf (store.pteAt old item.va)) := by
  obtain ⟨va, isMapped, isItem⟩ := List.mem_map.mp isIn
  obtain ⟨_, low, valid⟩ := (mem_mapped_iff below).mp isMapped
  have notFree :=
    (parent.apart (Nat.lt_of_lt_of_le low below)
      (mappingAt_eq_some.mpr ⟨rfl, valid⟩)).2
  rw [← isItem]
  unfold copyItem
  dsimp only
  rw [PTE2PA_eq, ← isPage, ← frameAddress_pageOf, pageOf_frameAddress,
    entries_copyPage, same, made.rest _ notFree]
  · exact fun isNew => notFree (made.owns _ isNew)
  · exact fun isFree => notFree (made.free _ isFree)

include high in
theorem clones_of_laid
    (clear :
      ∀ va : Word, va.toNat < sz.toNat →
        ¬ carries (first.pteAt new va) PTE_V = true)
    (laid :
      Laid new first
        ((store.mappedFrom old (copyTurns sz) 0).map (store.copyItem old))
        frames later) :
    Clones store old sz later new := by
  obtain ⟨tables, uses, _, _⟩ := laid.uses made.apart.table
  have lower {va : Word} (low : va.toNat < sz.toNat) : va.toNat < MAXVA :=
    Nat.lt_of_lt_of_le low high
  have down {va : Word} (low : va.toNat < sz.toNat) :
      (PGROUNDDOWN va).toNat < sz.toNat ∧
        (PGROUNDDOWN va).toNat % 4096 = 0 := by
    rw [toNat_pgrounddown]
    omega
  have apart :=
    made.apart.laid
      (fun item isIn => by
        obtain ⟨va, isMapped, isItem⟩ := List.mem_map.mp isIn
        obtain ⟨aligned, _, _⟩ := (mem_mapped_iff high).mp isMapped
        rw [← isItem]
        exact (copyItem_fits aligned).flags)
      laid
  refine ⟨?_, ?_, ?_, ?_, ?_⟩
  · intro va pte low isPte
    obtain ⟨isEntry, valid⟩ := mappingAt_eq_some.mp isPte
    have sameEntry : store.pteAt old (PGROUNDDOWN va) = pte :=
      (pteAt_pgrounddown (lower low)).trans isEntry
    have isMapped : PGROUNDDOWN va ∈ store.mappedFrom old (copyTurns sz) 0 := by
      refine (mem_mapped_iff high).mpr ⟨(down low).2, (down low).1, ?_⟩
      rw [sameEntry]
      exact valid
    obtain ⟨frame, isPlaced, isFrame⟩ :=
      laid.placed (List.mem_map_of_mem isMapped)
    have isCopied :
        later.pteAt new va = pteFor (frameAddress frame) (PTE_FLAGS pte) := by
      have atPage := laid.mapped isPlaced made.apart.table.aligned
      unfold copyItem at atPage
      dsimp only at atPage
      rw [pteAt_pgrounddown (lower low), sameEntry] at atPage
      exact atPage
    have isFilled :=
      laid.filled made.apart.table isPlaced
        (fun item isIn inner mem isPage same =>
          copyItem_makes parent made isIn high isPage same)
    unfold copyItem at isFilled
    dsimp only at isFilled
    rw [sameEntry] at isFilled
    have names :
        frameOf (pteFor (frameAddress frame) (PTE_FLAGS pte)) = frame := by
      unfold pteFor
      rw [frameOf_PA2PTE (flags_lt _), pageOf_frameAddress]
      exact flags_small pte
    refine ⟨_, mappingAt_eq_some.mpr ⟨isCopied, carries_pteFor⟩,
      flags_pteFor valid, ?_, ?_, ?_⟩
    · rw [names]
      unfold contents
      rw [isFilled]
    · rw [names]
      exact made.free _ (uses.data_free isFrame)
    · rw [names]
      exact (uses.data_apart isFrame).2
  · intro va low isNone
    apply mappingAt_eq_none
    rw [laid.kept (lower low)]
    · exact clear va low
    · intro item isIn same
      obtain ⟨other, isMapped, isItem⟩ := List.mem_map.mp isIn
      obtain ⟨_, otherLow, valid⟩ := (mem_mapped_iff high).mp isMapped
      rw [← isItem] at same
      have sameEntry : store.pteAt old other = store.pteAt old va :=
        pteAt_congr (lower low) (lower otherLow) same.symm
      rw [sameEntry] at valid
      rw [mappingAt_eq_some.mpr ⟨rfl, valid⟩] at isNone
      cases isNone
  · intro va other pte otherPte low otherLow isPte isOther
    exact apart.single (lower low) (lower otherLow) isPte isOther
  · intro va
    apply mappingAt_congr
    rw [((made.tablesApart parent).same uses).pteAt, (made.same parent).pteAt]
  · intro frame notFree
    rw [uses.rest frame, made.rest frame notFree]
    · exact fun isNew => notFree (made.owns _ isNew)
    · exact fun isFree => notFree (made.free _ isFree)

end Clones

end PageStore

end MyOS
