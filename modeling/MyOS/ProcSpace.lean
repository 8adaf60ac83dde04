import MyOS.UserMemory

namespace MyOS

open Lib
open PageStore

/-!
# Address spaces

What holds of the memory of every process: the page table is a tree, every page
is mapped once, and no page is mapped that is free or belongs to the table.
-/

namespace PageStore

/-- The mapping of an address, if it has one. -/
def mappingAt (store : PageStore) (root : Frame) (va : Word) : Option Word :=
  if carries (store.pteAt root va) PTE_V then some (store.pteAt root va)
  else none

variable {store later : PageStore} {root : Frame} {va : Word}

theorem mappingAt_congr
    (same : later.pteAt root va = store.pteAt root va) :
    later.mappingAt root va = store.mappingAt root va := by
  unfold mappingAt
  rw [same]

theorem mappingAt_eq_none
    (isInvalid : ¬ carries (store.pteAt root va) PTE_V = true) :
    store.mappingAt root va = none := by
  unfold mappingAt
  rw [if_neg isInvalid]

theorem mappingAt_eq_some
    {pte : Word} :
    store.mappingAt root va = some pte ↔
      store.pteAt root va = pte ∧ carries pte PTE_V = true := by
  unfold mappingAt
  by_cases isValid : carries (store.pteAt root va) PTE_V = true
  · rw [if_pos isValid]
    constructor
    · intro same
      cases same
      exact ⟨rfl, isValid⟩
    · rintro ⟨rfl, _⟩
      rfl
  · rw [if_neg isValid]
    constructor
    · intro isSome
      cases isSome
    · rintro ⟨rfl, valid⟩
      exact absurd valid isValid

/-- Every mapped page is mapped once and is neither free nor in the table. -/
structure MapsApart (store : PageStore) (root : Frame) : Prop where
  table : store.HoldsTable root
  single :
    ∀ {va other : Word} {pte otherPte : Word},
      va.toNat < MAXVA → other.toNat < MAXVA →
        store.mappingAt root va = some pte →
          store.mappingAt root other = some otherPte →
            frameOf pte = frameOf otherPte → pageOf va = pageOf other
  apart :
    ∀ {va pte : Word}, va.toNat < MAXVA →
      store.mappingAt root va = some pte →
        ¬ store.Owns root (frameOf pte) ∧
          frameAddress (frameOf pte) ∉ store.free

theorem MapsApart.of_uses
    {tables : List Frame}
    (apart : store.MapsApart root)
    (uses : Uses root store later tables [])
    (same :
      ∀ {va pte : Word}, va.toNat < MAXVA →
        later.mappingAt root va = some pte →
          store.mappingAt root va = some pte) :
    later.MapsApart root where
  table := uses.table
  single := by
    intro va other pte otherPte low otherLow isPte isOther
    exact apart.single low otherLow (same low isPte) (same otherLow isOther)
  apart := by
    intro va pte low isPte
    obtain ⟨notOwned, notFree⟩ := apart.apart low (same low isPte)
    constructor
    · intro owns
      rcases (uses.owns _).mp owns with isTable | before
      · exact notFree (uses.table_free isTable)
      · exact notOwned before
    · intro isFree
      exact notFree (uses.free_subset isFree)

theorem MapsApart.of_same
    (apart : store.MapsApart root)
    (same : SameTable root store later)
    (free : later.free = store.free) :
    later.MapsApart root := by
  have sameMapping (va : Word) :
      later.mappingAt root va = store.mappingAt root va :=
    mappingAt_congr same.pteAt
  refine ⟨?_, ?_, ?_⟩
  · apply same.holds apart.table
    · rw [free]
      exact apart.table.distinct
    · intro page isFree
      rw [← free]
      exact isFree
  · intro va other pte otherPte below otherBelow isPte isOther
    rw [sameMapping] at isPte isOther
    exact apart.single below otherBelow isPte isOther
  · intro va pte below isPte
    rw [sameMapping] at isPte
    rw [free, same.owns]
    exact apart.apart below isPte

variable {b perm : Word} {count : Nat} {tables frames : List Frame}

theorem Grown.mappingAt
    (flags : perm.toNat < 1024)
    (grown : Grown root store later b perm count tables frames)
    {pte : Word}
    (low : va.toNat < MAXVA)
    (isPte : later.mappingAt root va = some pte) :
    (InPages b count va ∧
      ∃ frame, frames[pageFrom b va]? = some frame ∧ frameOf pte = frame) ∨
      (¬ InPages b count va ∧ store.mappingAt root va = some pte) := by
  by_cases inPages : InPages b count va
  · obtain ⟨frame, isFrame, isEntry⟩ := grown.mapped va low inPages
    obtain ⟨same, _⟩ := mappingAt_eq_some.mp isPte
    refine Or.inl ⟨inPages, frame, isFrame, ?_⟩
    rw [← same, isEntry]
    unfold pteFor
    rw [frameOf_PA2PTE (flags_lt flags), pageOf_frameAddress]
  · refine Or.inr ⟨inPages, ?_⟩
    rw [← mappingAt_congr (grown.kept va low inPages)]
    exact isPte

theorem Grown.page_of_frame
    (grown : Grown root store later b perm count tables frames)
    {frame : Frame}
    (isData : frame ∈ frames) :
    ∃ address : Word, address.toNat < MAXVA ∧ InPages b count address ∧
      later.pteAt root address = pteFor (frameAddress frame) perm := by
  have isMax : MAXVA = 274877906944 := rfl
  obtain ⟨index, isFrame⟩ := List.mem_iff_getElem?.mp isData
  obtain ⟨inside, _⟩ := List.getElem?_eq_some_iff.mp isFrame
  rw [grown.length] at inside
  have ends : b.toNat + 4096 * count ≤ MAXVA :=
    grown.high.resolve_right (Nat.ne_of_gt (Nat.zero_lt_of_lt inside))
  have place :
      (b + BitVec.ofNat 64 (4096 * index)).toNat =
        b.toNat + 4096 * index := by
    rw [BitVec.toNat_add, BitVec.toNat_ofNat]
    omega
  have low : (b + BitVec.ofNat 64 (4096 * index)).toNat < MAXVA := by
    omega
  have inPages :
      InPages b count (b + BitVec.ofNat 64 (4096 * index)) := by
    unfold InPages
    omega
  obtain ⟨found, isFound, isPte⟩ := grown.mapped _ low inPages
  have isIndex : pageFrom b (b + BitVec.ofNat 64 (4096 * index)) = index := by
    unfold pageFrom
    rw [place, Nat.add_sub_cancel_left,
      Nat.mul_div_cancel_left index (by decide)]
  rw [isIndex, isFrame] at isFound
  cases isFound
  exact ⟨_, low, inPages, isPte⟩

theorem MapsApart.grown
    (flags : perm.toNat < 1024)
    (apart : store.MapsApart root)
    (aligned : b.toNat % 4096 = 0)
    (grown : Grown root store later b perm count tables frames) :
    later.MapsApart root where
  table := grown.uses.table
  single := by
    intro va other pte otherPte low otherLow isPte isOther same
    rcases grown.mappingAt flags low isPte with
      ⟨inPages, frame, isFrame, names⟩ | ⟨notIn, before⟩
    · rcases grown.mappingAt flags otherLow isOther with
        ⟨otherIn, otherFrame, isOtherFrame, otherNames⟩ |
          ⟨otherNotIn, otherBefore⟩
      · rw [← same, names] at otherNames
        rw [← otherNames] at isOtherFrame
        obtain ⟨inside, _⟩ := List.getElem?_eq_some_iff.mp isFrame
        have samePlace :=
          (List.getElem?_inj inside grown.uses.data_nodup).mp
            (isFrame.trans isOtherFrame.symm)
        apply BitVec.eq_of_toNat_eq
        rw [toNat_pageOf, toNat_pageOf]
        unfold pageFrom InPages at *
        omega
      · exact absurd
          (names ▸ grown.uses.data_free (List.mem_of_getElem? isFrame))
          (same ▸ (apart.apart otherLow otherBefore).2)
    · rcases grown.mappingAt flags otherLow isOther with
        ⟨otherIn, otherFrame, isOtherFrame, otherNames⟩ |
          ⟨otherNotIn, otherBefore⟩
      · exact absurd
          (otherNames ▸
            grown.uses.data_free (List.mem_of_getElem? isOtherFrame))
          (same ▸ (apart.apart low before).2)
      · exact apart.single low otherLow before otherBefore same
  apart := by
    intro va pte low isPte
    rcases grown.mappingAt flags low isPte with
      ⟨inPages, frame, isFrame, names⟩ | ⟨notIn, before⟩
    · rw [names]
      exact grown.uses.data_apart (List.mem_of_getElem? isFrame)
    · obtain ⟨notOwned, notFree⟩ := apart.apart low before
      constructor
      · intro owns
        rcases (grown.uses.owns _).mp owns with isTable | owned
        · exact notFree (grown.uses.table_free isTable)
        · exact notOwned owned
      · intro isFree
        exact notFree (grown.uses.free_subset isFree)

variable {a : Word} {turns : Nat}

theorem mem_framesFrom
    (high : a.toNat + 4096 * turns ≤ MAXVA)
    {page : Word} :
    page ∈ store.framesFrom root turns a →
      ∃ address : Word, address.toNat < MAXVA ∧ InPages a turns address ∧
        page = PTE2PA (store.pteAt root address) := by
  induction turns generalizing a with
  | zero =>
      intro isIn
      cases isIn
  | succ turns inductionHypothesis =>
      have below : a.toNat < MAXVA := by
        omega
      have isFirst : InPages a (turns + 1) a := ⟨Nat.le_refl _, by omega⟩
      have next := toNat_next below
      intro isIn
      unfold framesFrom at isIn
      rcases List.mem_cons.mp isIn with isHead | isTail
      · exact ⟨a, below, isFirst, isHead⟩
      · have nextHigh : (a + 4096).toNat + 4096 * turns ≤ MAXVA := by
          omega
        obtain ⟨address, low, inPages, isPage⟩ :=
          inductionHypothesis nextHigh isTail
        exact ⟨address, low, (inPages_succ below).mpr (Or.inr inPages),
          isPage⟩

theorem framesFrom_mem
    (aligned : a.toNat % 4096 = 0)
    (high : a.toNat + 4096 * turns ≤ MAXVA)
    {address : Word}
    (inPages : InPages a turns address) :
    PTE2PA (store.pteAt root address) ∈ store.framesFrom root turns a := by
  induction turns generalizing a with
  | zero => exact absurd inPages.2 (Nat.not_lt_of_le inPages.1)
  | succ turns inductionHypothesis =>
      have below : a.toNat < MAXVA := by
        omega
      have low : address.toNat < MAXVA :=
        Nat.lt_of_lt_of_le inPages.2 high
      have next := toNat_next below
      have nextHigh : (a + 4096).toNat + 4096 * turns ≤ MAXVA := by
        omega
      unfold framesFrom
      rcases (inPages_succ below).mp inPages with isFirst | isLater
      · rw [pteAt_congr below low ((pageOf_eq_iff aligned).mpr isFirst)]
        exact List.mem_cons_self
      · exact List.mem_cons_of_mem _
          (inductionHypothesis (by omega) nextHigh isLater)

theorem MapsApart.framesFrom_nodup
    (apart : store.MapsApart root)
    (aligned : a.toNat % 4096 = 0)
    (high : a.toNat + 4096 * turns ≤ MAXVA)
    (valid :
      ∀ address : Word, address.toNat < MAXVA → InPages a turns address →
        carries (store.pteAt root address) PTE_V = true) :
    (store.framesFrom root turns a).Nodup := by
  induction turns generalizing a with
  | zero => exact List.nodup_nil
  | succ turns inductionHypothesis =>
      have below : a.toNat < MAXVA := by
        omega
      have isFirst : InPages a (turns + 1) a := ⟨Nat.le_refl _, by omega⟩
      have next := toNat_next below
      have nextHigh : (a + 4096).toNat + 4096 * turns ≤ MAXVA := by
        omega
      unfold framesFrom
      rw [List.nodup_cons]
      constructor
      · intro again
        obtain ⟨address, low, inPages, isPage⟩ :=
          mem_framesFrom nextHigh again
        rw [PTE2PA_eq, PTE2PA_eq, frameAddress_inj] at isPage
        have samePage :=
          apart.single below low
            (mappingAt_eq_some.mpr ⟨rfl, valid a below isFirst⟩)
            (mappingAt_eq_some.mpr
              ⟨rfl, valid address low
                ((inPages_succ below).mpr (Or.inr inPages))⟩)
            isPage
        exact not_inPages_of_next below inPages
          ((pageOf_eq_iff aligned).mp samePage.symm)
      · apply inductionHypothesis (by omega) nextHigh
        intro address low inPages
        exact valid address low ((inPages_succ below).mpr (Or.inr inPages))

theorem MapsApart.unmaps
    (apart : store.MapsApart root)
    (aligned : a.toNat % 4096 = 0)
    (high : a.toNat + 4096 * turns ≤ MAXVA)
    (valid :
      ∀ address : Word, address.toNat < MAXVA → InPages a turns address →
        carries (store.pteAt root address) PTE_V = true)
    (unmaps :
      Unmaps root store later a turns
        (store.framesFrom root turns a).reverse) :
    later.MapsApart root := by
  have isMapped {address : Word} :
      address.toNat < MAXVA → InPages a turns address →
        store.mappingAt root address = some (store.pteAt root address) :=
    fun low inPages =>
      mappingAt_eq_some.mpr ⟨rfl, valid address low inPages⟩
  have isFreed {page : Word} :
      page ∈ (store.framesFrom root turns a).reverse →
        ∃ address : Word, address.toNat < MAXVA ∧ InPages a turns address ∧
          page = frameAddress (frameOf (store.pteAt root address)) := by
    intro isIn
    obtain ⟨address, low, inPages, isPage⟩ :=
      mem_framesFrom high (List.mem_reverse.mp isIn)
    rw [PTE2PA_eq] at isPage
    exact ⟨address, low, inPages, isPage⟩
  have remains {va pte : Word} :
      va.toNat < MAXVA → later.mappingAt root va = some pte →
        ¬ InPages a turns va ∧ store.mappingAt root va = some pte := by
    intro low isPte
    by_cases inPages : InPages a turns va
    · obtain ⟨same, isValid⟩ := mappingAt_eq_some.mp isPte
      rw [unmaps.removed va low inPages] at same
      rw [← same] at isValid
      exact absurd isValid (by decide)
    · refine ⟨inPages, ?_⟩
      rw [← mappingAt_congr (unmaps.kept va low inPages)]
      exact isPte
  refine ⟨⟨?_, ?_, ?_, ?_⟩, ?_, ?_⟩
  · exact RadixTree.Separate.congr apart.table.separate unmaps.node
  · rw [unmaps.free, List.nodup_append]
    refine ⟨List.nodup_reverse.mpr
      (apart.framesFrom_nodup aligned high valid), apart.table.distinct, ?_⟩
    intro page isIn other isFree same
    obtain ⟨address, low, inPages, isPage⟩ := isFreed isIn
    rw [← same, isPage] at isFree
    exact (apart.apart low (isMapped low inPages)).2 isFree
  · intro page isIn
    rw [unmaps.free] at isIn
    rcases List.mem_append.mp isIn with isNew | wasFree
    · obtain ⟨address, _, _, isPage⟩ := isFreed isNew
      rw [isPage]
      exact pgrounddown_frameAddress _
    · exact apart.table.aligned page wasFree
  · intro frame owns isIn
    rw [unmaps.owns_iff] at owns
    rw [unmaps.free] at isIn
    rcases List.mem_append.mp isIn with isNew | wasFree
    · obtain ⟨address, low, inPages, isPage⟩ := isFreed isNew
      rw [frameAddress_inj] at isPage
      rw [isPage] at owns
      exact (apart.apart low (isMapped low inPages)).1 owns
    · exact apart.table.outside frame owns wasFree
  · intro va other pte otherPte low otherLow isPte isOther same
    exact apart.single low otherLow (remains low isPte).2
      (remains otherLow isOther).2 same
  · intro va pte low isPte
    obtain ⟨notIn, before⟩ := remains low isPte
    obtain ⟨notOwned, notFree⟩ := apart.apart low before
    refine ⟨fun owns => notOwned (unmaps.owns_iff.mp owns), ?_⟩
    intro isIn
    rw [unmaps.free] at isIn
    rcases List.mem_append.mp isIn with isNew | wasFree
    · obtain ⟨address, addressLow, inPages, isPage⟩ := isFreed isNew
      rw [frameAddress_inj] at isPage
      have samePage :=
        apart.single low addressLow before (isMapped addressLow inPages)
          isPage
      have numbers := congrArg BitVec.toNat samePage
      rw [toNat_pageOf, toNat_pageOf] at numbers
      apply notIn
      unfold InPages at inPages ⊢
      omega
    · exact notFree wasFree

end PageStore

/-- An address is in a page below a break. -/
def InImage (sz address : Word) : Prop :=
  address.toNat < pgRoundUp sz.toNat

theorem InImage.mono
    {low high address : Word}
    (isIn : InImage low address)
    (less : low.toNat ≤ high.toNat) :
    InImage high address :=
  Nat.lt_of_lt_of_le isIn
    (Nat.mul_le_mul_right PGSIZE
      (Nat.div_le_div_right (Nat.add_le_add_right less (PGSIZE - 1))))

namespace ProcMemory

/-- The memory of a process is well formed. -/
structure Space
    (end_address : Word)
    (memory : ProcMemory)
    (root : Frame) : Prop where
  isRoot : memory.pagetable = frameAddress root
  maps : memory.store.MapsApart root
  freeable : ∀ page ∈ memory.store.free, Freeable end_address page
  inRange : memory.sz.toNat ≤ MAXVA

end ProcMemory

end MyOS
