import MyOS.ExecOutline

namespace MyOS

open Lib
open PageStore

/-!
# Outlines decide what `sys_exec` does

The page store refines the outlines: each loop of `sys_exec` panics, goes to
`bad` or ends as it does on the outline, and the outline still describes the
table then.  The address space that is made is well formed.
-/

namespace PageStore

variable {store later inner : PageStore} {root frame : Frame}
variable {va end_address perm : Word} {turns : Nat}
variable {file : List UInt8} {outline : Outline} {item : PageItem}
variable {items : List PageItem} {result : Mapping}

/-- A page table to which pages can be added. -/
structure Workable
    (end_address : Word)
    (root : Frame)
    (store : PageStore) : Prop where
  apart : store.MapsApart root
  freeable : ∀ page ∈ store.free, Freeable end_address page

/-- An outline describes a page table. -/
structure Outlines
    (end_address : Word)
    (root : Frame)
    (store : PageStore)
    (outline : Outline) : Prop where
  workable : Workable end_address root store
  pages :
    ∀ va : Word, va.toNat < MAXVA →
      (carries (store.pteAt root va) PTE_V = true ↔
        pageOf va ∈ outline.pages)
  present :
    ∀ path, path.length ≤ 2 → store.has root path = outline.present path
  left : store.free.length = outline.left

/-- A loop comes to the same on the page store and on the outline. -/
inductive Follows (end_address : Word) (root : Frame) :
    Mapping → Outlined → Prop
  | panic :
      Follows end_address root .panic .panic
  | bad
      {store : PageStore}
      (workable : Workable end_address root store) :
      Follows end_address root (.failed store) .bad
  | done
      {store : PageStore}
      {outline : Outline}
      (outlines : Outlines end_address root store outline) :
      Follows end_address root (.mapped store) (.done outline)

theorem Workable.uses
    {tables : List Frame}
    (workable : Workable end_address root store)
    (uses : Uses root store later tables [])
    (same : ∀ va, later.pteAt root va = store.pteAt root va) :
    Workable end_address root later where
  apart := workable.apart.of_uses uses fun _ isPte => by
    rw [← mappingAt_congr (same _)]
    exact isPte
  freeable := fun page isFree =>
    workable.freeable page (uses.free_subset isFree)

theorem Outlines.places
    {mem : Word}
    {tables : List Frame}
    (outlines : Outlines end_address root store outline)
    (flags : item.perm.toNat < 1024)
    (first : Places root store item mem later tables) :
    outline.place item.va =
        .done {
          pages := pageOf item.va :: outline.pages
          present := adding outline.present item.va
          left := outline.left - (missing outline.present item.va + 1)
        } ∧
      Outlines end_address root later {
        pages := pageOf item.va :: outline.pages
        present := adding outline.present item.va
        left := outline.left - (missing outline.present item.va + 1)
      } := by
  have sameMissing :
      missing (store.has root) item.va = missing outline.present item.va :=
    missing_congr outlines.present
  have total := first.uses.length
  rw [first.count, sameMissing, List.length_singleton, outlines.left] at total
  obtain ⟨below, unmapped⟩ := first.fine
  have notPlaced : pageOf item.va ∉ outline.pages := by
    intro isIn
    exact unmapped ((outlines.pages item.va below).mpr isIn)
  constructor
  · unfold Outline.place
    rw [if_neg (by omega), if_neg, if_neg (by omega)]
    rintro (high | isIn)
    · exact absurd below (Nat.not_lt_of_le high)
    · exact notPlaced isIn
  · refine ⟨⟨outlines.workable.apart.places flags first, ?_⟩, ?_, ?_, ?_⟩
    · intro page isFree
      exact outlines.workable.freeable page (first.uses.free_subset isFree)
    · intro va low
      rw [first.pte va low, List.mem_cons]
      split
      next same =>
        exact ⟨fun _ => Or.inl same, fun _ => carries_pteFor⟩
      next different =>
        rw [outlines.pages va low]
        exact (or_iff_right different).symm
    · intro path short
      rw [first.present path short]
      unfold adding
      rw [outlines.present path short]
    · dsimp only
      omega

theorem Outlines.place
    (outlines : Outlines end_address root store outline)
    (fits : item.Fits)
    (fresh : MapsFresh root store item.va item.perm item.fill result) :
    Follows end_address root result (outline.place item.va) := by
  have sameMissing :
      missing (store.has root) item.va = missing outline.present item.va :=
    missing_congr outlines.present
  cases fresh with
  | panic someFree refuses =>
      have isPanic : outline.place item.va = .panic := by
        unfold Outline.place
        rw [if_neg, if_pos]
        · rcases refuses with high | isValid
          · exact Or.inl high
          · by_cases high : MAXVA ≤ item.va.toNat
            · exact Or.inl high
            · exact Or.inr ((outlines.pages item.va
                (Nat.lt_of_not_le high)).mp isValid)
        · rw [← outlines.left]
          exact fun none => someFree (List.length_eq_zero_iff.mp none)
      rw [isPanic]
      exact .panic
  | failed uses same lacks count unmapped =>
      have isBad : outline.place item.va = .bad := by
        rw [sameMissing, outlines.left] at lacks
        unfold Outline.place
        split
        next => rfl
        next some =>
          have someFree : store.free ≠ [] := by
            intro none
            rw [← outlines.left, none] at some
            exact some rfl
          obtain ⟨below, isUnmapped⟩ := unmapped someFree
          have goesOn :
              ¬ (MAXVA ≤ item.va.toNat ∨ pageOf item.va ∈ outline.pages) := by
            rintro (high | isIn)
            · exact absurd below (Nat.not_lt_of_le high)
            · exact isUnmapped ((outlines.pages item.va below).mpr isIn)
          rw [if_neg goesOn]
      rw [isBad]
      exact .bad (outlines.workable.uses uses same)
  | mapped below unmapped uses isFree pte contents count present =>
      obtain ⟨mem, tables, first⟩ :=
        MapsFresh.places
          (.mapped below unmapped uses isFree pte contents count present)
      obtain ⟨isDone, outlinesNow⟩ := outlines.places fits.flags first
      rw [isDone]
      exact .done outlinesNow

theorem Outlines.placeAll
    (outlines : Outlines end_address root store outline)
    (fits : ∀ item ∈ items, item.Fits) :
    Follows end_address root
      (store.mapAll end_address (frameAddress root) items)
      (outline.placeAll (items.map (·.va))) := by
  induction items generalizing store outline with
  | nil => exact .done outlines
  | cons item items inductionHypothesis =>
      have itemFits := fits item List.mem_cons_self
      have first :=
        outlines.place itemFits
          (mapFresh_spec outlines.workable.apart.table itemFits.fills
            itemFits.aligned outlines.workable.freeable)
      rw [List.map_cons]
      unfold mapAll Outline.placeAll
      generalize
        store.mapFresh end_address (frameAddress root) item.va item.perm
          item.fill = result at first ⊢
      generalize outline.place item.va = outlined at first ⊢
      cases first with
      | panic => exact .panic
      | bad workable => exact .bad workable
      | done outlinesNow =>
          exact inductionHypothesis outlinesNow fun other isIn =>
            fits other (List.mem_cons_of_mem _ isIn)

theorem zeroPages_va
    {a : Word} :
    (zeroPages perm turns a).map (·.va) = pagesFrom turns a := by
  induction turns generalizing a with
  | zero => rfl
  | succ turns inductionHypothesis =>
      exact congrArg (a :: ·) inductionHypothesis

theorem Outlines.of_same
    (outlines : Outlines end_address root store outline)
    (same : SameTable root store later)
    (free : later.free = store.free) :
    Outlines end_address root later outline where
  workable := {
    apart := outlines.workable.apart.of_same same free
    freeable := by
      rw [free]
      exact outlines.workable.freeable
  }
  pages := by
    intro va below
    rw [same.pteAt]
    exact outlines.pages va below
  present := by
    intro path short
    rw [same.has short]
    exact outlines.present path short
  left := by
    rw [free]
    exact outlines.left

theorem Outlines.readFrom
    (reading : Reading)
    (outlines : Outlines end_address root reading.store outline) :
    Follows end_address root
      (reading.store.readSegmentFrom (frameAddress root) file turns
        reading.seg_va reading.file_off reading.file_sz)
      (outline.readFrom file turns reading.seg_va reading.file_off
        reading.file_sz) := by
  induction turns generalizing reading with
  | zero => exact .done outlines
  | succ turns inductionHypothesis =>
      rw [readSegmentFrom_succ]
      unfold Outline.readFrom
      split
      next => exact .done outlines
      next more =>
        split
        next => exact .panic
        next notHigh =>
          have below := Nat.lt_of_not_le notHigh
          have isIn := outlines.pages reading.seg_va below
          by_cases valid :
              carries (reading.store.pteAt root reading.seg_va) PTE_V = true
          · rw [if_neg (not_not_intro valid),
              if_neg (not_not_intro (isIn.mp valid))]
            have stores := Reading.stores file more below valid
            have stored :=
              outlines.of_same (stores.same outlines.workable.apart)
                stores.free
            by_cases whole :
                (reading.readBytes file).length = reading.chunk.toNat
            · have whole' := whole
              unfold Reading.readBytes Reading.chunk at whole'
              rw [if_neg (not_not_intro whole),
                if_neg (not_not_intro whole')]
              exact inductionHypothesis (reading.turn root file) stored
            · have short := whole
              unfold Reading.readBytes Reading.chunk at short
              rw [if_pos whole, if_pos short]
              exact .bad stored.workable
          · rw [if_pos valid, if_pos (mt isIn.mpr valid)]
            exact .bad outlines.workable

theorem segment_flags :
    (PTE_R ||| PTE_W ||| PTE_X ||| PTE_U : Word).toNat < 1024 := by
  decide

theorem Outlines.loadSegment
    {ph : ProgHdr}
    (outlines : Outlines end_address root store outline) :
    Follows end_address root
      (store.loadSegment end_address (frameAddress root) file ph)
      (outline.loadSegment file ph) := by
  have aligned : (PGROUNDDOWN ph.vaddr).toNat % 4096 = 0 := by
    rw [toNat_pgrounddown]
    exact Nat.mul_mod_left _ _
  unfold PageStore.loadSegment Outline.loadSegment ProgHdr.pages
  dsimp only
  rw [mapPagesFrom_eq]
  generalize
    (if PGROUNDDOWN ph.vaddr < PGROUNDUP (ph.vaddr + ph.memsz) then
      (PGROUNDUP (ph.vaddr + ph.memsz) - PGROUNDDOWN ph.vaddr).toNat / PGSIZE
    else
      0) = count
  have mapped :=
    outlines.placeAll
      (zeroPages_fits count segment_flags aligned)
  rw [zeroPages_va] at mapped
  generalize
    store.mapAll end_address (frameAddress root)
      (zeroPages (PTE_R ||| PTE_W ||| PTE_X ||| PTE_U) count
        (PGROUNDDOWN ph.vaddr)) = result at mapped ⊢
  generalize
    outline.placeAll (pagesFrom count (PGROUNDDOWN ph.vaddr)) = outlined
      at mapped ⊢
  cases mapped with
  | panic => exact .panic
  | bad workable => exact .bad workable
  | done outlinesNow =>
      exact outlinesNow.readFrom ⟨ph.vaddr, ph.off, ph.filesz, _⟩

/-- The loop over the program headers comes to the same on the outline. -/
inductive FollowsLoad (end_address : Word) (root : Frame) :
    Loading → OutlinedLoad → Prop
  | panic :
      FollowsLoad end_address root .panic .panic
  | bad
      {store : PageStore}
      (workable : Workable end_address root store) :
      FollowsLoad end_address root (.bad store) .bad
  | loaded
      {sz : Word}
      {store : PageStore}
      {outline : Outline}
      (outlines : Outlines end_address root store outline) :
      FollowsLoad end_address root (.loaded sz store) (.loaded sz outline)

theorem Outlines.loadFrom
    {off : BitVec 32}
    {sz : Word}
    (outlines : Outlines end_address root store outline) :
    FollowsLoad end_address root
      (store.loadFrom end_address (frameAddress root) file turns off sz)
      (outline.loadFrom file turns off sz) := by
  induction turns generalizing store outline off sz with
  | zero => exact .loaded outlines
  | succ turns inductionHypothesis =>
      unfold PageStore.loadFrom Outline.loadFrom
      dsimp only
      split
      next => exact .bad outlines.workable
      next =>
        split
        next => exact inductionHypothesis outlines
        next =>
          split
          next => exact .bad outlines.workable
          next =>
            split
            next => exact .bad outlines.workable
            next =>
              have segment :
                  Follows end_address root
                    (store.loadSegment end_address (frameAddress root) file
                      (ProgHdr.ofBytes (fileRead file off ProgHdr.size))) _ :=
                outlines.loadSegment
              generalize
                store.loadSegment end_address (frameAddress root) file
                  (ProgHdr.ofBytes (fileRead file off ProgHdr.size)) = result
                  at segment ⊢
              generalize
                outline.loadSegment file
                  (ProgHdr.ofBytes (fileRead file off ProgHdr.size)) = outlined
                  at segment ⊢
              cases segment with
              | panic => exact .panic
              | bad workable => exact .bad workable
              | done outlinesNow => exact inductionHypothesis outlinesNow

/-! ## From the table of the kernel to the image -/

theorem fills_fillStub : Fills fillStub := by
  intro mem store isPage
  have start : mem.toNat % 4096 + exitcode.length ≤ 4096 := by
    have number := congrArg BitVec.toNat isPage
    rw [toNat_pgrounddown] at number
    have short : exitcode.length = 12 := rfl
    omega
  unfold fillStub
  constructor
  · exact free_putBytes
  · intro frame elsewhere
    have other : frame ≠ pageOf mem := by
      intro same
      apply elsewhere
      rw [same, frameAddress_pageOf]
      exact isPage
    rw [entries_putBytes_of_ne start other]
    exact (fills_zero mem store isPage).2 frame elsewhere

/-- The pages of the kernel that a table maps are not free. -/
def InUse (pages : KernelPages) (store : PageStore) : Prop :=
  ∀ entry ∈ pages.mapped, entry.1 ∉ store.free

/-- The pages that `kalloc` can return, and the kernel apart from them. -/
structure Supplies
    (end_address : Word)
    (pages : KernelPages)
    (store : PageStore) : Prop where
  inMemory : pages.InMemory
  inUse : InUse pages store
  distinct : store.free.Nodup
  aligned : ∀ page ∈ store.free, PGROUNDDOWN page = page
  freeable : ∀ page ∈ store.free, Freeable end_address page

theorem OnlyMaps.found
    {mapped : List (Word × Word)}
    (only : store.OnlyMaps root mapped)
    (flags : ∀ entry ∈ mapped, entry.2.toNat < 1024)
    (below : va.toNat < MAXVA) :
    (∃ entry ∈ mapped, pageOf va = pageOf entry.1 ∧
      carries (store.pteAt root va) PTE_V = true ∧
        frameOf (store.pteAt root va) = pageOf va) ∨
      (∀ entry ∈ mapped, pageOf va ≠ pageOf entry.1) ∧
        ¬ carries (store.pteAt root va) PTE_V = true := by
  by_cases some : ∃ entry ∈ mapped, pageOf va = pageOf entry.1
  · obtain ⟨entry, isIn, same⟩ := some
    have isPte := (only va below).1 entry.1 entry.2 isIn same
    refine Or.inl ⟨entry, isIn, same, ?_, ?_⟩
    · rw [isPte]
      exact carries_pteFor
    · rw [isPte, same]
      exact frameOf_PA2PTE (flags_lt (flags entry isIn))
  · have none : ∀ entry ∈ mapped, pageOf va ≠ pageOf entry.1 :=
      fun entry isIn same => some ⟨entry, isIn, same⟩
    refine Or.inr ⟨none, ?_⟩
    rw [(only va below).2 fun page perm isIn => none (page, perm) isIn]
    exact Bool.false_ne_true

theorem mapped_flags
    {pages : KernelPages} :
    ∀ entry ∈ pages.mapped, entry.2.toNat < 1024 := by
  intro entry isIn
  have text : (PTE_R ||| PTE_X : Word).toNat < 1024 := by
    decide
  have frame : (PTE_R ||| PTE_W : Word).toNat < 1024 := by
    decide
  rcases List.mem_cons.mp isIn with isFrame | isText
  · rw [isFrame]
    exact frame
  · rcases List.mem_cons.mp isText with isVec | isLast
    · rw [isVec]
      exact text
    · rw [List.mem_singleton.mp isLast]
      exact text

theorem mapped_aligned
    {pages : KernelPages} :
    ∀ entry ∈ pages.mapped, PGROUNDDOWN entry.1 = entry.1 := by
  intro entry isIn
  have idem (address : Word) :
      PGROUNDDOWN (PGROUNDDOWN address) = PGROUNDDOWN address := by
    rw [← frameAddress_pageOf address]
    exact pgrounddown_frameAddress _
  rcases List.mem_cons.mp isIn with isFrame | isText
  · rw [isFrame]
    exact idem _
  · rcases List.mem_cons.mp isText with isVec | isLast
    · rw [isVec]
      exact idem _
    · rw [List.mem_singleton.mp isLast]
      exact idem _

theorem outlines_ofKernel
    {pages : KernelPages}
    {tables : List Frame}
    (supplies : Supplies end_address pages store)
    (builds : Builds store later root tables)
    (only : later.OnlyMaps root pages.mapped)
    (count : tables.length = pages.need)
    (present :
      ∀ path, path.length ≤ 2 → later.has root path = pages.present path) :
    1 + pages.need ≤ store.free.length ∧
      Outlines end_address root later
        (.ofKernel pages store.free.length) := by
  have total := congrArg List.length builds.free
  rw [List.length_cons, List.length_append, List.length_map, count] at total
  have found {va : Word} (below : va.toNat < MAXVA) :=
    only.found mapped_flags below
  have notFree {entry : Word × Word} (isIn : entry ∈ pages.mapped) :
      frameAddress (pageOf entry.1) ∉ store.free := by
    rw [frameAddress_pageOf, mapped_aligned entry isIn]
    exact supplies.inUse entry isIn
  refine ⟨by omega, ⟨⟨⟨builds.table, ?_, ?_⟩, ?_⟩, ?_, present, ?_⟩⟩
  · intro va other pte otherPte below otherBelow isPte isOther same
    obtain ⟨isEntry, valid⟩ := mappingAt_eq_some.mp isPte
    obtain ⟨isOtherEntry, otherValid⟩ := mappingAt_eq_some.mp isOther
    rw [← isEntry, ← isOtherEntry] at same
    rw [← isEntry] at valid
    rw [← isOtherEntry] at otherValid
    rcases found below with ⟨_, _, _, _, isFrame⟩ | ⟨_, invalid⟩
    · rcases found otherBelow with ⟨_, _, _, _, isOtherFrame⟩ | ⟨_, invalid⟩
      · rw [← isFrame, ← isOtherFrame, same]
      · exact absurd otherValid invalid
    · exact absurd valid invalid
  · intro va pte below isPte
    obtain ⟨isEntry, valid⟩ := mappingAt_eq_some.mp isPte
    rw [← isEntry] at valid ⊢
    rcases found below with ⟨entry, isIn, same, _, isFrame⟩ | ⟨_, invalid⟩
    · rw [isFrame, same]
      constructor
      · intro owns
        apply notFree isIn
        rw [builds.free]
        rcases (builds.owns _).mp owns with isRoot | isTable
        · rw [isRoot]
          exact List.mem_cons_self
        · exact List.mem_cons_of_mem _
            (List.mem_append_left _ (List.mem_map_of_mem isTable))
      · intro isFree
        apply notFree isIn
        rw [builds.free]
        exact List.mem_cons_of_mem _ (List.mem_append_right _ isFree)
    · exact absurd valid invalid
  · intro page isFree
    apply supplies.freeable
    rw [builds.free]
    exact List.mem_cons_of_mem _ (List.mem_append_right _ isFree)
  · intro va below
    unfold Outline.ofKernel
    dsimp only
    rw [List.mem_map]
    rcases found below with ⟨entry, isIn, same, valid, _⟩ | ⟨none, invalid⟩
    · exact ⟨fun _ => ⟨entry, isIn, same.symm⟩, fun _ => valid⟩
    · constructor
      · exact fun valid => absurd valid invalid
      · rintro ⟨entry, isIn, same⟩
        exact absurd same.symm (none entry isIn)
  · unfold Outline.ofKernel
    dsimp only
    omega

/-- The making of an address space comes to the same on the outline. -/
inductive FollowsMake (end_address : Word) : Making → OutlinedLoad → Prop
  | panic :
      FollowsMake end_address .panic .panic
  | bad
      {pagetable : Option Word}
      {store : PageStore}
      (workable :
        ∀ page, pagetable = some page →
          ∃ root, page = frameAddress root ∧
            Workable end_address root store) :
      FollowsMake end_address (.bad pagetable store) .bad
  | made
      {image : Image}
      {store : PageStore}
      {outline : Outline}
      {root : Frame}
      (isRoot : image.pagetable = frameAddress root)
      (outlines : Outlines end_address root store outline) :
      FollowsMake end_address (.made image store) (.loaded image.sz outline)

theorem Outlines.stack
    {exitstub : Word}
    (aligned : exitstub.toNat % 4096 = 0)
    (outlines : Outlines end_address root store outline) :
    Follows end_address root
      (store.mapAll end_address (frameAddress root)
        (⟨exitstub, PTE_R ||| PTE_X ||| PTE_U, fillStub⟩ ::
          zeroPages (PTE_R ||| PTE_W ||| PTE_U) stack_pages (exitstub + 4096)))
      (outline.placeAll
        (exitstub :: pagesFrom stack_pages (exitstub + 4096))) := by
  have size : (4096 : Word).toNat = 4096 := rfl
  have next : (exitstub + 4096).toNat % 4096 = 0 := by
    rw [BitVec.toNat_add, size]
    omega
  have flags : (PTE_R ||| PTE_X ||| PTE_U : Word).toNat < 1024 := by
    decide
  have fits :
      ∀ item ∈
        (⟨exitstub, PTE_R ||| PTE_X ||| PTE_U, fillStub⟩ : PageItem) ::
          zeroPages (PTE_R ||| PTE_W ||| PTE_U) stack_pages (exitstub + 4096),
        item.Fits := by
    intro item isIn
    rcases List.mem_cons.mp isIn with isStub | isStack
    · rw [isStub]
      exact ⟨aligned, flags, fills_fillStub⟩
    · exact zeroPages_fits _ (by decide) next item isStack
  have placed := outlines.placeAll fits
  rw [List.map_cons, zeroPages_va] at placed
  exact placed

theorem pgroundup_mod (sz : Word) : (PGROUNDUP sz).toNat % 4096 = 0 := by
  have isDown : PGROUNDUP sz = PGROUNDDOWN (sz + 4096 - 1) := rfl
  rw [isDown, toNat_pgrounddown]
  exact Nat.mul_mod_left _ _

theorem followsMake
    {pages : KernelPages}
    (supplies : Supplies end_address pages store) :
    FollowsMake end_address (store.makeImage end_address pages file)
      (Outline.make pages file store.free.length) := by
  have noTable :
      ∀ {store : PageStore} (page : Word), none = some page →
        ∃ root, page = frameAddress root ∧ Workable end_address root store :=
    fun page isPage => absurd isPage (Option.some_ne_none page).symm
  have aTable
      {store : PageStore}
      {root : Frame}
      (workable : Workable end_address root store)
      (page : Word)
      (isPage : some (frameAddress root) = some page) :
      ∃ root, page = frameAddress root ∧ Workable end_address root store :=
    ⟨root, (Option.some.inj isPage).symm, workable⟩
  unfold makeImage Outline.make
  dsimp only
  split
  next => exact .bad noTable
  next =>
    split
    next => exact .bad noTable
    next =>
      have table := procPagetable_spec supplies.inMemory supplies.distinct
        supplies.aligned
      generalize procPagetable pages store = result at table ⊢
      cases table with
      | none isFree =>
          have lacks : store.free.length < 1 + pages.need := by
            rw [isFree, List.length_nil]
            omega
          rw [if_pos lacks]
          exact .bad noTable
      | failed builds exhausted lacks =>
          rw [if_pos lacks]
          exact .bad noTable
      | built builds only count present =>
          rename_i later root tables
          obtain ⟨enough, outlines⟩ :=
            outlines_ofKernel supplies builds only count present
          rw [if_neg (Nat.not_lt_of_le enough)]
          dsimp only
          generalize ElfHdr.ofBytes (fileRead file 0 ElfHdr.size) = elf
          have segments :
              FollowsLoad end_address root
                (later.loadFrom end_address (frameAddress root) file
                  elf.phnum.toNat (elf.phoff.setWidth 32) 0) _ :=
            outlines.loadFrom
          generalize
            later.loadFrom end_address (frameAddress root) file
              elf.phnum.toNat (elf.phoff.setWidth 32) 0 = loading
              at segments ⊢
          generalize
            (Outline.ofKernel pages store.free.length).loadFrom file
              elf.phnum.toNat (elf.phoff.setWidth 32) 0 = outlined
              at segments ⊢
          cases segments with
          | panic => exact .panic
          | bad workable => exact .bad (aTable workable)
          | loaded outlinesNow =>
              rename_i sz inner outline
              have stack := outlinesNow.stack (pgroundup_mod sz)
              dsimp only
              generalize
                outline.placeAll
                  (PGROUNDUP sz ::
                    pagesFrom stack_pages (PGROUNDUP sz + 4096)) = outlined
                  at stack ⊢
              unfold mapAll at stack
              generalize
                inner.mapFresh end_address (frameAddress root) (PGROUNDUP sz)
                  (PTE_R ||| PTE_X ||| PTE_U) fillStub = stub at stack ⊢
              cases stub with
              | panic =>
                  cases stack
                  exact .panic
              | failed failing =>
                  cases stack with
                  | bad workable => exact .bad (aTable workable)
              | mapped behind =>
                  dsimp only at stack ⊢
                  rw [← mapPagesFrom_eq] at stack
                  generalize
                    behind.mapPagesFrom end_address (frameAddress root)
                      (PTE_R ||| PTE_W ||| PTE_U) stack_pages
                      (PGROUNDUP sz + 4096) = final at stack ⊢
                  cases stack with
                  | panic => exact .panic
                  | bad workable => exact .bad (aTable workable)
                  | done outlinesFinal => exact .made rfl outlinesFinal

end PageStore

namespace Outline

variable {outline later inner : Outline} {a va sz : Word} {turns : Nat}
variable {rest : List Word}

theorem place_done
    (isDone : outline.place va = .done later) :
    va.toNat < MAXVA ∧ pageOf va ∉ outline.pages ∧
      missing outline.present va + 1 ≤ outline.left ∧
        later = {
          pages := pageOf va :: outline.pages
          present := adding outline.present va
          left := outline.left - (missing outline.present va + 1)
        } := by
  unfold place at isDone
  split at isDone
  next => cases isDone
  next =>
    split at isDone
    next => cases isDone
    next goesOn =>
      split at isDone
      next => cases isDone
      next enough =>
        cases isDone
        obtain ⟨notHigh, notPlaced⟩ := not_or.mp goesOn
        exact ⟨Nat.lt_of_not_le notHigh, notPlaced, Nat.le_of_not_lt enough,
          rfl⟩

theorem placeAll_cons
    (isDone : outline.placeAll (va :: rest) = .done later) :
    ∃ inner, outline.place va = .done inner ∧
      inner.placeAll rest = .done later := by
  unfold placeAll at isDone
  cases isPlaced : outline.place va with
  | panic =>
      rw [isPlaced] at isDone
      cases isDone
  | bad =>
      rw [isPlaced] at isDone
      cases isDone
  | done inner =>
      rw [isPlaced] at isDone
      exact ⟨inner, rfl, isDone⟩

theorem placeAll_below
    (aligned : a.toNat % 4096 = 0)
    (isDone : outline.placeAll (pagesFrom (turns + 1) a) = .done later) :
    a.toNat + 4096 * (turns + 1) ≤ MAXVA := by
  have isMax : MAXVA = 274877906944 := rfl
  induction turns generalizing outline a with
  | zero =>
      obtain ⟨inner, isPlaced, _⟩ := placeAll_cons isDone
      have below := (place_done isPlaced).1
      omega
  | succ turns inductionHypothesis =>
      obtain ⟨inner, isPlaced, others⟩ := placeAll_cons isDone
      have next := toNat_next (place_done isPlaced).1
      have nextAligned : (a + 4096).toNat % 4096 = 0 := by
        rw [next]
        omega
      have ends := inductionHypothesis nextAligned others
      rw [next, Nat.add_right_comm] at ends
      rw [Nat.mul_succ, ← Nat.add_assoc]
      exact ends

theorem make_below
    {pages : KernelPages}
    {file : List UInt8}
    {left : Nat}
    (isMade : make pages file left = .loaded sz outline) :
    sz.toNat ≤ MAXVA := by
  have isMax : MAXVA = 274877906944 := rfl
  unfold make at isMade
  dsimp only at isMade
  split at isMade
  next => cases isMade
  next =>
    split at isMade
    next => cases isMade
    next =>
      split at isMade
      next => cases isMade
      next =>
        split at isMade
        next => cases isMade
        next => cases isMade
        next top inner isLoaded =>
          split at isMade
          next => cases isMade
          next => cases isMade
          next final isDone =>
            have ends : (PGROUNDUP top).toNat + 4096 * (32 + 1) ≤ MAXVA :=
              placeAll_below (pgroundup_mod top) isDone
            injection isMade with isBreak _
            have size : (4096 : Word).toNat = 4096 := rfl
            have stack : (4096 * 32 : Word).toNat = 131072 := rfl
            rw [← isBreak, BitVec.toNat_add, BitVec.toNat_add, size, stack]
            omega

end Outline

/-- The memory of a process that runs an image -/
def Image.memory (image : Image) (store : PageStore) : ProcMemory where
  sz := image.sz
  pagetable := image.pagetable
  store := store

namespace PageStore

variable {store later : PageStore} {end_address : Word} {file : List UInt8}
variable {pages : KernelPages} {image : Image}

theorem makeImage_of_outline
    {sz : Word}
    {outline : Outline}
    (supplies : Supplies end_address pages store)
    (isLoaded :
      Outline.make pages file store.free.length = .loaded sz outline) :
    ∃ image later root,
      store.makeImage end_address pages file = .made image later ∧
        image.sz = sz ∧ image.pagetable = frameAddress root ∧
          Outlines end_address root later outline := by
  have follows :
      FollowsMake end_address (store.makeImage end_address pages file) _ :=
    followsMake supplies
  rw [isLoaded] at follows
  generalize isMade :
    store.makeImage end_address pages file = making at follows
  cases follows with
  | made isRoot outlines => exact ⟨_, _, _, rfl, rfl, isRoot, outlines⟩

end PageStore

/-- Where the kernel ends in the example. -/
def exampleEnd : Word := 0x80100000

/-- The pages of the kernel in the example. -/
def examplePages : KernelPages where
  userret := 0x80001000
  uservec := 0x80001100
  trapframe := 0x80100000

/-- A store with a number of free pages. -/
def exampleStore (count : Nat) : PageStore where
  load := fun _ => 0
  free := (List.range count).map fun page =>
    .ofNat 64 (0x80101000 + 4096 * page)

/-- The bytes of a little-endian field. -/
def field (size value : Nat) : List UInt8 :=
  (List.range size).map (Bytes.ofNat value)

/-- A file whose program headers follow its ELF header. -/
def exampleFile (headers : List UInt8) : List UInt8 :=
  field 4 0x464C457F ++ field 20 0 ++ field 8 0x10000 ++ field 8 64 ++
    field 16 0 ++ field 2 (headers.length / 56) ++ field 6 0 ++ headers

theorem mem_exampleStore
    {count : Nat}
    {page : Word}
    (few : count ≤ 1000)
    (isFree : page ∈ (exampleStore count).free) :
    0x80101000 ≤ page.toNat ∧ page.toNat < 0x80101000 + 4096 * count ∧
      page.toNat % 4096 = 0 := by
  obtain ⟨index, isIndex, isPage⟩ := List.mem_map.mp isFree
  have inside := List.mem_range.mp isIndex
  rw [← isPage, BitVec.toNat_ofNat]
  omega

theorem exampleSupplies
    {count : Nat}
    (few : count ≤ 1000) :
    PageStore.Supplies exampleEnd examplePages (exampleStore count) where
  inMemory := {
    userret := by decide +kernel
    uservec := by decide +kernel
    trapframe := by decide +kernel
    near := by decide +kernel
    apart := by decide +kernel
  }
  inUse := by
    intro entry isIn isFree
    have low :
        (examplePages.mapped.all fun entry =>
          decide (entry.1.toNat < 0x80101000)) = true := by
      decide +kernel
    have high := (mem_exampleStore few isFree).1
    have isLow := of_decide_eq_true (List.all_eq_true.mp low entry isIn)
    exact absurd isLow (Nat.not_lt_of_le high)
  distinct := by
    apply List.Nodup.map_on _ List.nodup_range
    intro index isIndex other isOther same
    have inside := List.mem_range.mp isIndex
    have otherInside := List.mem_range.mp isOther
    have sameNumber := congrArg BitVec.toNat same
    rw [BitVec.toNat_ofNat, BitVec.toNat_ofNat] at sameNumber
    omega
  aligned := by
    intro page isFree
    obtain ⟨_, _, aligned⟩ := mem_exampleStore few isFree
    apply BitVec.eq_of_toNat_eq
    rw [toNat_pgrounddown]
    omega
  freeable := by
    intro page isFree
    obtain ⟨high, low, aligned⟩ := mem_exampleStore few isFree
    have isEnd : exampleEnd.toNat = 0x80100000 := rfl
    have isStop : PHYSTOP = 0x88000000 := rfl
    rintro (unaligned | below | beyond)
    · exact unaligned aligned
    · have less := BitVec.lt_def.mp below
      omega
    · omega

theorem length_exampleStore
    (count : Nat) :
    (exampleStore count).free.length = count := by
  unfold exampleStore
  rw [List.length_map, List.length_range]

end MyOS
