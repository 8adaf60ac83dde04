import MyOS.ProcSpace

namespace MyOS

open Lib
open PageStore

/-!
# Pages that are laid out

`sys_exec` and `uvmcopy` take free pages, fill them and map them, each at the
next of a list of addresses.  Which pages the table needs for that, and what
the process sees afterwards, follows from the list.
-/

/-- A page to be mapped: its address, its permissions and what fills it. -/
structure PageItem where
  va : Word
  perm : Word
  fill : Word → PageStore → PageStore

/-- An item is mapped at a page boundary, and filling it fills one page. -/
structure PageItem.Fits (item : PageItem) : Prop where
  aligned : item.va.toNat % 4096 = 0
  flags : item.perm.toNat < 1024
  fills : Fills item.fill

namespace PageStore

variable {store later inner : PageStore} {root frame : Frame}
variable {va end_address : Word} {item : PageItem}
variable {items done rest : List PageItem} {frames tables : List Frame}

/-- Map pages one after the other. -/
def mapAll
    (end_address pagetable : Word) :
    List PageItem → PageStore → Mapping
  | [], store => .mapped store
  | item :: items, store =>
      match store.mapFresh end_address pagetable item.va item.perm
        item.fill with
      | .panic => .panic
      | .failed store => .failed store
      | .mapped store => mapAll end_address pagetable items store

/-- A free page has been filled and mapped. -/
structure Places
    (root : Frame)
    (store : PageStore)
    (item : PageItem)
    (mem : Word)
    (later : PageStore)
    (tables : List Frame) : Prop where
  isFree : store.free = mem :: store.free.tail
  fine : store.Fine root item.va
  uses : Uses root store later tables [pageOf mem]
  pte :
    ∀ other : Word, other.toNat < MAXVA →
      later.pteAt root other =
        if pageOf other = pageOf item.va then pteFor mem item.perm
        else store.pteAt root other
  contents :
    later.entries (pageOf mem) =
      (item.fill mem (store.taking store.free.tail)).entries (pageOf mem)
  count : tables.length = missing (store.has root) item.va
  present :
    ∀ path, path.length ≤ 2 →
      later.has root path = adding (store.has root) item.va path

theorem MapsFresh.places
    (fresh : MapsFresh root store item.va item.perm item.fill (.mapped later)) :
    ∃ mem tables, Places root store item mem later tables := by
  cases fresh with
  | mapped below unmapped uses isFree pte contents count present =>
      rename_i tables mem rest
      have isTail : store.free.tail = rest := congrArg List.tail isFree
      refine ⟨mem, tables, ?_, ⟨below, unmapped⟩, uses, pte, ?_, count, ?_⟩
      · rw [isTail]
        exact isFree
      · rw [isTail]
        exact contents
      · exact fun path short => has_eq_adding present short

/-- Free pages have been filled and mapped one after the other. -/
inductive Laid (root : Frame) :
    PageStore → List PageItem → List Frame → PageStore → Prop
  | done
      {store : PageStore} :
      Laid root store [] [] store
  | page
      {store inner later : PageStore}
      {item : PageItem}
      {items : List PageItem}
      {mem : Word}
      {tables frames : List Frame}
      (first : Places root store item mem inner tables)
      (next : Laid root inner items frames later) :
      Laid root store (item :: items) (pageOf mem :: frames) later

/-- What becomes of pages that are to be mapped. -/
inductive LaysOut
    (root : Frame)
    (store : PageStore)
    (items : List PageItem) :
    Mapping → Prop
  | panic
      {inner : PageStore}
      {done rest : List PageItem}
      {item : PageItem}
      {frames : List Frame}
      (split : items = done ++ item :: rest)
      (laid : Laid root store done frames inner)
      (stops : MapsFresh root inner item.va item.perm item.fill .panic) :
      LaysOut root store items .panic
  | failed
      {inner later : PageStore}
      {done rest : List PageItem}
      {item : PageItem}
      {frames : List Frame}
      (split : items = done ++ item :: rest)
      (laid : Laid root store done frames inner)
      (stops :
        MapsFresh root inner item.va item.perm item.fill (.failed later)) :
      LaysOut root store items (.failed later)
  | mapped
      {later : PageStore}
      {frames : List Frame}
      (laid : Laid root store items frames later) :
      LaysOut root store items (.mapped later)

/-- How many pages it takes to map pages at some addresses. -/
def demandAll : (List PageIndex → Bool) → List Word → Nat
  | _, [] => 0
  | present, va :: rest =>
      1 + missing present va + demandAll (adding present va) rest

/-- The pages on the paths of some addresses are there too. -/
def addingAll :
    (List PageIndex → Bool) → List Word → List PageIndex → Bool
  | present, [] => present
  | present, va :: rest => addingAll (adding present va) rest

theorem demandAll_congr
    {present other : List PageIndex → Bool}
    {addresses : List Word}
    (same : ∀ path, path.length ≤ 2 → other path = present path) :
    demandAll other addresses = demandAll present addresses := by
  induction addresses generalizing present other with
  | nil => rfl
  | cons va rest inductionHypothesis =>
      unfold demandAll
      rw [missing_congr same, inductionHypothesis]
      intro path short
      unfold adding
      rw [same path short]

theorem addingAll_congr
    {present other : List PageIndex → Bool}
    {addresses : List Word}
    (same : ∀ path, path.length ≤ 2 → other path = present path)
    {path : List PageIndex}
    (short : path.length ≤ 2) :
    addingAll other addresses path = addingAll present addresses path := by
  induction addresses generalizing present other with
  | nil => exact same path short
  | cons va rest inductionHypothesis =>
      unfold addingAll
      apply inductionHypothesis
      intro path short
      unfold adding
      rw [same path short]

theorem mapAll_spec
    (table : store.HoldsTable root)
    (fits : ∀ item ∈ items, item.Fits)
    (freeable : ∀ page ∈ store.free, Freeable end_address page) :
    LaysOut root store items
      (store.mapAll end_address (frameAddress root) items) := by
  induction items generalizing store with
  | nil => exact .mapped .done
  | cons item items inductionHypothesis =>
      have itemFits := fits item List.mem_cons_self
      have spec :
          MapsFresh root store item.va item.perm item.fill _ :=
        mapFresh_spec table itemFits.fills itemFits.aligned freeable
      unfold mapAll
      cases isMapped :
          store.mapFresh end_address (frameAddress root) item.va item.perm
            item.fill with
      | panic =>
          rw [isMapped] at spec
          exact LaysOut.panic (List.nil_append _).symm .done spec
      | failed inner =>
          rw [isMapped] at spec
          exact LaysOut.failed (List.nil_append _).symm .done spec
      | mapped inner =>
          rw [isMapped] at spec
          obtain ⟨mem, tables, first⟩ := spec.places
          have others :=
            inductionHypothesis first.uses.table
              (fun other isIn => fits other (List.mem_cons_of_mem _ isIn))
              (fun page isIn => freeable page (first.uses.free_subset isIn))
          dsimp only
          generalize mapAll end_address (frameAddress root) items inner =
            result at others ⊢
          cases others with
          | panic split laid stops =>
              exact .panic (congrArg (item :: ·) split) (.page first laid)
                stops
          | failed split laid stops =>
              exact .failed (congrArg (item :: ·) split) (.page first laid)
                stops
          | mapped laid => exact .mapped (.page first laid)

/-! ## What has been laid out -/

theorem Laid.placed
    (laid : Laid root store items frames later)
    (isIn : item ∈ items) :
    ∃ frame, (item, frame) ∈ items.zip frames ∧ frame ∈ frames := by
  induction laid with
  | done => cases isIn
  | page _ _ inductionHypothesis =>
      rcases List.mem_cons.mp isIn with isFirst | isLater
      · rw [isFirst]
        exact ⟨_, List.mem_cons_self, List.mem_cons_self⟩
      · obtain ⟨frame, isPlaced, isFrame⟩ := inductionHypothesis isLater
        exact ⟨frame, List.mem_cons_of_mem _ isPlaced,
          List.mem_cons_of_mem _ isFrame⟩

theorem Laid.uses
    (table : store.HoldsTable root)
    (laid : Laid root store items frames later) :
    ∃ tables, Uses root store later tables frames ∧
      tables.length + items.length =
        demandAll (store.has root) (items.map (·.va)) ∧
          ∀ path, path.length ≤ 2 →
            later.has root path =
              addingAll (store.has root) (items.map (·.va)) path := by
  induction laid with
  | done => exact ⟨[], .refl table, rfl, fun _ _ => rfl⟩
  | page first next inductionHypothesis =>
      obtain ⟨more, moreUses, count, present⟩ :=
        inductionHypothesis first.uses.table
      refine ⟨_, first.uses.trans moreUses, ?_, ?_⟩
      · rw [List.length_append, List.length_cons, List.map_cons, first.count]
        unfold demandAll
        rw [← demandAll_congr first.present, ← count]
        omega
      · intro path short
        rw [present path short]
        exact addingAll_congr first.present short

theorem carries_pteFor
    {pa perm : Word} :
    carries (pteFor pa perm) PTE_V = true := by
  unfold pteFor
  rw [carries_PA2PTE (by decide), Bool.or_eq_true]
  exact Or.inr rfl

theorem Places.fine_of_fine
    {mem : Word}
    (first : Places root store item mem later tables)
    (fine : later.Fine root va) :
    store.Fine root va ∧ pageOf va ≠ pageOf item.va := by
  obtain ⟨below, unmapped⟩ := fine
  rw [first.pte va below] at unmapped
  split at unmapped
  next => exact absurd carries_pteFor unmapped
  next different => exact ⟨⟨below, unmapped⟩, different⟩

theorem Laid.fine
    (laid : Laid root store items frames later) :
    (∀ item ∈ items, store.Fine root item.va) ∧
      (items.map fun item => pageOf item.va).Nodup := by
  induction laid with
  | done => exact ⟨fun _ isIn => absurd isIn List.not_mem_nil, List.nodup_nil⟩
  | page first next inductionHypothesis =>
      obtain ⟨fine, distinct⟩ := inductionHypothesis
      constructor
      · intro other isIn
        rcases List.mem_cons.mp isIn with isFirst | isLater
        · rw [isFirst]
          exact first.fine
        · exact (first.fine_of_fine (fine other isLater)).1
      · rw [List.map_cons, List.nodup_cons]
        refine ⟨?_, distinct⟩
        intro isIn
        obtain ⟨other, isLater, same⟩ := List.mem_map.mp isIn
        exact (first.fine_of_fine (fine other isLater)).2 same

theorem Laid.kept
    (laid : Laid root store items frames later)
    (below : va.toNat < MAXVA)
    (elsewhere : ∀ item ∈ items, pageOf va ≠ pageOf item.va) :
    later.pteAt root va = store.pteAt root va := by
  induction laid with
  | done => rfl
  | page first next inductionHypothesis =>
      rw [inductionHypothesis fun other isIn =>
          elsewhere other (List.mem_cons_of_mem _ isIn),
        first.pte va below, if_neg (elsewhere _ List.mem_cons_self)]

theorem Laid.mapped
    (laid : Laid root store items frames later)
    (isPlaced : (item, frame) ∈ items.zip frames)
    (aligned : ∀ page ∈ store.free, PGROUNDDOWN page = page) :
    later.pteAt root item.va = pteFor (frameAddress frame) item.perm := by
  induction laid with
  | done => cases isPlaced
  | page first next inductionHypothesis =>
      rename_i store inner later head items mem tables frames
      have isPage : frameAddress (pageOf mem) = mem := by
        rw [frameAddress_pageOf]
        apply aligned
        rw [first.isFree]
        exact List.mem_cons_self
      rcases List.mem_cons.mp isPlaced with isFirst | isLater
      · cases isFirst
        obtain ⟨fine, distinct⟩ := next.fine
        rw [next.kept first.fine.1 (fun other isIn same =>
            (first.fine_of_fine (fine other isIn)).2 same.symm),
          first.pte item.va first.fine.1, if_pos rfl, isPage]
      · exact inductionHypothesis isLater
          (fun page isIn => aligned page (first.uses.free_subset isIn))

theorem Laid.filled
    {content : PageItem → PageIndex → Word}
    (table : store.HoldsTable root)
    (laid : Laid root store items frames later)
    (isPlaced : (item, frame) ∈ items.zip frames)
    (makes :
      ∀ item ∈ items, ∀ (inner : PageStore) (mem : Word),
        PGROUNDDOWN mem = mem →
        (∀ frame, ¬ store.Owns root frame →
          frameAddress frame ∉ store.free →
            inner.entries frame = store.entries frame) →
          (item.fill mem inner).entries (pageOf mem) = content item) :
    later.entries frame = content item := by
  induction laid with
  | done => cases isPlaced
  | page first next inductionHypothesis =>
      rename_i store inner later head items mem tables frames
      have apart :
          ∀ frame, ¬ store.Owns root frame →
            frameAddress frame ∉ store.free →
              ¬ inner.Owns root frame ∧ frameAddress frame ∉ inner.free := by
        intro frame notOwned notFree
        constructor
        · intro owns
          rcases (first.uses.owns frame).mp owns with isTable | owned
          · exact notFree (first.uses.table_free isTable)
          · exact notOwned owned
        · intro isFree
          exact notFree (first.uses.free_subset isFree)
      rcases List.mem_cons.mp isPlaced with isFirst | isLater
      · cases isFirst
        obtain ⟨more, uses, _, _⟩ := next.uses first.uses.table
        obtain ⟨notOwned, notFree⟩ :=
          first.uses.data_apart List.mem_cons_self
        rw [uses.rest _ notOwned notFree, first.contents]
        have isPage : PGROUNDDOWN mem = mem := by
          apply table.aligned
          rw [first.isFree]
          exact List.mem_cons_self
        exact makes item List.mem_cons_self _ mem isPage fun _ _ _ => rfl
      · apply inductionHypothesis first.uses.table isLater
        intro other isIn next address isPage same
        apply makes other (List.mem_cons_of_mem _ isIn) _ _ isPage
        intro frame notOwned notFree
        obtain ⟨notOwnedThen, notFreeThen⟩ := apart frame notOwned notFree
        rw [same frame notOwnedThen notFreeThen,
          first.uses.rest frame notOwned notFree]

theorem MapsApart.places
    {mem : Word}
    (apart : store.MapsApart root)
    (flags : item.perm.toNat < 1024)
    (first : Places root store item mem later tables) :
    later.MapsApart root := by
  have isIn : mem ∈ store.free := by
    rw [first.isFree]
    exact List.mem_cons_self
  have isPage : frameAddress (pageOf mem) = mem := by
    rw [frameAddress_pageOf]
    exact apart.table.aligned mem isIn
  have found :
      ∀ {va pte : Word}, va.toNat < MAXVA →
        later.mappingAt root va = some pte →
          (pageOf va = pageOf item.va ∧ frameOf pte = pageOf mem) ∨
            store.mappingAt root va = some pte := by
    intro va pte below isPte
    obtain ⟨isEntry, isValid⟩ := mappingAt_eq_some.mp isPte
    rw [first.pte va below] at isEntry
    split at isEntry
    next same =>
      refine Or.inl ⟨same, ?_⟩
      rw [← isEntry]
      unfold pteFor
      exact frameOf_PA2PTE (flags_lt flags)
    next => exact Or.inr (mappingAt_eq_some.mpr ⟨isEntry, isValid⟩)
  refine ⟨first.uses.table, ?_, ?_⟩
  · intro va other pte otherPte below otherBelow isPte isOther same
    rcases found below isPte with ⟨here, isMem⟩ | before
    · rcases found otherBelow isOther with ⟨there, _⟩ | otherBefore
      · rw [here, there]
      · have notFree := (apart.apart otherBelow otherBefore).2
        rw [← same, isMem, isPage] at notFree
        exact absurd isIn notFree
    · rcases found otherBelow isOther with ⟨_, isMem⟩ | otherBefore
      · have notFree := (apart.apart below before).2
        rw [same, isMem, isPage] at notFree
        exact absurd isIn notFree
      · exact apart.single below otherBelow before otherBefore same
  · intro va pte below isPte
    rcases found below isPte with ⟨_, isMem⟩ | before
    · rw [isMem]
      exact first.uses.data_apart List.mem_cons_self
    · obtain ⟨notOwned, notFree⟩ := apart.apart below before
      constructor
      · intro owns
        rcases (first.uses.owns _).mp owns with isTable | owned
        · exact notFree (first.uses.table_free isTable)
        · exact notOwned owned
      · intro isFree
        exact notFree (first.uses.free_subset isFree)

theorem MapsApart.laid
    (apart : store.MapsApart root)
    (flags : ∀ item ∈ items, item.perm.toNat < 1024)
    (laid : Laid root store items frames later) :
    later.MapsApart root := by
  induction laid with
  | done => exact apart
  | page first next inductionHypothesis =>
      exact inductionHypothesis
        (apart.places (flags _ List.mem_cons_self) first)
        (fun item isIn => flags item (List.mem_cons_of_mem _ isIn))

end PageStore

end MyOS
