import MyOS.PageUnmapping

namespace MyOS

open Lib

/-!
# Pages are taken for user memory

A turn of the loops of `uvmcopy`, `uvmalloc` and `sys_exec` takes a free page,
fills it and maps it.  Where the memory runs out, the page is free again, but
the pages that `walk` has added to the table stay in it.
-/

namespace PageStore

variable {store later inner : PageStore} {root frame page : Frame}
variable {path : List PageIndex} {va a : Word}
variable {end_address pa perm address : Word}
variable {tables data moreTables moreData : List Frame}

/-! ## Changes outside a table -/

/-- The pages of a table are as they were. -/
def SameTable (root : Frame) (store later : PageStore) : Prop :=
  ∀ frame, store.Owns root frame →
    later.entries frame = store.entries frame

namespace SameTable

variable (same : SameTable root store later)

include same

theorem node
    (short : path.length ≤ 2) :
    later.node root path = store.node root path :=
  RadixTree.node_of_same same short

theorem owns :
    later.Owns root frame ↔ store.Owns root frame :=
  RadixTree.owns_congr fun short => same.node short

theorem pteAt :
    later.pteAt root va = store.pteAt root va :=
  RadixTree.entryAt_of_same same (Nat.le_refl 2)

theorem has
    (short : path.length ≤ 2) :
    later.has root path = store.has root path := by
  unfold PageStore.has
  rw [same.node short]

theorem missing :
    PageStore.missing (later.has root) va =
      PageStore.missing (store.has root) va := by
  have first : [indexAt 2 va].length ≤ 2 := by
    exact Nat.le_succ 1
  have second : [indexAt 1 va, indexAt 2 va].length ≤ 2 := Nat.le_refl 2
  unfold PageStore.missing lacking
  rw [same.has first]
  unfold lacking
  rw [same.has second]
  rfl

theorem holds_of
    (table : store.HoldsTable root)
    (distinct : later.free.Nodup)
    (aligned : ∀ page ∈ later.free, PGROUNDDOWN page = page)
    (outside :
      ∀ frame, store.Owns root frame → frameAddress frame ∉ later.free) :
    later.HoldsTable root where
  separate := RadixTree.Separate.congr table.separate fun short =>
    same.node short
  distinct := distinct
  aligned := aligned
  outside := fun frame owns => outside frame (same.owns.mp owns)

theorem holds
    (table : store.HoldsTable root)
    (distinct : later.free.Nodup)
    (fewer : ∀ page ∈ later.free, page ∈ store.free) :
    later.HoldsTable root :=
  same.holds_of table distinct
    (fun page isFree => table.aligned page (fewer page isFree))
    (fun frame owns isFree => table.outside frame owns (fewer _ isFree))

end SameTable

/-- What `kalloc` leaves. -/
def taking (store : PageStore) (rest : List Word) : PageStore :=
  { store with free := rest }

/-- A page is filled and no other one is touched. -/
def Fills (fill : Word → PageStore → PageStore) : Prop :=
  ∀ mem store, PGROUNDDOWN mem = mem →
    (fill mem store).free = store.free ∧
      ∀ frame, frameAddress frame ≠ mem →
        (fill mem store).entries frame = store.entries frame

theorem fills_zero :
    Fills fun mem store => store.zero mem := by
  intro mem store _
  refine ⟨rfl, ?_⟩
  intro frame elsewhere
  funext index
  unfold entries zero
  dsimp only
  rw [pgrounddown_entryAddress, if_neg elsewhere]

theorem fills_copyPage :
    Fills fun mem store => store.copyPage mem pa := by
  intro mem store _
  refine ⟨rfl, ?_⟩
  intro frame elsewhere
  funext index
  unfold entries copyPage
  dsimp only
  rw [pgrounddown_entryAddress, if_neg elsewhere]

/-! ## Pages that are used -/

/--
Free pages have become pages of a table and pages of data; the pages that are
neither free nor in the table are as they were.
-/
structure Uses
    (root : Frame)
    (store later : PageStore)
    (tables data : List Frame) : Prop where
  before : store.HoldsTable root
  table : later.HoldsTable root
  free :
    store.free.Perm ((tables ++ data).map frameAddress ++ later.free)
  owns :
    ∀ frame, later.Owns root frame ↔ frame ∈ tables ∨ store.Owns root frame
  rest :
    ∀ frame, ¬ store.Owns root frame → frameAddress frame ∉ store.free →
      later.entries frame = store.entries frame

theorem Uses.refl
    (table : store.HoldsTable root) :
    Uses root store store [] [] where
  before := table
  table := table
  free := List.Perm.refl _
  owns := by
    intro frame
    constructor
    · intro owns
      exact Or.inr owns
    · rintro (isIn | owns)
      · cases isIn
      · exact owns
  rest := fun _ _ _ => rfl

theorem Uses.free_subset
    (uses : Uses root store later tables data)
    {page : Word}
    (isFree : page ∈ later.free) :
    page ∈ store.free :=
  uses.free.mem_iff.mpr (List.mem_append_right _ isFree)

theorem Uses.data_free
    (uses : Uses root store later tables data)
    (isData : frame ∈ data) :
    frameAddress frame ∈ store.free :=
  uses.free.mem_iff.mpr
    (List.mem_append_left _
      (List.mem_map_of_mem (List.mem_append_right _ isData)))

theorem Uses.data_apart
    (uses : Uses root store later tables data)
    (isData : frame ∈ data) :
    ¬ later.Owns root frame ∧ frameAddress frame ∉ later.free := by
  have distinct := uses.free.nodup_iff.mp uses.before.distinct
  rw [List.nodup_append, List.map_append, List.nodup_append] at distinct
  have isMapped : frameAddress frame ∈ data.map frameAddress :=
    List.mem_map_of_mem isData
  constructor
  · intro owns
    rcases (uses.owns frame).mp owns with isTable | before
    · exact distinct.1.2.2 _ (List.mem_map_of_mem isTable) _ isMapped rfl
    · exact uses.before.outside frame before (uses.data_free isData)
  · intro isFree
    exact distinct.2.2 _ (List.mem_append_right _ isMapped) _ isFree rfl

theorem Uses.data_nodup
    (uses : Uses root store later tables data) :
    data.Nodup := by
  have distinct := uses.free.nodup_iff.mp uses.before.distinct
  rw [List.nodup_append, List.map_append, List.nodup_append] at distinct
  exact List.Nodup.of_map _ distinct.1.2.1

theorem Uses.length
    (uses : Uses root store later tables data) :
    store.free.length = tables.length + data.length + later.free.length := by
  rw [uses.free.length_eq, List.length_append, List.length_map,
    List.length_append]

theorem Uses.trans
    (first : Uses root store inner tables data)
    (second : Uses root inner later moreTables moreData) :
    Uses root store later (tables ++ moreTables) (data ++ moreData) where
  before := first.before
  table := second.table
  free := by
    apply first.free.trans
    apply (second.free.append_left _).trans
    simp only [List.map_append, List.append_assoc]
    apply List.Perm.append_left
    exact List.perm_append_comm_assoc _ _ _
  owns := by
    intro frame
    rw [second.owns, first.owns, List.mem_append]
    constructor
    · rintro (isMore | isTable | owns)
      · exact Or.inl (Or.inr isMore)
      · exact Or.inl (Or.inl isTable)
      · exact Or.inr owns
    · rintro ((isTable | isMore) | owns)
      · exact Or.inr (Or.inl isTable)
      · exact Or.inl isMore
      · exact Or.inr (Or.inr owns)
  rest := by
    intro frame notOwned notFree
    have stillNotFree : frameAddress frame ∉ inner.free := by
      intro isFree
      exact notFree (first.free_subset isFree)
    have stillNotOwned : ¬ inner.Owns root frame := by
      intro owns
      rcases (first.owns frame).mp owns with isTable | before
      · apply notFree
        apply first.free.mem_iff.mpr
        exact List.mem_append_left _
          (List.mem_map_of_mem (List.mem_append_left _ isTable))
      · exact notOwned before
    rw [second.rest frame stillNotOwned stillNotFree,
      first.rest frame notOwned notFree]

/-! ## A page that is mapped -/

/-- What becomes of a page that is to be mapped. -/
inductive MapsFresh
    (root : Frame)
    (store : PageStore)
    (a perm : Word)
    (fill : Word → PageStore → PageStore) :
    Mapping → Prop
  | panic
      (someFree : store.free ≠ [])
      (refuses :
        MAXVA ≤ a.toNat ∨ carries (store.pteAt root a) PTE_V = true) :
      MapsFresh root store a perm fill .panic
  | failed
      {later : PageStore}
      {tables : List Frame}
      (uses : Uses root store later tables [])
      (same : ∀ va, later.pteAt root va = store.pteAt root va)
      (lacks : store.free.length < missing (store.has root) a + 1)
      (count : tables.length = store.free.length - 1)
      (unmapped :
        store.free ≠ [] →
          a.toNat < MAXVA ∧ ¬ carries (store.pteAt root a) PTE_V = true) :
      MapsFresh root store a perm fill (.failed later)
  | mapped
      {later : PageStore}
      {tables : List Frame}
      {mem : Word}
      {rest : List Word}
      (below : a.toNat < MAXVA)
      (unmapped : ¬ carries (store.pteAt root a) PTE_V = true)
      (uses : Uses root store later tables [pageOf mem])
      (isFree : store.free = mem :: rest)
      (pte :
        ∀ other : Word, other.toNat < MAXVA →
          later.pteAt root other =
            if pageOf other = pageOf a then pteFor mem perm
            else store.pteAt root other)
      (contents :
        later.entries (pageOf mem) =
          (fill mem (store.taking rest)).entries (pageOf mem))
      (count : tables.length = missing (store.has root) a)
      (present :
        ∀ other, other.length ≤ 2 →
          (later.has root other = true ↔
            store.has root other = true ∨ other <:+ tablePath a)) :
      MapsFresh root store a perm fill (.mapped later)

theorem sameTable_taking
    {fill : Word → PageStore → PageStore}
    {mem : Word}
    {rest : List Word}
    (table : store.HoldsTable root)
    (fills : Fills fill)
    (isFree : store.free = mem :: rest) :
    SameTable root store (fill mem (store.taking rest)) := by
  intro frame owns
  have ne : frameAddress frame ≠ mem := by
    intro same
    have notFree := table.outside frame owns
    rw [same, isFree] at notFree
    exact notFree List.mem_cons_self
  have isPage : PGROUNDDOWN mem = mem := by
    apply table.aligned
    rw [isFree]
    exact List.mem_cons_self
  exact (fills mem (store.taking rest) isPage).2 frame ne

theorem mapFresh_spec
    {fill : Word → PageStore → PageStore}
    (table : store.HoldsTable root)
    (fills : Fills fill)
    (aligned : a.toNat % 4096 = 0)
    (freeable : ∀ page ∈ store.free, Freeable end_address page) :
    MapsFresh root store a perm fill
      (store.mapFresh end_address (frameAddress root) a perm fill) := by
  unfold mapFresh kalloc
  cases isFree : store.free with
  | nil =>
      apply MapsFresh.failed (.refl table) (fun _ => rfl)
      · rw [isFree]
        exact Nat.succ_pos _
      · rw [isFree]
        rfl
      · intro someFree
        exact absurd isFree someFree
  | cons mem rest =>
      have same := sameTable_taking table fills isFree
      have someFree : store.free ≠ [] := by
        rw [isFree]
        exact List.cons_ne_nil _ _
      have memFree : mem ∈ store.free := by
        rw [isFree]
        exact List.mem_cons_self
      have isPage : frameAddress (pageOf mem) = mem := by
        rw [frameAddress_pageOf]
        exact table.aligned mem memFree
      have freeNow :
          (fill mem (store.taking rest)).free = rest :=
        (fills mem (store.taking rest) (table.aligned mem memFree)).1
      have distinct := table.distinct
      rw [isFree, List.nodup_cons] at distinct
      have tableNow : (fill mem (store.taking rest)).HoldsTable root := by
        apply same.holds table
        · rw [freeNow]
          exact distinct.2
        · intro page isIn
          rw [freeNow] at isIn
          rw [isFree]
          exact List.mem_cons_of_mem _ isIn
      have others :
          ∀ frame, frameAddress frame ∉ store.free →
            (fill mem (store.taking rest)).entries frame =
              store.entries frame := by
        intro frame notFree
        have ne : frameAddress frame ≠ mem := by
          intro isMem
          rw [isMem] at notFree
          exact notFree memFree
        exact (fills mem (store.taking rest)
          (table.aligned mem memFree)).2 frame ne
      have maps : MapsPage root (fill mem (store.taking rest)) a mem perm _ :=
        mapsPage tableNow aligned
      have tablesFree :
          ∀ {inner tables},
            Extends root (fill mem (store.taking rest)) inner tables →
              ∀ frame ∈ tables, frameAddress frame ∈ rest := by
        intro inner tables extends_ frame isTable
        rw [← freeNow, extends_.free]
        exact List.mem_append_left _ (List.mem_map_of_mem isTable)
      have owns :
          ∀ {inner tables},
            Extends root (fill mem (store.taking rest)) inner tables →
              ∀ frame, inner.Owns root frame ↔
                frame ∈ tables ∨ store.Owns root frame := by
        intro inner tables extends_ frame
        rw [extends_.owns, same.owns]
      have kept :
          ∀ {inner tables},
            Extends root (fill mem (store.taking rest)) inner tables →
              ∀ frame, ¬ store.Owns root frame →
                frameAddress frame ∉ store.free →
                  inner.entries frame = store.entries frame := by
        intro inner tables extends_ frame notOwned notFree
        rw [extends_.rest, others frame notFree]
        intro isOwned
        rcases (owns extends_ frame).mp isOwned with isTable | before
        · apply notFree
          rw [isFree]
          exact List.mem_cons_of_mem _ (tablesFree extends_ frame isTable)
        · exact notOwned before
      have notTable :
          ∀ {inner tables},
            Extends root (fill mem (store.taking rest)) inner tables →
              ¬ inner.Owns root (pageOf mem) := by
        intro inner tables extends_ isOwned
        rcases (owns extends_ _).mp isOwned with isTable | before
        · have isRest := tablesFree extends_ _ isTable
          rw [isPage] at isRest
          exact distinct.1 isRest
        · have notFree := table.outside _ before
          rw [isPage] at notFree
          exact notFree memFree
      dsimp only
      unfold taking at *
      generalize
        (fill mem { store with free := rest }).mappages (frameAddress root)
          mem a 4096 perm = result at maps ⊢
      cases maps with
      | panic refuses =>
          rw [same.pteAt] at refuses
          exact .panic someFree refuses
      | failed below unmapped grows exhausted lacks =>
          rename_i inner tables
          have extends_ := grows.extends_
          have memFreeable : Freeable end_address mem := freeable mem memFree
          obtain ⟨freed, isFreed⟩ :
              ∃ freed, inner.kfree end_address mem = some freed :=
            kfree_of_freeable memFreeable
          obtain ⟨_, freeThen, elsewhere⟩ := kfree_some isFreed
          rw [table.aligned mem memFree] at elsewhere
          rw [exhausted] at freeThen
          have keeps : SameTable root inner freed := by
            intro frame isOwned
            apply elsewhere
            intro isMem
            rw [← isPage] at isMem
            rw [frameAddress_inj.mp isMem] at isOwned
            exact notTable extends_ isOwned
          have uses : Uses root store freed tables [] := by
            refine ⟨table, ?_, ?_, ?_, ?_⟩
            · apply keeps.holds_of extends_.table
              · rw [freeThen]
                exact List.nodup_singleton mem
              · intro page isIn
                rw [freeThen] at isIn
                rw [List.mem_singleton.mp isIn]
                exact table.aligned mem memFree
              · intro frame isOwned isIn
                rw [freeThen] at isIn
                have isMem := List.mem_singleton.mp isIn
                rw [← isPage] at isMem
                rw [frameAddress_inj.mp isMem] at isOwned
                exact notTable extends_ isOwned
            · have restIs := extends_.free
              rw [freeNow, exhausted, List.append_nil] at restIs
              rw [isFree, freeThen, List.append_nil, restIs]
              exact List.perm_append_singleton mem _ |>.symm
            · intro frame
              rw [keeps.owns, owns extends_]
            · intro frame notOwned notFree
              rw [elsewhere, kept extends_ frame notOwned notFree]
              intro isMem
              rw [isMem] at notFree
              exact notFree memFree
          dsimp only
          rw [isFreed]
          apply MapsFresh.failed uses
          · intro va
            rw [keeps.pteAt, grows.same, same.pteAt]
          · rw [isFree, List.length_cons]
            rw [freeNow, same.missing] at lacks
            exact Nat.succ_lt_succ lacks
          · have total := uses.length
            rw [freeThen] at total
            exact Nat.eq_sub_of_add_eq total.symm
          · intro _
            rw [same.pteAt] at unmapped
            exact ⟨below, unmapped⟩
      | mapped below unmapped sets count present =>
          rename_i inner tables
          have extends_ := sets.extends_
          rw [same.pteAt] at unmapped
          have uses : Uses root store inner tables [pageOf mem] := by
            refine ⟨table, extends_.table, ?_, owns extends_, kept extends_⟩
            have restIs := extends_.free
            rw [freeNow] at restIs
            rw [isFree, restIs, List.map_append, List.map_singleton, isPage,
              List.append_assoc]
            exact List.perm_middle.symm
          apply MapsFresh.mapped below unmapped uses isFree
          · intro other low
            rw [sets.pte other low, same.pteAt]
          · exact extends_.rest _ (notTable extends_)
          · rw [count, same.missing]
          · intro other short
            rw [present other short, same.has short]

/-! ## Pages that are mapped one after the other -/

variable {b : Word} {count : Nat}

/-- The page of an address among those that follow another one. -/
def pageFrom (b address : Word) : Nat :=
  (address.toNat - b.toNat) / 4096

/-- Cleared pages have been mapped one after the other. -/
structure Grown
    (root : Frame)
    (store later : PageStore)
    (b perm : Word)
    (count : Nat)
    (tables frames : List Frame) : Prop where
  uses : Uses root store later tables frames
  length : frames.length = count
  high : b.toNat + 4096 * count ≤ MAXVA ∨ count = 0
  unmapped :
    ∀ address : Word, address.toNat < MAXVA → InPages b count address →
      ¬ carries (store.pteAt root address) PTE_V = true
  mapped :
    ∀ address : Word, address.toNat < MAXVA → InPages b count address →
      ∃ frame, frames[pageFrom b address]? = some frame ∧
        later.pteAt root address = pteFor (frameAddress frame) perm
  kept :
    ∀ address : Word, address.toNat < MAXVA → ¬ InPages b count address →
      later.pteAt root address = store.pteAt root address
  cleared : ∀ frame ∈ frames, later.entries frame = fun _ => 0

/-- The pages on the path of an address are there too. -/
def adding
    (present : List PageIndex → Bool)
    (va : Word)
    (path : List PageIndex) : Bool :=
  present path || path.isSuffixOf (tablePath va)

/-- How many pages it takes to map pages one after the other. -/
def demand : (List PageIndex → Bool) → Nat → Word → Nat
  | _, 0, _ => 0
  | present, count + 1, a =>
      1 + missing present a + demand (adding present a) count (a + 4096)

theorem missing_congr
    {present other : List PageIndex → Bool}
    (same : ∀ path, path.length ≤ 2 → other path = present path) :
    missing other va = missing present va := by
  have first : [indexAt 2 va].length ≤ 2 := Nat.le_succ 1
  have second : [indexAt 1 va, indexAt 2 va].length ≤ 2 := Nat.le_refl 2
  unfold missing lacking
  rw [same _ first]
  unfold lacking
  rw [same _ second]
  rfl

theorem demand_congr
    {present other : List PageIndex → Bool}
    (same : ∀ path, path.length ≤ 2 → other path = present path) :
    demand other count a = demand present count a := by
  induction count generalizing a present other with
  | zero => rfl
  | succ count inductionHypothesis =>
      unfold demand
      rw [missing_congr same]
      congr 1
      apply inductionHypothesis
      intro path short
      unfold adding
      rw [same path short]

theorem missing_eq_zero_iff
    {present : List PageIndex → Bool} :
    missing present va = 0 ↔
      present [indexAt 2 va] = true ∧ present (tablePath va) = true := by
  unfold missing lacking
  by_cases first : present [indexAt 2 va] = true
  · rw [if_pos first]
    unfold lacking
    by_cases second : present [indexAt 1 va, indexAt 2 va] = true
    · rw [if_pos second]
      exact iff_of_true rfl ⟨first, second⟩
    · rw [if_neg second]
      exact iff_of_false (Nat.succ_ne_zero 0) fun both => second both.2
  · rw [if_neg first]
    exact iff_of_false (Nat.succ_ne_zero 1) fun both => first both.1

theorem has_eq_adding
    (present :
      ∀ other, other.length ≤ 2 →
        (later.has root other = true ↔
          store.has root other = true ∨ other <:+ tablePath a))
    (short : path.length ≤ 2) :
    later.has root path = adding (store.has root) a path := by
  rw [Bool.eq_iff_iff, present path short]
  unfold adding
  rw [Bool.or_eq_true, List.isSuffixOf_iff_suffix]

theorem Grown.refl
    (table : store.HoldsTable root) :
    Grown root store store b perm 0 [] [] where
  uses := .refl table
  length := rfl
  high := Or.inr rfl
  unmapped := by
    intro address _ inPages
    unfold InPages at inPages
    omega
  mapped := by
    intro address _ inPages
    unfold InPages at inPages
    omega
  kept := fun _ _ _ => rfl
  cleared := by
    intro frame isIn
    cases isIn

theorem entries_zero_self
    {mem : Word}
    (isPage : frameAddress (pageOf mem) = mem) :
    (store.zero mem).entries (pageOf mem) = fun _ => 0 := by
  have cleared :
      (store.zero (frameAddress (pageOf mem))).entries = _ :=
    entries_zero
  rw [isPage] at cleared
  rw [cleared, Function.update_self]

theorem Grown.snoc
    {frames : List Frame}
    {mem : Word}
    {rest : List Word}
    (aligned : b.toNat % 4096 = 0)
    (isNext : a.toNat = b.toNat + 4096 * count)
    (grown : Grown root store inner b perm count tables frames)
    (below : a.toNat < MAXVA)
    (unmapped : ¬ carries (inner.pteAt root a) PTE_V = true)
    (uses : Uses root inner later moreTables [pageOf mem])
    (isFree : inner.free = mem :: rest)
    (pte :
      ∀ other : Word, other.toNat < MAXVA →
        later.pteAt root other =
          if pageOf other = pageOf a then pteFor mem perm
          else inner.pteAt root other)
    (contents :
      later.entries (pageOf mem) =
        ((inner.taking rest).zero mem).entries (pageOf mem)) :
    Grown root store later b perm (count + 1) (tables ++ moreTables)
      (frames ++ [pageOf mem]) := by
  have memFree : mem ∈ inner.free := by
    rw [isFree]
    exact List.mem_cons_self
  have isPage : frameAddress (pageOf mem) = mem := by
    rw [frameAddress_pageOf]
    exact grown.uses.table.aligned mem memFree
  have nextAligned : a.toNat % 4096 = 0 := by
    omega
  have samePage {address : Word} :
      pageOf address = pageOf a ↔ InPages a 1 address :=
    pageOf_eq_iff nextAligned
  have notBefore {address : Word} :
      InPages a 1 address → ¬ InPages b count address := by
    unfold InPages
    omega
  have splits {address : Word} :
      InPages b (count + 1) address ↔
        InPages b count address ∨ InPages a 1 address := by
    unfold InPages
    omega
  refine ⟨grown.uses.trans uses, ?_, ?_, ?_, ?_, ?_, ?_⟩
  · rw [List.length_append, grown.length]
    rfl
  · have ends := next_le_maxva nextAligned below
    rw [isNext] at ends
    rw [Nat.mul_succ, ← Nat.add_assoc]
    exact Or.inl ends
  · intro address low inPages
    rcases splits.mp inPages with before | isLast
    · exact grown.unmapped address low before
    · rw [← grown.kept address low (notBefore isLast),
        pteAt_congr below low (samePage.mpr isLast)]
      exact unmapped
  · intro address low inPages
    rw [pte address low]
    by_cases isLast : InPages a 1 address
    · have place : pageFrom b address = frames.length := by
        rw [grown.length]
        unfold pageFrom InPages at *
        omega
      rw [if_pos (samePage.mpr isLast), place]
      exact ⟨pageOf mem, List.getElem?_concat_length, by rw [isPage]⟩
    · rcases splits.mp inPages with before | again
      · obtain ⟨frame, isFrame, isPte⟩ := grown.mapped address low before
        rw [if_neg (fun same => isLast (samePage.mp same))]
        refine ⟨frame, ?_, isPte⟩
        obtain ⟨inside, _⟩ := List.getElem?_eq_some_iff.mp isFrame
        rw [List.getElem?_append_left inside]
        exact isFrame
      · exact absurd again isLast
  · intro address low notIn
    have notLast : ¬ InPages a 1 address := by
      intro isLast
      exact notIn (splits.mpr (Or.inr isLast))
    have notHere : ¬ InPages b count address := by
      intro before
      exact notIn (splits.mpr (Or.inl before))
    rw [pte address low, if_neg (fun same => notLast (samePage.mp same)),
      grown.kept address low notHere]
  · intro frame isIn
    rcases List.mem_append.mp isIn with before | isNew
    · obtain ⟨notOwned, notFree⟩ := grown.uses.data_apart before
      rw [uses.rest frame notOwned notFree]
      exact grown.cleared frame before
    · rw [List.mem_singleton.mp isNew, contents]
      exact entries_zero_self isPage

theorem Grown.grow
    {frames : List Frame}
    (grown : Grown root store inner b perm count tables frames)
    (uses : Uses root inner later moreTables [])
    (same : ∀ va, later.pteAt root va = inner.pteAt root va) :
    Grown root store later b perm count (tables ++ moreTables) frames where
  uses := by
    have both := grown.uses.trans uses
    rw [List.append_nil] at both
    exact both
  length := grown.length
  high := grown.high
  unmapped := grown.unmapped
  mapped := by
    intro address low inPages
    rw [same]
    exact grown.mapped address low inPages
  kept := by
    intro address low notIn
    rw [same]
    exact grown.kept address low notIn
  cleared := by
    intro frame isIn
    obtain ⟨notOwned, notFree⟩ := grown.uses.data_apart isIn
    rw [uses.rest frame notOwned notFree]
    exact grown.cleared frame isIn

theorem Uses.table_free
    (uses : Uses root store later tables data)
    (isTable : frame ∈ tables) :
    frameAddress frame ∈ store.free :=
  uses.free.mem_iff.mpr
    (List.mem_append_left _
      (List.mem_map_of_mem (List.mem_append_left _ isTable)))

end PageStore

end MyOS
