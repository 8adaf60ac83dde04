import MyOS.ProcSpace

namespace MyOS

open Lib
open PageStore

/-!
# The table that every process starts with

`proc_pagetable` takes a page for the root and maps the pages of `userret`,
`uservec` and the trapframe where they are.  Each page of the table was free.
-/

namespace PageStore

variable {store later inner : PageStore} {root frame : Frame}
variable {a va pa perm : Word} {tables more : List Frame}

/-- A table has been built from free pages. -/
structure Builds
    (store later : PageStore)
    (root : Frame)
    (tables : List Frame) : Prop where
  table : later.HoldsTable root
  free :
    store.free =
      frameAddress root :: (tables.map frameAddress ++ later.free)
  owns : ∀ frame, later.Owns root frame ↔ frame = root ∨ frame ∈ tables
  rest :
    ∀ frame, frameAddress frame ∉ store.free →
      later.entries frame = store.entries frame

theorem builds_root
    {rest : List Word}
    {address : Word}
    (isFree : store.free = address :: rest)
    (distinct : store.free.Nodup)
    (aligned : ∀ page ∈ store.free, PGROUNDDOWN page = page) :
    Builds store ((store.taking rest).zero address) (pageOf address) [] ∧
      ∀ va, ((store.taking rest).zero address).pteAt (pageOf address) va = 0 := by
  have isIn : address ∈ store.free := by
    rw [isFree]
    exact List.mem_cons_self
  have isPage : frameAddress (pageOf address) = address := by
    rw [frameAddress_pageOf]
    exact aligned address isIn
  have isClear :
      ((store.taking rest).zero address).entries (pageOf address) =
        fun _ => 0 :=
    entries_zero_self isPage
  have isBlank :
      ∀ index,
        childFrame
            (((store.taking rest).zero address).entries (pageOf address)
              index) =
          none := by
    intro index
    rw [isClear]
    exact childFrame_zero
  have split := distinct
  rw [isFree, List.nodup_cons] at split
  have owns (frame : Frame) :
      ((store.taking rest).zero address).Owns (pageOf address) frame ↔
        frame = pageOf address :=
    RadixTree.owns_blank isBlank
  refine ⟨⟨⟨?_, split.2, ?_, ?_⟩, ?_, ?_, ?_⟩, ?_⟩
  · exact RadixTree.separate_blank isBlank
  · intro page isOther
    apply aligned
    rw [isFree]
    exact List.mem_cons_of_mem _ isOther
  · intro frame isOwned isOther
    rw [(owns frame).mp isOwned, isPage] at isOther
    exact split.1 isOther
  · rw [isPage]
    exact isFree
  · intro frame
    rw [owns]
    exact (or_iff_left List.not_mem_nil).symm
  · intro frame notFree
    apply (fills_zero address (store.taking rest)
      (aligned address isIn)).2
    intro same
    rw [same] at notFree
    exact notFree isIn
  · intro va
    cases isNode :
        ((store.taking rest).zero address).node (pageOf address)
          (tablePath va) with
    | none => exact pteAt_of_none isNode
    | some page => cases RadixTree.node_blank isBlank isNode

theorem Builds.extend
    (builds : Builds store inner root tables)
    (extends_ : Extends root inner later more) :
    Builds store later root (tables ++ more) where
  table := extends_.table
  free := by
    rw [builds.free, extends_.free, List.map_append, List.append_assoc]
  owns := by
    intro frame
    rw [extends_.owns, builds.owns, List.mem_append]
    constructor
    · rintro (isMore | isRoot | isTable)
      · exact Or.inr (Or.inr isMore)
      · exact Or.inl isRoot
      · exact Or.inr (Or.inl isTable)
    · rintro (isRoot | isTable | isMore)
      · exact Or.inr (Or.inl isRoot)
      · exact Or.inr (Or.inr isTable)
      · exact Or.inl isMore
  rest := by
    intro frame notFree
    have notOwned : ¬ later.Owns root frame := by
      intro owns
      apply notFree
      rw [builds.free, extends_.free]
      rcases (extends_.owns frame).mp owns with isMore | before
      · exact List.mem_cons_of_mem _ (List.mem_append_right _
          (List.mem_append_left _ (List.mem_map_of_mem isMore)))
      · rcases (builds.owns frame).mp before with isRoot | isTable
        · rw [isRoot]
          exact List.mem_cons_self
        · exact List.mem_cons_of_mem _
            (List.mem_append_left _ (List.mem_map_of_mem isTable))
    rw [extends_.rest frame notOwned, builds.rest frame notFree]

/-- Only some pages have entries. -/
def OnlyMaps
    (store : PageStore)
    (root : Frame)
    (mapped : List (Word × Word)) : Prop :=
  ∀ va : Word, va.toNat < MAXVA →
    (∀ page perm, (page, perm) ∈ mapped → pageOf va = pageOf page →
      store.pteAt root va = pteFor page perm) ∧
    ((∀ page perm, (page, perm) ∈ mapped → pageOf va ≠ pageOf page) →
      store.pteAt root va = 0)

theorem OnlyMaps.cons
    {mapped : List (Word × Word)}
    (only : inner.OnlyMaps root mapped)
    (others : ∀ page perm, (page, perm) ∈ mapped → pageOf page ≠ pageOf a)
    (sets : Sets root inner later a (pteFor a perm) more) :
    later.OnlyMaps root ((a, perm) :: mapped) := by
  intro va low
  obtain ⟨isMapped, isClear⟩ := only va low
  rw [sets.pte va low]
  constructor
  · intro page pagePerm isIn samePage
    rcases List.mem_cons.mp isIn with isNew | before
    · cases isNew
      rw [if_pos samePage]
    · have notNew : pageOf va ≠ pageOf a := by
        rw [samePage]
        exact others page pagePerm before
      rw [if_neg notNew]
      exact isMapped page pagePerm before samePage
  · intro notMapped
    rw [if_neg (notMapped a perm List.mem_cons_self)]
    apply isClear
    intro page pagePerm isIn
    exact notMapped page pagePerm (List.mem_cons_of_mem _ isIn)

end PageStore

/-- The page of `userret` -/
def KernelPages.userretPage (pages : KernelPages) : Word × Word :=
  (PGROUNDDOWN pages.userret, PTE_R ||| PTE_X)

/-- The page of `uservec` -/
def KernelPages.uservecPage (pages : KernelPages) : Word × Word :=
  (PGROUNDDOWN pages.uservec, PTE_R ||| PTE_X)

/-- The page of the trapframe -/
def KernelPages.trapframePage (pages : KernelPages) : Word × Word :=
  (PGROUNDDOWN pages.trapframe, PTE_R ||| PTE_W)

/-- The pages that `proc_pagetable` maps. -/
def KernelPages.mapped (pages : KernelPages) : List (Word × Word) :=
  [pages.trapframePage, pages.uservecPage, pages.userretPage]

/--
The pages of `proc_pagetable` are in the kernel's physical memory; one page of
a table serves for its text, where `userret` and `uservec` are.
-/
structure KernelPages.InMemory (pages : KernelPages) : Prop where
  userret : pages.userret.toNat < MAXVA
  uservec : pages.uservec.toNat < MAXVA
  trapframe : pages.trapframe.toNat < MAXVA
  near :
    tablePath (PGROUNDDOWN pages.uservec) =
      tablePath (PGROUNDDOWN pages.userret)
  apart :
    pageOf pages.trapframe ≠ pageOf pages.userret ∧
      pageOf pages.trapframe ≠ pageOf pages.uservec

/-- The table that is only a root -/
def onlyRoot (path : List PageIndex) : Bool :=
  path.isEmpty

/-- The table with the pages for `userret` -/
def KernelPages.textThere (pages : KernelPages) : List PageIndex → Bool :=
  adding onlyRoot (PGROUNDDOWN pages.userret)

/-- The pages of a new table -/
def KernelPages.present (pages : KernelPages) : List PageIndex → Bool :=
  adding pages.textThere (PGROUNDDOWN pages.trapframe)

/-- How many pages a new table takes besides its root. -/
def KernelPages.need (pages : KernelPages) : Nat :=
  missing onlyRoot (PGROUNDDOWN pages.userret) +
    missing pages.textThere (PGROUNDDOWN pages.trapframe)

/-- What `proc_pagetable` comes to. -/
inductive BuildsTable
    (pages : KernelPages)
    (store : PageStore) :
    Except Unit (Option Word × PageStore) → Prop
  | none
      (isFree : store.free = []) :
      BuildsTable pages store (.ok (none, store))
  | failed
      {later : PageStore}
      {root : Frame}
      {tables : List Frame}
      (builds : Builds store later root tables)
      (exhausted : later.free = [])
      (lacks : store.free.length < 1 + pages.need) :
      BuildsTable pages store (.ok (none, later))
  | built
      {later : PageStore}
      {root : Frame}
      {tables : List Frame}
      (builds : Builds store later root tables)
      (only : later.OnlyMaps root pages.mapped)
      (count : tables.length = pages.need)
      (present :
        ∀ path, path.length ≤ 2 → later.has root path = pages.present path) :
      BuildsTable pages store (.ok (some (frameAddress root), later))

namespace PageStore

variable {pages : KernelPages} {store later inner : PageStore} {root : Frame}
variable {tables more : List Frame} {address : Word}

theorem pgrounddown_aligned (address : Word) :
    (PGROUNDDOWN address).toNat % 4096 = 0 := by
  rw [toNat_pgrounddown]
  exact Nat.mul_mod_left _ _

theorem pgrounddown_lt
    (low : address.toNat < MAXVA) :
    (PGROUNDDOWN address).toNat < MAXVA := by
  rw [toNat_pgrounddown]
  exact Nat.lt_of_le_of_lt (Nat.div_mul_le_self _ _) low

theorem pageOf_pgrounddown (address : Word) :
    pageOf (PGROUNDDOWN address) = pageOf address := by
  rw [← frameAddress_pageOf, pageOf_frameAddress]

theorem has_root
    (isBlank :
      ∀ index, childFrame (store.entries root index) = none)
    (path : List PageIndex) :
    store.has root path = onlyRoot path := by
  unfold has onlyRoot node
  cases isNode : RadixTree.node childFrame store.entries root path with
  | none =>
      cases path with
      | nil => cases isNode
      | cons index path => rfl
  | some page =>
      rw [RadixTree.node_blank isBlank isNode]
      rfl

theorem maps_kernel
    {mapped : List (Word × Word)}
    {perm : Word}
    {present : List PageIndex → Bool}
    (builds : Builds store inner root tables)
    (only : inner.OnlyMaps root mapped)
    (presentNow : ∀ path, path.length ≤ 2 → inner.has root path = present path)
    (low : address.toNat < MAXVA)
    (others :
      ∀ page perm, (page, perm) ∈ mapped →
        pageOf page ≠ pageOf address) :
    (∃ later more,
      inner.mappages (frameAddress root) (PGROUNDDOWN address)
          (PGROUNDDOWN address) 4096 perm = .failed later ∧
        Builds store later root (tables ++ more) ∧
          later.free = [] ∧
            inner.free.length < missing present (PGROUNDDOWN address)) ∨
      ∃ later more,
        inner.mappages (frameAddress root) (PGROUNDDOWN address)
            (PGROUNDDOWN address) 4096 perm = .mapped later ∧
          Builds store later root (tables ++ more) ∧
            later.OnlyMaps root ((PGROUNDDOWN address, perm) :: mapped) ∧
              more.length = missing present (PGROUNDDOWN address) ∧
                ∀ path, path.length ≤ 2 →
                  later.has root path =
                    adding present (PGROUNDDOWN address) path := by
  have maps :
      MapsPage root inner (PGROUNDDOWN address) (PGROUNDDOWN address) perm
        _ :=
    mapsPage builds.table (pgrounddown_aligned address)
  have unmapped :
      inner.pteAt root (PGROUNDDOWN address) = 0 := by
    apply (only _ (pgrounddown_lt low)).2
    intro page pagePerm isIn same
    rw [pageOf_pgrounddown] at same
    exact others page pagePerm isIn same.symm
  have sameMissing :
      missing (inner.has root) (PGROUNDDOWN address) =
        missing present (PGROUNDDOWN address) :=
    missing_congr presentNow
  generalize
    inner.mappages (frameAddress root) (PGROUNDDOWN address)
      (PGROUNDDOWN address) 4096 perm = result at maps ⊢
  cases maps with
  | panic refuses =>
      rcases refuses with high | isValid
      · exact absurd (pgrounddown_lt low) (Nat.not_lt_of_le high)
      · rw [unmapped] at isValid
        exact absurd isValid (by decide)
  | failed below isUnmapped grows exhausted lacks =>
      rw [sameMissing] at lacks
      exact Or.inl ⟨_, _, rfl, builds.extend grows.extends_, exhausted, lacks⟩
  | mapped below isUnmapped sets count present =>
      refine Or.inr ⟨_, _, rfl, builds.extend sets.extends_, ?_, ?_, ?_⟩
      · apply only.cons _ sets
        intro page pagePerm isIn
        rw [pageOf_pgrounddown]
        exact others page pagePerm isIn
      · rw [count, sameMissing]
      · intro path short
        rw [has_eq_adding present short]
        unfold adding
        rw [presentNow path short]

theorem missing_adding
    {present : List PageIndex → Bool}
    {va other : Word}
    (same : tablePath other = tablePath va) :
    missing (adding present va) other = 0 := by
  have first : indexAt 2 other = indexAt 2 va :=
    List.head_eq_of_cons_eq (List.tail_eq_of_cons_eq same)
  apply missing_eq_zero_iff.mpr
  unfold adding
  constructor
  · rw [Bool.or_eq_true, List.isSuffixOf_iff_suffix, first]
    exact Or.inr (List.suffix_cons _ _)
  · rw [Bool.or_eq_true, List.isSuffixOf_iff_suffix, same]
    exact Or.inr (List.suffix_refl _)

theorem adding_adding
    {present : List PageIndex → Bool}
    {va other : Word}
    (same : tablePath other = tablePath va)
    (path : List PageIndex) :
    adding (adding present va) other path = adding present va path := by
  unfold adding
  rw [same, Bool.or_assoc, Bool.or_self]

theorem builds_trapframe
    {mapped : List (Word × Word)}
    (inMemory : pages.InMemory)
    (builds : Builds store inner root tables)
    (only : inner.OnlyMaps root mapped)
    (text :
      ∀ entry, entry ∈ mapped ↔
        entry = pages.uservecPage ∨ entry = pages.userretPage)
    (count : tables.length = missing onlyRoot (PGROUNDDOWN pages.userret))
    (present :
      ∀ path, path.length ≤ 2 →
        inner.has root path = pages.textThere path)
    {built : Mapping}
    (isBuilt :
      inner.mappages (frameAddress root) (PGROUNDDOWN pages.trapframe)
        (PGROUNDDOWN pages.trapframe) 4096 (PTE_R ||| PTE_W) = built) :
    (∃ later, built = .failed later ∧
      BuildsTable pages store (.ok (none, later))) ∨
      ∃ later, built = .mapped later ∧
        BuildsTable pages store (.ok (some (frameAddress root), later)) := by
  have others :
      ∀ page perm, (page, perm) ∈ mapped →
        pageOf page ≠ pageOf pages.trapframe := by
    intro page perm isIn same
    rcases (text _).mp isIn with isVec | isRet
    · cases isVec
      rw [pageOf_pgrounddown] at same
      exact inMemory.apart.2 same.symm
    · cases isRet
      rw [pageOf_pgrounddown] at same
      exact inMemory.apart.1 same.symm
  rcases maps_kernel builds only present inMemory.trapframe others with
    ⟨later, more, isFailed, buildsNow, exhausted, lacks⟩ |
      ⟨later, more, isMapped, buildsNow, onlyNow, countNow, presentNow⟩
  · rw [isFailed] at isBuilt
    refine Or.inl ⟨later, isBuilt.symm, .failed buildsNow exhausted ?_⟩
    have total := congrArg List.length builds.free
    rw [List.length_cons, List.length_append, List.length_map, count] at total
    unfold KernelPages.need
    omega
  · rw [isMapped] at isBuilt
    refine Or.inr ⟨later, isBuilt.symm, .built buildsNow ?_ ?_ presentNow⟩
    · intro va low
      obtain ⟨isSet, isClear⟩ := onlyNow va low
      have same (entry : Word × Word) :
          entry ∈ pages.mapped ↔
            entry ∈
              (PGROUNDDOWN pages.trapframe, PTE_R ||| PTE_W) :: mapped := by
        unfold KernelPages.mapped
        rw [List.mem_cons, List.mem_cons, List.mem_singleton, List.mem_cons,
          text]
        rfl
      constructor
      · intro page perm isIn
        exact isSet page perm ((same _).mp isIn)
      · intro notMapped
        apply isClear
        intro page perm isIn
        exact notMapped page perm ((same _).mpr isIn)
    · rw [List.length_append, count, countNow]
      rfl

theorem procPagetable_spec
    (inMemory : pages.InMemory)
    (distinct : store.free.Nodup)
    (aligned : ∀ page ∈ store.free, PGROUNDDOWN page = page) :
    BuildsTable pages store (procPagetable pages store) := by
  unfold procPagetable kalloc
  cases isFree : store.free with
  | nil => exact .none isFree
  | cons address rest =>
      have isPage : frameAddress (pageOf address) = address := by
        rw [frameAddress_pageOf]
        apply aligned
        rw [isFree]
        exact List.mem_cons_self
      obtain ⟨builds, isClear⟩ := builds_root isFree distinct aligned
      have only :
          ((store.taking rest).zero address).OnlyMaps (pageOf address) [] := by
        intro va _
        refine ⟨?_, fun _ => isClear va⟩
        intro page perm isIn
        cases isIn
      have present :
          ∀ path, path.length ≤ 2 →
            ((store.taking rest).zero address).has (pageOf address) path =
              onlyRoot path := by
        intro path _
        apply has_root
        intro index
        rw [entries_zero_self isPage]
        exact childFrame_zero
      have total := congrArg List.length builds.free
      dsimp only
      unfold taking at builds only present total
      rcases maps_kernel builds only present inMemory.userret
          (fun page perm isIn => by cases isIn) with
        ⟨later, more, isFailed, buildsNow, exhausted, lacks⟩ |
          ⟨later, more, isMapped, buildsNow, onlyNow, countNow, presentNow⟩
      · rw [isPage] at isFailed
        rw [isFailed]
        apply BuildsTable.failed buildsNow exhausted
        rw [List.length_cons, List.length_append, List.length_map,
          List.length_nil] at total
        unfold KernelPages.need
        omega
      · rw [isPage] at isMapped
        rw [isMapped]
        dsimp only
        rw [List.nil_append] at buildsNow
        by_cases differs :
            PGROUNDDOWN pages.uservec ≠ PGROUNDDOWN pages.userret
        · rw [if_pos differs]
          have others :
              ∀ page perm,
                (page, perm) ∈ [pages.userretPage] →
                  pageOf page ≠ pageOf pages.uservec := by
            intro page perm isIn same
            cases List.mem_singleton.mp isIn
            apply differs
            rw [pageOf_pgrounddown] at same
            rw [← frameAddress_pageOf, ← same, frameAddress_pageOf]
          rcases maps_kernel buildsNow onlyNow presentNow inMemory.uservec
              others with
            ⟨final, moreNow, _, _, _, lacks⟩ |
              ⟨final, moreNow, isThere, buildsThen, onlyThen, countThen,
                presentThen⟩
          · rw [missing_adding inMemory.near] at lacks
            exact absurd lacks (Nat.not_lt_zero _)
          · rw [missing_adding inMemory.near] at countThen
            rw [List.length_eq_zero_iff.mp countThen, List.append_nil]
              at buildsThen
            rw [isPage] at isThere
            rw [isThere]
            dsimp only
            have presentLast :
                ∀ path, path.length ≤ 2 →
                  final.has (pageOf address) path = pages.textThere path := by
              intro path short
              rw [presentThen path short]
              exact adding_adding inMemory.near path
            rcases builds_trapframe inMemory buildsThen onlyThen
                (fun entry => by
                  rw [List.mem_cons, List.mem_singleton]
                  rfl)
                countNow presentLast rfl with
              ⟨last, isLast, spec⟩ | ⟨last, isLast, spec⟩
            · rw [isPage] at isLast
              rw [isLast]
              exact spec
            · rw [isPage] at isLast spec
              rw [isLast]
              exact spec
        · rw [if_neg differs]
          dsimp only
          have same : pages.uservecPage = pages.userretPage := by
            unfold KernelPages.uservecPage KernelPages.userretPage
            rw [not_not.mp differs]
          rcases builds_trapframe inMemory buildsNow onlyNow
              (fun entry => by
                rw [List.mem_singleton, same, or_self]
                rfl)
              countNow presentNow rfl with
            ⟨last, isLast, spec⟩ | ⟨last, isLast, spec⟩
          · rw [isPage] at isLast
            rw [isLast]
            exact spec
          · rw [isPage] at isLast spec
            rw [isLast]
            exact spec

end PageStore

end MyOS
