import MyOS.PageTree

namespace MyOS

open Lib

/-!
# Mappings are added to page tables

`walk` takes the pages that it adds from the free pages and changes no mapping;
`mappages` changes the entries of the pages that it maps and no other one, also
where the memory runs out on the way.
-/

namespace PageStore

variable {store later inner : PageStore} {root frame page : Frame}
variable {path : List PageIndex} {index : PageIndex} {va : Word}
variable {level : Nat} {taken more : List Frame}

/-! ## Pages that a table takes -/

/-- A table has taken some of the free pages; no other page has changed. -/
structure Extends
    (root : Frame)
    (store later : PageStore)
    (taken : List Frame) : Prop where
  table : later.HoldsTable root
  free : store.free = taken.map frameAddress ++ later.free
  owns :
    ∀ frame, later.Owns root frame ↔ frame ∈ taken ∨ store.Owns root frame
  rest :
    ∀ frame, ¬ later.Owns root frame →
      later.entries frame = store.entries frame

theorem Extends.refl
    (table : store.HoldsTable root) :
    Extends root store store [] where
  table := table
  free := rfl
  owns := by
    intro frame
    constructor
    · intro owns
      exact Or.inr owns
    · rintro (isIn | owns)
      · cases isIn
      · exact owns
  rest := fun _ _ => rfl

theorem Extends.trans
    (first : Extends root store inner taken)
    (second : Extends root inner later more) :
    Extends root store later (taken ++ more) where
  table := second.table
  free := by
    rw [first.free, second.free, List.map_append, List.append_assoc]
  owns := by
    intro frame
    rw [second.owns, first.owns, List.mem_append]
    constructor
    · rintro (isMore | isTaken | owns)
      · exact Or.inl (Or.inr isMore)
      · exact Or.inl (Or.inl isTaken)
      · exact Or.inr owns
    · rintro ((isTaken | isMore) | owns)
      · exact Or.inr (Or.inl isTaken)
      · exact Or.inl isMore
      · exact Or.inr (Or.inr owns)
  rest := by
    intro frame notOwned
    have notBefore : ¬ inner.Owns root frame := by
      intro owns
      exact notOwned ((second.owns frame).mpr (Or.inr owns))
    rw [second.rest frame notOwned, first.rest frame notBefore]

/-- A table takes pages and holds the entries it held. -/
structure Grows
    (root : Frame)
    (store later : PageStore)
    (taken : List Frame) : Prop where
  extends_ : Extends root store later taken
  same : ∀ va, later.pteAt root va = store.pteAt root va

theorem Grows.refl
    (table : store.HoldsTable root) :
    Grows root store store [] where
  extends_ := .refl table
  same := fun _ => rfl

theorem Grows.trans
    (first : Grows root store inner taken)
    (second : Grows root inner later more) :
    Grows root store later (taken ++ more) where
  extends_ := first.extends_.trans second.extends_
  same := fun va => (second.same va).trans (first.same va)

/-! ## `walk` -/

theorem walkFrom_of_node
    {alloc : Bool}
    (isNode : store.node root path = some frame)
    (isThere : store.node root (pathBelow va level path) = some page) :
    store.walkFrom alloc va level (frameAddress frame) =
      (some (entryAddress page (indexAt 0 va)), store) := by
  induction level generalizing path frame with
  | zero =>
      unfold pathBelow at isThere
      rw [isNode] at isThere
      cases isThere
      unfold walkFrom
      rw [entryAddress_eq]
  | succ level inductionHypothesis =>
      have next :
          store.node root (indexAt (level + 1) va :: path) = _ :=
        node_cons isNode
      unfold pathBelow at isThere
      unfold walkFrom
      dsimp only
      rw [entryAddress_eq]
      unfold childFrame at next
      by_cases isValid :
          carries (store.load (entryAddress frame (indexAt (level + 1) va)))
            PTE_V = true
      · rw [if_pos isValid] at next ⊢
        rw [PTE2PA_eq]
        exact inductionHypothesis next isThere
      · rw [if_neg isValid] at next
        rw [node_pathBelow next] at isThere
        cases isThere

theorem grows_kalloc
    {address : Word}
    {rest : List Word}
    (table : store.HoldsTable root)
    (isFree : store.free = address :: rest)
    (isNode : store.node root path = some frame)
    (above : path.length < 2)
    (isNone : store.node root (index :: path) = none) :
    let later :=
      (({ store with free := rest } : PageStore).zero address).set
        (entryAddress frame index) (PA2PTE address ||| PTE_V)
    Grows root store later [pageOf address] ∧
      later.node root (index :: path) = some (pageOf address) ∧
        ∀ other, other.length ≤ 2 →
          (later.has root other = true ↔
            store.has root other = true ∨ other = index :: path) := by
  have isIn : address ∈ store.free := by
    rw [isFree]
    exact List.mem_cons_self
  have isPage : frameAddress (pageOf address) = address := by
    rw [frameAddress_pageOf]
    exact table.aligned address isIn
  have outside : ¬ store.Owns root (pageOf address) := by
    intro owns
    have notFree := table.outside _ owns
    rw [isPage] at notFree
    exact notFree isIn
  have leads :
      childFrame (PA2PTE address ||| PTE_V) = some (pageOf address) := by
    have isValid : carries (PA2PTE address ||| PTE_V) PTE_V = true := by
      rw [carries_or]
      exact Bool.or_true _
    unfold childFrame
    rw [if_pos isValid, frameOf_PA2PTE (by decide)]
  have grafts :
      RadixTree.Grafts childFrame 2 0 store.entries root frame path index
        (PA2PTE address ||| PTE_V) (pageOf address) :=
    {
      separate := table.separate
      isNode := isNode
      above := above
      isNone := (node_cons isNode).symm.trans isNone
      isBlank := childFrame_zero
      leads := leads
      outside := outside
    }
  intro later
  have isGraft :
      later.entries =
        RadixTree.graft 0 store.entries frame index
          (PA2PTE address ||| PTE_V) (pageOf address) := by
    have cleared :
        (({ store with free := rest } : PageStore).zero address).entries =
          Function.update store.entries (pageOf address) fun _ => 0 := by
      have clears :
          (({ store with free := rest } : PageStore).zero
            (frameAddress (pageOf address))).entries = _ :=
        entries_zero
      rw [isPage] at clears
      exact clears
    unfold RadixTree.graft
    rw [← cleared]
    exact entries_set
  have owns :
      ∀ other, later.Owns root other ↔
        other = pageOf address ∨ store.Owns root other := by
    intro other
    unfold Owns
    rw [isGraft]
    exact grafts.owns
  have freeNow := table.distinct
  rw [isFree, List.nodup_cons] at freeNow
  refine ⟨⟨⟨⟨?_, ?_, ?_, ?_⟩, ?_, ?_, ?_⟩, ?_⟩, ?_, ?_⟩
  · rw [isGraft]
    exact grafts.keeps
  · exact freeNow.2
  · intro other isOther
    apply table.aligned
    rw [isFree]
    exact List.mem_cons_of_mem _ isOther
  · intro other isOwned
    rcases (owns other).mp isOwned with isFresh | before
    · rw [isFresh, isPage]
      exact freeNow.1
    · have notFree := table.outside other before
      rw [isFree] at notFree
      exact fun isOther => notFree (List.mem_cons_of_mem _ isOther)
  · rw [isFree, List.map_singleton, isPage]
    rfl
  · intro other
    rw [owns, List.mem_singleton]
  · intro other notOwned
    have otherNe : other ≠ pageOf address := by
      intro same
      exact notOwned ((owns other).mpr (Or.inl same))
    have frameNe : other ≠ frame := by
      intro same
      rw [same] at notOwned
      exact notOwned ((owns frame).mpr
        (Or.inr ⟨path, Nat.le_of_lt above, isNode⟩))
    rw [isGraft]
    unfold RadixTree.graft
    rw [RadixTree.write_of_page_ne frameNe, Function.update_of_ne otherNe]
  · intro va
    unfold pteAt
    rw [isGraft]
    exact grafts.entryAt rfl
  · have short : (index :: path).length ≤ 2 := above
    unfold node
    rw [isGraft, grafts.node short, if_pos rfl]
  · intro other short
    unfold has node
    rw [isGraft, grafts.node short]
    by_cases isFresh : other = index :: path
    · rw [if_pos isFresh]
      exact iff_of_true rfl (Or.inr isFresh)
    · rw [if_neg isFresh]
      exact (or_iff_left isFresh).symm

/-- What the loop of `walk` comes to when it may add pages. -/
inductive WalksTo
    (root : Frame)
    (store : PageStore)
    (path : List PageIndex)
    (index : PageIndex)
    (need : Nat) :
    Option Word × PageStore → Prop
  | null
      {later : PageStore}
      {taken : List Frame}
      (grows : Grows root store later taken)
      (exhausted : later.free = [])
      (lacks : store.free.length < need) :
      WalksTo root store path index need (none, later)
  | entry
      {later : PageStore}
      {taken : List Frame}
      {page : Frame}
      (grows : Grows root store later taken)
      (isThere : later.node root path = some page)
      (count : taken.length = need)
      (present :
        ∀ other, other.length ≤ 2 →
          (later.has root other = true ↔
            store.has root other = true ∨ other <:+ path)) :
      WalksTo root store path index need
        (some (entryAddress page index), later)

theorem WalksTo.after
    {result : Option Word × PageStore}
    {step : List PageIndex}
    {need : Nat}
    (grows : Grows root store inner [frame])
    (presentNow :
      ∀ other, other.length ≤ 2 →
        (inner.has root other = true ↔
          store.has root other = true ∨ other = step))
    (onWay : step <:+ path)
    (walks : WalksTo root inner path index need result) :
    WalksTo root store path index (need + 1) result := by
  cases walks with
  | null growsOn exhausted lacks =>
      apply WalksTo.null (grows.trans growsOn) exhausted
      rw [grows.extends_.free, List.length_append, List.length_map]
      exact Nat.lt_of_lt_of_eq (Nat.add_lt_add_left lacks 1)
        (Nat.add_comm 1 need)
  | entry growsOn isThere count present =>
      apply WalksTo.entry (grows.trans growsOn) isThere
      · rw [List.length_append, count]
        exact Nat.add_comm 1 need
      · intro other short
        rw [present other short, presentNow other short]
        constructor
        · rintro ((before | isStep) | suffix)
          · exact Or.inl before
          · rw [isStep]
            exact Or.inr onWay
          · exact Or.inr suffix
        · rintro (before | suffix)
          · exact Or.inl (Or.inl before)
          · exact Or.inr suffix

theorem has_iff :
    store.has root path = true ↔ ∃ page, store.node root path = some page :=
  Option.isSome_iff_exists

theorem lacking_of_fresh
    (isNone : store.node root path = none)
    (length : path.length + level = 2)
    (presentNow :
      ∀ other, other.length ≤ 2 →
        (inner.has root other = true ↔
          store.has root other = true ∨ other = path)) :
    lacking (inner.has root) va level path = level := by
  cases level with
  | zero => rfl
  | succ level =>
      have short : (indexAt (level + 1) va :: path).length ≤ 2 := by
        rw [List.length_cons]
        omega
      have absent :
          ¬ inner.has root (indexAt (level + 1) va :: path) = true := by
        intro isThere
        rcases (presentNow _ short).mp isThere with before | same
        · obtain ⟨page, isNode⟩ := has_iff.mp before
          have nothing :
              store.node root (indexAt (level + 1) va :: path) = none :=
            RadixTree.node_cons_none isNone
          rw [nothing] at isNode
          cases isNode
        · exact List.cons_ne_self _ _ same
      unfold lacking
      rw [if_neg absent]

theorem walkFrom_true
    (table : store.HoldsTable root)
    (isNode : store.node root path = some frame)
    (length : path.length + level = 2) :
    WalksTo root store (pathBelow va level path) (indexAt 0 va)
      (lacking (store.has root) va level path)
      (store.walkFrom true va level (frameAddress frame)) := by
  induction level generalizing store path frame with
  | zero =>
      unfold walkFrom pathBelow lacking
      rw [entryAddress_eq]
      apply WalksTo.entry (.refl table) isNode rfl
      intro other _
      constructor
      · intro before
        exact Or.inl before
      · rintro (before | suffix)
        · exact before
        · exact has_iff.mpr (RadixTree.node_of_suffix isNode suffix)
  | succ level inductionHypothesis =>
      have above : path.length < 2 := by
        omega
      have next :
          store.node root (indexAt (level + 1) va :: path) = _ :=
        node_cons isNode
      have nextLength :
          (indexAt (level + 1) va :: path).length + level = 2 := by
        rw [List.length_cons]
        omega
      unfold walkFrom pathBelow lacking
      dsimp only
      rw [entryAddress_eq]
      unfold childFrame at next
      by_cases isValid :
          carries (store.load (entryAddress frame (indexAt (level + 1) va)))
            PTE_V = true
      · rw [if_pos isValid] at next ⊢
        rw [PTE2PA_eq, if_pos (has_iff.mpr ⟨_, next⟩)]
        exact inductionHypothesis table next nextLength
      · rw [if_neg isValid] at next ⊢
        have absent :
            ¬ store.has root (indexAt (level + 1) va :: path) = true := by
          intro isThere
          obtain ⟨page, isPage⟩ := has_iff.mp isThere
          rw [next] at isPage
          cases isPage
        rw [if_pos rfl, if_neg absent]
        unfold kalloc
        cases isFree : store.free with
        | nil =>
            apply WalksTo.null (.refl table) isFree
            rw [isFree]
            exact Nat.zero_lt_succ level
        | cons address rest =>
            dsimp only
            have isPage : frameAddress (pageOf address) = address := by
              rw [frameAddress_pageOf]
              apply table.aligned
              rw [isFree]
              exact List.mem_cons_self
            obtain ⟨grows, isThere, present⟩ :=
              grows_kalloc table isFree isNode above next
            have walks :=
              inductionHypothesis grows.extends_.table isThere nextLength
            rw [isPage, lacking_of_fresh next nextLength present] at walks
            exact walks.after grows present suffix_pathBelow

/-- The pages that `walk` must add for an address. -/
def missing (present : List PageIndex → Bool) (va : Word) : Nat :=
  lacking present va 2 []

theorem walk_true
    (table : store.HoldsTable root)
    (below : va.toNat < MAXVA) :
    (∃ later taken,
      store.walk true (frameAddress root) va = (.null, later) ∧
        Grows root store later taken ∧ later.free = [] ∧
          store.free.length < missing (store.has root) va) ∨
      ∃ later taken page,
        store.walk true (frameAddress root) va =
            (.entry (entryAddress page (indexAt 0 va)), later) ∧
          Grows root store later taken ∧
            later.node root (tablePath va) = some page ∧
              taken.length = missing (store.has root) va ∧
                ∀ other, other.length ≤ 2 →
                  (later.has root other = true ↔
                    store.has root other = true ∨
                      other <:+ tablePath va) := by
  have isRoot : store.node root [] = some root := rfl
  have walks :
      WalksTo root store (tablePath va) (indexAt 0 va)
        (missing (store.has root) va)
        (store.walkFrom true va 2 (frameAddress root)) := by
    have length : ([] : List PageIndex).length + 2 = 2 := rfl
    exact walkFrom_true table isRoot length
  unfold walk
  rw [if_neg (Nat.not_le_of_lt below)]
  generalize store.walkFrom true va 2 (frameAddress root) = result at walks ⊢
  cases walks with
  | null grows exhausted lacks =>
      exact Or.inl ⟨_, _, rfl, grows, exhausted, lacks⟩
  | entry grows isThere count present =>
      exact Or.inr ⟨_, _, _, rfl, grows, isThere, count, present⟩

theorem walk_of_node
    {alloc : Bool}
    (below : va.toNat < MAXVA)
    (isThere : store.node root (tablePath va) = some page) :
    store.walk alloc (frameAddress root) va =
      (.entry (entryAddress page (indexAt 0 va)), store) := by
  have isRoot : store.node root [] = some root := rfl
  have found :
      store.walkFrom alloc va 2 (frameAddress root) =
        (some (entryAddress page (indexAt 0 va)), store) :=
    walkFrom_of_node isRoot isThere
  unfold walk
  rw [if_neg (Nat.not_le_of_lt below), found]

/-! ## Entries of pages -/

theorem pteAt_congr
    {other : Word}
    (below : va.toNat < MAXVA)
    (otherBelow : other.toNat < MAXVA)
    (same : pageOf other = pageOf va) :
    store.pteAt root other = store.pteAt root va := by
  obtain ⟨samePath, sameIndex⟩ :=
    (sameEntry_iff below otherBelow).mpr same
  unfold pteAt
  rw [samePath, sameIndex]

theorem load_entry
    (isThere : store.node root (tablePath va) = some page) :
    store.load (entryAddress page (indexAt 0 va)) = store.pteAt root va :=
  (RadixTree.entryAt_of_node isThere).symm

theorem pteAt_of_none
    (isNone : store.node root (tablePath va) = none) :
    store.pteAt root va = 0 :=
  RadixTree.entryAt_of_none isNone

/-- An entry is set for one page. -/
structure Sets
    (root : Frame)
    (store later : PageStore)
    (va value : Word)
    (taken : List Frame) : Prop where
  extends_ : Extends root store later taken
  pte :
    ∀ other : Word, other.toNat < MAXVA →
      later.pteAt root other =
        if pageOf other = pageOf va then value else store.pteAt root other

theorem sets_of_node
    {value : Word}
    (table : store.HoldsTable root)
    (below : va.toNat < MAXVA)
    (isThere : store.node root (tablePath va) = some page) :
    Sets root store (store.set (entryAddress page (indexAt 0 va)) value) va
      value [] := by
  have moves :
      ∀ {other : List PageIndex}, other.length ≤ 2 →
        RadixTree.node childFrame
            (store.set (entryAddress page (indexAt 0 va)) value).entries root
            other =
          RadixTree.node childFrame store.entries root other := by
    intro other short
    rw [entries_set]
    exact RadixTree.node_write table.separate isThere rfl short
  have owns :
      ∀ frame,
        (store.set (entryAddress page (indexAt 0 va)) value).Owns root frame ↔
          store.Owns root frame := by
    intro frame
    exact RadixTree.owns_congr moves
  refine ⟨⟨⟨?_, table.distinct, table.aligned, ?_⟩, rfl, ?_, ?_⟩, ?_⟩
  · exact RadixTree.Separate.congr table.separate moves
  · intro frame isOwned
    exact table.outside frame ((owns frame).mp isOwned)
  · intro frame
    rw [owns]
    constructor
    · intro before
      exact Or.inr before
    · rintro (isIn | before)
      · cases isIn
      · exact before
  · intro frame notOwned
    have ne : frame ≠ page := by
      intro same
      rw [same] at notOwned
      exact notOwned ((owns page).mpr ⟨tablePath va, Nat.le_refl 2, isThere⟩)
    rw [entries_set, RadixTree.write_of_page_ne ne]
  · intro other otherBelow
    have samePage := sameEntry_iff below otherBelow
    have short : (tablePath other).length ≤ 2 := Nat.le_refl 2
    unfold pteAt
    rw [entries_set,
      RadixTree.entryAt_write table.separate isThere rfl short]
    by_cases same : pageOf other = pageOf va
    · rw [if_pos same, if_pos (samePage.mpr same)]
    · rw [if_neg same, if_neg (fun both => same (samePage.mp both))]

theorem Sets.after
    {value : Word}
    (grows : Grows root store inner taken)
    (sets : Sets root inner later va value more) :
    Sets root store later va value (taken ++ more) where
  extends_ := grows.extends_.trans sets.extends_
  pte := by
    intro other otherBelow
    rw [sets.pte other otherBelow, grows.same]

/-! ## `mappages` -/

/-- The entry that `mappages` makes for a page. -/
def pteFor (pa perm : Word) : Word :=
  PA2PTE pa ||| (perm ||| PTE_V)

/-- An address is in one of the pages that follow an address. -/
def InPages (a : Word) (count : Nat) (address : Word) : Prop :=
  a.toNat ≤ address.toNat ∧ address.toNat < a.toNat + 4096 * count

/-- The pages that follow an address have been mapped. -/
structure Maps
    (root : Frame)
    (store later : PageStore)
    (a pa perm : Word)
    (count : Nat)
    (taken : List Frame) : Prop where
  extends_ : Extends root store later taken
  mapped :
    ∀ address : Word, address.toNat < MAXVA → InPages a count address →
      later.pteAt root address =
        pteFor (pa + (PGROUNDDOWN address - a)) perm
  rest :
    ∀ address : Word, address.toNat < MAXVA → ¬ InPages a count address →
      later.pteAt root address = store.pteAt root address

/-- A page cannot be mapped. -/
def Refuses (store : PageStore) (root : Frame) (a : Word) (turn : Nat) : Prop :=
  MAXVA ≤ a.toNat + 4096 * turn ∨
    carries (store.pteAt root (a + BitVec.ofNat 64 (4096 * turn))) PTE_V = true

/-- What the loop of `mappages` comes to. -/
inductive MapsTo
    (root : Frame)
    (store : PageStore)
    (a pa perm : Word)
    (turns : Nat) :
    Mapping → Prop
  | panic
      {turn : Nat}
      (before : turn < turns)
      (refuses : store.Refuses root a turn) :
      MapsTo root store a pa perm turns .panic
  | failed
      {later : PageStore}
      {count : Nat}
      {taken : List Frame}
      (before : count < turns)
      (exhausted : later.free = [])
      (maps : Maps root store later a pa perm count taken) :
      MapsTo root store a pa perm turns (.failed later)
  | mapped
      {later : PageStore}
      {taken : List Frame}
      (maps : Maps root store later a pa perm turns taken) :
      MapsTo root store a pa perm turns (.mapped later)

section Mapping

variable {a pa perm last : Word} {turns count : Nat}

theorem pageOf_eq_iff
    {address : Word}
    (aligned : a.toNat % 4096 = 0) :
    pageOf address = pageOf a ↔ InPages a 1 address := by
  unfold InPages
  constructor
  · intro same
    have numbers := congrArg BitVec.toNat same
    rw [toNat_pageOf, toNat_pageOf] at numbers
    omega
  · intro inPage
    apply BitVec.eq_of_toNat_eq
    rw [toNat_pageOf, toNat_pageOf]
    omega

theorem add_add_sub (pa a step address : Word) :
    pa + step + (address - (a + step)) = pa + (address - a) := by
  grind

theorem Maps.none
    (grows : Grows root store later taken) :
    Maps root store later a pa perm 0 taken where
  extends_ := grows.extends_
  mapped := by
    intro address _ inPages
    unfold InPages at inPages
    omega
  rest := fun address _ _ => grows.same address

theorem toNat_next
    (below : a.toNat < MAXVA) :
    (a + 4096).toNat = a.toNat + 4096 := by
  have isMax : MAXVA = 274877906944 := rfl
  have page : (4096 : Word).toNat = 4096 := rfl
  rw [BitVec.toNat_add]
  omega

theorem inPages_succ
    {address : Word}
    (below : a.toNat < MAXVA) :
    InPages a (count + 1) address ↔
      InPages a 1 address ∨ InPages (a + 4096) count address := by
  unfold InPages
  rw [toNat_next below]
  constructor
  · intro inPages
    by_cases first : address.toNat < a.toNat + 4096
    · exact Or.inl ⟨inPages.1, first⟩
    · exact Or.inr (by omega)
  · rintro (first | next)
    · exact ⟨first.1, by omega⟩
    · exact ⟨by omega, by omega⟩

theorem not_inPages_of_next
    {address : Word}
    (below : a.toNat < MAXVA)
    (next : InPages (a + 4096) count address) :
    ¬ InPages a 1 address := by
  unfold InPages at next ⊢
  rw [toNat_next below] at next
  intro first
  exact Nat.not_le_of_lt first.2 next.1

theorem Maps.cons
    (aligned : a.toNat % 4096 = 0)
    (below : a.toNat < MAXVA)
    (sets : Sets root store inner a (pteFor pa perm) taken)
    (maps : Maps root inner later (a + 4096) (pa + 4096) perm count more) :
    Maps root store later a pa perm (count + 1) (taken ++ more) where
  extends_ := sets.extends_.trans maps.extends_
  mapped := by
    intro address low inPages
    rcases (inPages_succ below).mp inPages with first | next
    · have isPage := (pageOf_eq_iff aligned).mpr first
      have isBegin : PGROUNDDOWN address = a := by
        rw [← frameAddress_pageOf, isPage, frameAddress_pageOf]
        apply BitVec.eq_of_toNat_eq
        rw [toNat_pgrounddown]
        omega
      have notNext : ¬ InPages (a + 4096) count address := by
        intro next
        exact not_inPages_of_next below next first
      rw [maps.rest address low notNext, sets.pte address low, if_pos isPage,
        isBegin, BitVec.sub_self, BitVec.add_zero]
    · rw [maps.mapped address low next,
        add_add_sub pa a 4096 (PGROUNDDOWN address)]
  rest := by
    intro address low notIn
    have notNext : ¬ InPages (a + 4096) count address := by
      intro next
      exact notIn ((inPages_succ below).mpr (Or.inr next))
    have notSame : ¬ pageOf address = pageOf a := by
      intro same
      have first := (pageOf_eq_iff aligned).mp same
      exact notIn ((inPages_succ below).mpr (Or.inl first))
    rw [maps.rest address low notNext, sets.pte address low, if_neg notSame]

theorem MapsTo.cons
    {result : Mapping}
    (aligned : a.toNat % 4096 = 0)
    (below : a.toNat < MAXVA)
    (sets : Sets root store inner a (pteFor pa perm) taken)
    (maps : MapsTo root inner (a + 4096) (pa + 4096) perm turns result) :
    MapsTo root store a pa perm (turns + 1) result := by
  have isMax : MAXVA = 274877906944 := rfl
  have next := toNat_next below
  cases maps with
  | panic before refuses =>
      rename_i turn
      apply MapsTo.panic (Nat.succ_lt_succ before)
      unfold Refuses at refuses ⊢
      have later :
          a + 4096 + BitVec.ofNat 64 (4096 * turn) =
            a + BitVec.ofNat 64 (4096 * (turn + 1)) := by
        rw [Nat.mul_succ, BitVec.ofNat_add, BitVec.add_assoc,
          BitVec.add_comm 4096]
        rfl
      rw [next] at refuses
      by_cases high : MAXVA ≤ a.toNat + 4096 * (turn + 1)
      · exact Or.inl high
      · rcases refuses with tooHigh | isValid
        · omega
        · rw [later] at isValid
          have place :
              (a + BitVec.ofNat 64 (4096 * (turn + 1))).toNat =
                a.toNat + 4096 * (turn + 1) := by
            rw [BitVec.toNat_add, BitVec.toNat_ofNat]
            omega
          have notSame :
              ¬ pageOf (a + BitVec.ofNat 64 (4096 * (turn + 1))) =
                pageOf a := by
            intro same
            have inPage := (pageOf_eq_iff aligned).mp same
            unfold InPages at inPage
            omega
          rw [sets.pte _ (by omega), if_neg notSame] at isValid
          exact Or.inr isValid
  | failed before exhausted maps =>
      exact .failed (Nat.succ_lt_succ before) exhausted
        (.cons aligned below sets maps)
  | mapped maps => exact .mapped (.cons aligned below sets maps)

theorem mapsTo_turn
    (table : store.HoldsTable root)
    (rest :
      ∀ {inner taken}, a.toNat < MAXVA →
        Sets root store inner a (pteFor pa perm) taken →
          MapsTo root store a pa perm (turns + 1)
            (if a = last then .mapped inner
              else
                inner.mappagesFrom (frameAddress root) last perm turns
                  (a + 4096) (pa + 4096))) :
    MapsTo root store a pa perm (turns + 1)
      (store.mappagesFrom (frameAddress root) last perm (turns + 1) a pa) := by
  unfold mappagesFrom
  by_cases high : MAXVA ≤ a.toNat
  · have walks :
        store.walk true (frameAddress root) a = (.outOfRange, store) := by
      unfold walk
      rw [if_pos high]
    rw [walks]
    have refuses : store.Refuses root a 0 := Or.inl high
    exact .panic (Nat.zero_lt_succ turns) refuses
  · have below := Nat.lt_of_not_le high
    rcases walk_true table below with
      ⟨later, taken, walks, grows, exhausted, _⟩ |
        ⟨later, taken, page, walks, grows, isThere, _⟩
    · rw [walks]
      exact .failed (Nat.zero_lt_succ turns) exhausted (.none grows)
    · rw [walks]
      dsimp only
      rw [load_entry isThere, grows.same]
      by_cases isValid : carries (store.pteAt root a) PTE_V = true
      · rw [if_pos isValid]
        have refuses : store.Refuses root a 0 := by
          apply Or.inr
          rw [Nat.mul_zero, BitVec.add_zero]
          exact isValid
        exact .panic (Nat.zero_lt_succ turns) refuses
      · rw [if_neg isValid]
        apply rest below
        exact (sets_of_node grows.extends_.table below isThere).after grows

theorem mappagesFrom_spec
    (table : store.HoldsTable root)
    (aligned : a.toNat % 4096 = 0)
    (distance : (last - a).toNat = 4096 * turns) :
    MapsTo root store a pa perm (turns + 1)
      (store.mappagesFrom (frameAddress root) last perm (turns + 1) a pa) := by
  have isMax : MAXVA = 274877906944 := rfl
  induction turns generalizing store a pa with
  | zero =>
      have isLast : a = last := by
        apply BitVec.eq_of_toNat_eq
        rw [BitVec.toNat_sub] at distance
        have bound := a.isLt
        have lastBound := last.isLt
        omega
      apply mapsTo_turn table
      intro inner taken below sets
      rw [if_pos isLast]
      apply MapsTo.mapped
      exact .cons aligned below sets (.none (.refl sets.extends_.table))
  | succ turns inductionHypothesis =>
      have notLast : a ≠ last := by
        intro same
        rw [same, BitVec.sub_self] at distance
        cases distance
      apply mapsTo_turn table
      intro inner taken below sets
      have next := toNat_next below
      have nextDistance : (last - (a + 4096)).toNat = 4096 * turns := by
        rw [BitVec.toNat_sub] at distance ⊢
        have bound := a.isLt
        have lastBound := last.isLt
        omega
      rw [if_neg notLast]
      apply MapsTo.cons aligned below sets
      exact inductionHypothesis sets.extends_.table (by omega) nextDistance

theorem mappages_spec
    {va size : Word}
    (table : store.HoldsTable root)
    (someBytes : size ≠ 0) :
    MapsTo root store (PGROUNDDOWN va) pa perm
      ((PGROUNDDOWN (va + size - 1) - PGROUNDDOWN va).toNat / 4096 + 1)
      (store.mappages (frameAddress root) pa va size perm) := by
  have aligned : (PGROUNDDOWN va).toNat % 4096 = 0 := by
    rw [toNat_pgrounddown]
    exact Nat.mul_mod_left _ _
  have distance :
      (PGROUNDDOWN (va + size - 1) - PGROUNDDOWN va).toNat =
        4096 *
          ((PGROUNDDOWN (va + size - 1) - PGROUNDDOWN va).toNat / 4096) := by
    rw [BitVec.toNat_sub, toNat_pgrounddown, toNat_pgrounddown]
    omega
  unfold mappages
  rw [if_neg someBytes]
  dsimp only
  rw [BitVec.toNat_ushiftRight, Nat.shiftRight_eq_div_pow]
  exact mappagesFrom_spec table aligned distance

theorem mappages_page
    (aligned : a.toNat % 4096 = 0) :
    store.mappages (frameAddress root) pa a 4096 perm =
      store.mappagesFrom (frameAddress root) a perm 1 a pa := by
  have bound := a.isLt
  have page : (4096 : Word).toNat = 4096 := rfl
  have begin : PGROUNDDOWN a = a := by
    apply BitVec.eq_of_toNat_eq
    rw [toNat_pgrounddown]
    omega
  have last : PGROUNDDOWN (a + 4096 - 1) = a := by
    have one : (1 : Word).toNat = 1 := rfl
    apply BitVec.eq_of_toNat_eq
    rw [toNat_pgrounddown, BitVec.toNat_sub, BitVec.toNat_add]
    omega
  have someBytes : ¬ (4096 : Word) = 0 := by
    decide
  unfold mappages
  rw [if_neg someBytes, begin, last]
  dsimp only
  rw [BitVec.sub_self]
  rfl

/-- What `mappages` comes to for one page. -/
inductive MapsPage
    (root : Frame)
    (store : PageStore)
    (a pa perm : Word) :
    Mapping → Prop
  | panic
      (refuses :
        MAXVA ≤ a.toNat ∨ carries (store.pteAt root a) PTE_V = true) :
      MapsPage root store a pa perm .panic
  | failed
      {later : PageStore}
      {taken : List Frame}
      (below : a.toNat < MAXVA)
      (unmapped : ¬ carries (store.pteAt root a) PTE_V = true)
      (grows : Grows root store later taken)
      (exhausted : later.free = [])
      (lacks : store.free.length < missing (store.has root) a) :
      MapsPage root store a pa perm (.failed later)
  | mapped
      {later : PageStore}
      {taken : List Frame}
      (below : a.toNat < MAXVA)
      (unmapped : ¬ carries (store.pteAt root a) PTE_V = true)
      (sets : Sets root store later a (pteFor pa perm) taken)
      (count : taken.length = missing (store.has root) a)
      (present :
        ∀ other, other.length ≤ 2 →
          (later.has root other = true ↔
            store.has root other = true ∨ other <:+ tablePath a)) :
      MapsPage root store a pa perm (.mapped later)

theorem has_set
    {value : Word}
    (table : store.HoldsTable root)
    (isThere : store.node root (tablePath va) = some page)
    (short : path.length ≤ 2) :
    (store.set (entryAddress page (indexAt 0 va)) value).has root path =
      store.has root path := by
  unfold has node
  rw [entries_set,
    RadixTree.node_write table.separate isThere rfl short]

theorem mapsPage
    (table : store.HoldsTable root)
    (aligned : a.toNat % 4096 = 0) :
    MapsPage root store a pa perm
      (store.mappages (frameAddress root) pa a 4096 perm) := by
  rw [mappages_page aligned]
  unfold mappagesFrom
  by_cases high : MAXVA ≤ a.toNat
  · have walks :
        store.walk true (frameAddress root) a = (.outOfRange, store) := by
      unfold walk
      rw [if_pos high]
    rw [walks]
    exact .panic (Or.inl high)
  · have below := Nat.lt_of_not_le high
    by_cases isValid : carries (store.pteAt root a) PTE_V = true
    · cases isNode : store.node root (tablePath a) with
      | none =>
          rw [pteAt_of_none isNode] at isValid
          exact absurd isValid (by decide)
      | some page =>
          rw [walk_of_node below isNode]
          dsimp only
          rw [load_entry isNode, if_pos isValid]
          exact .panic (Or.inr isValid)
    · rcases walk_true table below with
        ⟨later, taken, walks, grows, exhausted, lacks⟩ |
          ⟨later, taken, page, walks, grows, isThere, count, present⟩
      · rw [walks]
        exact .failed below isValid grows exhausted lacks
      · have tableNow := grows.extends_.table
        rw [walks]
        dsimp only
        rw [load_entry isThere, grows.same, if_neg isValid, if_pos rfl]
        apply MapsPage.mapped below isValid
          ((sets_of_node tableNow below isThere).after grows)
        · rw [List.append_nil]
          exact count
        · intro other short
          rw [has_set tableNow isThere short]
          exact present other short

end Mapping

end PageStore

end MyOS
