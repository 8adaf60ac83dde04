import Mathlib.Logic.Function.Basic

namespace MyOS.Lib

/-!
# Radix trees

A tree of pages that is kept in memory.  An entry of a page above the last
level leads to a page below it or to nothing; an entry of a page of the last
level is what the tree holds for a path.  A path lists its steps with the last
one first.
-/

namespace RadixTree

variable {Page Index Entry : Type}
variable {child : Entry → Option Page}
variable {mem later : Page → Index → Entry} {root page fresh : Page}
variable {path other : List Index} {index next : Index}
variable {blank entry : Entry} {depth : Nat}

/-- The page that a path leads to. -/
def node
    (child : Entry → Option Page)
    (mem : Page → Index → Entry)
    (root : Page) :
    List Index → Option Page
  | [] => some root
  | index :: path =>
      match node child mem root path with
      | none => none
      | some page => child (mem page index)

/-- The entry that the tree holds for a path and a last step. -/
def entryAt
    (child : Entry → Option Page)
    (blank : Entry)
    (mem : Page → Index → Entry)
    (root : Page)
    (path : List Index)
    (index : Index) : Entry :=
  match node child mem root path with
  | none => blank
  | some page => mem page index

/-- A page belongs to the tree. -/
def Owns
    (child : Entry → Option Page)
    (depth : Nat)
    (mem : Page → Index → Entry)
    (root page : Page) : Prop :=
  ∃ path, path.length ≤ depth ∧ node child mem root path = some page

/-- Only one path leads to each page. -/
def Separate
    (child : Entry → Option Page)
    (depth : Nat)
    (mem : Page → Index → Entry)
    (root : Page) : Prop :=
  ∀ {first second page},
    first.length ≤ depth → second.length ≤ depth →
      node child mem root first = some page →
        node child mem root second = some page → first = second

theorem owns_root :
    Owns child depth mem root root :=
  ⟨[], Nat.zero_le depth, rfl⟩

theorem node_cons
    (isNode : node child mem root path = some page) :
    node child mem root (index :: path) = child (mem page index) := by
  unfold node
  rw [isNode]

theorem node_cons_none
    (isNone : node child mem root path = none) :
    node child mem root (index :: path) = none := by
  unfold node
  rw [isNone]

theorem node_of_suffix
    (isNode : node child mem root path = some page)
    (suffix : other <:+ path) :
    ∃ above, node child mem root other = some above := by
  induction path generalizing page with
  | nil =>
      rw [List.suffix_nil.mp suffix]
      exact ⟨page, isNode⟩
  | cons index path inductionHypothesis =>
      rcases List.suffix_cons_iff.mp suffix with same | shorter
      · rw [same]
        exact ⟨page, isNode⟩
      · cases isAbove : node child mem root path with
        | none =>
            rw [node_cons_none isAbove] at isNode
            cases isNode
        | some above => exact inductionHypothesis isAbove shorter

theorem entryAt_of_node
    (isNode : node child mem root path = some page) :
    entryAt child blank mem root path index = mem page index := by
  unfold entryAt
  rw [isNode]

theorem entryAt_of_none
    (isNone : node child mem root path = none) :
    entryAt child blank mem root path index = blank := by
  unfold entryAt
  rw [isNone]

theorem node_congr
    (same :
      ∀ {path page}, path.length < depth →
        node child mem root path = some page →
          ∀ index, child (later page index) = child (mem page index)) :
    ∀ {path : List Index}, path.length ≤ depth →
      node child later root path = node child mem root path := by
  intro path
  induction path with
  | nil =>
      intro _
      rfl
  | cons index path inductionHypothesis =>
      intro short
      have shorter : path.length < depth := by
        rw [List.length_cons] at short
        exact short
      have above := inductionHypothesis (Nat.le_of_lt shorter)
      cases isNode : node child mem root path with
      | none =>
          rw [isNode] at above
          simp only [node, above, isNode]
      | some page =>
          rw [isNode] at above
          rw [node_cons isNode, node_cons above]
          exact same shorter isNode index

theorem node_of_same
    (same :
      ∀ page, Owns child depth mem root page → later page = mem page)
    (short : path.length ≤ depth) :
    node child later root path = node child mem root path := by
  apply node_congr _ short
  intro path page shorter isNode index
  rw [same page ⟨path, Nat.le_of_lt shorter, isNode⟩]

theorem entryAt_of_same
    (same :
      ∀ page, Owns child depth mem root page → later page = mem page)
    (short : path.length ≤ depth) :
    entryAt child blank later root path index =
      entryAt child blank mem root path index := by
  unfold entryAt
  rw [node_of_same same short]
  cases isNode : node child mem root path with
  | none => rfl
  | some page =>
      dsimp only
      rw [same page ⟨path, short, isNode⟩]

theorem owns_congr
    (same :
      ∀ {path : List Index}, path.length ≤ depth →
        node child later root path = node child mem root path) :
    Owns child depth later root page ↔ Owns child depth mem root page := by
  constructor
  · rintro ⟨path, short, isNode⟩
    rw [same short] at isNode
    exact ⟨path, short, isNode⟩
  · rintro ⟨path, short, isNode⟩
    rw [← same short] at isNode
    exact ⟨path, short, isNode⟩

theorem Separate.congr
    (separate : Separate child depth mem root)
    (same :
      ∀ {path : List Index}, path.length ≤ depth →
        node child later root path = node child mem root path) :
    Separate child depth later root := by
  intro first second page firstShort secondShort isFirst isSecond
  rw [same firstShort] at isFirst
  rw [same secondShort] at isSecond
  exact separate firstShort secondShort isFirst isSecond

theorem node_blank
    (isBlank : ∀ index, child (mem root index) = none)
    (isNode : node child mem root path = some page) :
    path = [] := by
  induction path generalizing page with
  | nil => rfl
  | cons index path inductionHypothesis =>
      cases above : node child mem root path with
      | none =>
          rw [node_cons_none above] at isNode
          cases isNode
      | some parent =>
          have isRoot := inductionHypothesis above
          rw [isRoot] at above
          cases above
          rw [isRoot, node_cons rfl, isBlank] at isNode
          cases isNode

theorem separate_blank
    (isBlank : ∀ index, child (mem root index) = none) :
    Separate child depth mem root := by
  intro first second page _ _ isFirst isSecond
  rw [node_blank isBlank isFirst, node_blank isBlank isSecond]

theorem owns_blank
    (isBlank : ∀ index, child (mem root index) = none) :
    Owns child depth mem root page ↔ page = root := by
  constructor
  · rintro ⟨path, _, isNode⟩
    rw [node_blank isBlank isNode] at isNode
    cases isNode
    rfl
  · rintro rfl
    exact owns_root

variable [DecidableEq Page] [DecidableEq Index]

/-- Write one entry of a page. -/
def write
    (mem : Page → Index → Entry)
    (page : Page)
    (index : Index)
    (entry : Entry) : Page → Index → Entry :=
  Function.update mem page (Function.update (mem page) index entry)

theorem write_self :
    write mem page index entry page index = entry := by
  unfold write
  rw [Function.update_self, Function.update_self]

theorem write_of_page_ne
    {elsewhere : Page}
    (ne : elsewhere ≠ page) :
    write mem page index entry elsewhere = mem elsewhere := by
  unfold write
  rw [Function.update_of_ne ne]

theorem write_of_index_ne
    (ne : next ≠ index) :
    write mem page index entry page next = mem page next := by
  unfold write
  rw [Function.update_self, Function.update_of_ne ne]

theorem node_write
    (separate : Separate child depth mem root)
    (isNode : node child mem root path = some page)
    (last : path.length = depth) :
    ∀ {other : List Index}, other.length ≤ depth →
      node child (write mem page index entry) root other =
        node child mem root other := by
  apply node_congr
  intro above parent shorter isParent next
  have ne : parent ≠ page := by
    intro same
    rw [same] at isParent
    have samePath :=
      separate (Nat.le_of_lt shorter) (Nat.le_of_eq last) isParent isNode
    rw [samePath, last] at shorter
    exact Nat.lt_irrefl depth shorter
  rw [write_of_page_ne ne]

theorem entryAt_write
    (separate : Separate child depth mem root)
    (isNode : node child mem root path = some page)
    (last : path.length = depth)
    (short : other.length ≤ depth) :
    entryAt child blank (write mem page index entry) root other next =
      if other = path ∧ next = index then entry
      else entryAt child blank mem root other next := by
  unfold entryAt
  rw [node_write separate isNode last short]
  cases isOther : node child mem root other with
  | none =>
      have ne : ¬ (other = path ∧ next = index) := by
        intro same
        rw [same.1, isNode] at isOther
        cases isOther
      rw [if_neg ne]
  | some found =>
      dsimp only
      by_cases samePage : found = page
      · rw [samePage] at isOther ⊢
        have samePath :=
          separate short (Nat.le_of_eq last) isOther isNode
        by_cases sameIndex : next = index
        · rw [sameIndex, write_self, if_pos ⟨samePath, rfl⟩]
        · have ne : ¬ (other = path ∧ next = index) := by
            intro same
            exact sameIndex same.2
          rw [write_of_index_ne sameIndex, if_neg ne]
      · have ne : ¬ (other = path ∧ next = index) := by
          intro same
          rw [same.1, isNode] at isOther
          cases isOther
          exact samePage rfl
        rw [write_of_page_ne samePage, if_neg ne]

/-- Clear a page and let an entry lead to it. -/
def graft
    (blank : Entry)
    (mem : Page → Index → Entry)
    (page : Page)
    (index : Index)
    (entry : Entry)
    (fresh : Page) : Page → Index → Entry :=
  write (Function.update mem fresh fun _ => blank) page index entry

/-- A page that is not in the tree can be grafted at an entry. -/
structure Grafts
    (child : Entry → Option Page)
    (depth : Nat)
    (blank : Entry)
    (mem : Page → Index → Entry)
    (root page : Page)
    (path : List Index)
    (index : Index)
    (entry : Entry)
    (fresh : Page) : Prop where
  separate : Separate child depth mem root
  isNode : RadixTree.node child mem root path = some page
  above : path.length < depth
  isNone : child (mem page index) = none
  isBlank : child blank = none
  leads : child entry = some fresh
  outside : ¬ Owns child depth mem root fresh

namespace Grafts

variable
  (grafts : Grafts child depth blank mem root page path index entry fresh)

include grafts

omit [DecidableEq Page] [DecidableEq Index] in
theorem ne :
    page ≠ fresh := by
  intro same
  have isNode := grafts.isNode
  rw [same] at isNode
  exact grafts.outside ⟨path, Nat.le_of_lt grafts.above, isNode⟩

omit [DecidableEq Page] [DecidableEq Index] in
theorem nothing :
    RadixTree.node child mem root (index :: path) = none := by
  rw [node_cons grafts.isNode, grafts.isNone]

theorem node :
    ∀ {other : List Index}, other.length ≤ depth →
      RadixTree.node child (graft blank mem page index entry fresh) root other =
        if other = index :: path then some fresh
        else RadixTree.node child mem root other := by
  intro other
  induction other with
  | nil =>
      intro _
      rw [if_neg (List.cons_ne_nil index path).symm]
      rfl
  | cons step rest inductionHypothesis =>
      intro short
      have shorter : rest.length < depth := by
        rw [List.length_cons] at short
        exact short
      have before := inductionHypothesis (Nat.le_of_lt shorter)
      by_cases isFresh : rest = index :: path
      · -- Below the page that is grafted there is nothing yet.
        rw [if_pos isFresh] at before
        have notThis : ¬ step :: rest = index :: path := by
          intro same
          rw [isFresh] at same
          have lengths := congrArg List.length same
          simp only [List.length_cons] at lengths
          omega
        have nothing : RadixTree.node child mem root (step :: rest) = none := by
          rw [isFresh]
          exact node_cons_none grafts.nothing
        rw [if_neg notThis, nothing, node_cons before]
        unfold graft
        rw [write_of_page_ne (Ne.symm grafts.ne), Function.update_self]
        exact grafts.isBlank
      · rw [if_neg isFresh] at before
        cases isRest : RadixTree.node child mem root rest with
        | none =>
            rw [isRest] at before
            have notThis : ¬ step :: rest = index :: path := by
              intro same
              have tails := List.tail_eq_of_cons_eq same
              rw [tails, grafts.isNode] at isRest
              cases isRest
            rw [if_neg notThis]
            simp only [RadixTree.node, before, isRest]
        | some found =>
            rw [isRest] at before
            rw [node_cons before, node_cons isRest]
            have foundNe : found ≠ fresh := by
              intro same
              rw [same] at isRest
              exact grafts.outside ⟨rest, Nat.le_of_lt shorter, isRest⟩
            unfold graft
            by_cases samePage : found = page
            · rw [samePage] at isRest ⊢
              have samePath :=
                grafts.separate (Nat.le_of_lt shorter) (Nat.le_of_lt grafts.above) isRest
                  grafts.isNode
              by_cases sameIndex : step = index
              · rw [sameIndex, samePath, write_self, if_pos rfl, grafts.leads]
              · have notThis : ¬ step :: rest = index :: path := by
                  intro same
                  exact sameIndex (List.head_eq_of_cons_eq same)
                rw [if_neg notThis, write_of_index_ne sameIndex,
                  Function.update_of_ne grafts.ne]
            · have notThis : ¬ step :: rest = index :: path := by
                intro same
                have tails := List.tail_eq_of_cons_eq same
                rw [tails, grafts.isNode] at isRest
                cases isRest
                exact samePage rfl
              rw [if_neg notThis, write_of_page_ne samePage,
                Function.update_of_ne foundNe]

theorem owns
    {elsewhere : Page} :
    Owns child depth (graft blank mem page index entry fresh) root
        elsewhere ↔
      elsewhere = fresh ∨ Owns child depth mem root elsewhere := by
  constructor
  · rintro ⟨other, short, isOther⟩
    rw [grafts.node short] at isOther
    by_cases isFresh : other = index :: path
    · rw [if_pos isFresh] at isOther
      cases isOther
      exact Or.inl rfl
    · rw [if_neg isFresh] at isOther
      exact Or.inr ⟨other, short, isOther⟩
  · rintro (isFresh | ⟨other, short, isOther⟩)
    · have short : (index :: path).length ≤ depth := grafts.above
      refine ⟨index :: path, short, ?_⟩
      rw [grafts.node short, if_pos rfl, isFresh]
    · have ne : other ≠ index :: path := by
        intro same
        rw [same, grafts.nothing] at isOther
        cases isOther
      refine ⟨other, short, ?_⟩
      rw [grafts.node short, if_neg ne]
      exact isOther

theorem keeps :
    Separate child depth (graft blank mem page index entry fresh) root := by
  intro first second found firstShort secondShort isFirst isSecond
  rw [grafts.node firstShort] at isFirst
  rw [grafts.node secondShort] at isSecond
  by_cases firstFresh : first = index :: path
  · rw [if_pos firstFresh] at isFirst
    cases isFirst
    by_cases secondFresh : second = index :: path
    · rw [firstFresh, secondFresh]
    · rw [if_neg secondFresh] at isSecond
      exact absurd ⟨second, secondShort, isSecond⟩ grafts.outside
  · rw [if_neg firstFresh] at isFirst
    by_cases secondFresh : second = index :: path
    · rw [if_pos secondFresh] at isSecond
      cases isSecond
      exact absurd ⟨first, firstShort, isFirst⟩ grafts.outside
    · rw [if_neg secondFresh] at isSecond
      exact grafts.separate firstShort secondShort isFirst isSecond

theorem entryAt
    (short : other.length = depth) :
    RadixTree.entryAt child blank (graft blank mem page index entry fresh) root other
        next =
      RadixTree.entryAt child blank mem root other next := by
  unfold RadixTree.entryAt
  rw [grafts.node (Nat.le_of_eq short)]
  by_cases isFresh : other = index :: path
  · have nothing : RadixTree.node child mem root other = none := by
      rw [isFresh, node_cons grafts.isNode, grafts.isNone]
    rw [if_pos isFresh, nothing]
    dsimp only
    unfold graft
    rw [write_of_page_ne (Ne.symm grafts.ne), Function.update_self]
  · rw [if_neg isFresh]
    cases isOther : RadixTree.node child mem root other with
    | none => rfl
    | some found =>
        have foundNe : found ≠ fresh := by
          intro same
          rw [same] at isOther
          exact grafts.outside ⟨other, Nat.le_of_eq short, isOther⟩
        have pageNe : found ≠ page := by
          intro same
          rw [same] at isOther
          have samePath :=
            grafts.separate (Nat.le_of_eq short) (Nat.le_of_lt grafts.above) isOther grafts.isNode
          rw [samePath] at short
          exact absurd short (Nat.ne_of_lt grafts.above)
        dsimp only
        unfold graft
        rw [write_of_page_ne pageNe, Function.update_of_ne foundNe]

end Grafts

end RadixTree

end MyOS.Lib
