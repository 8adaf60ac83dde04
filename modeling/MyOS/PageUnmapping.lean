import MyOS.PageMapping
import MyOS.PageRoutines

namespace MyOS

open Lib

/-!
# Mappings are removed from page tables

`walkaddr` reads the entry of an address.  `uvmunmap` clears the entries of the
pages it is given; a page that it frees may not be one of the table.
-/

namespace PageStore

variable {store later inner : PageStore} {root frame page : Frame}
variable {path : List PageIndex} {index : PageIndex} {va a : Word}
variable {end_address pa : Word} {do_free : Bool} {turns : Nat}
variable {freed more : List Word}

/-! ## `walkaddr` -/

/-- `kfree` takes a page. -/
def Freeable (end_address pa : Word) : Prop :=
  ¬ (pa.toNat % PGSIZE ≠ 0 ∨ pa < end_address ∨ PHYSTOP ≤ pa.toNat)

theorem kfree_some
    (isDone : store.kfree end_address pa = some later) :
    Freeable end_address pa ∧ later.free = pa :: store.free ∧
      ∀ frame, frameAddress frame ≠ PGROUNDDOWN pa →
        later.entries frame = store.entries frame := by
  unfold kfree at isDone
  by_cases bad : pa.toNat % PGSIZE ≠ 0 ∨ pa < end_address ∨ PHYSTOP ≤ pa.toNat
  · rw [if_pos bad] at isDone
    cases isDone
  · rw [if_neg bad] at isDone
    cases isDone
    refine ⟨bad, rfl, ?_⟩
    intro frame elsewhere
    funext index
    have ne : entryAddress frame index ≠ pa := by
      intro same
      apply elsewhere
      rw [← same, pgrounddown_entryAddress]
    exact Function.update_of_ne ne _ _

theorem kfree_of_freeable
    (freeable : Freeable end_address pa) :
    ∃ later, store.kfree end_address pa = some later := by
  unfold kfree
  rw [if_neg freeable]
  exact ⟨_, rfl⟩

/-! ## `uvmunmap` -/

/-- The pages that a table maps, in the order of their addresses. -/
def framesFrom (store : PageStore) (root : Frame) : Nat → Word → List Word
  | 0, _ => []
  | turns + 1, a =>
      PTE2PA (store.pteAt root a) ::
        framesFrom store root turns (a + 4096)

/-- Pages have been unmapped. -/
structure Unmaps
    (root : Frame)
    (store later : PageStore)
    (a : Word)
    (turns : Nat)
    (freed : List Word) : Prop where
  node :
    ∀ {path : List PageIndex}, path.length ≤ 2 →
      later.node root path = store.node root path
  removed :
    ∀ address : Word, address.toNat < MAXVA → InPages a turns address →
      later.pteAt root address = 0
  kept :
    ∀ address : Word, address.toNat < MAXVA → ¬ InPages a turns address →
      later.pteAt root address = store.pteAt root address
  free : later.free = freed ++ store.free
  rest :
    ∀ frame, ¬ store.Owns root frame → frameAddress frame ∉ freed →
      later.entries frame = store.entries frame

/-- `uvmunmap` can remove the page of an address. -/
structure Removable
    (end_address : Word)
    (do_free : Bool)
    (store : PageStore)
    (root : Frame)
    (a : Word) : Prop where
  below : a.toNat < MAXVA
  valid : carries (store.pteAt root a) PTE_V = true
  leaf : PTE_FLAGS (store.pteAt root a) ≠ PTE_V
  freeable :
    do_free = true → Freeable end_address (PTE2PA (store.pteAt root a))

/-- The pages that are freed are not pages of the table. -/
def Outside
    (do_free : Bool)
    (store : PageStore)
    (root : Frame)
    (a : Word)
    (turns : Nat) : Prop :=
  do_free = true → ∀ address : Word, address.toNat < MAXVA →
    InPages a turns address →
      ¬ store.Owns root (frameOf (store.pteAt root address))

theorem unmaps_page
    (separate : RadixTree.Separate childFrame 2 store.entries root)
    (aligned : a.toNat % 4096 = 0)
    (below : a.toNat < MAXVA)
    (isThere : store.node root (tablePath a) = some page)
    (outside :
      do_free = true → ¬ store.Owns root (frameOf (store.pteAt root a)))
    (isFreed :
      (if do_free then
        store.kfree end_address (PTE2PA (store.pteAt root a))
      else
        some store) = some inner) :
    Unmaps root store (inner.set (entryAddress page (indexAt 0 a)) 0) a 1
      (if do_free then [PTE2PA (store.pteAt root a)] else []) := by
  have kept :
      ∀ frame, (do_free = true →
          frame ≠ frameOf (store.pteAt root a)) →
        inner.entries frame = store.entries frame := by
    intro frame elsewhere
    by_cases frees : do_free = true
    · rw [if_pos frees] at isFreed
      apply (kfree_some isFreed).2.2
      rw [PTE2PA_eq, pgrounddown_frameAddress]
      intro same
      exact elsewhere frees (frameAddress_inj.mp same)
    · rw [if_neg frees] at isFreed
      cases isFreed
      rfl
  have isFree :
      inner.free =
        (if do_free then [PTE2PA (store.pteAt root a)] else []) ++
          store.free := by
    by_cases frees : do_free = true
    · rw [if_pos frees] at isFreed ⊢
      exact (kfree_some isFreed).2.1
    · rw [if_neg frees] at isFreed ⊢
      cases isFreed
      rfl
  have same :
      ∀ frame, store.Owns root frame →
        inner.entries frame = store.entries frame := by
    intro frame owns
    apply kept
    intro frees isFrame
    rw [isFrame] at owns
    exact outside frees owns
  have moves :
      ∀ {path : List PageIndex}, path.length ≤ 2 →
        inner.node root path = store.node root path :=
    RadixTree.node_of_same same
  have innerThere : inner.node root (tablePath a) = some page := by
    have short : (tablePath a).length ≤ 2 := Nat.le_refl 2
    rw [moves short]
    exact isThere
  have innerSeparate :
      RadixTree.Separate childFrame 2 inner.entries root :=
    RadixTree.Separate.congr separate moves
  have ptes :
      ∀ address : Word, address.toNat < MAXVA →
        (inner.set (entryAddress page (indexAt 0 a)) 0).pteAt root address =
          if pageOf address = pageOf a then 0
          else store.pteAt root address := by
    intro address low
    have samePage := sameEntry_iff below low
    have short : (tablePath address).length ≤ 2 := Nat.le_refl 2
    unfold pteAt
    rw [entries_set,
      RadixTree.entryAt_write innerSeparate innerThere rfl short,
      RadixTree.entryAt_of_same same short]
    by_cases isSame : pageOf address = pageOf a
    · rw [if_pos isSame, if_pos (samePage.mpr isSame)]
    · rw [if_neg isSame, if_neg (fun both => isSame (samePage.mp both))]
  refine ⟨?_, ?_, ?_, isFree, ?_⟩
  · intro path short
    unfold node at *
    rw [entries_set,
      RadixTree.node_write innerSeparate innerThere rfl short]
    exact moves short
  · intro address low inPage
    rw [ptes address low, if_pos ((pageOf_eq_iff aligned).mpr inPage)]
  · intro address low notIn
    rw [ptes address low,
      if_neg (fun isSame => notIn ((pageOf_eq_iff aligned).mp isSame))]
  · intro frame notOwned notFreed
    have ne : frame ≠ page := by
      intro isPage
      rw [isPage] at notOwned
      exact notOwned ⟨tablePath a, Nat.le_refl 2, isThere⟩
    rw [entries_set, RadixTree.write_of_page_ne ne]
    apply kept
    intro frees isFrame
    rw [if_pos frees] at notFreed
    apply notFreed
    rw [isFrame, PTE2PA_eq]
    exact List.mem_cons_self

theorem Unmaps.refl :
    Unmaps root store store a 0 [] where
  node := fun _ => rfl
  removed := by
    intro address _ inPages
    unfold InPages at inPages
    omega
  kept := fun _ _ _ => rfl
  free := rfl
  rest := fun _ _ _ => rfl

theorem Unmaps.owns_iff
    (unmaps : Unmaps root store later a turns freed) :
    later.Owns root frame ↔ store.Owns root frame :=
  RadixTree.owns_congr unmaps.node

theorem Unmaps.cons
    (below : a.toNat < MAXVA)
    (first : Unmaps root store inner a 1 more)
    (next : Unmaps root inner later (a + 4096) turns freed) :
    Unmaps root store later a (turns + 1) (freed ++ more) where
  node := fun short => (next.node short).trans (first.node short)
  removed := by
    intro address low inPages
    by_cases isNext : InPages (a + 4096) turns address
    · exact next.removed address low isNext
    · rw [next.kept address low isNext]
      rcases (inPages_succ below).mp inPages with isFirst | again
      · exact first.removed address low isFirst
      · exact absurd again isNext
  kept := by
    intro address low notIn
    have notNext : ¬ InPages (a + 4096) turns address := by
      intro isNext
      exact notIn ((inPages_succ below).mpr (Or.inr isNext))
    have notFirst : ¬ InPages a 1 address := by
      intro isFirst
      exact notIn ((inPages_succ below).mpr (Or.inl isFirst))
    rw [next.kept address low notNext, first.kept address low notFirst]
  free := by
    rw [next.free, first.free, List.append_assoc]
  rest := by
    intro frame notOwned notFreed
    rw [List.mem_append] at notFreed
    have notInner : ¬ inner.Owns root frame := by
      intro owns
      exact notOwned (first.owns_iff.mp owns)
    rw [next.rest frame notInner (fun isIn => notFreed (Or.inl isIn)),
      first.rest frame notOwned (fun isIn => notFreed (Or.inr isIn))]

theorem framesFrom_congr
    (high : a.toNat + 4096 * turns ≤ MAXVA)
    (same :
      ∀ address : Word, address.toNat < MAXVA → InPages a turns address →
        later.pteAt root address = store.pteAt root address) :
    framesFrom later root turns a = framesFrom store root turns a := by
  induction turns generalizing a with
  | zero => rfl
  | succ turns inductionHypothesis =>
      have below : a.toNat < MAXVA := by
        omega
      have isFirst : InPages a (turns + 1) a := ⟨Nat.le_refl _, by omega⟩
      have next := toNat_next below
      unfold framesFrom
      rw [same a below isFirst, inductionHypothesis (by omega)]
      intro address low inPages
      exact same address low ((inPages_succ below).mpr (Or.inr inPages))

theorem next_le_maxva
    (aligned : a.toNat % 4096 = 0)
    (below : a.toNat < MAXVA) :
    a.toNat + 4096 ≤ MAXVA := by
  have isMax : MAXVA = 67108864 * 4096 := rfl
  rw [isMax] at below ⊢
  omega

theorem uvmunmapFrom_succ
    (isDone :
      store.uvmunmapFrom end_address (frameAddress root) do_free (turns + 1)
        a = some later) :
    Removable end_address do_free store root a ∧
      ∃ page inner, store.node root (tablePath a) = some page ∧
        (if do_free then
          store.kfree end_address (PTE2PA (store.pteAt root a))
        else
          some store) = some inner ∧
        (inner.set (entryAddress page (indexAt 0 a)) 0).uvmunmapFrom
          end_address (frameAddress root) do_free turns (a + 4096) =
            some later := by
  unfold uvmunmapFrom at isDone
  rw [walk_false] at isDone
  dsimp only at isDone
  by_cases high : MAXVA ≤ a.toNat
  · rw [if_pos high] at isDone
    cases isDone
  · rw [if_neg high] at isDone
    cases isNode : store.node root (tablePath a) with
    | none =>
        rw [isNode] at isDone
        cases isDone
    | some page =>
        rw [isNode] at isDone
        dsimp only [Option.elim_some] at isDone
        rw [load_entry isNode] at isDone
        by_cases isValid : carries (store.pteAt root a) PTE_V = true
        · rw [if_neg (not_not_intro isValid)] at isDone
          by_cases isTable : PTE_FLAGS (store.pteAt root a) = PTE_V
          · rw [if_pos isTable] at isDone
            cases isDone
          · rw [if_neg isTable] at isDone
            cases isFreed :
                (if do_free then
                  store.kfree end_address (PTE2PA (store.pteAt root a))
                else
                  some store) with
            | none =>
                rw [isFreed] at isDone
                cases isDone
            | some inner =>
                rw [isFreed] at isDone
                refine ⟨⟨Nat.lt_of_not_le high, isValid, isTable, ?_⟩, page,
                  inner, rfl, rfl, isDone⟩
                intro frees
                rw [if_pos frees] at isFreed
                exact (kfree_some isFreed).1
        · rw [if_pos isValid] at isDone
          cases isDone

theorem uvmunmapFrom_some
    (separate : RadixTree.Separate childFrame 2 store.entries root)
    (aligned : a.toNat % 4096 = 0)
    (outside : Outside do_free store root a turns)
    (isDone :
      store.uvmunmapFrom end_address (frameAddress root) do_free turns a =
        some later) :
    (turns = 0 ∨ a.toNat + 4096 * turns ≤ MAXVA) ∧
      Unmaps root store later a turns
        (if do_free then (framesFrom store root turns a).reverse else []) := by
  induction turns generalizing store a with
  | zero =>
      have nothing :
          (if do_free then (framesFrom store root 0 a).reverse else []) =
            [] := by
        split
        · rfl
        · rfl
      unfold uvmunmapFrom at isDone
      cases isDone
      rw [nothing]
      exact ⟨Or.inl rfl, .refl⟩
  | succ turns inductionHypothesis =>
      obtain ⟨removable, page, inner, isThere, isFreed, isRest⟩ :=
        uvmunmapFrom_succ isDone
      have below := removable.below
      have next := toNat_next below
      have isFirst : InPages a (turns + 1) a := ⟨Nat.le_refl _, by omega⟩
      have first :=
        unmaps_page separate aligned below isThere
          (fun frees => outside frees a below isFirst) isFreed
      have later :=
        inductionHypothesis
          (RadixTree.Separate.congr separate first.node) (by omega)
          (by
            intro frees address low inPages owns
            have notFirst := not_inPages_of_next below inPages
            rw [first.owns_iff, first.kept address low notFirst] at owns
            exact outside frees address low
              ((inPages_succ below).mpr (Or.inr inPages)) owns)
          isRest
      have high : a.toNat + 4096 * (turns + 1) ≤ MAXVA := by
        have ends := next_le_maxva aligned below
        have split : a.toNat + 4096 * (turns + 1) = a.toNat + 4096 + 4096 * turns := by
          rw [Nat.mul_succ]
          omega
        rw [split]
        rcases later.1 with isLast | further
        · rw [isLast]
          exact ends
        · rw [next] at further
          exact further
      have same :
          framesFrom (inner.set (entryAddress page (indexAt 0 a)) 0) root
              turns (a + 4096) =
            framesFrom store root turns (a + 4096) := by
        apply framesFrom_congr (by omega)
        intro address low inPages
        exact first.kept address low (not_inPages_of_next below inPages)
      have unmaps := Unmaps.cons below first later.2
      rw [same] at unmaps
      refine ⟨Or.inr high, ?_⟩
      by_cases frees : do_free = true
      · rw [if_pos frees, if_pos frees] at unmaps
        rw [if_pos frees]
        unfold framesFrom
        rw [List.reverse_cons]
        exact unmaps
      · rw [if_neg frees, if_neg frees] at unmaps
        rw [if_neg frees]
        exact unmaps

theorem node_of_valid
    (valid : carries (store.pteAt root a) PTE_V = true) :
    ∃ page, store.node root (tablePath a) = some page := by
  cases isNode : store.node root (tablePath a) with
  | none =>
      rw [pteAt_of_none isNode] at valid
      exact absurd valid (by decide)
  | some page => exact ⟨page, rfl⟩

theorem uvmunmapFrom_of_removable
    (separate : RadixTree.Separate childFrame 2 store.entries root)
    (aligned : a.toNat % 4096 = 0)
    (outside : Outside do_free store root a turns)
    (removable :
      ∀ address, InPages a turns address →
        Removable end_address do_free store root address) :
    ∃ later,
      store.uvmunmapFrom end_address (frameAddress root) do_free turns a =
        some later := by
  induction turns generalizing store a with
  | zero => exact ⟨store, rfl⟩
  | succ turns inductionHypothesis =>
      have isFirst : InPages a (turns + 1) a := by
        refine ⟨Nat.le_refl _, ?_⟩
        exact Nat.lt_add_of_pos_right (Nat.mul_pos (by decide) (by omega))
      have first := removable a isFirst
      have below := first.below
      have next := toNat_next below
      obtain ⟨page, isThere⟩ := node_of_valid first.valid
      have freed :
          ∃ inner,
            (if do_free then
              store.kfree end_address (PTE2PA (store.pteAt root a))
            else
              some store) = some inner := by
        by_cases frees : do_free = true
        · rw [if_pos frees]
          exact kfree_of_freeable (first.freeable frees)
        · rw [if_neg frees]
          exact ⟨store, rfl⟩
      obtain ⟨inner, isFreed⟩ := freed
      have unmaps :=
        unmaps_page separate aligned below isThere
          (fun frees => outside frees a below isFirst) isFreed
      have kept {address : Word} :
          InPages (a + 4096) turns address → address.toNat < MAXVA →
            (inner.set (entryAddress page (indexAt 0 a)) 0).pteAt root
                address =
              store.pteAt root address := by
        intro inPages low
        exact unmaps.kept address low (not_inPages_of_next below inPages)
      obtain ⟨later, isDone⟩ :=
        inductionHypothesis (a := a + 4096)
          (RadixTree.Separate.congr separate unmaps.node) (by omega)
          (by
            intro frees address low inPages owns
            rw [unmaps.owns_iff, kept inPages low] at owns
            exact outside frees address low
              ((inPages_succ below).mpr (Or.inr inPages)) owns)
          (by
            intro address inPages
            have before :=
              removable address
                ((inPages_succ below).mpr (Or.inr inPages))
            have same := kept inPages before.below
            refine ⟨before.below, ?_, ?_, ?_⟩
            · rw [same]
              exact before.valid
            · rw [same]
              exact before.leaf
            · rw [same]
              exact before.freeable)
      refine ⟨later, ?_⟩
      unfold uvmunmapFrom
      rw [walk_false]
      dsimp only
      rw [if_neg (Nat.not_le_of_lt below), isThere]
      dsimp only [Option.elim_some]
      rw [load_entry isThere, if_neg (not_not_intro first.valid),
        if_neg first.leaf, isFreed]
      exact isDone

end PageStore

end MyOS
