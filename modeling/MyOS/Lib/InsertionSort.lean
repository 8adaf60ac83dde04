import Mathlib.Data.List.Sort
import MyOS.Lib.MutableList

namespace MyOS.Lib

/-!
# Sorting by insertion from behind

A sequence of items is sorted in place: every item in turn goes in front of
those that it comes before, which are moved up by one place each.  Whether an
item comes before another is any function at all; the outcome is the one list
that inserts the items in their order, and if the function is an order, it is
sorted, with equal items in the order in which they were.
-/

variable {Item : Type} {before : Item → Item → Bool}

/-- An item may stay behind another one. -/
def MayFollow (before : Item → Item → Bool) (item other : Item) : Prop :=
  before item other = false

instance (before : Item → Item → Bool) : DecidableRel (MayFollow before) :=
  fun item other => inferInstanceAs (Decidable (before item other = false))

/-- Insert an item behind the last one that it may follow. -/
def insertBehind
    (before : Item → Item → Bool)
    (items : List Item)
    (item : Item) : List Item :=
  (items.reverse.orderedInsert (MayFollow before) item).reverse

/-- Insert items in their order. -/
def insertEach (before : Item → Item → Bool) (items : List Item) : List Item :=
  (items.reverse.insertionSort (MayFollow before)).reverse

/-- The relation of an order: one of two items may follow the other, and what
may follow an item may follow those in front of it. -/
structure IsOrder (before : Item → Item → Bool) : Prop where
  total : ∀ item other, MayFollow before item other ∨ MayFollow before other item
  trans :
    ∀ {item other last}, MayFollow before item other →
      MayFollow before other last → MayFollow before item last

section Inserting

variable {items : List Item} {item other : Item}

theorem insertBehind_nil : insertBehind before [] item = [item] :=
  rfl

theorem insertBehind_stays
    (stays : before item other = false) :
    insertBehind before (items ++ [other]) item = items ++ [other, item] := by
  unfold insertBehind
  rw [List.reverse_append, List.reverse_singleton, List.singleton_append,
    List.orderedInsert_cons_of_le (MayFollow before) _ stays]
  simp

theorem insertBehind_passes
    (passes : before item other = true) :
    insertBehind before (items ++ [other]) item =
      insertBehind before items item ++ [other] := by
  have notBehind : ¬ MayFollow before item other := by
    simp [MayFollow, passes]
  unfold insertBehind
  rw [List.reverse_append, List.reverse_singleton, List.singleton_append,
    List.orderedInsert_of_not_le (MayFollow before) _ notBehind,
    List.reverse_cons]

theorem insertEach_nil : insertEach before ([] : List Item) = [] :=
  rfl

theorem insertEach_concat :
    insertEach before (items ++ [item]) =
      insertBehind before (insertEach before items) item := by
  unfold insertEach insertBehind
  rw [List.reverse_append, List.reverse_singleton, List.singleton_append,
    List.insertionSort_cons, List.reverse_reverse]

theorem insertEach_perm (items : List Item) :
    (insertEach before items).Perm items :=
  (List.reverse_perm _).trans
    ((List.perm_insertionSort _ _).trans (List.reverse_perm _))

theorem insertEach_sorted
    (isOrder : IsOrder before)
    (items : List Item) :
    (insertEach before items).Pairwise fun first second =>
      MayFollow before second first := by
  have : Std.Total (MayFollow before) := ⟨isOrder.total⟩
  have : IsTrans Item (MayFollow before) := ⟨fun _ _ _ => isOrder.trans⟩
  unfold insertEach
  rw [List.pairwise_reverse]
  exact List.pairwise_insertionSort (MayFollow before) items.reverse

theorem insertEach_stable
    {kept : List Item}
    (sorted : kept.Pairwise fun first second => MayFollow before second first)
    (sublist : kept.Sublist items) :
    kept.Sublist (insertEach before items) := by
  unfold insertEach
  rw [← List.reverse_sublist, List.reverse_reverse]
  apply List.sublist_insertionSort
  · rw [List.pairwise_reverse]
    exact sorted
  · exact List.reverse_sublist.mpr sublist

end Inserting

/-!
## In place
-/

section InPlace

variable {place : Nat} {item : Nat → Item}

theorem tabulate_succ (length : Nat) (item : Nat → Item) :
    tabulate (length + 1) item = tabulate length item ++ [item length] := by
  simp only [tabulate, List.range_succ, List.map_append, List.map_singleton]

/-- Swap an item with those in front of it that it comes before. -/
def sink
    (before : Item → Item → Bool) :
    Nat → (Nat → Item) → (Nat → Item)
  | 0, item => item
  | place + 1, item =>
      if before (item (place + 1)) (item place) then
        sink before place
          (Function.update (Function.update item (place + 1) (item place)) place
            (item (place + 1)))
      else
        item

theorem sink_behind
    {behind : Nat}
    (isBehind : place < behind) :
    sink before place item behind = item behind := by
  induction place generalizing item with
  | zero =>
      rfl
  | succ place inductionHypothesis =>
      unfold sink
      split
      · rw [inductionHypothesis (Nat.lt_of_succ_lt isBehind),
          Function.update_of_ne (by omega), Function.update_of_ne (by omega)]
      · rfl

theorem sink_inserts :
    tabulate (place + 1) (sink before place item) =
      insertBehind before (tabulate place item) (item place) := by
  induction place generalizing item with
  | zero =>
      rfl
  | succ place inductionHypothesis =>
      rw [tabulate_succ place item]
      unfold sink
      cases passes : before (item (place + 1)) (item place) with
      | true =>
          have others :
              tabulate place
                  (Function.update
                    (Function.update item (place + 1) (item place)) place
                    (item (place + 1))) =
                tabulate place item := by
            apply tabulate_congr
            intro index inside
            rw [Function.update_of_ne (by omega),
              Function.update_of_ne (by omega)]
          rw [if_pos rfl, tabulate_succ, inductionHypothesis,
            sink_behind (Nat.lt_succ_self place), others,
            Function.update_self, Function.update_of_ne (by omega),
            Function.update_self, insertBehind_passes passes]
      | false =>
          rw [if_neg Bool.false_ne_true, insertBehind_stays passes,
            tabulate_succ, tabulate_succ, List.append_assoc]
          rfl

/-- Insert the items from the second one on. -/
def sinkEach
    (before : Item → Item → Bool)
    (item : Nat → Item) : Nat → (Nat → Item)
  | 0 => item
  | place + 1 => sink before place (sinkEach before item place)

theorem sinkEach_behind
    {count behind : Nat}
    (isBehind : count ≤ behind) :
    sinkEach before item count behind = item behind := by
  induction count with
  | zero =>
      rfl
  | succ count inductionHypothesis =>
      unfold sinkEach
      rw [sink_behind isBehind,
        inductionHypothesis (Nat.le_of_succ_le isBehind)]

theorem sinkEach_inserts (count : Nat) :
    tabulate count (sinkEach before item count) =
      insertEach before (tabulate count item) := by
  induction count with
  | zero =>
      rfl
  | succ count inductionHypothesis =>
      unfold sinkEach
      rw [sink_inserts, inductionHypothesis,
        sinkEach_behind (Nat.le_refl count), tabulate_succ, insertEach_concat]

end InPlace

end MyOS.Lib
