import Mathlib.Data.List.Basic
import Mathlib.Logic.Relation

namespace MyOS.CompletionOrder

/-!
# Orders of completion

Items are completed one after the other, each behind everything that it needs.
Such an order has what an item needs at any distance in front of it, and no
item that leads into a cycle is ever in one.
-/

variable {α : Type} {needs : α → α → Prop}

/-- Everything that an item needs is in front of it. -/
def Ordered
    (needs : α → α → Prop)
    (order : List α) : Prop :=
  ∀ before item behind, order = before ++ item :: behind →
    ∀ other, needs item other → other ∈ before

theorem ordered_nil : Ordered needs [] := by
  intro before item behind split
  cases before <;> cases split

theorem Ordered.concat
    {order : List α}
    {item : α}
    (ordered : Ordered needs order)
    (ready : ∀ other, needs item other → other ∈ order) :
    Ordered needs (order ++ [item]) := by
  intro before last behind split other isNeeded
  rcases List.eq_nil_or_concat' behind with rfl | ⟨behind, final, rfl⟩
  · obtain ⟨same, isLast⟩ := List.append_inj' split rfl
    cases isLast
    rw [← same]
    exact ready other isNeeded
  · have whole :
        order ++ [item] = (before ++ last :: behind) ++ [final] := by
      rw [split, List.append_assoc]
      rfl
    have same := (List.append_inj' whole rfl).1
    exact ordered before last behind same other isNeeded

theorem Ordered.mem_of_transGen
    {order before behind : List α}
    {item other : α}
    (ordered : Ordered needs order)
    (split : order = before ++ item :: behind)
    (needed : Relation.TransGen needs item other) :
    other ∈ before := by
  induction needed using Relation.TransGen.head_induction_on
    generalizing before behind with
  | single isNeeded =>
      exact ordered before _ behind split other isNeeded
  | head isNeeded _ inductionHypothesis =>
      obtain ⟨first, later, same⟩ :=
        List.append_of_mem (ordered before _ behind split _ isNeeded)
      subst same
      rw [List.append_assoc] at split
      have inFirst := inductionHypothesis split
      exact List.mem_append_left _ inFirst

theorem Ordered.not_transGen_self
    {order : List α}
    {item : α}
    (ordered : Ordered needs order)
    (member : item ∈ order) :
    ¬ Relation.TransGen needs item item := by
  intro cycle
  obtain ⟨before, behind, split, isFirst⟩ :=
    List.eq_append_cons_of_mem member
  exact isFirst (ordered.mem_of_transGen split cycle)

theorem Ordered.mem_of_reflTransGen
    {order : List α}
    {item other : α}
    (ordered : Ordered needs order)
    (member : item ∈ order)
    (needed : Relation.ReflTransGen needs item other) :
    other ∈ order := by
  rcases Relation.reflTransGen_iff_eq_or_transGen.mp needed with same | further
  · rw [same]
    exact member
  · obtain ⟨before, behind, split⟩ := List.append_of_mem member
    rw [split]
    exact List.mem_append_left _ (ordered.mem_of_transGen split further)

theorem Ordered.acyclic
    {order : List α}
    {item other : α}
    (ordered : Ordered needs order)
    (member : item ∈ order)
    (needed : Relation.ReflTransGen needs item other) :
    ¬ Relation.TransGen needs other other :=
  ordered.not_transGen_self (ordered.mem_of_reflTransGen member needed)

end MyOS.CompletionOrder
