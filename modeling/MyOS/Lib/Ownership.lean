import Mathlib.Logic.Function.Basic

namespace MyOS.Lib

/-!
# Exclusive ownership

Numbered items are marked as used in a bitmap and referred to by holders; item
0 stands for no item.  Every marked item is reserved or has exactly one holder,
except for one that has just been allocated and is not attached yet.
-/

/-- Which items the marks, the holders and the item in flight account for. -/
structure Ownership
    {Holder : Type}
    (refs : Holder → Nat)
    (marked : Nat → Bool)
    (reserved : Nat → Prop)
    (limit : Nat)
    (loose : Option Nat) : Prop where
  null : reserved 0
  exclusive :
    ∀ {first second}, refs first = refs second → refs first ≠ 0 →
      first = second
  inRange :
    ∀ {holder}, refs holder ≠ 0 →
      refs holder < limit ∧ ¬ reserved (refs holder)
  isMarked : ∀ {holder}, refs holder ≠ 0 → marked (refs holder) = true
  owned :
    ∀ {item}, item < limit → marked item = true →
      reserved item ∨ loose = some item ∨ ∃ holder, refs holder = item
  keepsReserved : ∀ {item}, reserved item → marked item = true
  looseInRange :
    ∀ {item}, loose = some item →
      item < limit ∧ ¬ reserved item ∧ marked item = true ∧
        ∀ holder, refs holder ≠ item

namespace Ownership

variable {Holder : Type}
variable {refs : Holder → Nat} {marked : Nat → Bool}
variable {reserved : Nat → Prop} {limit : Nat} {loose : Option Nat}

theorem ne_zero
    (ownership : Ownership refs marked reserved limit loose)
    {item : Nat}
    (free : ¬ reserved item) :
    item ≠ 0 := by
  intro zero
  rw [zero] at free
  exact free ownership.null

theorem unheld
    (ownership : Ownership refs marked reserved limit loose)
    {item : Nat}
    (clear : marked item = false)
    (holder : Holder) :
    refs holder ≠ item := by
  intro same
  by_cases zero : refs holder = 0
  · have isMarked := ownership.keepsReserved ownership.null
    rw [← zero, same, clear] at isMarked
    cases isMarked
  · have isMarked := ownership.isMarked zero
    rw [same, clear] at isMarked
    cases isMarked

theorem alloc
    (ownership : Ownership refs marked reserved limit none)
    {item : Nat}
    (inRange : item < limit)
    (clear : marked item = false) :
    Ownership refs (Function.update marked item true) reserved limit
      (some item) where
  null := ownership.null
  exclusive := ownership.exclusive
  inRange := ownership.inRange
  isMarked := by
    intro holder held
    rw [Function.update_of_ne (ownership.unheld clear holder)]
    exact ownership.isMarked held
  owned := by
    intro other bound isMarked
    by_cases same : other = item
    · rw [same]
      exact Or.inr (Or.inl rfl)
    · rw [Function.update_of_ne same] at isMarked
      rcases ownership.owned bound isMarked with kept | impossible | held
      · exact Or.inl kept
      · cases impossible
      · exact Or.inr (Or.inr held)
  keepsReserved := by
    intro other kept
    by_cases same : other = item
    · rw [same, Function.update_self]
    · rw [Function.update_of_ne same]
      exact ownership.keepsReserved kept
  looseInRange := by
    intro other isLoose
    cases isLoose
    refine ⟨inRange, ?_, Function.update_self .., ?_⟩
    · intro kept
      have isMarked := ownership.keepsReserved kept
      rw [clear] at isMarked
      cases isMarked
    · exact ownership.unheld clear

variable [DecidableEq Holder]

theorem attach
    {item : Nat}
    (ownership : Ownership refs marked reserved limit (some item))
    {holder : Holder}
    (empty : refs holder = 0) :
    Ownership (Function.update refs holder item) marked reserved limit
      none where
  null := ownership.null
  exclusive := by
    obtain ⟨-, -, -, unheld⟩ := ownership.looseInRange rfl
    intro first second same held
    by_cases isFirst : first = holder
    · by_cases isSecond : second = holder
      · rw [isFirst, isSecond]
      · rw [isFirst, Function.update_self,
          Function.update_of_ne isSecond] at same
        exact absurd same.symm (unheld second)
    · by_cases isSecond : second = holder
      · rw [isSecond, Function.update_self,
          Function.update_of_ne isFirst] at same
        exact absurd same (unheld first)
      · rw [Function.update_of_ne isFirst] at same held
        rw [Function.update_of_ne isSecond] at same
        exact ownership.exclusive same held
  inRange := by
    obtain ⟨inRange, free, -, -⟩ := ownership.looseInRange rfl
    intro other held
    by_cases same : other = holder
    · rw [same, Function.update_self]
      exact ⟨inRange, free⟩
    · rw [Function.update_of_ne same] at held ⊢
      exact ownership.inRange held
  isMarked := by
    obtain ⟨-, -, isMarked, -⟩ := ownership.looseInRange rfl
    intro other held
    by_cases same : other = holder
    · rw [same, Function.update_self]
      exact isMarked
    · rw [Function.update_of_ne same] at held ⊢
      exact ownership.isMarked held
  owned := by
    intro other bound isMarked
    rcases ownership.owned bound isMarked with kept | isLoose | held
    · exact Or.inl kept
    · cases isLoose
      exact Or.inr (Or.inr ⟨holder, Function.update_self ..⟩)
    · obtain ⟨owner, holds⟩ := held
      by_cases same : owner = holder
      · rw [same, empty] at holds
        rw [← holds]
        exact Or.inl ownership.null
      · refine Or.inr (Or.inr ⟨owner, ?_⟩)
        rw [Function.update_of_ne same]
        exact holds
  keepsReserved := ownership.keepsReserved
  looseInRange := by
    intro other impossible
    cases impossible

theorem release
    (ownership : Ownership refs marked reserved limit none)
    {holder : Holder}
    (held : refs holder ≠ 0) :
    Ownership (Function.update refs holder 0)
      (Function.update marked (refs holder) false) reserved limit none where
  null := ownership.null
  exclusive := by
    intro first second same isHeld
    have notFirst : first ≠ holder := by
      intro isFirst
      rw [isFirst, Function.update_self] at isHeld
      exact isHeld rfl
    have notSecond : second ≠ holder := by
      intro isSecond
      rw [same, isSecond, Function.update_self] at isHeld
      exact isHeld rfl
    rw [Function.update_of_ne notFirst] at same isHeld
    rw [Function.update_of_ne notSecond] at same
    exact ownership.exclusive same isHeld
  inRange := by
    intro other isHeld
    have different : other ≠ holder := by
      intro same
      rw [same, Function.update_self] at isHeld
      exact isHeld rfl
    rw [Function.update_of_ne different] at isHeld ⊢
    exact ownership.inRange isHeld
  isMarked := by
    intro other isHeld
    have different : other ≠ holder := by
      intro same
      rw [same, Function.update_self] at isHeld
      exact isHeld rfl
    rw [Function.update_of_ne different] at isHeld ⊢
    rw [Function.update_of_ne]
    · exact ownership.isMarked isHeld
    · intro same
      exact different (ownership.exclusive same isHeld)
  owned := by
    intro item bound isMarked
    by_cases same : item = refs holder
    · rw [same, Function.update_self] at isMarked
      cases isMarked
    · rw [Function.update_of_ne same] at isMarked
      rcases ownership.owned bound isMarked with kept | impossible | isHeld
      · exact Or.inl kept
      · cases impossible
      · obtain ⟨owner, holds⟩ := isHeld
        have different : owner ≠ holder := by
          intro isHolder
          rw [isHolder] at holds
          exact same holds.symm
        refine Or.inr (Or.inr ⟨owner, ?_⟩)
        rw [Function.update_of_ne different]
        exact holds
  keepsReserved := by
    intro item kept
    rw [Function.update_of_ne]
    · exact ownership.keepsReserved kept
    · intro same
      rw [same] at kept
      exact (ownership.inRange held).2 kept
  looseInRange := by
    intro item impossible
    cases impossible

end Ownership

end MyOS.Lib
