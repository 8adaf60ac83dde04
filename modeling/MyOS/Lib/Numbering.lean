import MyOS.Lib.Ownership

namespace MyOS.Lib

/-!
# Consecutive numbers

Items are given out with consecutive numbers, and every item has exactly one
holder; 0 stands for no item.  What has been given out so far is an interval.
-/

/-- The items from `first` up to `next` have a holder each. -/
structure Numbering
    {Holder : Type}
    (refs : Holder → Nat)
    (first next : Nat) : Prop where
  exclusive :
    ∀ {one other}, refs one = refs other → refs one ≠ 0 → one = other
  inRange : ∀ {holder}, refs holder ≠ 0 →
    first ≤ refs holder ∧ refs holder < next
  covered :
    ∀ {item}, first ≤ item → item < next → ∃ holder, refs holder = item

section Update

variable {Place : Type} {number : Place → Nat} {place : Place} {item : Nat}

theorem ne_of_held
    {other : Place}
    (isEmpty : number place = 0)
    (held : number other ≠ 0) :
    other ≠ place :=
  fun same => held (same ▸ isEmpty)

variable [DecidableEq Place]

theorem update_agrees
    {Key : Type}
    [DecidableEq Key]
    {table : Key → Nat}
    {places : Key → Place}
    {key other : Key}
    (distinct : places other = places key → other = key)
    (agrees : table other = number (places other)) :
    Function.update table key item other =
      Function.update number (places key) item (places other) := by
  by_cases same : other = key
  · rw [same, Function.update_self, Function.update_self]
  · rw [Function.update_of_ne same, Function.update_of_ne (mt distinct same)]
    exact agrees

theorem update_ne_zero
    {has : Place → Prop}
    (filled : ∀ other, number other ≠ 0 ↔ has other)
    (positive : item ≠ 0)
    (other : Place) :
    Function.update number place item other ≠ 0 ↔
      has other ∨ other = place := by
  by_cases same : other = place
  · rw [same, Function.update_self]
    exact iff_of_true positive (Or.inr rfl)
  · rw [Function.update_of_ne same, filled, or_iff_left same]

end Update

namespace Numbering

variable {Holder : Type} {refs : Holder → Nat} {first next : Nat}

theorem empty
    (none : ∀ holder, refs holder = 0) :
    Numbering refs first first where
  exclusive := fun {one _} _ held => absurd (none one) held
  inRange := fun {holder} held => absurd (none holder) held
  covered := fun lower upper =>
    absurd lower (Nat.not_le_of_lt upper)

theorem unheld
    (numbering : Numbering refs first next)
    (positive : 0 < next)
    {item : Nat}
    (beyond : next ≤ item)
    (holder : Holder) :
    refs holder ≠ item := by
  intro same
  have held : refs holder ≠ 0 := by
    omega
  have below := (numbering.inRange held).2
  omega

section Attach

variable [DecidableEq Holder]

theorem attach
    (numbering : Numbering refs first next)
    (positive : 0 < first)
    (order : first ≤ next)
    {holder : Holder}
    (isEmpty : refs holder = 0) :
    Numbering (Function.update refs holder next) first (next + 1) where
  exclusive := by
    have unheld :=
      numbering.unheld (Nat.lt_of_lt_of_le positive order) (Nat.le_refl next)
    intro one other same held
    by_cases isOne : one = holder
    · by_cases isOther : other = holder
      · rw [isOne, isOther]
      · rw [isOne, Function.update_self, Function.update_of_ne isOther] at same
        exact absurd same.symm (unheld other)
    · by_cases isOther : other = holder
      · rw [isOther, Function.update_self, Function.update_of_ne isOne] at same
        exact absurd same (unheld one)
      · rw [Function.update_of_ne isOne] at same held
        rw [Function.update_of_ne isOther] at same
        exact numbering.exclusive same held
  inRange := by
    intro one held
    by_cases isOne : one = holder
    · rw [isOne, Function.update_self]
      exact ⟨order, Nat.lt_succ_self next⟩
    · rw [Function.update_of_ne isOne] at held ⊢
      obtain ⟨lower, upper⟩ := numbering.inRange held
      exact ⟨lower, Nat.lt_succ_of_lt upper⟩
  covered := by
    intro item lower upper
    rcases Nat.lt_succ_iff_lt_or_eq.mp upper with before | isNext
    · obtain ⟨one, isItem⟩ := numbering.covered lower before
      refine ⟨one, ?_⟩
      rw [Function.update_of_ne]
      · exact isItem
      · intro same
        rw [same, isEmpty] at isItem
        omega
    · exact ⟨holder, by rw [Function.update_self, isNext]⟩

end Attach

theorem join
    {Group Place : Type}
    [DecidableEq Group]
    {refs : Group × Place → Nat}
    {own : Place → Nat}
    {group : Group}
    {middle : Nat}
    (numbering : Numbering refs first middle)
    (later : Numbering own middle next)
    (positive : 0 < first)
    (order : first ≤ middle)
    (before : middle ≤ next)
    (isEmpty : ∀ place, refs (group, place) = 0) :
    Numbering
      (fun holder : Group × Place =>
        if holder.1 = group then own holder.2 else refs holder)
      first next where
  exclusive := by
    rintro ⟨one, place⟩ ⟨other, otherPlace⟩ same held
    dsimp only at same held
    by_cases isOne : one = group
    · rw [if_pos isOne] at same held
      by_cases isOther : other = group
      · rw [if_pos isOther] at same
        rw [isOne, isOther, later.exclusive same held]
      · rw [if_neg isOther] at same
        have lower := (later.inRange held).1
        rw [same] at held lower
        have upper := (numbering.inRange held).2
        omega
    · rw [if_neg isOne] at same held
      by_cases isOther : other = group
      · rw [if_pos isOther] at same
        have upper := (numbering.inRange held).2
        rw [same] at held upper
        have lower := (later.inRange held).1
        omega
      · rw [if_neg isOther] at same
        exact numbering.exclusive same held
  inRange := by
    rintro ⟨one, place⟩ held
    dsimp only at held ⊢
    split at held
    next isOne =>
      rw [if_pos isOne]
      obtain ⟨lower, upper⟩ := later.inRange held
      omega
    next notOne =>
      rw [if_neg notOne]
      obtain ⟨lower, upper⟩ := numbering.inRange held
      omega
  covered := by
    intro item lower upper
    by_cases isOld : item < middle
    · obtain ⟨⟨one, place⟩, isItem⟩ := numbering.covered lower isOld
      refine ⟨(one, place), ?_⟩
      rw [if_neg]
      · exact isItem
      · intro isGroup
        change one = group at isGroup
        rw [isGroup, isEmpty] at isItem
        omega
    · obtain ⟨place, isItem⟩ := later.covered (Nat.le_of_not_lt isOld) upper
      exact ⟨(group, place), (if_pos rfl).trans isItem⟩

theorem ownership
    (numbering : Numbering refs first next)
    (positive : 0 < first)
    (order : first ≤ next)
    {limit : Nat}
    (room : next ≤ limit)
    {marked : Nat → Bool}
    (isMarked : ∀ item, marked item = true ↔ item < next) :
    Ownership refs marked (fun item => item < first) limit none where
  null := positive
  exclusive := numbering.exclusive
  inRange := by
    intro holder held
    obtain ⟨lower, upper⟩ := numbering.inRange held
    exact ⟨Nat.lt_of_lt_of_le upper room, Nat.not_lt_of_le lower⟩
  isMarked := fun held => (isMarked _).mpr (numbering.inRange held).2
  owned := by
    intro item _ marked
    by_cases reserved : item < first
    · exact Or.inl reserved
    · exact Or.inr (Or.inr
        (numbering.covered (Nat.le_of_not_lt reserved)
          ((isMarked item).mp marked)))
  keepsReserved := fun reserved =>
    (isMarked _).mpr (Nat.lt_of_lt_of_le reserved order)
  looseInRange := fun impossible => by cases impossible

end Numbering

end MyOS.Lib
