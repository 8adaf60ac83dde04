import Mathlib.Data.Fintype.Card
import Mathlib.Logic.Function.Basic

namespace MyOS.Lib

/-!
# References

A table whose entries refer to objects, with the number of entries that refer
to an object, and tokens that change hands until they are dropped once.
-/

section Counting

variable {Entry Object : Type} [Fintype Entry] [DecidableEq Object]

/-- The entries that refer to an object. -/
def referrers (table : Entry → Option Object) (object : Object) :
    Finset Entry :=
  Finset.univ.filter fun entry => table entry = some object

/-- The number of references to an object. -/
def referenceCount (table : Entry → Option Object) (object : Object) : Nat :=
  (referrers table object).card

variable {table : Entry → Option Object} {entry : Entry} {object : Object}

@[simp]
theorem mem_referrers :
    entry ∈ referrers table object ↔ table entry = some object := by
  simp only [referrers, Finset.mem_filter, Finset.mem_univ, true_and]

theorem referenceCount_eq_zero :
    referenceCount table object = 0 ↔
      ∀ entry, table entry ≠ some object := by
  rw [referenceCount, Finset.card_eq_zero, Finset.eq_empty_iff_forall_notMem]
  simp only [mem_referrers, ne_eq]

variable [DecidableEq Entry]

theorem referenceCount_remove
    (refers : table entry = some object) :
    referenceCount table object =
      referenceCount (Function.update table entry none) object + 1 := by
  have erased :
      referrers (Function.update table entry none) object =
        (referrers table object).erase entry := by
    ext other
    by_cases same : other = entry
    · simp [same]
    · simp [same]
  have member : entry ∈ referrers table object :=
    mem_referrers.mpr refers
  rw [referenceCount, referenceCount, erased,
    Finset.card_erase_add_one member]

theorem referenceCount_update_of_ne
    {other : Object}
    {value : Option Object}
    (before : table entry ≠ some other)
    (after : value ≠ some other) :
    referenceCount (Function.update table entry value) other =
      referenceCount table other := by
  have same :
      referrers (Function.update table entry value) other =
        referrers table other := by
    ext place
    by_cases here : place = entry
    · simp [here, before, after]
    · simp [here]
  rw [referenceCount, referenceCount, same]

theorem referenceCount_add
    (unused : table entry = none) :
    referenceCount (Function.update table entry (some object)) object =
      referenceCount table object + 1 := by
  have present :
      Function.update table entry (some object) entry = some object :=
    Function.update_self ..
  rw [referenceCount_remove present, Function.update_idem, ← unused,
    Function.update_eq_self]

end Counting

/--
Tokens numbered in the order they are taken: every token has one holder until
it is dropped, and is dropped once.
-/
structure Custody
    {Holder : Type}
    (holds : Holder → Option Nat)
    (taken : Nat)
    (drops : Nat → Nat) : Prop where
  exclusive :
    ∀ {first second token},
      holds first = some token → holds second = some token → first = second
  inRange : ∀ {holder token}, holds holder = some token → token < taken
  undropped : ∀ {holder token}, holds holder = some token → drops token = 0
  once :
    ∀ {token},
      token < taken → (∀ holder, holds holder ≠ some token) → drops token = 1
  untouched : ∀ {token}, taken ≤ token → drops token = 0

namespace Custody

variable {Holder : Type} [DecidableEq Holder]
variable {holds : Holder → Option Nat} {taken : Nat} {drops : Nat → Nat}

theorem take
    (custody : Custody holds taken drops)
    {holder : Holder}
    (empty : holds holder = none) :
    Custody (Function.update holds holder (some taken)) (taken + 1) drops where
  exclusive := by
    intro first second token firstHolds secondHolds
    have bound := @custody.inRange
    have alone := @custody.exclusive
    grind [Function.update_apply]
  inRange := by
    intro other token otherHolds
    have bound := @custody.inRange other token
    grind [Function.update_apply]
  undropped := by
    intro other token otherHolds
    have old := @custody.undropped other token
    have new := @custody.untouched taken
    grind [Function.update_apply]
  once := by
    intro token inRange nobody
    have ne : token ≠ taken := by
      intro same
      apply nobody holder
      rw [Function.update_self, same]
    apply custody.once (by omega)
    intro other otherHolds
    apply nobody other
    rw [Function.update_of_ne]
    · exact otherHolds
    · intro same
      rw [same, empty] at otherHolds
      cases otherHolds
  untouched := by
    intro token above
    exact custody.untouched (by omega)

theorem drop
    (custody : Custody holds taken drops)
    {holder : Holder}
    {token : Nat}
    (held : holds holder = some token) :
    Custody (Function.update holds holder none) taken
      (Function.update drops token (drops token + 1)) where
  exclusive := by
    intro first second other firstHolds secondHolds
    have alone := @custody.exclusive first second other
    grind [Function.update_apply]
  inRange := by
    intro other number otherHolds
    have bound := @custody.inRange other number
    grind [Function.update_apply]
  undropped := by
    intro other number otherHolds
    have alone := @custody.exclusive other holder number
    have old := @custody.undropped other number
    grind [Function.update_apply]
  once := by
    intro number inRange nobody
    by_cases same : number = token
    · rw [same, Function.update_self, custody.undropped held]
    · rw [Function.update_of_ne same]
      apply custody.once inRange
      intro other otherHolds
      apply nobody other
      rw [Function.update_of_ne]
      · exact otherHolds
      · intro here
        rw [here, held] at otherHolds
        exact same (Option.some.inj otherHolds).symm
  untouched := by
    intro number above
    have bound := custody.inRange held
    rw [Function.update_of_ne (by omega)]
    exact custody.untouched above

theorem pass
    (custody : Custody holds taken drops)
    {giver taker : Holder}
    {token : Nat}
    (held : holds giver = some token)
    (empty : holds taker = none) :
    Custody
      (Function.update (Function.update holds giver none) taker (some token))
      taken drops where
  exclusive := by
    intro first second other firstHolds secondHolds
    have alone := @custody.exclusive
    grind [Function.update_apply]
  inRange := by
    intro other number otherHolds
    have bound := @custody.inRange
    grind [Function.update_apply]
  undropped := by
    intro other number otherHolds
    have old := @custody.undropped
    grind [Function.update_apply]
  once := by
    intro number inRange nobody
    apply custody.once inRange
    intro other otherHolds
    have noTaker := nobody taker
    have noOther := nobody other
    grind [Function.update_apply]
  untouched := custody.untouched

end Custody

end MyOS.Lib
