import Mathlib.Logic.Function.Basic
import Mathlib.Data.List.Basic

namespace MyOS.Lib

/-!
# Lifetimes of objects in buffers

Buffers are allocated and deleted, and objects are constructed in their slots
and destroyed.  An operation is undefined where it would construct an object
over a live one, use or destroy one that is not there, or delete a buffer that
is not allocated.
-/

/-- A buffer; a slot holds an object between its construction and its
destruction. -/
structure SlotBuffer (T : Type) where
  capacity : Nat
  slots : Nat → Option T

/-- All buffers, and how often each kind of operation has been done. -/
structure Arena (T : Type) where
  buffers : Nat → Option (SlotBuffer T)
  next : Nat
  constructed : Nat
  destructed : Nat
  allocated : Nat
  deleted : Nat

namespace Arena

variable {T : Type}

/-- Nothing has been allocated. -/
def empty : Arena T :=
  ⟨fun _ => none, 0, 0, 0, 0, 0⟩

/-- A new buffer without objects. -/
def allocate (arena : Arena T) (capacity : Nat) : Arena T :=
  { arena with
    buffers :=
      Function.update arena.buffers arena.next
        (some ⟨capacity, fun _ => none⟩)
    next := arena.next + 1
    allocated := arena.allocated + 1 }

/-- A buffer is deleted; there may be none. -/
def delete (arena : Arena T) (data : Option Nat) : Option (Arena T) :=
  match data with
  | none => some arena
  | some b =>
      (arena.buffers b).map fun _ =>
        { arena with
          buffers := Function.update arena.buffers b none
          deleted := arena.deleted + 1 }

/-- The object in a slot. -/
def read (arena : Arena T) (data : Option Nat) (i : Nat) : Option T :=
  (data.bind arena.buffers).bind fun buffer => buffer.slots i

/-- The contents of a slot are replaced. -/
def setSlot (arena : Arena T) (b : Nat) (i : Nat) (object : Option T) :
    Arena T :=
  { arena with
    buffers :=
      Function.update arena.buffers b
        ((arena.buffers b).map fun buffer =>
          { buffer with slots := Function.update buffer.slots i object }) }

/-- A live object is given another value. -/
def assign
    (arena : Arena T)
    (data : Option Nat)
    (i : Nat)
    (value : T) : Option (Arena T) :=
  data.bind fun b =>
    (arena.read (some b) i).map fun _ => arena.setSlot b i (some value)

/-- An object is constructed in a slot without one. -/
def construct
    (arena : Arena T)
    (data : Option Nat)
    (i : Nat)
    (value : T) : Option (Arena T) :=
  data.bind fun b =>
    (arena.buffers b).bind fun buffer =>
      if i < buffer.capacity ∧ (buffer.slots i).isNone then
        some { arena.setSlot b i (some value) with
          constructed := arena.constructed + 1 }
      else
        none

/-- A plain value, which needs no construction, is stored in a slot. -/
def store
    (arena : Arena T)
    (data : Option Nat)
    (i : Nat)
    (value : T) : Option (Arena T) :=
  data.bind fun b =>
    (arena.buffers b).bind fun buffer =>
      if i < buffer.capacity then
        some (arena.setSlot b i (some value))
      else
        none

/-- A live object is destroyed. -/
def destroy
    (arena : Arena T)
    (data : Option Nat)
    (i : Nat) : Option (Arena T) :=
  data.bind fun b =>
    (arena.read (some b) i).map fun _ =>
      { arena.setSlot b i none with destructed := arena.destructed + 1 }

/-- The buffer holds these objects in its slots, of which the first ones have
been destroyed already. -/
structure Holds
    (arena : Arena T)
    (b capacity gone : Nat)
    (items : List T) : Prop where
  room : items.length ≤ capacity
  buffer :
    ∃ slots,
      arena.buffers b = some ⟨capacity, slots⟩ ∧
        ∀ i, slots i = if i < gone then none else items[i]?

/-- The buffer begins with these plain values. -/
structure Begins
    (arena : Arena T)
    (b capacity : Nat)
    (values : List T) : Prop where
  room : values.length ≤ capacity
  buffer :
    ∃ slots,
      arena.buffers b = some ⟨capacity, slots⟩ ∧
        ∀ i, i < values.length → slots i = values[i]?

section Steps

variable {arena : Arena T} {b capacity gone : Nat} {items : List T}

theorem holds_allocate (arena : Arena T) (capacity : Nat) :
    (arena.allocate capacity).Holds arena.next capacity 0 [] := by
  refine ⟨Nat.zero_le _, fun _ => none, ?_, fun i => rfl⟩
  exact Function.update_self _ _ _

theorem Holds.congr
    {later : Arena T}
    (holds : arena.Holds b capacity gone items)
    (same : later.buffers b = arena.buffers b) :
    later.Holds b capacity gone items := by
  obtain ⟨room, slots, isBuffer, isSlots⟩ := holds
  exact ⟨room, slots, same.trans isBuffer, isSlots⟩

theorem Holds.read
    {i : Nat}
    (holds : arena.Holds b capacity gone items)
    (there : gone ≤ i) :
    arena.read (some b) i = items[i]? := by
  obtain ⟨_, slots, isBuffer, isSlots⟩ := holds
  unfold Arena.read
  rw [Option.bind_some, isBuffer, Option.bind_some]
  change slots i = _
  rw [isSlots, if_neg (Nat.not_lt_of_le there)]

theorem setSlot_other
    {other i : Nat}
    {object : Option T}
    (different : other ≠ b) :
    (arena.setSlot b i object).buffers other = arena.buffers other :=
  Function.update_of_ne different _ _

theorem Holds.construct
    (holds : arena.Holds b capacity gone items)
    (value : T)
    (before : gone ≤ items.length)
    (room : items.length < capacity) :
    ∃ later,
      arena.construct (some b) items.length value = some later ∧
        later.Holds b capacity gone (items ++ [value]) ∧
        (∀ other, other ≠ b → later.buffers other = arena.buffers other) ∧
        later = { arena with
          buffers := later.buffers
          constructed := arena.constructed + 1 } := by
  obtain ⟨_, slots, isBuffer, isSlots⟩ := holds
  have isFree : slots items.length = none := by
    rw [isSlots, if_neg (Nat.not_lt_of_le before)]
    simp
  refine ⟨{ arena.setSlot b items.length (some value) with
    constructed := arena.constructed + 1 }, ?_, ⟨?_, ?_⟩, ?_, rfl⟩
  · unfold Arena.construct
    rw [Option.bind_some, isBuffer, Option.bind_some]
    apply if_pos
    exact ⟨room, Option.isNone_iff_eq_none.mpr isFree⟩
  · rw [List.length_append, List.length_singleton]
    exact room
  · refine ⟨Function.update slots items.length (some value), ?_, ?_⟩
    · change Function.update _ _ _ b = _
      rw [Function.update_self, isBuffer]
      rfl
    · intro i
      by_cases here : i = items.length
      · rw [here, Function.update_self, if_neg (Nat.not_lt_of_le before)]
        simp
      · rw [Function.update_of_ne here, isSlots]
        by_cases isGone : i < gone
        · rw [if_pos isGone, if_pos isGone]
        · rw [if_neg isGone, if_neg isGone]
          rcases Nat.lt_or_gt_of_ne here with lower | upper
          · rw [List.getElem?_append_left lower]
          · rw [List.getElem?_eq_none (Nat.le_of_lt upper),
              List.getElem?_eq_none (by
                rw [List.length_append, List.length_singleton]
                exact upper)]
  · exact fun other different => setSlot_other different

theorem Holds.destroy
    (holds : arena.Holds b capacity gone items)
    (left : gone < items.length) :
    ∃ later,
      arena.destroy (some b) gone = some later ∧
        later.Holds b capacity (gone + 1) items ∧
        (∀ other, other ≠ b → later.buffers other = arena.buffers other) ∧
        later = { arena with
          buffers := later.buffers
          destructed := arena.destructed + 1 } := by
  have isThere := holds.read (Nat.le_refl gone)
  rw [List.getElem?_eq_getElem left] at isThere
  obtain ⟨room, slots, isBuffer, isSlots⟩ := holds
  refine ⟨{ arena.setSlot b gone none with
    destructed := arena.destructed + 1 }, ?_, ⟨room, ?_⟩, ?_, rfl⟩
  · unfold Arena.destroy
    rw [Option.bind_some, isThere]
    rfl
  · refine ⟨Function.update slots gone none, ?_, ?_⟩
    · change Function.update _ _ _ b = _
      rw [Function.update_self, isBuffer]
      rfl
    · intro i
      by_cases here : i = gone
      · rw [here, Function.update_self, if_pos (Nat.lt_succ_self _)]
      · rw [Function.update_of_ne here, isSlots]
        by_cases isGone : i < gone
        · rw [if_pos isGone, if_pos (Nat.lt_succ_of_lt isGone)]
        · rw [if_neg isGone, if_neg (by omega)]
  · exact fun other different => setSlot_other different

theorem Holds.assign
    {i : Nat}
    (holds : arena.Holds b capacity gone items)
    (value : T)
    (there : gone ≤ i)
    (inside : i < items.length) :
    ∃ later,
      arena.assign (some b) i value = some later ∧
        later.Holds b capacity gone (items.set i value) ∧
        (∀ other, other ≠ b → later.buffers other = arena.buffers other) ∧
        later = { arena with buffers := later.buffers } := by
  have isThere := holds.read there
  rw [List.getElem?_eq_getElem inside] at isThere
  obtain ⟨room, slots, isBuffer, isSlots⟩ := holds
  refine ⟨arena.setSlot b i (some value), ?_, ⟨?_, ?_⟩,
    fun other different => setSlot_other different, rfl⟩
  · unfold Arena.assign
    rw [Option.bind_some, isThere]
    rfl
  · rw [List.length_set]
    exact room
  · refine ⟨Function.update slots i (some value), ?_, ?_⟩
    · change Function.update _ _ _ b = _
      rw [Function.update_self, isBuffer]
      rfl
    · intro j
      by_cases here : j = i
      · rw [here, Function.update_self, if_neg (Nat.not_lt_of_le there),
          List.getElem?_set_self inside]
      · rw [Function.update_of_ne here, isSlots,
          List.getElem?_set_ne (Ne.symm here)]

theorem Holds.of_set
    {i : Nat}
    {value : T}
    (holds : arena.Holds b capacity gone (items.set i value))
    (isGone : i < gone) :
    arena.Holds b capacity gone items := by
  obtain ⟨room, slots, isBuffer, isSlots⟩ := holds
  rw [List.length_set] at room
  refine ⟨room, slots, isBuffer, fun j => ?_⟩
  rw [isSlots]
  by_cases here : j < gone
  · rw [if_pos here, if_pos here]
  · rw [if_neg here, if_neg here, List.getElem?_set_ne (by omega)]

theorem Holds.delete
    (holds : arena.Holds b capacity gone items) :
    ∃ later,
      arena.delete (some b) = some later ∧
        later.buffers b = none ∧
        (∀ other, other ≠ b → later.buffers other = arena.buffers other) ∧
        later = { arena with
          buffers := later.buffers
          deleted := arena.deleted + 1 } := by
  obtain ⟨_, slots, isBuffer, _⟩ := holds
  refine ⟨{ arena with
    buffers := Function.update arena.buffers b none
    deleted := arena.deleted + 1 }, ?_, Function.update_self _ _ _,
    fun other different => Function.update_of_ne different _ _, rfl⟩
  unfold Arena.delete
  dsimp only
  rw [isBuffer]
  rfl

end Steps

section Values

variable {arena : Arena T} {b capacity : Nat} {values : List T}

theorem begins_allocate (arena : Arena T) (capacity : Nat) :
    (arena.allocate capacity).Begins arena.next capacity [] := by
  refine ⟨Nat.zero_le _, fun _ => none, Function.update_self _ _ _, ?_⟩
  exact fun i inside => absurd inside (Nat.not_lt_zero i)

theorem Begins.congr
    {later : Arena T}
    (begins : arena.Begins b capacity values)
    (same : later.buffers b = arena.buffers b) :
    later.Begins b capacity values := by
  obtain ⟨room, slots, isBuffer, isSlots⟩ := begins
  exact ⟨room, slots, same.trans isBuffer, isSlots⟩

theorem Begins.read
    {i : Nat}
    (begins : arena.Begins b capacity values)
    (inside : i < values.length) :
    arena.read (some b) i = values[i]? := by
  obtain ⟨_, slots, isBuffer, isSlots⟩ := begins
  unfold Arena.read
  rw [Option.bind_some, isBuffer, Option.bind_some]
  exact isSlots i inside

theorem Begins.shorter
    {first : List T}
    (begins : arena.Begins b capacity values)
    (shorter : first <+: values) :
    arena.Begins b capacity first := by
  obtain ⟨room, slots, isBuffer, isSlots⟩ := begins
  obtain ⟨rest, isAll⟩ := shorter
  rw [← isAll, List.length_append] at room
  refine ⟨by omega, slots, isBuffer, fun i inside => ?_⟩
  rw [isSlots i (by rw [← isAll, List.length_append]; omega), ← isAll,
    List.getElem?_append_left inside]

theorem Begins.unique
    {others : List T}
    {otherCapacity : Nat}
    (begins : arena.Begins b capacity values)
    (also : arena.Begins b otherCapacity others)
    (length : values.length = others.length) :
    values = others := by
  apply List.ext_getElem?
  intro i
  by_cases inside : i < values.length
  · rw [← begins.read inside, also.read (length ▸ inside)]
  · rw [List.getElem?_eq_none (Nat.le_of_not_lt inside),
      List.getElem?_eq_none (length ▸ Nat.le_of_not_lt inside)]

theorem Begins.store
    (begins : arena.Begins b capacity values)
    (value : T)
    (room : values.length < capacity) :
    ∃ later,
      arena.store (some b) values.length value = some later ∧
        later.Begins b capacity (values ++ [value]) ∧
        (∀ other, other ≠ b → later.buffers other = arena.buffers other) ∧
        later.next = arena.next := by
  obtain ⟨_, slots, isBuffer, isSlots⟩ := begins
  refine ⟨arena.setSlot b values.length (some value), ?_, ⟨?_, ?_⟩,
    fun other different => setSlot_other different, rfl⟩
  · unfold Arena.store
    rw [Option.bind_some, isBuffer, Option.bind_some]
    exact if_pos room
  · rw [List.length_append, List.length_singleton]
    exact room
  · refine ⟨Function.update slots values.length (some value), ?_, ?_⟩
    · change Function.update _ _ _ b = _
      rw [Function.update_self, isBuffer]
      rfl
    · intro i inside
      rw [List.length_append, List.length_singleton] at inside
      by_cases here : i = values.length
      · rw [here, Function.update_self]
        simp
      · rw [Function.update_of_ne here, isSlots i (by omega),
          List.getElem?_append_left (by omega)]

theorem Begins.delete
    (begins : arena.Begins b capacity values) :
    ∃ later,
      arena.delete (some b) = some later ∧
        later.buffers b = none ∧
        (∀ other, other ≠ b → later.buffers other = arena.buffers other) ∧
        later.next = arena.next := by
  obtain ⟨_, slots, isBuffer, _⟩ := begins
  refine ⟨{ arena with
    buffers := Function.update arena.buffers b none
    deleted := arena.deleted + 1 }, ?_, Function.update_self _ _ _,
    fun other different => Function.update_of_ne different _ _, rfl⟩
  unfold Arena.delete
  dsimp only
  rw [isBuffer]
  rfl

end Values

end Arena

end MyOS.Lib
