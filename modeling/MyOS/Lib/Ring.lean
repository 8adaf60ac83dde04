import Mathlib.Logic.Function.Basic
import Mathlib.Data.Nat.ModEq

namespace MyOS.Lib

/-!
# Rings with free-running counters

A ring of `capacity` entries is written at one counter and read at another.
Both counters run freely modulo `modulus`, and an entry's place is its counter
modulo the capacity.
-/

/-- The entries between the counters `start` and `stop`, oldest first. -/
structure RingHolds
    {Entry : Type}
    (capacity modulus : Nat)
    (ring : Nat → Entry)
    (start stop : Nat)
    (entries : List Entry) : Prop where
  started : start < modulus
  stopped : stop = (start + entries.length) % modulus
  entry :
    ∀ i value, entries[i]? = some value →
      ring ((start + i) % capacity) = value

namespace RingHolds

variable {Entry : Type} {capacity modulus : Nat} {ring : Nat → Entry}
variable {start stop : Nat} {entries : List Entry}

theorem empty
    (ring : Nat → Entry)
    (started : start < modulus) :
    RingHolds capacity modulus ring start start [] where
  started := started
  stopped := by
    simp [Nat.mod_eq_of_lt started]
  entry := by
    simp

theorem push
    (holds : RingHolds capacity modulus ring start stop entries)
    (divides : capacity ∣ modulus)
    (room : entries.length < capacity)
    (value : Entry) :
    RingHolds capacity modulus
      (Function.update ring (stop % capacity) value)
      start ((stop + 1) % modulus) (entries ++ [value]) where
  started := holds.started
  stopped := by
    have next := holds.stopped
    simp only [List.length_append, List.length_singleton]
    rw [next, Nat.mod_add_mod, Nat.add_assoc]
  entry := by
    intro i found isEntry
    have place : stop % capacity = (start + entries.length) % capacity := by
      rw [holds.stopped, Nat.mod_mod_of_dvd _ divides]
    by_cases isOld : i < entries.length
    · rw [List.getElem?_append_left isOld] at isEntry
      have apart : (start + i) % capacity ≠ stop % capacity := by
        intro same
        rw [place] at same
        have congruent := Nat.ModEq.add_left_cancel' start same
        have together :=
          congruent.eq_of_lt_of_lt (Nat.lt_trans isOld room) room
        omega
      rw [Function.update_of_ne apart]
      exact holds.entry i found isEntry
    · have isNew : i = entries.length := by
        have inBounds := (List.getElem?_eq_some_iff.mp isEntry).1
        simp only [List.length_append, List.length_singleton] at inBounds
        omega
      subst isNew
      simp only [List.getElem?_concat_length, Option.some.injEq] at isEntry
      rw [← place, Function.update_self]
      exact isEntry

theorem pop
    {value : Entry}
    {rest : List Entry}
    (holds : RingHolds capacity modulus ring start stop (value :: rest))
    (divides : capacity ∣ modulus) :
    ring (start % capacity) = value ∧
      RingHolds capacity modulus ring ((start + 1) % modulus) stop rest := by
  refine ⟨holds.entry 0 value rfl, ?_⟩
  refine {
    started := Nat.mod_lt _ (Nat.zero_lt_of_lt holds.started)
    stopped := ?_
    entry := ?_
  }
  · rw [holds.stopped, Nat.mod_add_mod, List.length_cons]
    congr 1
    omega
  · intro i found isEntry
    have later := holds.entry (i + 1) found (by simpa using isEntry)
    have place :
        ((start + 1) % modulus + i) % capacity =
          (start + (i + 1)) % capacity := by
      rw [Nat.add_mod, Nat.mod_mod_of_dvd _ divides, ← Nat.add_mod]
      congr 1
      omega
    rw [place]
    exact later

theorem length_eq
    (holds : RingHolds capacity modulus ring start stop entries)
    (fits : entries.length < modulus) :
    (stop + modulus - start) % modulus = entries.length := by
  have started := holds.started
  rw [holds.stopped]
  by_cases wraps : start + entries.length < modulus
  · rw [Nat.mod_eq_of_lt wraps]
    have reduce :
        start + entries.length + modulus - start =
          entries.length + modulus := by
      omega
    rw [reduce, Nat.add_mod_right, Nat.mod_eq_of_lt fits]
  · have wrapped :
        (start + entries.length) % modulus =
          start + entries.length - modulus := by
      rw [Nat.mod_eq_sub_mod (Nat.le_of_not_lt wraps)]
      exact Nat.mod_eq_of_lt (by omega)
    rw [wrapped]
    have reduce :
        start + entries.length - modulus + modulus - start =
          entries.length := by
      omega
    rw [reduce, Nat.mod_eq_of_lt fits]

theorem eq_nil_iff
    (holds : RingHolds capacity modulus ring start stop entries)
    (fits : entries.length < modulus) :
    start = stop ↔ entries = [] := by
  have difference := holds.length_eq fits
  have started := holds.started
  constructor
  · intro same
    subst same
    have none : entries.length = 0 := by
      rw [← difference, Nat.add_sub_cancel_left, Nat.mod_self]
    exact List.length_eq_zero_iff.mp none
  · intro none
    have stopped := holds.stopped
    rw [none, List.length_nil, Nat.add_zero, Nat.mod_eq_of_lt started]
      at stopped
    exact stopped.symm

end RingHolds

end MyOS.Lib
