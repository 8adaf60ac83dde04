import MyOS.CxxVector

namespace MyOS

open Lib

/-!
# What the member functions of a vector do

Every member function leaves the vector with the sequence that it defines and
touches its own buffers only; objects and buffers are counted on the way.
-/

section Loops

variable {T : Type} {arena : Arena T}
variable {b new capacity old : Nat} {items : List T}

theorem reserveLoop_spec
    {rounds gone : Nat}
    (moved : T → T)
    (left : gone + rounds = items.length)
    (different : b ≠ new)
    (room : items.length ≤ capacity)
    (isOld : arena.Holds b old gone items)
    (isNew : arena.Holds new capacity 0 (items.take gone)) :
    ∃ later,
      reserveLoop moved (some b) new rounds gone arena = some later ∧
        later.Holds b old items.length items ∧
        later.Holds new capacity 0 items ∧
        (∀ other, other ≠ b → other ≠ new →
          later.buffers other = arena.buffers other) ∧
        later = { arena with
          buffers := later.buffers
          constructed := arena.constructed + rounds
          destructed := arena.destructed + rounds } := by
  induction rounds generalizing gone arena with
  | zero =>
      have all : gone = items.length := left
      rw [all] at isOld isNew
      rw [List.take_length] at isNew
      exact ⟨arena, rfl, isOld, isNew, fun _ _ _ => rfl, rfl⟩
  | succ rounds inductionHypothesis =>
      have inside : gone < items.length := by omega
      have isThere := isOld.read (Nat.le_refl gone)
      rw [List.getElem?_eq_getElem inside] at isThere
      have length : (items.take gone).length = gone := by
        rw [List.length_take]
        omega
      obtain ⟨assigned, assigns, isAssigned, assignedOther, assignedEq⟩ :=
        isOld.assign (moved items[gone]) (Nat.le_refl gone) inside
      have newAssigned :=
        isNew.congr (assignedOther new different.symm)
      obtain ⟨built, builds, isBuilt, builtOther, builtEq⟩ :=
        newAssigned.construct items[gone] (Nat.zero_le _)
          (by omega)
      have oldBuilt := isAssigned.congr (builtOther b different)
      obtain ⟨ended, ends, isEnded, endedOther, endedEq⟩ :=
        oldBuilt.destroy (by rw [List.length_set]; exact inside)
      have oldEnded := isEnded.of_set (Nat.lt_succ_self gone)
      have newEnded := isBuilt.congr (endedOther new different.symm)
      rw [← List.take_succ_eq_append_getElem inside] at newEnded
      obtain ⟨later, loops, oldLater, newLater, laterOther, laterEq⟩ :=
        inductionHypothesis (by omega) oldEnded newEnded
      refine ⟨later, ?_, oldLater, newLater, ?_, ?_⟩
      · unfold reserveLoop
        rw [isThere, Option.bind_some, assigns, Option.bind_some]
        rw [length] at builds
        rw [builds, Option.bind_some, ends, Option.bind_some]
        exact loops
      · intro other notOld notNew
        rw [laterOther other notOld notNew, endedOther other notOld,
          builtOther other notNew, assignedOther other notOld]
      · rw [laterEq, endedEq, builtEq, assignedEq]
        dsimp only
        congr 1 <;> omega

theorem clearLoop_spec
    {rounds gone : Nat}
    (left : gone + rounds = items.length)
    (holds : arena.Holds b capacity gone items) :
    ∃ later,
      clearLoop (some b) rounds gone arena = some later ∧
        later.Holds b capacity 0 [] ∧
        (∀ other, other ≠ b → later.buffers other = arena.buffers other) ∧
        later = { arena with
          buffers := later.buffers
          destructed := arena.destructed + rounds } := by
  induction rounds generalizing gone arena with
  | zero =>
      have all : gone = items.length := left
      obtain ⟨room, slots, isBuffer, isSlots⟩ := holds
      refine ⟨arena, rfl, ⟨Nat.zero_le _, slots, isBuffer, fun i => ?_⟩,
        fun _ _ => rfl, rfl⟩
      rw [isSlots, all]
      by_cases isGone : i < items.length
      · rw [if_pos isGone]
        rfl
      · rw [if_neg isGone, List.getElem?_eq_none (Nat.le_of_not_lt isGone)]
        rfl
  | succ rounds inductionHypothesis =>
      obtain ⟨ended, ends, isEnded, endedOther, endedEq⟩ :=
        holds.destroy (by omega)
      obtain ⟨later, loops, isLater, laterOther, laterEq⟩ :=
        inductionHypothesis (by omega) isEnded
      refine ⟨later, ?_, isLater, ?_, ?_⟩
      · unfold clearLoop
        rw [ends, Option.bind_some]
        exact loops
      · intro other different
        rw [laterOther other different, endedOther other different]
      · rw [laterEq, endedEq]
        dsimp only
        congr 1
        omega

end Loops

/-- The vector has these objects, in a buffer of its own or without one. -/
structure VectorOk
    {T : Type}
    (arena : Arena T)
    (v : BufferFields)
    (items : List T) : Prop where
  size : v.size = items.length
  room : v.size ≤ v.capacity
  data :
    v.data = none ∧ v.capacity = 0 ∨
      ∃ b, v.data = some b ∧ b < arena.next ∧
        arena.Holds b v.capacity 0 items

/-- No buffer has a number that is still to come. -/
def Unused {T : Type} (arena : Arena T) : Prop :=
  ∀ b, arena.next ≤ b → arena.buffers b = none

/-- The buffers that a vector owns, one or none. -/
def bufferCount (v : BufferFields) : Nat :=
  if v.data.isSome then 1 else 0

/-- What a member function does to the memory: it releases the vector's buffer
or keeps it, takes new ones only, and counts what it does. -/
structure MemberEffect
    {T : Type}
    (arena later : Arena T)
    (v after : BufferFields) : Prop extends OwnerEffect arena later v after where
  released :
    ∀ b, v.data = some b → after.data ≠ some b → later.buffers b = none
  fresh :
    ∀ b, arena.next ≤ b → after.data ≠ some b → later.buffers b = none
  objects :
    later.constructed + arena.destructed + v.size =
      arena.constructed + later.destructed + after.size
  count :
    later.allocated + arena.deleted + bufferCount v =
      arena.allocated + later.deleted + bufferCount after

section Effects

variable {T : Type} {arena between later : Arena T}
variable {v w after : BufferFields} {items : List T}

theorem vectorOk_represents : Represents (VectorOk (T := T)) where
  owned := by
    intro arena v items b ok isData
    rcases ok.data with ⟨none, _⟩ | ⟨own, isOwn, old, _⟩
    · rw [none] at isData
      cases isData
    · rw [isData] at isOwn
      rw [Option.some.inj isOwn]
      exact old
  frame := by
    intro arena later v items ok next same
    refine ⟨ok.size, ok.room, ?_⟩
    rcases ok.data with isNone | ⟨b, isData, old, isHeld⟩
    · exact Or.inl isNone
    · exact Or.inr ⟨b, isData, Nat.lt_of_lt_of_le old next,
        isHeld.congr (same b isData)⟩
  empty := fun _ => ⟨rfl, Nat.le_refl _, Or.inl ⟨rfl, rfl⟩⟩

theorem VectorOk.owned
    (ok : VectorOk arena v items)
    {b : Nat}
    (isData : v.data = some b) :
    b < arena.next :=
  vectorOk_represents.owned ok isData

theorem MemberEffect.refl
    (unused : Unused arena) :
    MemberEffect arena arena v v where
  toOwnerEffect := OwnerEffect.refl
  released := fun _ isData notData => absurd isData notData
  fresh := fun b new _ => unused b new
  objects := rfl
  count := rfl

theorem MemberEffect.trans
    (first : MemberEffect arena between v w)
    (second : MemberEffect between later w after)
    (owned : ∀ b, v.data = some b → b < arena.next) :
    MemberEffect arena later v after where
  toOwnerEffect := first.toOwnerEffect.trans second.toOwnerEffect
  released := by
    intro b isData notAfter
    have old := owned b isData
    by_cases kept : w.data = some b
    · exact second.released b kept notAfter
    · rw [second.frame b (Nat.lt_of_lt_of_le old first.next) kept]
      exact first.released b isData kept
  fresh := by
    intro b new notAfter
    by_cases last : between.next ≤ b
    · exact second.fresh b last notAfter
    · by_cases kept : w.data = some b
      · exact second.released b kept notAfter
      · rw [second.frame b (Nat.lt_of_not_le last) kept]
        exact first.fresh b new kept
  objects := by
    have one := first.objects
    have two := second.objects
    omega
  count := by
    have one := first.count
    have two := second.count
    omega

theorem MemberEffect.unused
    (effect : MemberEffect arena later v after)
    (ok : VectorOk later after items) :
    Unused later := by
  intro b new
  apply effect.fresh b (Nat.le_trans effect.next new)
  intro isData
  exact absurd (ok.owned isData) (Nat.not_lt_of_le new)

theorem MemberEffect.inPlace
    {b : Nat}
    (unused : Unused arena)
    (isData : v.data = some b)
    (sameData : after.data = some b)
    (old : b < arena.next)
    (others : ∀ other, other ≠ b → later.buffers other = arena.buffers other)
    (next : later.next = arena.next)
    (objects :
      later.constructed + arena.destructed + v.size =
        arena.constructed + later.destructed + after.size)
    (allocated : later.allocated = arena.allocated)
    (deleted : later.deleted = arena.deleted) :
    MemberEffect arena later v after where
  toOwnerEffect := OwnerEffect.inPlace isData sameData others next
  released := by
    intro other isOther notAfter
    rw [isData] at isOther
    rw [Option.some.inj isOther] at sameData
    exact absurd sameData notAfter
  fresh := by
    intro other new _
    rw [others other (by omega)]
    exact unused other new
  objects := objects
  count := by
    unfold bufferCount
    rw [isData, sameData, allocated, deleted]

/-- A member function works: it comes to an end without an undefined operation,
and leaves the sequence that it defines. -/
def MemberWorks
    (member : BufferFields → Arena T → Option (BufferFields × Arena T))
    (arena : Arena T)
    (v : BufferFields)
    (items : List T) : Prop :=
  ∃ after later,
    member v arena = some (after, later) ∧
      VectorOk later after items ∧
      MemberEffect arena later v after

end Effects

section Members

variable {T : Type} {arena later : Arena T}
variable {v after other : BufferFields} {items theirs : List T}

theorem vectorReserve_works
    (moved : T → T)
    (capacity : Nat)
    (unused : Unused arena)
    (ok : VectorOk arena v items) :
    ∃ after later,
      vectorReserve moved capacity v arena = some (after, later) ∧
        VectorOk later after items ∧
        MemberEffect arena later v after ∧
        capacity ≤ after.capacity := by
  unfold vectorReserve
  by_cases enough : capacity ≤ v.capacity
  · rw [if_pos enough]
    exact ⟨v, arena, rfl, ok, MemberEffect.refl unused, enough⟩
  rw [if_neg enough]
  have size := ok.size
  have room := ok.room
  have isNew : ∀ b, b ≠ arena.next →
      (arena.allocate capacity).buffers b = arena.buffers b :=
    fun b different => Function.update_of_ne different _ _
  obtain ⟨data, count, oldCapacity⟩ := v
  rcases ok.data with ⟨isNone, noRoom⟩ | ⟨b, isData, old, holds⟩
  · change data = none at isNone
    change oldCapacity = 0 at noRoom
    change count = items.length at size
    change count ≤ oldCapacity at room
    have isZero : count = 0 := by omega
    have isNil : items = [] := List.length_eq_zero_iff.mp (by omega)
    subst isNone isZero isNil
    refine ⟨⟨some arena.next, 0, capacity⟩, arena.allocate capacity, rfl,
      ⟨rfl, Nat.zero_le _, Or.inr ⟨arena.next, rfl, Nat.lt_succ_self _,
        Arena.holds_allocate arena capacity⟩⟩, ?_, Nat.le_refl _⟩
    refine ⟨⟨Nat.le_succ _, Or.inr (Or.inr ⟨_, rfl, Nat.le_refl _⟩), ?_⟩, ?_,
      ?_, rfl, ?_⟩
    · exact fun b old _ => isNew b (Nat.ne_of_lt old)
    · exact fun b isData _ => absurd isData (Option.some_ne_none b).symm
    · intro b new notData
      have different : b ≠ arena.next := fun same => notData (by rw [same])
      rw [isNew b different]
      exact unused b new
    · change arena.allocated + 1 + arena.deleted + 0 =
        arena.allocated + arena.deleted + 1
      omega
  · change data = some b at isData
    change count = items.length at size
    change count ≤ oldCapacity at room
    subst isData
    have fits : items.length ≤ capacity := by
      change ¬ capacity ≤ oldCapacity at enough
      omega
    have different : b ≠ arena.next := Nat.ne_of_lt old
    have isOld := holds.congr (isNew b different)
    have isEmpty :
        (arena.allocate capacity).Holds arena.next capacity 0
          (items.take 0) :=
      Arena.holds_allocate arena capacity
    obtain ⟨filled, fills, oldFilled, newFilled, filledOther, filledEq⟩ :=
      reserveLoop_spec moved (Nat.zero_add _) different fits isOld
        isEmpty
    obtain ⟨last, deletes, isGone, lastOther, lastEq⟩ := oldFilled.delete
    have unchanged :
        ∀ other, other ≠ b → other ≠ arena.next →
          last.buffers other = arena.buffers other := by
      intro other notOld notNew
      rw [lastOther other notOld, filledOther other notOld notNew,
        isNew other notNew]
    have nextEq : last.next = arena.next + 1 := by
      rw [lastEq, filledEq]
      rfl
    have counts :
        last.constructed = arena.constructed + items.length ∧
          last.destructed = arena.destructed + items.length ∧
          last.allocated = arena.allocated + 1 ∧
          last.deleted = arena.deleted + 1 := by
      rw [lastEq, filledEq]
      exact ⟨rfl, rfl, rfl, rfl⟩
    refine ⟨⟨some arena.next, count, capacity⟩, last, ?_,
      ⟨size, by change count ≤ capacity; omega, Or.inr ⟨arena.next, rfl, ?_,
        newFilled.congr (lastOther arena.next different.symm)⟩⟩, ?_,
      Nat.le_refl _⟩
    · dsimp only
      rw [size, fills, Option.bind_some, deletes]
      rfl
    · rw [nextEq]
      exact Nat.lt_succ_self _
    · refine ⟨⟨by omega, Or.inr (Or.inr ⟨_, rfl, Nat.le_refl _⟩), ?_⟩, ?_, ?_,
        ?_, ?_⟩
      · intro other isOlder notOwn
        apply unchanged other _ (Nat.ne_of_lt isOlder)
        rintro rfl
        exact notOwn rfl
      · intro other isData _
        change some b = some other at isData
        rw [← Option.some.inj isData]
        exact isGone
      · intro other new notData
        have notNew : other ≠ arena.next := fun same =>
          notData (by rw [same])
        rw [unchanged other (by omega) notNew]
        exact unused other new
      · change _ + _ + count = _ + _ + count
        omega
      · change _ + _ + 1 = _ + _ + 1
        omega

theorem construct_works
    (value : T)
    (unused : Unused arena)
    (ok : VectorOk arena v items)
    (room : v.size + 1 ≤ v.capacity) :
    ∃ later,
      arena.construct v.data v.size value = some later ∧
        VectorOk later ⟨v.data, v.size + 1, v.capacity⟩ (items ++ [value]) ∧
        MemberEffect arena later v ⟨v.data, v.size + 1, v.capacity⟩ := by
  have size := ok.size
  rcases ok.data with ⟨_, noRoom⟩ | ⟨b, isData, old, holds⟩
  · omega
  obtain ⟨later, builds, isLater, laterOther, laterEq⟩ :=
    holds.construct value (Nat.zero_le _) (by omega)
  have nextEq : later.next = arena.next := by
    rw [laterEq]
  refine ⟨later, ?_, ⟨?_, room, Or.inr ⟨b, isData, ?_, isLater⟩⟩, ?_⟩
  · rw [isData, size]
    exact builds
  · rw [List.length_append, List.length_singleton]
    change v.size + 1 = _
    rw [size]
  · rw [nextEq]
    exact old
  · refine MemberEffect.inPlace unused isData ?_ old laterOther nextEq ?_ ?_ ?_
    · exact isData
    · rw [laterEq]
      dsimp only
      omega
    · rw [laterEq]
    · rw [laterEq]

theorem pushBack_works
    (moved : T → T)
    (value : T)
    (unused : Unused arena)
    (ok : VectorOk arena v items) :
    MemberWorks (pushBack moved value) arena v (items ++ [value]) := by
  have reserved :
      ∃ next between,
        ensureCapacity moved (v.size + 1) v arena = some (next, between) ∧
          VectorOk between next items ∧
          MemberEffect arena between v next ∧
          v.size + 1 ≤ next.capacity := by
    unfold ensureCapacity
    by_cases enough : v.size + 1 ≤ v.capacity
    · rw [if_pos enough]
      exact ⟨v, arena, rfl, ok, MemberEffect.refl unused, enough⟩
    · rw [if_neg enough]
      dsimp only
      generalize isNext : (if v.capacity = 0 then 4 else v.capacity * 2) = next
      generalize isWanted :
        (if next < v.size + 1 then v.size + 1 else next) = wanted
      have large : v.size + 1 ≤ wanted := by
        rw [← isWanted]
        split <;> omega
      obtain ⟨reserved, between, returns, isOk, effect, room⟩ :=
        vectorReserve_works moved wanted unused ok
      exact ⟨reserved, between, returns, isOk, effect,
        Nat.le_trans large room⟩
  obtain ⟨next, between, ensures, isOk, effect, room⟩ := reserved
  have sameSize : next.size = v.size := isOk.size.trans ok.size.symm
  rw [← sameSize] at room
  obtain ⟨last, builds, lastOk, lastEffect⟩ :=
    construct_works value (effect.unused isOk) isOk room
  refine ⟨_, last, ?_, lastOk,
    effect.trans lastEffect fun b isData => ok.owned isData⟩
  unfold pushBack
  rw [ensures, Option.bind_some]
  dsimp only
  rw [builds]
  rfl

theorem vectorClear_works
    (unused : Unused arena)
    (ok : VectorOk arena v items) :
    ∃ later,
      vectorClear v arena = some (⟨v.data, 0, v.capacity⟩, later) ∧
        VectorOk later ⟨v.data, 0, v.capacity⟩ [] ∧
        MemberEffect arena later v ⟨v.data, 0, v.capacity⟩ := by
  have size := ok.size
  have room := ok.room
  unfold vectorClear
  rcases ok.data with ⟨isNone, noRoom⟩ | ⟨b, isData, old, holds⟩
  · have isZero : v.size = 0 := by omega
    refine ⟨arena, ?_, ⟨rfl, Nat.zero_le _, Or.inl ⟨isNone, noRoom⟩⟩, ?_⟩
    · rw [isZero]
      rfl
    · obtain ⟨data, count, capacity⟩ := v
      change count = 0 at isZero
      rw [isZero]
      exact MemberEffect.refl unused
  · obtain ⟨later, loops, isLater, laterOther, laterEq⟩ :=
      clearLoop_spec (Nat.zero_add _) holds
    have nextEq : later.next = arena.next := by
      rw [laterEq]
    refine ⟨later, ?_, ⟨rfl, Nat.zero_le _, Or.inr ⟨b, isData, ?_,
      isLater⟩⟩, ?_⟩
    · rw [isData, size, loops]
      rfl
    · rw [nextEq]
      exact old
    · refine MemberEffect.inPlace unused isData ?_ old laterOther nextEq ?_ ?_
        ?_
      · exact isData
      · rw [laterEq]
        dsimp only
        omega
      · rw [laterEq]
      · rw [laterEq]

theorem vectorRelease_works
    (unused : Unused arena)
    (ok : VectorOk arena v items) :
    ∃ later,
      vectorRelease v arena = some (.empty, later) ∧
        VectorOk later .empty ([] : List T) ∧
        MemberEffect arena later v .empty := by
  obtain ⟨cleared, clears, isOk, effect⟩ := vectorClear_works unused ok
  have stillUnused := effect.unused isOk
  have emptyOk :
      ∀ last : Arena T, VectorOk last .empty ([] : List T) := fun last =>
    ⟨rfl, Nat.le_refl _, Or.inl ⟨rfl, rfl⟩⟩
  unfold vectorRelease
  rw [clears, Option.bind_some]
  rcases isOk.data with ⟨isNone, noRoom⟩ | ⟨b, isData, old, holds⟩
  · change v.data = none at isNone
    change v.capacity = 0 at noRoom
    refine ⟨cleared, ?_, emptyOk cleared, ?_⟩
    · dsimp only
      rw [isNone]
      rfl
    · rw [isNone, noRoom] at effect
      exact effect
  · change v.data = some b at isData
    obtain ⟨last, deletes, isGone, lastOther, lastEq⟩ := holds.delete
    refine ⟨last, ?_, emptyOk last, ?_⟩
    · dsimp only
      rw [isData, deletes]
      rfl
    · apply effect.trans _ fun b isOwn => ok.owned isOwn
      have nextEq : last.next = cleared.next := by
        rw [lastEq]
      refine ⟨⟨Nat.le_of_eq nextEq.symm, Or.inr (Or.inl rfl), ?_⟩, ?_, ?_, ?_,
        ?_⟩
      · intro other _ notOwn
        apply lastOther
        rintro rfl
        exact notOwn isData
      · intro other isOwn _
        change v.data = some other at isOwn
        rw [isData] at isOwn
        rw [← Option.some.inj isOwn]
        exact isGone
      · intro other new _
        rw [lastOther other (by omega)]
        exact stillUnused other new
      · rw [lastEq]
        rfl
      · rw [lastEq]
        unfold bufferCount
        change _ + _ + (if v.data.isSome then 1 else 0) = _ + (_ + 1) + 0
        rw [isData]
        exact Nat.add_assoc _ _ _

theorem copyLoop_works
    {rounds i : Nat}
    (moved : T → T)
    (left : i + rounds = theirs.length)
    (unused : Unused arena)
    (ok : VectorOk arena v items)
    (otherOk : VectorOk arena other theirs)
    (apart : ∀ b, other.data = some b → v.data ≠ some b) :
    MemberWorks (copyLoop moved other rounds i) arena v
      (items ++ theirs.drop i) := by
  induction rounds generalizing i arena v items with
  | zero =>
      have all : theirs.length ≤ i := Nat.le_of_eq left.symm
      rw [List.drop_eq_nil_of_le all, List.append_nil]
      exact ⟨v, arena, rfl, ok, MemberEffect.refl unused⟩
  | succ rounds inductionHypothesis =>
      have inside : i < theirs.length := by omega
      have isThere : arena.read other.data i = some theirs[i] := by
        rcases otherOk.data with ⟨_, noRoom⟩ | ⟨b, isData, _, holds⟩
        · have size := otherOk.size
          have room := otherOk.room
          omega
        · rw [isData, holds.read (Nat.zero_le _),
            List.getElem?_eq_getElem inside]
      obtain ⟨next, between, pushes, nextOk, effect⟩ :=
        pushBack_works moved theirs[i] unused ok
      obtain ⟨last, final, loops, lastOk, lastEffect⟩ :=
        inductionHypothesis (i := i + 1) (by omega) (effect.unused nextOk)
          nextOk (vectorOk_represents.elsewhere otherOk effect.toOwnerEffect apart) (vectorOk_represents.apart otherOk effect.toOwnerEffect apart)
      refine ⟨last, final, ?_, ?_,
        effect.trans lastEffect fun b isData => ok.owned isData⟩
      · unfold copyLoop
        rw [isThere, Option.bind_some, pushes, Option.bind_some]
        exact loops
      · rw [List.append_assoc, List.singleton_append,
          ← List.drop_eq_getElem_cons inside] at lastOk
        exact lastOk

theorem copyFrom_works
    (moved : T → T)
    (unused : Unused arena)
    (ok : VectorOk arena v ([] : List T))
    (otherOk : VectorOk arena other theirs)
    (apart : ∀ b, other.data = some b → v.data ≠ some b) :
    MemberWorks (copyFrom moved other) arena v theirs := by
  obtain ⟨next, between, reserves, nextOk, effect, _⟩ :=
    vectorReserve_works moved other.size unused ok
  obtain ⟨last, final, loops, lastOk, lastEffect⟩ :=
    copyLoop_works moved ((Nat.zero_add _).trans otherOk.size)
      (effect.unused nextOk) nextOk
      (vectorOk_represents.elsewhere otherOk effect.toOwnerEffect apart) (vectorOk_represents.apart otherOk effect.toOwnerEffect apart)
  refine ⟨last, final, ?_, lastOk,
    effect.trans lastEffect fun b isData => ok.owned isData⟩
  unfold copyFrom
  rw [reserves, Option.bind_some]
  exact loops

theorem copyAssign_works
    (moved : T → T)
    (unused : Unused arena)
    (ok : VectorOk arena v items)
    (otherOk : VectorOk arena other theirs)
    (apart : ∀ b, other.data = some b → v.data ≠ some b) :
    MemberWorks (copyAssign moved other) arena v theirs := by
  obtain ⟨cleared, clears, isOk, effect⟩ := vectorClear_works unused ok
  obtain ⟨last, final, copies, lastOk, lastEffect⟩ :=
    copyFrom_works moved (effect.unused isOk) isOk
      (vectorOk_represents.elsewhere otherOk effect.toOwnerEffect apart) (vectorOk_represents.apart otherOk effect.toOwnerEffect apart)
  refine ⟨last, final, ?_, lastOk,
    effect.trans lastEffect fun b isData => ok.owned isData⟩
  unfold copyAssign
  rw [clears, Option.bind_some]
  exact copies

end Members

end MyOS
