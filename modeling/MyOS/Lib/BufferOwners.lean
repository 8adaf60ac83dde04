import MyOS.Lib.Lifetimes

namespace MyOS.Lib

/-!
# Objects that own buffers

An object keeps a sequence in a buffer that no other object uses.  A member
function changes the buffer of its own object or gives it a new one, and an
object may hand its buffer over to another one.  How a buffer stands for a
sequence is a parameter.
-/

/-- The buffer of an object, how much of it is used, and its capacity. -/
structure BufferFields where
  data : Option Nat
  size : Nat
  capacity : Nat
  deriving Repr, DecidableEq

/-- An object without a buffer. -/
def BufferFields.empty : BufferFields :=
  ⟨none, 0, 0⟩

/-- All objects of a program, by the order of their construction, and the
memory that they share. -/
structure OwnerWorld (T : Type) where
  owners : Nat → Option BufferFields
  created : Nat
  arena : Arena T

/-- The sequences that objects stand for, and how many there have been. -/
structure Sequences (T : Type) where
  items : Nat → Option (List T)
  created : Nat

section Changes

variable {T : Type}

namespace OwnerWorld

/-- No object, and nothing allocated. -/
def start : OwnerWorld T :=
  ⟨fun _ => none, 0, .empty⟩

/-- An object's fields are set. -/
def set
    (world : OwnerWorld T)
    (id : Nat)
    (v : Option BufferFields) : OwnerWorld T :=
  { world with owners := Function.update world.owners id v }

/-- A new object. -/
def add (world : OwnerWorld T) (v : BufferFields) : OwnerWorld T :=
  { world.set world.created (some v) with created := world.created + 1 }

/-- A member function of one object is called. -/
def update
    (world : OwnerWorld T)
    (id : Nat)
    (member :
      BufferFields → Arena T → Option (BufferFields × Arena T)) :
    Option (OwnerWorld T) :=
  (world.owners id).bind fun v =>
    (member v world.arena).map fun result =>
      { world.set id (some result.1) with arena := result.2 }

/-- The buffer of another object is taken over. -/
def take
    (world : OwnerWorld T)
    (id other : Nat) : Option (OwnerWorld T) :=
  (world.owners other).map fun v =>
    (world.set id (some v)).set other (some .empty)

end OwnerWorld

namespace Sequences

/-- No object. -/
def start : Sequences T :=
  ⟨fun _ => none, 0⟩

/-- An object's sequence is set. -/
def set
    (sequences : Sequences T)
    (id : Nat)
    (items : Option (List T)) : Sequences T :=
  ⟨Function.update sequences.items id items, sequences.created⟩

/-- A new object. -/
def add (sequences : Sequences T) (items : Option (List T)) : Sequences T :=
  ⟨Function.update sequences.items sequences.created items,
    sequences.created + 1⟩

variable {sequences : Sequences T} {id : Nat}

@[simp]
theorem set_set (first second : Option (List T)) :
    (sequences.set id first).set id second = sequences.set id second := by
  unfold set
  rw [Function.update_idem]

@[simp]
theorem set_self : sequences.set id (sequences.items id) = sequences := by
  unfold set
  rw [Function.update_eq_self]

theorem add_set (first second : Option (List T)) :
    (sequences.add first).set sequences.created second =
      sequences.add second := by
  unfold set add
  dsimp only
  rw [Function.update_idem]

@[simp]
theorem set_items_self (items : Option (List T)) :
    (sequences.set id items).items id = items :=
  Function.update_self _ _ _

theorem set_items_of_ne
    {other : Nat}
    (items : Option (List T))
    (different : other ≠ id) :
    (sequences.set id items).items other = sequences.items other :=
  Function.update_of_ne different _ _

theorem add_items_of_ne
    {other : Nat}
    (items : Option (List T))
    (different : other ≠ sequences.created) :
    (sequences.add items).items other = sequences.items other :=
  Function.update_of_ne different _ _

end Sequences

end Changes

/-- What a member function does to the memory: the object keeps its buffer,
gives it up or gets a new one, and the buffers of others are as before. -/
structure OwnerEffect
    {T : Type}
    (arena later : Arena T)
    (v after : BufferFields) : Prop where
  next : arena.next ≤ later.next
  data :
    after.data = v.data ∨ after.data = none ∨
      ∃ b, after.data = some b ∧ arena.next ≤ b
  frame :
    ∀ b, b < arena.next → v.data ≠ some b →
      later.buffers b = arena.buffers b

/-- A way in which fields and their buffer stand for a sequence: it speaks
about one allocated buffer only. -/
structure Represents
    {T : Type}
    (holds : Arena T → BufferFields → List T → Prop) : Prop where
  owned :
    ∀ {arena v items b}, holds arena v items → v.data = some b →
      b < arena.next
  frame :
    ∀ {arena later v items}, holds arena v items →
      arena.next ≤ later.next →
        (∀ b, v.data = some b → later.buffers b = arena.buffers b) →
          holds later v items
  empty : ∀ arena, holds arena .empty []

/-- The objects stand for these sequences, and every buffer has one owner. -/
structure OwnersOk
    {T : Type}
    (holds : Arena T → BufferFields → List T → Prop)
    (world : OwnerWorld T)
    (sequences : Sequences T) : Prop where
  created : world.created = sequences.created
  later : ∀ id, world.created ≤ id → world.owners id = none
  same : ∀ id, (world.owners id).isSome = (sequences.items id).isSome
  owners :
    ∀ id v items, world.owners id = some v →
      sequences.items id = some items → holds world.arena v items
  alone :
    ∀ id other v w b, world.owners id = some v →
      world.owners other = some w → v.data = some b → w.data = some b →
        id = other

section Effects

variable {T : Type} {arena between later : Arena T}
variable {v w after other : BufferFields} {items theirs : List T}
variable {holds : Arena T → BufferFields → List T → Prop}

theorem OwnerEffect.refl :
    OwnerEffect arena arena v v where
  next := Nat.le_refl _
  data := Or.inl rfl
  frame := fun _ _ _ => rfl

theorem OwnerEffect.disjoint
    {b : Nat}
    (effect : OwnerEffect arena later v after)
    (old : b < arena.next)
    (notOwn : v.data ≠ some b) :
    after.data ≠ some b := by
  rcases effect.data with same | none | ⟨new, isNew, isLater⟩
  · rw [same]
    exact notOwn
  · rw [none]
    exact (Option.some_ne_none _).symm
  · rw [isNew]
    intro same
    rw [Option.some.inj same] at isLater
    exact absurd old (Nat.not_lt_of_le isLater)

theorem OwnerEffect.trans
    (first : OwnerEffect arena between v w)
    (second : OwnerEffect between later w after) :
    OwnerEffect arena later v after where
  next := Nat.le_trans first.next second.next
  data := by
    rcases second.data with same | none | ⟨b, isNew, new⟩
    · rw [same]
      exact first.data
    · exact Or.inr (Or.inl none)
    · exact Or.inr (Or.inr ⟨b, isNew, Nat.le_trans first.next new⟩)
  frame := by
    intro b old notOwn
    rw [second.frame b (Nat.lt_of_lt_of_le old first.next)
      (first.disjoint old notOwn), first.frame b old notOwn]

theorem OwnerEffect.inPlace
    {b : Nat}
    (isData : v.data = some b)
    (sameData : after.data = some b)
    (others : ∀ other, other ≠ b → later.buffers other = arena.buffers other)
    (next : later.next = arena.next) :
    OwnerEffect arena later v after where
  next := Nat.le_of_eq next.symm
  data := Or.inl (sameData.trans isData.symm)
  frame := by
    intro other _ notOwn
    apply others
    rintro rfl
    exact notOwn isData

theorem Represents.elsewhere
    (represents : Represents holds)
    (isHeld : holds arena other theirs)
    (effect : OwnerEffect arena later v after)
    (apart : ∀ b, other.data = some b → v.data ≠ some b) :
    holds later other theirs :=
  represents.frame isHeld effect.next fun b isData =>
    effect.frame b (represents.owned isHeld isData) (apart b isData)

theorem Represents.apart
    (represents : Represents holds)
    (isHeld : holds arena other theirs)
    (effect : OwnerEffect arena later v after)
    (apart : ∀ b, other.data = some b → v.data ≠ some b) :
    ∀ b, other.data = some b → after.data ≠ some b :=
  fun b isData =>
    effect.disjoint (represents.owned isHeld isData) (apart b isData)

end Effects

section Worlds

variable {T : Type} {holds : Arena T → BufferFields → List T → Prop}
variable {world : OwnerWorld T} {sequences : Sequences T} {id other : Nat}

theorem OwnersOk.items
    {v : BufferFields}
    (ok : OwnersOk holds world sequences)
    (isOwner : world.owners id = some v) :
    ∃ items, sequences.items id = some items ∧ holds world.arena v items := by
  have same := ok.same id
  rw [isOwner] at same
  obtain ⟨items, isItems⟩ := Option.isSome_iff_exists.mp same.symm
  exact ⟨items, isItems, ok.owners id v items isOwner isItems⟩

theorem OwnersOk.exists_lt
    {v : BufferFields}
    (ok : OwnersOk holds world sequences)
    (isOwner : world.owners id = some v) :
    id < world.created := by
  by_contra later
  rw [ok.later id (Nat.le_of_not_lt later)] at isOwner
  cases isOwner

theorem OwnersOk.apart
    {v w : BufferFields}
    (ok : OwnersOk holds world sequences)
    (isOwner : world.owners id = some v)
    (isOther : world.owners other = some w)
    (different : id ≠ other) :
    ∀ b, w.data = some b → v.data ≠ some b :=
  fun b isData isOwn =>
    different (ok.alone id other v w b isOwner isOther isOwn isData)

theorem ownersOk_start :
    OwnersOk holds OwnerWorld.start Sequences.start where
  created := rfl
  later := fun _ _ => rfl
  same := fun _ => rfl
  owners := fun _ _ _ isOwner => absurd isOwner (Option.some_ne_none _).symm
  alone := fun _ _ _ _ _ isOwner =>
    absurd isOwner (Option.some_ne_none _).symm

theorem OwnersOk.set_same
    {v : Option BufferFields}
    {items : Option (List T)}
    (ok : OwnersOk holds world sequences)
    (same : v.isSome = items.isSome) :
    ∀ place, ((world.set id v).owners place).isSome =
      ((sequences.set id items).items place).isSome := by
  intro place
  change (Function.update world.owners id v place).isSome =
    (Function.update sequences.items id items place).isSome
  by_cases here : place = id
  · rw [here, Function.update_self, Function.update_self]
    exact same
  · rw [Function.update_of_ne here, Function.update_of_ne here]
    exact ok.same place

theorem OwnersOk.member
    {v after : BufferFields}
    {later : Arena T}
    {items : List T}
    (represents : Represents holds)
    (ok : OwnersOk holds world sequences)
    (isOwner : world.owners id = some v)
    (isHeld : holds later after items)
    (effect : OwnerEffect world.arena later v after) :
    OwnersOk holds { world.set id (some after) with arena := later }
      (sequences.set id (some items)) := by
  have isCreated := ok.exists_lt isOwner
  -- The other objects are as before, and have other buffers still.
  have elsewhere :
      ∀ place w b, place ≠ id → world.owners place = some w →
        w.data = some b → after.data ≠ some b := by
    intro place w b here isPlace isData
    obtain ⟨theirs, _, theirHeld⟩ := ok.items isPlace
    exact represents.apart theirHeld effect
      (ok.apart isOwner isPlace (Ne.symm here)) b isData
  refine ⟨ok.created, ?_, ok.set_same rfl, ?_, ?_⟩
  · intro place isLater
    change world.created ≤ place at isLater
    exact (Function.update_of_ne (by omega) _ _).trans (ok.later place isLater)
  · intro place w theirs isPlace isTheirs
    change Function.update world.owners id _ place = some w at isPlace
    change Function.update sequences.items id _ place = some theirs
      at isTheirs
    by_cases here : place = id
    · rw [here, Function.update_self] at isPlace isTheirs
      rw [← Option.some.inj isPlace, ← Option.some.inj isTheirs]
      exact isHeld
    · rw [Function.update_of_ne here] at isPlace isTheirs
      exact represents.elsewhere (ok.owners place w theirs isPlace isTheirs)
        effect (ok.apart isOwner isPlace (Ne.symm here))
  · intro first second w u b isFirst isSecond firstData secondData
    change Function.update world.owners id _ first = some w at isFirst
    change Function.update world.owners id _ second = some u at isSecond
    by_cases firstHere : first = id
    · by_cases secondHere : second = id
      · rw [firstHere, secondHere]
      · rw [firstHere, Function.update_self] at isFirst
        rw [Function.update_of_ne secondHere] at isSecond
        rw [← Option.some.inj isFirst] at firstData
        exact absurd firstData
          (elsewhere second u b secondHere isSecond secondData)
    · rw [Function.update_of_ne firstHere] at isFirst
      by_cases secondHere : second = id
      · rw [secondHere, Function.update_self] at isSecond
        rw [← Option.some.inj isSecond] at secondData
        exact absurd secondData
          (elsewhere first w b firstHere isFirst firstData)
      · rw [Function.update_of_ne secondHere] at isSecond
        exact ok.alone first second w u b isFirst isSecond firstData
          secondData

theorem OwnersOk.update
    {v after : BufferFields}
    {later : Arena T}
    {items : List T}
    {member : BufferFields → Arena T → Option (BufferFields × Arena T)}
    (represents : Represents holds)
    (ok : OwnersOk holds world sequences)
    (isOwner : world.owners id = some v)
    (returns : member v world.arena = some (after, later))
    (isHeld : holds later after items)
    (effect : OwnerEffect world.arena later v after) :
    world.update id member =
        some { world.set id (some after) with arena := later } ∧
      OwnersOk holds { world.set id (some after) with arena := later }
        (sequences.set id (some items)) := by
  refine ⟨?_, ok.member represents isOwner isHeld effect⟩
  unfold OwnerWorld.update
  rw [isOwner, Option.bind_some, returns]
  rfl

theorem OwnersOk.add
    (represents : Represents holds)
    (ok : OwnersOk holds world sequences) :
    OwnersOk holds (world.add .empty) (sequences.add (some [])) := by
  have created := ok.created
  unfold Sequences.add
  rw [← created]
  have old :
      ∀ place w b,
        Function.update world.owners world.created
            (some BufferFields.empty) place = some w →
          w.data = some b → world.owners place = some w := by
    intro place w b isPlace isData
    by_cases here : place = world.created
    · rw [here, Function.update_self] at isPlace
      rw [← Option.some.inj isPlace] at isData
      cases isData
    · rw [Function.update_of_ne here] at isPlace
      exact isPlace
  refine ⟨rfl, ?_, ok.set_same rfl, ?_, ?_⟩
  · intro place isLater
    change world.created + 1 ≤ place at isLater
    exact (Function.update_of_ne (by omega) _ _).trans
      (ok.later place (Nat.le_of_succ_le isLater))
  · intro place w theirs isPlace isTheirs
    change Function.update world.owners world.created _ place = some w
      at isPlace
    change Function.update sequences.items world.created _ place =
      some theirs at isTheirs
    by_cases here : place = world.created
    · rw [here, Function.update_self] at isPlace isTheirs
      rw [← Option.some.inj isPlace, ← Option.some.inj isTheirs]
      exact represents.empty _
    · rw [Function.update_of_ne here] at isPlace isTheirs
      exact ok.owners place w theirs isPlace isTheirs
  · intro first second w u b isFirst isSecond firstData secondData
    exact ok.alone first second w u b (old first w b isFirst firstData)
      (old second u b isSecond secondData) firstData secondData

theorem OwnersOk.drop
    (ok : OwnersOk holds world sequences) :
    OwnersOk holds (world.set id none) (sequences.set id none) := by
  have old :
      ∀ place w, Function.update world.owners id none place = some w →
        place ≠ id ∧ world.owners place = some w := by
    intro place w isPlace
    by_cases here : place = id
    · rw [here, Function.update_self] at isPlace
      cases isPlace
    · rw [Function.update_of_ne here] at isPlace
      exact ⟨here, isPlace⟩
  refine ⟨ok.created, ?_, ok.set_same rfl, ?_, ?_⟩
  · intro place isLater
    change world.created ≤ place at isLater
    change Function.update world.owners id none place = none
    by_cases here : place = id
    · rw [here, Function.update_self]
    · rw [Function.update_of_ne here]
      exact ok.later place isLater
  · intro place w theirs isPlace isTheirs
    obtain ⟨here, isOld⟩ := old place w isPlace
    rw [Sequences.set_items_of_ne _ here] at isTheirs
    exact ok.owners place w theirs isOld isTheirs
  · intro first second w u b isFirst isSecond firstData secondData
    exact ok.alone first second w u b (old first w isFirst).2
      (old second u isSecond).2 firstData secondData

theorem OwnersOk.take
    {v : BufferFields}
    {items : List T}
    (represents : Represents holds)
    (ok : OwnersOk holds world sequences)
    (isOwner : world.owners id = some .empty)
    (isOther : world.owners other = some v)
    (isItems : sequences.items other = some items)
    (different : id ≠ other) :
    OwnersOk holds ((world.set id (some v)).set other (some .empty))
      ((sequences.set id (some items)).set other (some [])) := by
  have isHeld := ok.owners other v items isOther isItems
  have isCreated := ok.exists_lt isOwner
  have otherCreated := ok.exists_lt isOther
  have places :
      ∀ place w,
        Function.update (Function.update world.owners id (some v)) other
            (some BufferFields.empty) place = some w →
          place = other ∧ w = .empty ∨ place = id ∧ w = v ∨
            place ≠ id ∧ place ≠ other ∧ world.owners place = some w := by
    intro place w isPlace
    by_cases isLast : place = other
    · rw [isLast, Function.update_self] at isPlace
      exact Or.inl ⟨isLast, (Option.some.inj isPlace).symm⟩
    · rw [Function.update_of_ne isLast] at isPlace
      by_cases isFirst : place = id
      · rw [isFirst, Function.update_self] at isPlace
        exact Or.inr (Or.inl ⟨isFirst, (Option.some.inj isPlace).symm⟩)
      · rw [Function.update_of_ne isFirst] at isPlace
        exact Or.inr (Or.inr ⟨isFirst, isLast, isPlace⟩)
  -- The owner of a buffer before and after: the two objects change places.
  have owner :
      ∀ place w b,
        Function.update (Function.update world.owners id (some v)) other
            (some BufferFields.empty) place = some w →
          w.data = some b →
            place = id ∧ v.data = some b ∨
              place ≠ other ∧ world.owners place = some w := by
    intro place w b isPlace isData
    rcases places place w isPlace with
      ⟨_, rfl⟩ | ⟨isFirst, rfl⟩ | ⟨_, notLast, isOld⟩
    · cases isData
    · exact Or.inl ⟨isFirst, isData⟩
    · exact Or.inr ⟨notLast, isOld⟩
  refine ⟨ok.created, ?_, ?_, ?_, ?_⟩
  · intro place isLater
    change world.created ≤ place at isLater
    change Function.update (Function.update world.owners id _) other _ place =
      none
    rw [Function.update_of_ne (by omega), Function.update_of_ne (by omega)]
    exact ok.later place isLater
  · intro place
    change (Function.update (Function.update world.owners id _) other _
        place).isSome =
      (Function.update (Function.update sequences.items id _) other _
        place).isSome
    by_cases isLast : place = other
    · rw [isLast, Function.update_self, Function.update_self]
      rfl
    · rw [Function.update_of_ne isLast, Function.update_of_ne isLast]
      exact ok.set_same (Option.isSome_some.trans Option.isSome_some.symm)
        place
  · intro place w theirs isPlace isSequence
    rcases places place w isPlace with
      ⟨isLast, rfl⟩ | ⟨isFirst, rfl⟩ | ⟨notFirst, notLast, isOld⟩
    · rw [isLast, Sequences.set_items_self] at isSequence
      rw [← Option.some.inj isSequence]
      exact represents.empty _
    · rw [isFirst, Sequences.set_items_of_ne _ different,
        Sequences.set_items_self] at isSequence
      rw [← Option.some.inj isSequence]
      exact isHeld
    · rw [Sequences.set_items_of_ne _ notLast,
        Sequences.set_items_of_ne _ notFirst] at isSequence
      exact ok.owners place w theirs isOld isSequence
  · intro first second w u b isFirst isSecond firstData secondData
    rcases owner first w b isFirst firstData with
      ⟨firstId, isData⟩ | ⟨firstOther, firstOld⟩
    · rcases owner second u b isSecond secondData with
        ⟨secondId, _⟩ | ⟨secondOther, secondOld⟩
      · rw [firstId, secondId]
      · exact absurd
          (ok.alone second other u v b secondOld isOther secondData isData)
          secondOther
    · rcases owner second u b isSecond secondData with
        ⟨_, isData⟩ | ⟨_, secondOld⟩
      · exact absurd
          (ok.alone first other w v b firstOld isOther firstData isData)
          firstOther
      · exact ok.alone first second w u b firstOld secondOld firstData
          secondData

end Worlds

end MyOS.Lib
