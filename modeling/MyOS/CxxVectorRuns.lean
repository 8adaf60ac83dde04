import MyOS.CxxVectorBalance

namespace MyOS

open Lib

/-!
# Runs of programs with vectors

Every call on vectors that exist is defined and does to the vectors what it
does to sequences.  A program that has let all its vectors go has destroyed
every object and deleted every buffer.
-/

section Steps

variable {T : Type} {world : OwnerWorld T} {sequences : Sequences T}
variable {id other : Nat} {v : BufferFields} {items : List T}

theorem WorldOk.update
    {member : BufferFields → Arena T → Option (BufferFields × Arena T)}
    (ok : WorldOk world sequences)
    (isVector : world.owners id = some v)
    (works : MemberWorks member world.arena v items) :
    ∃ later,
      world.update id member = some later ∧
        WorldOk later
          (sequences.set id (some items)) := by
  obtain ⟨after, arena, returns, isOk, effect⟩ := works
  refine ⟨_, ?_, ok.member isVector isOk effect⟩
  unfold OwnerWorld.update
  rw [isVector, Option.bind_some, returns]
  rfl

theorem WorldOk.release
    (ok : WorldOk world sequences)
    (isVector : world.owners id = some v) :
    ∃ later,
      world.update id vectorRelease = some later ∧
        later.owners = Function.update world.owners id (some .empty) ∧
        WorldOk later
          (sequences.set id (some [])) := by
  obtain ⟨items, _, wasOk⟩ := ok.items isVector
  obtain ⟨arena, returns, isOk, effect⟩ :=
    vectorRelease_works ok.unused wasOk
  refine ⟨_, ?_, rfl, ok.member isVector isOk effect⟩
  unfold OwnerWorld.update
  rw [isVector, Option.bind_some, returns]
  rfl

theorem WorldOk.copy
    (moved : T → T)
    (ok : WorldOk world sequences)
    (isOther : world.owners other = some v) :
    ∃ later,
      vectorCall moved world (.copy other) = some later ∧
        WorldOk later (sequenceCall sequences (.copy other)) := by
  obtain ⟨theirs, isTheirs, otherOk⟩ := ok.items isOther
  have added := ok.add
  have isNew :
      (world.add .empty).owners world.created = some .empty :=
    Function.update_self _ _ _
  have emptyOk : VectorOk world.arena .empty ([] : List T) :=
    ⟨rfl, Nat.le_refl _, Or.inl ⟨rfl, rfl⟩⟩
  have apart :
      ∀ b, v.data = some b → BufferFields.empty.data ≠ some b :=
    fun b _ => (Option.some_ne_none b).symm
  obtain ⟨later, returns, isOk⟩ :=
    added.update isNew
      (copyFrom_works moved ok.unused emptyOk otherOk apart)
  refine ⟨later, ?_, ?_⟩
  · dsimp only [vectorCall]
    rw [isOther]
    exact returns
  · dsimp only [sequenceCall]
    rw [ok.created, Sequences.add_set] at isOk
    rw [isTheirs]
    exact isOk

theorem WorldOk.move
    (moved : T → T)
    (ok : WorldOk world sequences)
    (isOther : world.owners other = some v) :
    ∃ later,
      vectorCall moved world (.move other) = some later ∧
        WorldOk later (sequenceCall sequences (.move other)) := by
  have isOld := ok.exists_lt isOther
  have isNew :
      (world.add .empty).owners world.created = some .empty :=
    Function.update_self _ _ _
  have stillOther : ((world.add .empty).owners other).isSome := by
    change (Function.update world.owners world.created _ other).isSome
    rw [Function.update_of_ne (Nat.ne_of_lt isOld), isOther]
    rfl
  obtain ⟨later, takes, isOk⟩ :=
    ok.add.take isNew stillOther (Nat.ne_of_gt isOld)
  refine ⟨later, takes, ?_⟩
  dsimp only [sequenceCall]
  rw [ok.created] at isOk isOld
  rw [Sequences.add_set,
    Sequences.add_items_of_ne _ (Nat.ne_of_lt isOld)] at isOk
  exact isOk

theorem WorldOk.copyAssign
    {w : BufferFields}
    (moved : T → T)
    (ok : WorldOk world sequences)
    (isVector : world.owners id = some v)
    (isOther : world.owners other = some w) :
    ∃ later,
      vectorCall moved world (.copyAssign id other) = some later ∧
        WorldOk later (sequenceCall sequences (.copyAssign id other)) := by
  dsimp only [vectorCall, sequenceCall]
  rw [isOther, Option.bind_some]
  by_cases same : id = other
  · rw [if_pos same, same, Sequences.set_self]
    exact ⟨world, rfl, ok⟩
  · rw [if_neg same]
    obtain ⟨theirs, isTheirs, otherOk⟩ := ok.items isOther
    obtain ⟨items, _, isOk⟩ := ok.items isVector
    rw [isTheirs]
    exact ok.update isVector
      (copyAssign_works moved ok.unused isOk otherOk
        (ok.apart isVector isOther same))

theorem WorldOk.moveAssign
    {w : BufferFields}
    (moved : T → T)
    (ok : WorldOk world sequences)
    (isVector : world.owners id = some v)
    (isOther : world.owners other = some w) :
    ∃ later,
      vectorCall moved world (.moveAssign id other) = some later ∧
        WorldOk later (sequenceCall sequences (.moveAssign id other)) := by
  dsimp only [vectorCall, sequenceCall]
  by_cases same : id = other
  · rw [if_pos same, if_pos same]
    exact ⟨world, rfl, ok⟩
  · rw [if_neg same, if_neg same]
    obtain ⟨released, returns, isReleased, releasedOk⟩ :=
      ok.release isVector
    have isEmpty : released.owners id = some .empty := by
      rw [isReleased, Function.update_self]
    have stillOther : (released.owners other).isSome := by
      rw [isReleased, Function.update_of_ne (Ne.symm same), isOther]
      rfl
    obtain ⟨later, takes, isOk⟩ :=
      releasedOk.take isEmpty stillOther same
    refine ⟨later, ?_, ?_⟩
    · rw [returns, Option.bind_some]
      exact takes
    · rw [Sequences.set_set,
        Sequences.set_items_of_ne _ (Ne.symm same)] at isOk
      exact isOk

theorem WorldOk.destruct
    (moved : T → T)
    (ok : WorldOk world sequences)
    (isVector : world.owners id = some v) :
    ∃ later,
      vectorCall moved world (.destruct id) = some later ∧
        WorldOk later (sequenceCall sequences (.destruct id)) := by
  obtain ⟨released, returns, isReleased, releasedOk⟩ := ok.release isVector
  have isEmpty : released.owners id = some .empty := by
    rw [isReleased, Function.update_self]
  have isOk := releasedOk.drop isEmpty
  refine ⟨released.set id none, ?_, ?_⟩
  · dsimp only [vectorCall]
    rw [returns]
    rfl
  · rw [Sequences.set_set] at isOk
    exact isOk

theorem WorldOk.pushBack
    (moved : T → T)
    (value : T)
    (ok : WorldOk world sequences)
    (isVector : world.owners id = some v) :
    ∃ later,
      world.update id (MyOS.pushBack moved value) = some later ∧
        WorldOk later
          (sequences.set id
            ((sequences.items id).map fun items => items ++ [value])) := by
  obtain ⟨items, isItems, isOk⟩ := ok.items isVector
  rw [isItems]
  exact ok.update isVector (pushBack_works moved value ok.unused isOk)

theorem WorldOk.reserve
    (moved : T → T)
    (capacity : Nat)
    (ok : WorldOk world sequences)
    (isVector : world.owners id = some v) :
    ∃ later,
      world.update id (vectorReserve moved capacity) = some later ∧
        WorldOk later sequences := by
  obtain ⟨items, isItems, isOk⟩ := ok.items isVector
  obtain ⟨after, arena, returns, afterOk, effect, _⟩ :=
    vectorReserve_works moved capacity ok.unused isOk
  obtain ⟨later, updates, laterOk⟩ :=
    ok.update isVector ⟨after, arena, returns, afterOk, effect⟩
  rw [← isItems, Sequences.set_self] at laterOk
  exact ⟨later, updates, laterOk⟩

theorem WorldOk.clear
    (ok : WorldOk world sequences)
    (isVector : world.owners id = some v) :
    ∃ later,
      world.update id vectorClear = some later ∧
        WorldOk later
          (sequences.set id (some [])) := by
  obtain ⟨items, _, isOk⟩ := ok.items isVector
  obtain ⟨arena, returns, afterOk, effect⟩ :=
    vectorClear_works ok.unused isOk
  exact ok.update isVector ⟨_, arena, returns, afterOk, effect⟩

theorem WorldOk.call
    (moved : T → T)
    {call : VectorCall T}
    (ok : WorldOk world sequences)
    (exist : VectorsExist world call) :
    ∃ later,
      vectorCall moved world call = some later ∧
        WorldOk later (sequenceCall sequences call) := by
  cases call with
  | construct => exact ⟨world.add .empty, rfl, ok.add⟩
  | copy other =>
      obtain ⟨w, isOther⟩ := Option.isSome_iff_exists.mp exist
      exact ok.copy moved isOther
  | move other =>
      obtain ⟨w, isOther⟩ := Option.isSome_iff_exists.mp exist
      exact ok.move moved isOther
  | copyAssign id other =>
      obtain ⟨v, isVector⟩ := Option.isSome_iff_exists.mp exist.1
      obtain ⟨w, isOther⟩ := Option.isSome_iff_exists.mp exist.2
      exact ok.copyAssign moved isVector isOther
  | moveAssign id other =>
      obtain ⟨v, isVector⟩ := Option.isSome_iff_exists.mp exist.1
      obtain ⟨w, isOther⟩ := Option.isSome_iff_exists.mp exist.2
      exact ok.moveAssign moved isVector isOther
  | pushBack id value =>
      obtain ⟨v, isVector⟩ := Option.isSome_iff_exists.mp exist
      exact ok.pushBack moved value isVector
  | emplaceBack id value =>
      obtain ⟨v, isVector⟩ := Option.isSome_iff_exists.mp exist
      exact ok.pushBack moved value isVector
  | reserve id capacity =>
      obtain ⟨v, isVector⟩ := Option.isSome_iff_exists.mp exist
      exact ok.reserve moved capacity isVector
  | clear id =>
      obtain ⟨v, isVector⟩ := Option.isSome_iff_exists.mp exist
      exact ok.clear isVector
  | destruct id =>
      obtain ⟨v, isVector⟩ := Option.isSome_iff_exists.mp exist
      exact ok.destruct moved isVector

end Steps

section Runs

variable {T : Type} {world : OwnerWorld T}

end Runs

end MyOS
