import MyOS.CxxVectorMembers

namespace MyOS

open Lib

/-!
# Vectors balance lifetimes

All vectors of a program together: every one has the sequence that its
operations define, each buffer has one owner, and as many objects have been
constructed as have been destroyed or are in a vector.
-/

section Totals

variable {vectors : Nat → Option BufferFields} {count : BufferFields → Nat}

/-- A count of all vectors that have been created so far. -/
def vectorTotal
    (count : BufferFields → Nat)
    (vectors : Nat → Option BufferFields) : Nat → Nat
  | 0 => 0
  | created + 1 =>
      vectorTotal count vectors created +
        ((vectors created).map count).getD 0

theorem vectorTotal_later
    {id created : Nat}
    (v : Option BufferFields)
    (later : created ≤ id) :
    vectorTotal count (Function.update vectors id v) created =
      vectorTotal count vectors created := by
  induction created with
  | zero => rfl
  | succ created inductionHypothesis =>
      unfold vectorTotal
      rw [inductionHypothesis (Nat.le_of_succ_le later),
        Function.update_of_ne (Nat.ne_of_lt later)]

theorem vectorTotal_update
    (count : BufferFields → Nat)
    (vectors : Nat → Option BufferFields)
    {id created : Nat}
    (v : Option BufferFields)
    (exists_ : id < created) :
    vectorTotal count (Function.update vectors id v) created +
        ((vectors id).map count).getD 0 =
      vectorTotal count vectors created + (v.map count).getD 0 := by
  induction created with
  | zero => exact absurd exists_ (Nat.not_lt_zero _)
  | succ created inductionHypothesis =>
      unfold vectorTotal
      by_cases isLast : id = created
      · rw [isLast, vectorTotal_later v (Nat.le_refl _),
          Function.update_self]
        omega
      · have before := inductionHypothesis (by omega)
        rw [Function.update_of_ne (Ne.symm isLast)]
        omega

end Totals

/-- The vectors have these sequences, own their buffers alone, and account for
every object and every buffer. -/
structure WorldOk
    {T : Type}
    (world : OwnerWorld T)
    (sequences : Sequences T) : Prop
    extends OwnersOk VectorOk world sequences where
  owned :
    ∀ b, world.arena.buffers b ≠ none →
      ∃ id v, world.owners id = some v ∧ v.data = some b
  objects :
    world.arena.constructed =
      world.arena.destructed +
        vectorTotal BufferFields.size world.owners world.created
  count :
    world.arena.allocated =
      world.arena.deleted +
        vectorTotal bufferCount world.owners world.created

section Worlds

variable {T : Type} {world : OwnerWorld T} {sequences : Sequences T}
variable {id other : Nat}

theorem WorldOk.unused
    (ok : WorldOk world sequences) :
    Unused world.arena := by
  intro b new
  by_contra isUsed
  obtain ⟨id, v, isVector, isData⟩ := ok.owned b isUsed
  obtain ⟨items, _, isOk⟩ := ok.items isVector
  exact absurd (isOk.owned isData) (Nat.not_lt_of_le new)

theorem WorldOk.member
    {v after : BufferFields}
    {later : Arena T}
    {items : List T}
    (ok : WorldOk world sequences)
    (isVector : world.owners id = some v)
    (isOk : VectorOk later after items)
    (effect : MemberEffect world.arena later v after) :
    WorldOk { world.set id (some after) with arena := later }
      (sequences.set id (some items)) := by
  have isCreated := ok.exists_lt isVector
  refine ⟨ok.toOwnersOk.member vectorOk_represents isVector isOk
    effect.toOwnerEffect, ?_, ?_, ?_⟩
  · intro b isUsed
    change later.buffers b ≠ none at isUsed
    by_cases isAfter : after.data = some b
    · exact ⟨id, after, Function.update_self _ _ _, isAfter⟩
    · have old : b < world.arena.next := by
        by_contra new
        exact isUsed (effect.fresh b (Nat.le_of_not_lt new) isAfter)
      have notOwn : v.data ≠ some b := fun isData =>
        isUsed (effect.released b isData isAfter)
      rw [effect.frame b old notOwn] at isUsed
      obtain ⟨place, w, isPlace, isData⟩ := ok.owned b isUsed
      have here : place ≠ id := by
        rintro rfl
        rw [isVector] at isPlace
        rw [Option.some.inj isPlace] at notOwn
        exact notOwn isData
      refine ⟨place, w, ?_, isData⟩
      exact (Function.update_of_ne here _ _).trans isPlace
  · have total :=
      vectorTotal_update BufferFields.size world.owners (some after)
        isCreated
    rw [isVector] at total
    have objects := effect.objects
    have balance := ok.objects
    change later.constructed = later.destructed +
      vectorTotal BufferFields.size
        (Function.update world.owners id (some after)) world.created
    simp only [Option.map_some, Option.getD_some] at total
    omega
  · have total :=
      vectorTotal_update bufferCount world.owners (some after) isCreated
    rw [isVector] at total
    have objects := effect.count
    have balance := ok.count
    change later.allocated = later.deleted +
      vectorTotal bufferCount
        (Function.update world.owners id (some after)) world.created
    simp only [Option.map_some, Option.getD_some] at total
    omega

theorem WorldOk.add
    (ok : WorldOk world sequences) :
    WorldOk (world.add .empty) (sequences.add (some [])) := by
  refine ⟨ok.toOwnersOk.add vectorOk_represents, ?_, ?_, ?_⟩
  · intro b isUsed
    obtain ⟨place, w, isPlace, isData⟩ := ok.owned b isUsed
    refine ⟨place, w, ?_, isData⟩
    have isOld := ok.exists_lt isPlace
    exact (Function.update_of_ne (Nat.ne_of_lt isOld) _ _).trans isPlace
  · change world.arena.constructed = world.arena.destructed +
      (vectorTotal BufferFields.size
        (Function.update world.owners world.created _) world.created +
        ((Function.update world.owners world.created _ world.created).map
          BufferFields.size).getD 0)
    rw [vectorTotal_later _ (Nat.le_refl _), Function.update_self]
    exact ok.objects
  · change world.arena.allocated = world.arena.deleted +
      (vectorTotal bufferCount
        (Function.update world.owners world.created _) world.created +
        ((Function.update world.owners world.created _ world.created).map
          bufferCount).getD 0)
    rw [vectorTotal_later _ (Nat.le_refl _), Function.update_self]
    exact ok.count

theorem WorldOk.drop
    (ok : WorldOk world sequences)
    (isVector : world.owners id = some .empty) :
    WorldOk (world.set id none) (sequences.set id none) := by
  have isCreated := ok.exists_lt isVector
  refine ⟨ok.toOwnersOk.drop, ?_, ?_, ?_⟩
  · intro b isUsed
    obtain ⟨place, w, isPlace, isData⟩ := ok.owned b isUsed
    have here : place ≠ id := by
      rintro rfl
      rw [isVector] at isPlace
      rw [← Option.some.inj isPlace] at isData
      cases isData
    exact ⟨place, w, (Function.update_of_ne here _ _).trans isPlace, isData⟩
  · have total :=
      vectorTotal_update BufferFields.size world.owners none isCreated
    rw [isVector] at total
    have balance := ok.objects
    change world.arena.constructed = world.arena.destructed +
      vectorTotal BufferFields.size
        (Function.update world.owners id none) world.created
    simp only [Option.map_some, Option.map_none, Option.getD_some,
      Option.getD_none, BufferFields.empty] at total
    omega
  · have total :=
      vectorTotal_update bufferCount world.owners none isCreated
    rw [isVector] at total
    have balance := ok.count
    have isZero : bufferCount BufferFields.empty = 0 := rfl
    change world.arena.allocated = world.arena.deleted +
      vectorTotal bufferCount
        (Function.update world.owners id none) world.created
    simp only [Option.map_some, Option.map_none, Option.getD_some,
      Option.getD_none, isZero] at total
    omega

theorem vectorTotal_take
    {v w : BufferFields}
    (count : BufferFields → Nat)
    (ok : WorldOk world sequences)
    (isVector : world.owners id = some w)
    (isOther : world.owners other = some v)
    (different : id ≠ other) :
    vectorTotal count
        (Function.update (Function.update world.owners id (some v)) other
          (some w)) world.created =
      vectorTotal count world.owners world.created := by
  have first :=
    vectorTotal_update count world.owners (some v) (ok.exists_lt isVector)
  have second :=
    vectorTotal_update count (Function.update world.owners id (some v))
      (some w) (ok.exists_lt isOther)
  rw [Function.update_of_ne (Ne.symm different), isOther] at second
  rw [isVector] at first
  simp only [Option.map_some, Option.getD_some] at first second
  omega

theorem WorldOk.take
    (ok : WorldOk world sequences)
    (isVector : world.owners id = some .empty)
    (isOther : (world.owners other).isSome)
    (different : id ≠ other) :
    ∃ later,
      world.take id other = some later ∧
        WorldOk later
          ((sequences.set id (sequences.items other)).set other
            (some [])) := by
  obtain ⟨v, isTheirs⟩ := Option.isSome_iff_exists.mp isOther
  obtain ⟨items, isItems, isOk⟩ := ok.items isTheirs
  refine ⟨(world.set id (some v)).set other (some .empty), ?_, ?_⟩
  · unfold OwnerWorld.take
    rw [isTheirs]
    rfl
  rw [isItems]
  refine ⟨ok.toOwnersOk.take vectorOk_represents isVector isTheirs isItems
    different, ?_, ?_, ?_⟩
  · intro b isUsed
    obtain ⟨place, w, isPlace, isData⟩ := ok.owned b isUsed
    by_cases isLast : place = other
    · rw [isLast, isTheirs] at isPlace
      rw [← Option.some.inj isPlace] at isData
      refine ⟨id, v, ?_, isData⟩
      change Function.update (Function.update world.owners id _) other _ id =
        some v
      rw [Function.update_of_ne different, Function.update_self]
    · have notFirst : place ≠ id := by
        rintro rfl
        rw [isVector] at isPlace
        rw [← Option.some.inj isPlace] at isData
        cases isData
      refine ⟨place, w, ?_, isData⟩
      change Function.update (Function.update world.owners id _) other _
        place = some w
      rw [Function.update_of_ne isLast, Function.update_of_ne notFirst]
      exact isPlace
  · change world.arena.constructed = world.arena.destructed +
      vectorTotal BufferFields.size
        (Function.update (Function.update world.owners id (some v)) other
          (some BufferFields.empty)) world.created
    rw [vectorTotal_take _ ok isVector isTheirs different]
    exact ok.objects
  · change world.arena.allocated = world.arena.deleted +
      vectorTotal bufferCount
        (Function.update (Function.update world.owners id (some v)) other
          (some BufferFields.empty)) world.created
    rw [vectorTotal_take _ ok isVector isTheirs different]
    exact ok.count

end Worlds

end MyOS
