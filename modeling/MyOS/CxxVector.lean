import MyOS.Lib.BufferOwners
import MyOS.Lib.Run

namespace MyOS

open Lib

/-!
# The vectors of the C++ library

A vector owns a buffer with room for more objects than it has: `data_`, `size_`
and `capacity_` are its fields.  Its operations construct, move and destroy
objects of any type in the slots of buffers; what a move leaves in its source
is a parameter.
-/

section Functions

variable {T : Type} (moved : T → T)

/-- The loop of `reserve`: objects are moved to the new buffer. -/
def reserveLoop
    (old : Option Nat)
    (new : Nat) : Nat → Nat → Arena T → Option (Arena T)
  | 0, _, arena => some arena
  | rounds + 1, i, arena =>
      (arena.read old i).bind fun value =>
        (arena.assign old i (moved value)).bind fun arena =>
          (arena.construct (some new) i value).bind fun arena =>
            (arena.destroy old i).bind fun arena =>
              reserveLoop old new rounds (i + 1) arena

/-- `reserve` -/
def vectorReserve
    (capacity : Nat)
    (v : BufferFields)
    (arena : Arena T) : Option (BufferFields × Arena T) :=
  if capacity ≤ v.capacity then
    some (v, arena)
  else
    (reserveLoop moved v.data arena.next v.size 0
        (arena.allocate capacity)).bind fun filled =>
      (filled.delete v.data).map fun later =>
        (⟨some arena.next, v.size, capacity⟩, later)

/-- `ensure_capacity` -/
def ensureCapacity
    (wanted : Nat)
    (v : BufferFields)
    (arena : Arena T) : Option (BufferFields × Arena T) :=
  if wanted ≤ v.capacity then
    some (v, arena)
  else
    let next := if v.capacity = 0 then 4 else v.capacity * 2
    let next := if next < wanted then wanted else next
    vectorReserve moved next v arena

/-- `push_back`, and `emplace_back`: an object is constructed behind the
others, from a value outside of the vector. -/
def pushBack
    (value : T)
    (v : BufferFields)
    (arena : Arena T) : Option (BufferFields × Arena T) :=
  (ensureCapacity moved (v.size + 1) v arena).bind fun next =>
    (next.2.construct next.1.data next.1.size value).map fun later =>
      (⟨next.1.data, next.1.size + 1, next.1.capacity⟩, later)

/-- The loop of `clear`. -/
def clearLoop
    (data : Option Nat) : Nat → Nat → Arena T → Option (Arena T)
  | 0, _, arena => some arena
  | rounds + 1, i, arena =>
      (arena.destroy data i).bind fun arena =>
        clearLoop data rounds (i + 1) arena

/-- `clear` -/
def vectorClear
    (v : BufferFields)
    (arena : Arena T) : Option (BufferFields × Arena T) :=
  (clearLoop v.data v.size 0 arena).map fun later =>
    (⟨v.data, 0, v.capacity⟩, later)

/-- The loop that copies the objects of another vector. -/
def copyLoop
    (other : BufferFields) :
    Nat → Nat → BufferFields → Arena T → Option (BufferFields × Arena T)
  | 0, _, v, arena => some (v, arena)
  | rounds + 1, i, v, arena =>
      (arena.read other.data i).bind fun value =>
        (pushBack moved value v arena).bind fun next =>
          copyLoop other rounds (i + 1) next.1 next.2

/-- The copy constructor, on the fields that it has set, and the end of the
copy assignment. -/
def copyFrom
    (other v : BufferFields)
    (arena : Arena T) : Option (BufferFields × Arena T) :=
  (vectorReserve moved other.size v arena).bind fun next =>
    copyLoop moved other other.size 0 next.1 next.2

/-- The copy assignment from another vector. -/
def copyAssign
    (other v : BufferFields)
    (arena : Arena T) : Option (BufferFields × Arena T) :=
  (vectorClear v arena).bind fun next =>
    copyFrom moved other next.1 next.2

/-- The destructor, and the beginning of the move assignment. -/
def vectorRelease
    (v : BufferFields)
    (arena : Arena T) : Option (BufferFields × Arena T) :=
  (vectorClear v arena).bind fun next =>
    (next.2.delete next.1.data).map fun later => (.empty, later)

end Functions

/-- What a program does with vectors. -/
inductive VectorCall (T : Type) where
  | construct
  | copy (other : Nat)
  | move (other : Nat)
  | copyAssign (id other : Nat)
  | moveAssign (id other : Nat)
  | pushBack (id : Nat) (value : T)
  | emplaceBack (id : Nat) (value : T)
  | reserve (id capacity : Nat)
  | clear (id : Nat)
  | destruct (id : Nat)

section Calls

variable {T : Type}

/-- A call; `none` where it is undefined. -/
def vectorCall
    (moved : T → T)
    (world : OwnerWorld T) :
    VectorCall T → Option (OwnerWorld T)
  | .construct => some (world.add .empty)
  | .copy other =>
      (world.owners other).bind fun v =>
        (world.add .empty).update world.created (copyFrom moved v)
  | .move other => (world.add .empty).take world.created other
  | .copyAssign id other =>
      (world.owners other).bind fun v =>
        if id = other then
          some world
        else
          world.update id (copyAssign moved v)
  | .moveAssign id other =>
      if id = other then
        some world
      else
        (world.update id vectorRelease).bind fun world => world.take id other
  | .pushBack id value => world.update id (pushBack moved value)
  | .emplaceBack id value => world.update id (pushBack moved value)
  | .reserve id capacity => world.update id (vectorReserve moved capacity)
  | .clear id => world.update id vectorClear
  | .destruct id =>
      (world.update id vectorRelease).map fun world => world.set id none

/-- The vectors that a call is about exist. -/
def VectorsExist (world : OwnerWorld T) : VectorCall T → Prop
  | .construct => True
  | .copy other => (world.owners other).isSome
  | .move other => (world.owners other).isSome
  | .copyAssign id other =>
      (world.owners id).isSome ∧ (world.owners other).isSome
  | .moveAssign id other =>
      (world.owners id).isSome ∧ (world.owners other).isSome
  | .pushBack id _ => (world.owners id).isSome
  | .emplaceBack id _ => (world.owners id).isSome
  | .reserve id _ => (world.owners id).isSome
  | .clear id => (world.owners id).isSome
  | .destruct id => (world.owners id).isSome

/-- What a call does to the sequences that vectors stand for. -/
def sequenceCall (sequences : Sequences T) : VectorCall T → Sequences T
  | .construct => sequences.add (some [])
  | .copy other => sequences.add (sequences.items other)
  | .move other =>
      (sequences.add (sequences.items other)).set other (some [])
  | .copyAssign id other => sequences.set id (sequences.items other)
  | .moveAssign id other =>
      if id = other then
        sequences
      else
        (sequences.set id (sequences.items other)).set other (some [])
  | .pushBack id value =>
      sequences.set id
        ((sequences.items id).map fun items => items ++ [value])
  | .emplaceBack id value =>
      sequences.set id
        ((sequences.items id).map fun items => items ++ [value])
  | .reserve _ _ => sequences
  | .clear id => sequences.set id (some [])
  | .destruct id => sequences.set id none

end Calls

end MyOS
