import MyOS.LibcHeapLive
import MyOS.Lib.Run

namespace MyOS

open Lib

/-!
# Runs of the heap

Callers call `malloc`, `calloc`, `realloc` and `free` in any order, and write
to the bytes that they hold.  Every call comes back, keeps the heap intact and
changes no byte of the blocks that it is not about.
-/

/-- What callers do. -/
inductive HeapCall where
  | malloc (nbytes : Nat)
  | calloc (nmemb size : Nat)
  | realloc (ptr nbytes : Nat)
  | free (ptr : Nat)
  | store (address : Nat) (value : UInt8)

section Calls

variable {K : Type}

/-- The system with the block behind a pointer that was returned. -/
def addLive
    (p bytes : Nat)
    (heap : LibcHeap K)
    (blocks : List LiveBlock) : HeapSystem K :=
  if p = 0 then
    ⟨heap, blocks⟩
  else
    ⟨heap, ⟨⟨headerOf p, lengthAt heap.memory (headerOf p)⟩, bytes⟩ :: blocks⟩

/-- `realloc` has not found memory. -/
def ReallocFails (ptr nbytes p : Nat) : Prop :=
  p = 0 ∧ (ptr = 0 ∨ nbytes ≠ 0)

instance (ptr nbytes p : Nat) : Decidable (ReallocFails ptr nbytes p) :=
  inferInstanceAs (Decidable (_ ∧ _))

/-- A call, with the pointer that it returns. -/
def performCall
    (sbrk : SbrkCall K)
    (base fuel : Nat)
    (call : HeapCall)
    (system : HeapSystem K) : Option (Nat × HeapSystem K) :=
  match call with
  | .malloc nbytes =>
      (heapMalloc sbrk base fuel nbytes system.heap).map fun result =>
        (result.1, addLive result.1 nbytes result.2 system.live)
  | .calloc nmemb size =>
      (heapCalloc sbrk base fuel nmemb size system.heap).map fun result =>
        (result.1, addLive result.1 (nmemb * size) result.2 system.live)
  | .realloc ptr nbytes =>
      (heapRealloc sbrk base fuel ptr nbytes system.heap).map fun result =>
        (result.1,
          if ReallocFails ptr nbytes result.1 then
            ⟨result.2, system.live⟩
          else
            addLive result.1 nbytes result.2 (dropLive ptr system.live))
  | .free ptr =>
      (heapFree base fuel ptr system.heap).map fun heap =>
        (0, ⟨heap, dropLive ptr system.live⟩)
  | .store address value =>
      some (0, ⟨{ system.heap with
        memory := system.heap.memory.put address 1 fun _ => value },
          system.live⟩)

/-- The pointer is null or one that a caller holds. -/
def Held (system : HeapSystem K) (ptr : Nat) : Prop :=
  ptr = 0 ∨ ∃ live ∈ system.live, live.pointer = ptr

/-- Callers free what they hold, write to their bytes, and their requests do
not overflow. -/
def Admissible (system : HeapSystem K) : HeapCall → Prop
  | .malloc nbytes => nbytes + 2 * HEADER_SIZE ≤ WORD_RANGE
  | .calloc nmemb size => nmemb * size + 2 * HEADER_SIZE ≤ WORD_RANGE
  | .realloc ptr nbytes =>
      Held system ptr ∧ nbytes + 2 * HEADER_SIZE ≤ WORD_RANGE
  | .free ptr => Held system ptr
  | .store address _ => ∃ live ∈ system.live, live.Owns address

/-- A call with loops comes back with a result. -/
def Ends {α : Type} (call : Nat → Option α) (result : α) : Prop :=
  ∃ bound, ∀ fuel, bound < fuel → call fuel = some result

theorem Ends.unique
    {α : Type}
    {call : Nat → Option α}
    {first second : α}
    (isFirst : Ends call first)
    (isSecond : Ends call second) :
    first = second := by
  obtain ⟨bound, ends⟩ := isFirst
  obtain ⟨limit, alsoEnds⟩ := isSecond
  have one := ends (max bound limit + 1) (by omega)
  have other := alsoEnds (max bound limit + 1) (by omega)
  rw [one] at other
  exact Option.some.inj other

theorem Ends.map
    {α β : Type}
    {call : Nat → Option α}
    {result : α}
    (ends : Ends call result)
    (use : α → β) :
    Ends (fun fuel => (call fuel).map use) (use result) := by
  obtain ⟨bound, returns⟩ := ends
  refine ⟨bound, fun fuel enough => ?_⟩
  dsimp only
  rw [returns fuel enough]
  rfl

/-- A step of the callers. -/
def HeapStep
    (sbrk : SbrkCall K)
    (base : Nat)
    (system : HeapSystem K)
    (call : HeapCall)
    (later : HeapSystem K) : Prop :=
  Admissible system call ∧
    ∃ p, Ends (fun fuel => performCall sbrk base fuel call system) (p, later)

/-- A call is not about a block. -/
def Spares : HeapCall → LiveBlock → Prop
  | .malloc _, _ => True
  | .calloc _ _, _ => True
  | .realloc ptr _, live => live.pointer ≠ ptr
  | .free ptr, live => live.pointer ≠ ptr
  | .store address _, live => ¬ live.block.Has address

/-- A request for memory has failed. -/
def Fails : HeapCall → Nat → Prop
  | .malloc _, p => p = 0
  | .calloc _ _, p => p = 0
  | .realloc ptr nbytes, p => ReallocFails ptr nbytes p
  | .free _, _ => False
  | .store _ _, _ => False

/-- What a call keeps. -/
structure CallKeeps
    (base : Nat)
    (system : HeapSystem K)
    (call : HeapCall)
    (p : Nat)
    (later : HeapSystem K) : Prop where
  others :
    ∀ live ∈ system.live, Spares call live →
      live ∈ later.live ∧
        ∀ address, live.block.Has address →
          later.heap.memory address = system.heap.memory address
  failed :
    Fails call p →
      later =
        ⟨⟨(setUp base system.heap).memory, (setUp base system.heap).freep,
          later.heap.kernel⟩, system.live⟩
  copied :
    ∀ ptr nbytes, call = .realloc ptr nbytes → p ≠ 0 →
      ∀ live ∈ system.live, live.pointer = ptr →
        ∀ index, index < min live.bytes nbytes →
          later.heap.memory (p + index) = system.heap.memory (ptr + index)

end Calls

section Copies

variable {memory : Bytes} {p count dst src : Nat}

theorem memsetZero_outside
    {address : Nat}
    (fits : p + count ≤ WORD_RANGE)
    (outside : ¬ (p ≤ address ∧ address < p + count)) :
    memsetZero memory p count address = memory address := by
  induction count with
  | zero => rfl
  | succ count inductionHypothesis =>
      unfold memsetZero
      rw [Nat.mod_eq_of_lt (by omega), Bytes.put_outside (by omega)]
      exact inductionHypothesis (by omega) (by omega)

theorem memcpyBytes_outside
    {address : Nat}
    (fits : dst + count ≤ WORD_RANGE)
    (outside : ¬ (dst ≤ address ∧ address < dst + count)) :
    memcpyBytes memory dst src count address = memory address := by
  induction count with
  | zero => rfl
  | succ count inductionHypothesis =>
      unfold memcpyBytes
      dsimp only
      rw [Nat.mod_eq_of_lt (by omega), Bytes.put_outside (by omega)]
      exact inductionHypothesis (by omega) (by omega)

theorem memcpyBytes_inside
    {index : Nat}
    (dstFits : dst + count ≤ WORD_RANGE)
    (srcFits : src + count ≤ WORD_RANGE)
    (apart :
      ∀ i, i < count → ¬ (dst ≤ src + i ∧ src + i < dst + count))
    (inside : index < count) :
    memcpyBytes memory dst src count (dst + index) = memory (src + index) := by
  induction count with
  | zero => exact absurd inside (Nat.not_lt_zero _)
  | succ count inductionHypothesis =>
      unfold memcpyBytes
      dsimp only
      rw [Nat.mod_eq_of_lt (by omega)]
      by_cases isLast : index = count
      · rw [isLast, Bytes.put_inside (Nat.le_refl _) (Nat.lt_succ_self _),
          Nat.mod_eq_of_lt (by omega)]
        apply memcpyBytes_outside (by omega)
        have outside := apart count (Nat.lt_succ_self _)
        omega
      · rw [Bytes.put_outside (by omega)]
        apply inductionHypothesis (by omega) (by omega) _ (by omega)
        intro i small
        have outside := apart i (by omega)
        omega

end Copies

end MyOS
