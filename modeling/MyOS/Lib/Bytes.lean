import Mathlib.Tactic.IntervalCases
import Mathlib.Data.UInt

namespace MyOS.Lib

/-!
# Byte blocks

A block of memory is a function from offsets to bytes.  Everything that is
written to it is a run of bytes, `put`; little-endian fields and bits are read
back from wherever the last run that covers them left them.
-/

/-- Bytes by their offset. -/
abbrev Bytes : Type := Nat → UInt8

namespace Bytes

/-- Copy `length` bytes of a source to an offset. -/
def put (block : Bytes) (offset length : Nat) (source : Bytes) : Bytes :=
  fun place =>
    if offset ≤ place ∧ place < offset + length then
      source (place - offset)
    else
      block place

/-- The bytes of an interval, in their order. -/
def slice (block : Bytes) (offset length : Nat) : List UInt8 :=
  (List.range length).map fun index => block (offset + index)

/-- A list as a source, zero behind its end. -/
def ofList (bytes : List UInt8) : Bytes :=
  fun index => bytes.getD index 0

/-- The byte of a value that stands at a place of its little-endian form. -/
def ofNat (value : Nat) : Bytes :=
  fun index => UInt8.ofNat (value / 256 ^ index)

/-- The 16-bit little-endian field at an offset. -/
def le16 (block : Bytes) (offset : Nat) : Nat :=
  (block offset).toNat + 256 * (block (offset + 1)).toNat

/-- The 32-bit little-endian field at an offset. -/
def le32 (block : Bytes) (offset : Nat) : Nat :=
  block.le16 offset + 0x10000 * block.le16 (offset + 2)

/-- The 64-bit little-endian field at an offset. -/
def le64 (block : Bytes) (offset : Nat) : Nat :=
  block.le32 offset + 0x100000000 * block.le32 (offset + 4)

/-- The mask of a bit in its byte. -/
def mask (index : Nat) : UInt8 :=
  1 <<< UInt8.ofNat (index % 8)

/-- A bit of the block, counted from the lowest bit of the first byte. -/
def bit (block : Bytes) (index : Nat) : Bool :=
  block (index / 8) &&& mask index != 0

/-- Set a bit. -/
def setBit (block : Bytes) (index : Nat) : Bytes :=
  Function.update block (index / 8) (block (index / 8) ||| mask index)

/-- Clear a bit. -/
def clearBit (block : Bytes) (index : Nat) : Bytes :=
  Function.update block (index / 8) (block (index / 8) &&& ~~~ mask index)

section Put

variable {block source : Bytes} {offset length place : Nat}

theorem put_inside
    (lower : offset ≤ place)
    (upper : place < offset + length) :
    block.put offset length source place = source (place - offset) :=
  if_pos ⟨lower, upper⟩

theorem put_outside
    (outside : place < offset ∨ offset + length ≤ place) :
    block.put offset length source place = block place := by
  apply if_neg
  omega

theorem le16_put_inside
    (lower : offset ≤ place)
    (upper : place + 2 ≤ offset + length) :
    (block.put offset length source).le16 place =
      source.le16 (place - offset) := by
  have shift : place + 1 - offset = place - offset + 1 := by
    omega
  simp only [le16]
  rw [put_inside lower (by omega), put_inside (by omega) (by omega), shift]

theorem le16_put_outside
    (outside : place + 2 ≤ offset ∨ offset + length ≤ place) :
    (block.put offset length source).le16 place = block.le16 place := by
  simp only [le16]
  rw [put_outside (by omega), put_outside (by omega)]

theorem le32_put_inside
    (lower : offset ≤ place)
    (upper : place + 4 ≤ offset + length) :
    (block.put offset length source).le32 place =
      source.le32 (place - offset) := by
  have shift : place + 2 - offset = place - offset + 2 := by
    omega
  simp only [le32]
  rw [le16_put_inside lower (by omega),
    le16_put_inside (by omega) (by omega), shift]

theorem le32_put_outside
    (outside : place + 4 ≤ offset ∨ offset + length ≤ place) :
    (block.put offset length source).le32 place = block.le32 place := by
  simp only [le32]
  rw [le16_put_outside (by omega), le16_put_outside (by omega)]

theorem le64_put_inside
    (lower : offset ≤ place)
    (upper : place + 8 ≤ offset + length) :
    (block.put offset length source).le64 place =
      source.le64 (place - offset) := by
  have shift : place + 4 - offset = place - offset + 4 := by
    omega
  simp only [le64]
  rw [le32_put_inside lower (by omega),
    le32_put_inside (by omega) (by omega), shift]

theorem le64_put_outside
    (outside : place + 8 ≤ offset ∨ offset + length ≤ place) :
    (block.put offset length source).le64 place = block.le64 place := by
  simp only [le64]
  rw [le32_put_outside (by omega), le32_put_outside (by omega)]

end Put

section Slice

variable {block : Bytes} {offset length : Nat}

@[simp]
theorem length_slice : (block.slice offset length).length = length := by
  simp only [slice, List.length_map, List.length_range]

theorem slice_congr
    {other : Bytes}
    {otherOffset : Nat}
    (same :
      ∀ index, index < length →
        block (offset + index) = other (otherOffset + index)) :
    block.slice offset length = other.slice otherOffset length := by
  apply List.map_congr_left
  intro index member
  exact same index (List.mem_range.mp member)

end Slice

section Fields

theorem le16_ofNat (value : Nat) :
    (ofNat value).le16 0 = value % 0x10000 := by
  simp only [le16, ofNat, UInt8.toNat_ofNat', Nat.zero_add]
  omega

theorem le16_ofNat_upper (value : Nat) :
    (ofNat value).le16 2 = value / 0x10000 % 0x10000 := by
  simp only [le16, ofNat, UInt8.toNat_ofNat']
  omega

theorem le32_ofNat (value : Nat) :
    (ofNat value).le32 0 = value % 0x100000000 := by
  simp only [le32, Nat.zero_add]
  rw [le16_ofNat, le16_ofNat_upper]
  omega

theorem le32_ofNat_upper (value : Nat) :
    (ofNat value).le32 4 = value / 0x100000000 % 0x100000000 := by
  simp only [le32, le16, ofNat, UInt8.toNat_ofNat']
  omega

theorem le64_ofNat (value : Nat) :
    (ofNat value).le64 0 = value % 0x10000000000000000 := by
  simp only [le64, Nat.zero_add]
  rw [le32_ofNat, le32_ofNat_upper]
  omega

theorem le16_lt (block : Bytes) (offset : Nat) :
    block.le16 offset < 0x10000 := by
  have low := (block offset).toNat_lt
  have high := (block (offset + 1)).toNat_lt
  simp only [le16]
  omega

theorem le32_lt (block : Bytes) (offset : Nat) :
    block.le32 offset < 0x100000000 := by
  have low := block.le16_lt offset
  have high := block.le16_lt (offset + 2)
  simp only [le32]
  omega

theorem le64_lt (block : Bytes) (offset : Nat) :
    block.le64 offset < 0x10000000000000000 := by
  have low := block.le32_lt offset
  have high := block.le32_lt (offset + 4)
  simp only [le64]
  omega

end Fields

section Bits

variable {block : Bytes} {index other : Nat}

theorem testBit_mask (index place : Nat) :
    (mask index).toNat.testBit place = decide (index % 8 = place) := by
  have small := Nat.mod_lt index (show 0 < 8 by decide)
  have value : (mask index).toNat = 2 ^ (index % 8) := by
    simp only [mask]
    generalize index % 8 = i at small ⊢
    interval_cases i <;> rfl
  rw [value, Nat.testBit_two_pow]

theorem and_mask (byte : UInt8) (index : Nat) :
    (byte &&& mask index != 0) = byte.toNat.testBit (index % 8) := by
  have small := Nat.mod_lt index (show 0 < 8 by decide)
  have zero : ((byte &&& mask index) = 0) ↔
      byte.toNat.testBit (index % 8) = false := by
    rw [← UInt8.toNat_inj, UInt8.toNat_and]
    constructor
    · intro none
      have clear := congrArg (fun value => value.testBit (index % 8)) none
      simpa [Nat.testBit_and, testBit_mask] using clear
    · intro clear
      apply Nat.eq_of_testBit_eq
      intro place
      rw [Nat.testBit_and, testBit_mask]
      by_cases same : index % 8 = place
      · simp [← same, clear]
      · simp [same]
  rw [Bool.eq_iff_iff, bne_iff_ne, ne_eq, zero, Bool.not_eq_false]

theorem or_mask (byte : UInt8) (index other : Nat) :
    ((byte ||| mask index) &&& mask other != 0) =
      (index % 8 == other % 8 || (byte &&& mask other != 0)) := by
  rw [and_mask, and_mask, UInt8.toNat_or, Nat.testBit_or, testBit_mask,
    Bool.or_comm]
  rfl

theorem and_not_mask (byte : UInt8) (index other : Nat) :
    (byte &&& ~~~ mask index &&& mask other != 0) =
      (index % 8 != other % 8 && (byte &&& mask other != 0)) := by
  have small := Nat.mod_lt other (show 0 < 8 by decide)
  have clear :
      (~~~ mask index).toNat.testBit (other % 8) =
        !(mask index).toNat.testBit (other % 8) := by
    have bits := BitVec.getLsbD_not (x := (mask index).toBitVec) (i := other % 8)
    rw [decide_eq_true small, Bool.true_and] at bits
    exact bits
  rw [and_mask, and_mask, UInt8.toNat_and, Nat.testBit_and, clear,
    testBit_mask, Bool.and_comm]
  rfl

theorem bit_setBit :
    (block.setBit index).bit other = (index == other || block.bit other) := by
  by_cases byte : other / 8 = index / 8
  · simp only [bit, setBit, byte, Function.update_self, or_mask]
    have place : (index % 8 == other % 8) = (index == other) := by
      rw [Bool.eq_iff_iff, beq_iff_eq, beq_iff_eq]
      omega
    rw [place]
  · have differ : (index == other) = false := by
      rw [beq_eq_false_iff_ne]
      intro same
      rw [same] at byte
      exact byte rfl
    simp only [bit, setBit, Function.update_of_ne byte, differ,
      Bool.false_or]

theorem bit_clearBit :
    (block.clearBit index).bit other = (index != other && block.bit other) := by
  by_cases byte : other / 8 = index / 8
  · simp only [bit, clearBit, byte, Function.update_self, and_not_mask]
    have place : (index % 8 != other % 8) = (index != other) := by
      rw [Bool.eq_iff_iff, bne_iff_ne, bne_iff_ne]
      omega
    rw [place]
  · have differ : (index != other) = true := by
      rw [bne_iff_ne]
      intro same
      rw [same] at byte
      exact byte rfl
    simp only [bit, clearBit, Function.update_of_ne byte, differ,
      Bool.true_and]

end Bits

end Bytes

end MyOS.Lib
