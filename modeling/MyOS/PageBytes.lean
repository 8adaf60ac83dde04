import MyOS.Lib.Bytes
import MyOS.ProcSpace

namespace MyOS

open Lib

/-!
# The bytes of user memory

A page is a block of bytes, eight of them in each doubleword.  What a process
sees of its memory is, for each mapped address, the flags and the byte there.
-/

namespace PageStore

/-! ## Bytes of a doubleword -/

/-- A byte of a doubleword, counted from its lowest. -/
def byteOf (word : Word) (place : Nat) : UInt8 :=
  ⟨(word >>> (8 * place)).setWidth 8⟩

/-- A doubleword with another byte at a place. -/
def withByte (word : Word) (place : Nat) (byte : UInt8) : Word :=
  word &&& ~~~((0xFF : Word) <<< (8 * place)) |||
    byte.toBitVec.setWidth 64 <<< (8 * place)

/-! ## Bytes of a page -/

/-- The doubleword that a byte of a page is in. -/
def wordAt (offset : Nat) : PageIndex :=
  BitVec.ofNat 9 (offset / 8)

variable {store later : PageStore} {root frame other : Frame}
variable {address va : Word} {byte : UInt8} {bytes : List UInt8}
variable {offset : Nat}

/-- The bytes of a page. -/
def contents (store : PageStore) (frame : Frame) : Bytes :=
  fun offset => byteOf (store.entries frame (wordAt offset)) (offset % 8)

/-- Store a byte. -/
def putByte (store : PageStore) (address : Word) (byte : UInt8) : PageStore :=
  store.set (address &&& ~~~7)
    (withByte (store.load (address &&& ~~~7)) (address.toNat % 8) byte)

/-- Store bytes one after the other: `memmove(address, bytes, n)`. -/
def putBytes (store : PageStore) (address : Word) :
    List UInt8 → PageStore
  | [] => store
  | byte :: rest => (store.putByte address byte).putBytes (address + 1) rest

theorem doubleword_eq :
    address &&& ~~~7 =
      entryAddress (pageOf address) (wordAt (address.toNat % 4096)) := by
  have bound := address.isLt
  apply BitVec.eq_of_toNat_eq
  rw [toNat_entryAddress, toNat_pageOf]
  unfold wordAt
  rw [BitVec.toNat_ofNat]
  have isAligned : (address &&& ~~~7).toNat = address.toNat / 8 * 8 := by
    have isMask (i : Nat) : (7 : Word).getLsbD i = decide (i < 3) :=
      Nat.testBit_two_pow_sub_one 3 i
    rw [clearLow_eq isMask, BitVec.toNat_shiftLeft, BitVec.toNat_ushiftRight,
      Nat.shiftRight_eq_div_pow, Nat.shiftLeft_eq]
    omega
  rw [isAligned]
  omega

theorem entries_putByte :
    (store.putByte address byte).entries =
      RadixTree.write store.entries (pageOf address)
        (wordAt (address.toNat % 4096))
        (withByte
          (store.entries (pageOf address) (wordAt (address.toNat % 4096)))
          (address.toNat % 8) byte) := by
  unfold putByte
  rw [doubleword_eq]
  exact entries_set

theorem entries_putByte_of_ne
    (different : frame ≠ pageOf address) :
    (store.putByte address byte).entries frame = store.entries frame := by
  funext index
  rw [entries_putByte, RadixTree.write_of_page_ne different]

theorem next_in_page
    (inside : address.toNat % 4096 + 1 < 4096) :
    pageOf (address + 1) = pageOf address ∧
      (address + 1).toNat % 4096 = address.toNat % 4096 + 1 := by
  have bound := address.isLt
  have next : (address + 1).toNat = address.toNat + 1 := by
    have one : (1 : Word).toNat = 1 := rfl
    rw [BitVec.toNat_add, one]
    omega
  constructor
  · apply BitVec.eq_of_toNat_eq
    rw [toNat_pageOf, toNat_pageOf, next]
    omega
  · rw [next]
    omega

theorem entries_putBytes_of_ne
    (inside : address.toNat % 4096 + bytes.length ≤ 4096)
    (different : frame ≠ pageOf address) :
    (store.putBytes address bytes).entries frame = store.entries frame := by
  induction bytes generalizing store address with
  | nil => rfl
  | cons byte rest inductionHypothesis =>
      unfold putBytes
      cases rest with
      | nil => exact entries_putByte_of_ne different
      | cons next others =>
          rw [List.length_cons, List.length_cons] at inside
          obtain ⟨samePage, isNext⟩ :=
            next_in_page (by omega : address.toNat % 4096 + 1 < 4096)
          rw [inductionHypothesis (by rw [isNext, List.length_cons]; omega)
            (by rw [samePage]; exact different)]
          exact entries_putByte_of_ne different

theorem free_putBytes :
    (store.putBytes address bytes).free = store.free := by
  induction bytes generalizing store address with
  | nil => rfl
  | cons byte rest inductionHypothesis =>
      unfold putBytes
      rw [inductionHypothesis]
      rfl

end PageStore

end MyOS
