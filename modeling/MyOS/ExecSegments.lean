import MyOS.ExecImage
import MyOS.KernelMappings
import MyOS.PageLayout
import Mathlib.Logic.Relation

namespace MyOS

open Lib
open PageStore

/-!
# Segments

A segment is mapped page by page, and each turn of the loop that reads it
stores bytes of the file within a page that is mapped.
-/

namespace PageStore

variable {store later inner : PageStore} {root frame : Frame}
variable {va a perm pte end_address address : Word} {turns : Nat}
variable {file bytes : List UInt8}

/-! ## Cleared pages -/

/-- Cleared pages that follow one another. -/
def zeroPages (perm : Word) : Nat → Word → List PageItem
  | 0, _ => []
  | turns + 1, a =>
      ⟨a, perm, fun mem store => store.zero mem⟩ ::
        zeroPages perm turns (a + 4096)

theorem mapPagesFrom_eq
    {pagetable : Word} :
    store.mapPagesFrom end_address pagetable perm turns a =
      store.mapAll end_address pagetable (zeroPages perm turns a) := by
  induction turns generalizing store a with
  | zero => rfl
  | succ turns inductionHypothesis =>
      unfold mapPagesFrom zeroPages mapAll
      cases store.mapFresh end_address pagetable a perm
          (fun mem store => store.zero mem) with
      | panic => rfl
      | failed inner => rfl
      | mapped inner => exact inductionHypothesis

theorem zeroPages_fits
    (turns : Nat)
    (flags : perm.toNat < 1024)
    (aligned : a.toNat % 4096 = 0) :
    ∀ item ∈ zeroPages perm turns a, item.Fits := by
  induction turns generalizing a with
  | zero => exact fun _ isIn => absurd isIn List.not_mem_nil
  | succ turns inductionHypothesis =>
      intro item isIn
      rcases List.mem_cons.mp isIn with isFirst | isLater
      · rw [isFirst]
        exact ⟨aligned, flags, fills_zero⟩
      · apply inductionHypothesis _ item isLater
        have size : (4096 : Word).toNat = 4096 := rfl
        rw [BitVec.toNat_add, size]
        omega

/-! ## Bytes of a mapped page -/

/-- Bytes that are stored in a mapped page. -/
structure Stores
    (root : Frame)
    (store : PageStore)
    (va : Word)
    (bytes : List UInt8)
    (later : PageStore) : Prop where
  below : va.toNat < MAXVA
  valid : carries (store.pteAt root va) PTE_V = true
  inside : va.toNat % 4096 + bytes.length ≤ 4096
  isLater :
    later =
      store.putBytes
        (PTE2PA (store.pteAt root va) + (va - PGROUNDDOWN va)) bytes

theorem translate_address
    (pte va : Word) :
    pageOf (PTE2PA pte + (va - PGROUNDDOWN va)) = frameOf pte ∧
      (PTE2PA pte + (va - PGROUNDDOWN va)).toNat % 4096 =
        va.toNat % 4096 := by
  have bound := (frameOf pte).isLt
  have vaBound := va.isLt
  have offset : (va - PGROUNDDOWN va).toNat = va.toNat % 4096 := by
    rw [BitVec.toNat_sub, toNat_pgrounddown]
    omega
  have number :
      (PTE2PA pte + (va - PGROUNDDOWN va)).toNat =
        (frameOf pte).toNat * 4096 + va.toNat % 4096 := by
    rw [PTE2PA_eq, BitVec.toNat_add, toNat_frameAddress, offset]
    omega
  constructor
  · apply BitVec.eq_of_toNat_eq
    rw [toNat_pageOf, number]
    omega
  · rw [number]
    omega

namespace Stores

variable (stores : Stores root store va bytes later)
include stores

theorem entries
    (different : frame ≠ frameOf (store.pteAt root va)) :
    later.entries frame = store.entries frame := by
  obtain ⟨samePage, sameOffset⟩ :=
    translate_address (store.pteAt root va) va
  rw [stores.isLater]
  apply entries_putBytes_of_ne
  · rw [sameOffset]
    exact stores.inside
  · rw [samePage]
    exact different

theorem free : later.free = store.free := by
  rw [stores.isLater]
  exact free_putBytes

theorem same
    (apart : store.MapsApart root) :
    SameTable root store later := by
  intro frame owns
  apply stores.entries
  intro isFrame
  apply (apart.apart stores.below
    (mappingAt_eq_some.mpr ⟨rfl, stores.valid⟩)).1
  rw [← isFrame]
  exact owns

end Stores

/-! ## Segments -/

/-- What `walk` without `alloc` comes to. -/
inductive Walks (store : PageStore) (root : Frame) (va : Word) : Walk → Prop
  | outOfRange
      (high : MAXVA ≤ va.toNat) :
      Walks store root va .outOfRange
  | null
      (below : va.toNat < MAXVA)
      (invalid : ¬ carries (store.pteAt root va) PTE_V = true) :
      Walks store root va .null
  | entry
      {pte : Word}
      (below : va.toNat < MAXVA)
      (isEntry : store.load pte = store.pteAt root va) :
      Walks store root va (.entry pte)

theorem walks
    (store : PageStore)
    (root : Frame)
    (va : Word) :
    Walks store root va (store.walk false (frameAddress root) va).1 := by
  rw [walk_false]
  dsimp only
  by_cases high : MAXVA ≤ va.toNat
  · rw [if_pos high]
    exact .outOfRange high
  · rw [if_neg high]
    cases isNode : store.node root (tablePath va) with
    | none =>
        apply Walks.null (Nat.lt_of_not_le high)
        rw [pteAt_of_none isNode]
        exact Bool.false_ne_true
    | some page =>
        exact .entry (Nat.lt_of_not_le high) (load_entry isNode)

/-- Where the reading of a segment stands. -/
structure Reading where
  seg_va : Word
  file_off : Word
  file_sz : Word
  store : PageStore

/-- How many bytes of a segment a turn reads. -/
def chunkAt (seg_va file_sz : Word) : Word :=
  if file_sz < 4096 - (seg_va - PGROUNDDOWN seg_va) then file_sz
  else 4096 - (seg_va - PGROUNDDOWN seg_va)

/-- How many bytes the next turn reads. -/
def Reading.chunk (reading : Reading) : Word :=
  chunkAt reading.seg_va reading.file_sz

/-- The bytes that the next turn reads. -/
def Reading.readBytes (file : List UInt8) (reading : Reading) : List UInt8 :=
  fileRead file (reading.file_off.setWidth 32) (reading.chunk.setWidth 32)

/-- Where the reading stands after a turn. -/
def Reading.turn
    (root : Frame)
    (file : List UInt8)
    (reading : Reading) : Reading where
  seg_va := reading.seg_va + reading.chunk
  file_off := reading.file_off + reading.chunk
  file_sz := reading.file_sz - reading.chunk
  store :=
    reading.store.putBytes
      (PTE2PA (reading.store.pteAt root reading.seg_va) +
        (reading.seg_va - PGROUNDDOWN reading.seg_va))
      (reading.readBytes file)

theorem Reading.chunk_bounds
    {reading : Reading}
    (more : reading.file_sz ≠ 0) :
    0 < reading.chunk.toNat ∧
      reading.chunk.toNat ≤ reading.file_sz.toNat ∧
        reading.seg_va.toNat % 4096 + reading.chunk.toNat ≤ 4096 := by
  have offset :
      (reading.seg_va - PGROUNDDOWN reading.seg_va).toNat =
        reading.seg_va.toNat % 4096 := by
    have bound := reading.seg_va.isLt
    rw [BitVec.toNat_sub, toNat_pgrounddown]
    omega
  have space :
      (4096 - (reading.seg_va - PGROUNDDOWN reading.seg_va) : Word).toNat =
        4096 - reading.seg_va.toNat % 4096 := by
    have size : (4096 : Word).toNat = 4096 := rfl
    rw [BitVec.toNat_sub, offset, size]
    omega
  have some : 0 < reading.file_sz.toNat := by
    apply Nat.pos_of_ne_zero
    intro isZero
    exact more (BitVec.eq_of_toNat_eq isZero)
  unfold chunk chunkAt
  split
  next less =>
    have small := BitVec.lt_def.mp less
    omega
  next large =>
    have notSmall := mt BitVec.lt_def.mpr large
    omega

theorem pteAt_pgrounddown
    (below : va.toNat < MAXVA) :
    store.pteAt root (PGROUNDDOWN va) = store.pteAt root va := by
  have lower : (PGROUNDDOWN va).toNat < MAXVA := by
    rw [toNat_pgrounddown]
    exact Nat.lt_of_le_of_lt (Nat.div_mul_le_self _ _) below
  apply pteAt_congr below lower
  apply BitVec.eq_of_toNat_eq
  rw [toNat_pageOf, toNat_pageOf, toNat_pgrounddown]
  omega

theorem maxva_le_pgrounddown :
    MAXVA ≤ (PGROUNDDOWN va).toNat ↔ MAXVA ≤ va.toNat := by
  have isMax : MAXVA = 274877906944 := rfl
  rw [toNat_pgrounddown, isMax]
  omega

theorem length_readBytes
    (reading : Reading) :
    (reading.readBytes file).length ≤ reading.chunk.toNat := by
  unfold Reading.readBytes fileRead
  split
  next => exact Nat.zero_le _
  next =>
    apply Nat.le_trans (List.length_take_le _ _)
    rw [BitVec.toNat_setWidth]
    exact Nat.mod_le _ _

theorem Reading.stores
    {reading : Reading}
    (file : List UInt8)
    (more : reading.file_sz ≠ 0)
    (below : reading.seg_va.toNat < MAXVA)
    (valid : carries (reading.store.pteAt root reading.seg_va) PTE_V = true) :
    Stores root reading.store reading.seg_va (reading.readBytes file)
      (reading.turn root file).store := by
  obtain ⟨_, _, inPage⟩ := Reading.chunk_bounds more
  refine ⟨below, valid, ?_, rfl⟩
  exact Nat.le_trans (Nat.add_le_add_left (length_readBytes reading) _) inPage

theorem readSegmentFrom_succ
    (reading : Reading) :
    reading.store.readSegmentFrom (frameAddress root) file (turns + 1)
        reading.seg_va reading.file_off reading.file_sz =
      if reading.file_sz = 0 then .mapped reading.store
      else if MAXVA ≤ reading.seg_va.toNat then .panic
      else if
          ¬ carries (reading.store.pteAt root reading.seg_va) PTE_V = true then
        .failed reading.store
      else if (reading.readBytes file).length ≠ reading.chunk.toNat then
        .failed (reading.turn root file).store
      else
        (reading.turn root file).store.readSegmentFrom (frameAddress root)
          file turns (reading.turn root file).seg_va
            (reading.turn root file).file_off
              (reading.turn root file).file_sz := by
  have seg_below :
      (PGROUNDDOWN reading.seg_va).toNat < MAXVA →
        ¬ MAXVA ≤ reading.seg_va.toNat := by
    intro below high
    exact Nat.not_lt_of_le (maxva_le_pgrounddown.mpr high) below
  conv_lhs => unfold readSegmentFrom
  split
  next => rfl
  next =>
    have found :=
      reading.store.walks root (PGROUNDDOWN reading.seg_va)
    dsimp only
    generalize
      (reading.store.walk false (frameAddress root)
        (PGROUNDDOWN reading.seg_va)).1 = walk at found ⊢
    cases found with
    | outOfRange high => rw [if_pos (maxva_le_pgrounddown.mp high)]
    | null below invalid =>
        have notHigh := seg_below below
        rw [pteAt_pgrounddown (Nat.lt_of_not_le notHigh)] at invalid
        rw [if_neg notHigh, if_pos invalid]
    | entry below isEntry =>
        have notHigh := seg_below below
        rw [pteAt_pgrounddown (Nat.lt_of_not_le notHigh)] at isEntry
        rw [if_neg notHigh]
        dsimp only
        rw [isEntry]
        rfl

end PageStore

end MyOS
