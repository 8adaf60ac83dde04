import MyOS.Lib.RadixTree
import MyOS.UserCopy

namespace MyOS

open Lib

/-!
# Page tables as trees

A page table is a radix tree of three levels whose pages are kept in the page
store.  `walk` finds the entry of an address in it and adds the pages on the
way to it that are missing.
-/

/-! ## Pages and entries -/

/-- The number of a page of physical memory. -/
abbrev Frame := BitVec 52

/-- The place of an entry in a page. -/
abbrev PageIndex := BitVec 9

/-- Where a page begins. -/
def frameAddress (frame : Frame) : Word :=
  frame ++ 0#12

/-- Where an entry of a page is. -/
def entryAddress (frame : Frame) (index : PageIndex) : Word :=
  frame ++ (index ++ 0#3)

/-- The page of an address. -/
def pageOf (address : Word) : Frame :=
  (address >>> 12).setWidth 52

/-- The page that an entry names. -/
def frameOf (pte : Word) : Frame :=
  (pte >>> 10).setWidth 52

/-- `PX(level, va)` -/
def indexAt (level : Nat) (va : Word) : PageIndex :=
  (va >>> (12 + 9 * level)).setWidth 9

theorem toNat_frameAddress (frame : Frame) :
    (frameAddress frame).toNat = frame.toNat * 4096 := by
  unfold frameAddress
  rw [BitVec.toNat_append, Nat.shiftLeft_eq]
  exact Nat.or_zero _

theorem toNat_entryAddress (frame : Frame) (index : PageIndex) :
    (entryAddress frame index).toNat =
      frame.toNat * 4096 + index.toNat * 8 := by
  have bound := index.isLt
  have low : (index ++ 0#3).toNat = index.toNat * 8 := by
    rw [BitVec.toNat_append, Nat.shiftLeft_eq]
    exact Nat.or_zero _
  unfold entryAddress
  rw [BitVec.toNat_append, low, ← Nat.shiftLeft_add_eq_or_of_lt (by omega),
    Nat.shiftLeft_eq]

theorem entryAddress_eq
    {frame : Frame}
    {level : Nat}
    {va : Word} :
    frameAddress frame + 8 * PX level va =
      entryAddress frame (indexAt level va) := by
  have isIndex : (PX level va).toNat = (indexAt level va).toNat := by
    unfold PX indexAt
    rw [BitVec.toNat_and, BitVec.toNat_setWidth]
    exact Nat.and_two_pow_sub_one_eq_mod _ 9
  have eight : (8 : Word).toNat = 8 := rfl
  have indexBound := (indexAt level va).isLt
  have frameBound := frame.isLt
  apply BitVec.eq_of_toNat_eq
  rw [BitVec.toNat_add, BitVec.toNat_mul, toNat_frameAddress, isIndex,
    toNat_entryAddress, eight]
  omega

theorem entryAddress_inj
    {frame other : Frame}
    {index next : PageIndex} :
    entryAddress frame index = entryAddress other next ↔
      frame = other ∧ index = next := by
  constructor
  · intro same
    have numbers := congrArg BitVec.toNat same
    rw [toNat_entryAddress, toNat_entryAddress] at numbers
    have bound := index.isLt
    have nextBound := next.isLt
    constructor
    · apply BitVec.eq_of_toNat_eq
      omega
    · apply BitVec.eq_of_toNat_eq
      omega
  · rintro ⟨rfl, rfl⟩
    rfl

theorem frameAddress_inj
    {frame other : Frame} :
    frameAddress frame = frameAddress other ↔ frame = other := by
  constructor
  · intro same
    have numbers := congrArg BitVec.toNat same
    rw [toNat_frameAddress, toNat_frameAddress] at numbers
    apply BitVec.eq_of_toNat_eq
    omega
  · rintro rfl
    rfl

theorem pgrounddown_entryAddress
    {frame : Frame}
    {index : PageIndex} :
    PGROUNDDOWN (entryAddress frame index) = frameAddress frame := by
  have bound := index.isLt
  apply BitVec.eq_of_toNat_eq
  rw [toNat_pgrounddown, toNat_entryAddress, toNat_frameAddress]
  omega

theorem pgrounddown_frameAddress (frame : Frame) :
    PGROUNDDOWN (frameAddress frame) = frameAddress frame := by
  apply BitVec.eq_of_toNat_eq
  rw [toNat_pgrounddown, toNat_frameAddress]
  omega

theorem frameAddress_pageOf (address : Word) :
    frameAddress (pageOf address) = PGROUNDDOWN address := by
  have bound := address.isLt
  apply BitVec.eq_of_toNat_eq
  rw [toNat_frameAddress, toNat_pgrounddown]
  unfold pageOf
  rw [BitVec.toNat_setWidth, BitVec.toNat_ushiftRight,
    Nat.shiftRight_eq_div_pow]
  omega

theorem pageOf_frameAddress (frame : Frame) :
    pageOf (frameAddress frame) = frame := by
  have same := frameAddress_pageOf (frameAddress frame)
  rw [pgrounddown_frameAddress] at same
  exact frameAddress_inj.mp same

theorem toNat_pageOf (address : Word) :
    (pageOf address).toNat = address.toNat / 4096 := by
  have bound := address.isLt
  unfold pageOf
  rw [BitVec.toNat_setWidth, BitVec.toNat_ushiftRight,
    Nat.shiftRight_eq_div_pow]
  omega

theorem PTE2PA_eq (pte : Word) :
    PTE2PA pte = frameAddress (frameOf pte) := by
  have bound := pte.isLt
  apply BitVec.eq_of_toNat_eq
  rw [toNat_frameAddress]
  unfold PTE2PA frameOf
  rw [BitVec.toNat_shiftLeft, BitVec.toNat_setWidth,
    BitVec.toNat_ushiftRight, Nat.shiftRight_eq_div_pow, Nat.shiftLeft_eq]
  omega

theorem toNat_PA2PTE_or
    {pa flags : Word}
    (low : flags.toNat < 1024) :
    (PA2PTE pa ||| flags).toNat = pa.toNat / 4096 * 1024 + flags.toNat := by
  have bound := pa.isLt
  have high : (PA2PTE pa).toNat = (pa.toNat / 4096) <<< 10 := by
    unfold PA2PTE
    rw [BitVec.toNat_shiftLeft, BitVec.toNat_ushiftRight,
      Nat.shiftRight_eq_div_pow, Nat.shiftLeft_eq]
    omega
  rw [BitVec.toNat_or, high, ← Nat.shiftLeft_add_eq_or_of_lt low,
    Nat.shiftLeft_eq]

theorem frameOf_PA2PTE
    {pa flags : Word}
    (low : flags.toNat < 1024) :
    frameOf (PA2PTE pa ||| flags) = pageOf pa := by
  have bound := pa.isLt
  apply BitVec.eq_of_toNat_eq
  unfold frameOf pageOf
  rw [BitVec.toNat_setWidth, BitVec.toNat_setWidth, BitVec.toNat_ushiftRight,
    BitVec.toNat_ushiftRight, toNat_PA2PTE_or low, Nat.shiftRight_eq_div_pow,
    Nat.shiftRight_eq_div_pow]
  omega

theorem carries_or
    {pte other bit : Word} :
    carries (pte ||| other) bit = (carries pte bit || carries other bit) := by
  unfold carries
  have split : (pte ||| other) &&& bit = pte &&& bit ||| other &&& bit := by
    apply BitVec.eq_of_getLsbD_eq
    intro i _
    simp only [BitVec.getLsbD_and, BitVec.getLsbD_or, Bool.and_or_distrib_right]
  rw [split]
  by_cases first : pte &&& bit = 0
  · rw [first]
    simp
  · by_cases second : other &&& bit = 0
    · rw [second]
      simp
    · have isSome : pte &&& bit ||| other &&& bit ≠ 0 := by
        intro isZero
        exact first (BitVec.or_eq_zero_iff.mp isZero).1
      simp only [bne, beq_eq_false_iff_ne.mpr first,
        beq_eq_false_iff_ne.mpr isSome, Bool.not_false, Bool.true_or]

theorem not_carries_PA2PTE
    {pa bit : Word}
    (low : bit.toNat < 1024) :
    carries (PA2PTE pa) bit = false := by
  have isZero : PA2PTE pa &&& bit = 0 := by
    apply BitVec.eq_of_getLsbD_eq
    intro i bound
    unfold PA2PTE
    rw [BitVec.getLsbD_and, BitVec.getLsbD_shiftLeft]
    by_cases isLow : i < 10
    · simp [isLow]
    · have clear : bit.getLsbD i = false := by
        apply Nat.testBit_lt_two_pow
        exact Nat.lt_of_lt_of_le low
          (Nat.pow_le_pow_right Nat.two_pos (Nat.le_of_not_lt isLow))
      simp [clear]
  unfold carries
  rw [isZero]
  rfl

theorem carries_PA2PTE
    {pa perm bit : Word}
    (low : bit.toNat < 1024) :
    carries (PA2PTE pa ||| (perm ||| PTE_V)) bit =
      (carries perm bit || carries PTE_V bit) := by
  rw [carries_or, carries_or, not_carries_PA2PTE low, Bool.false_or]

theorem flags_lt
    {perm : Word}
    (flags : perm.toNat < 1024) :
    (perm ||| PTE_V).toNat < 1024 := by
  rw [BitVec.toNat_or]
  exact Nat.or_lt_two_pow (n := 10) flags (by decide)

/-! ## The tree of a page table -/

/-- The page that a valid entry leads `walk` to. -/
def childFrame (pte : Word) : Option Frame :=
  if carries pte PTE_V then some (frameOf pte) else none

theorem childFrame_zero : childFrame 0 = none := rfl

/-- The way to the last page on the path of an address. -/
def tablePath (va : Word) : List PageIndex :=
  [indexAt 1 va, indexAt 2 va]

theorem sameEntry_iff
    {va other : Word}
    (below : va.toNat < MAXVA)
    (otherBelow : other.toNat < MAXVA) :
    tablePath other = tablePath va ∧ indexAt 0 other = indexAt 0 va ↔
      pageOf other = pageOf va := by
  have isMax : MAXVA = 274877906944 := rfl
  have index :
      ∀ (level : Nat) (address : Word),
        (indexAt level address).toNat =
          address.toNat / 2 ^ (12 + 9 * level) % 512 := by
    intro level address
    unfold indexAt
    rw [BitVec.toNat_setWidth, BitVec.toNat_ushiftRight,
      Nat.shiftRight_eq_div_pow]
  constructor
  · rintro ⟨samePath, sameIndex⟩
    unfold tablePath at samePath
    have sameOne := congrArg BitVec.toNat (List.head_eq_of_cons_eq samePath)
    have sameTwo :=
      congrArg BitVec.toNat
        (List.head_eq_of_cons_eq (List.tail_eq_of_cons_eq samePath))
    have sameZero := congrArg BitVec.toNat sameIndex
    rw [index, index] at sameOne sameTwo sameZero
    apply BitVec.eq_of_toNat_eq
    rw [toNat_pageOf, toNat_pageOf]
    simp only [Nat.reduceMul, Nat.reduceAdd, Nat.reducePow] at *
    omega
  · intro same
    have sameNumber := congrArg BitVec.toNat same
    rw [toNat_pageOf, toNat_pageOf] at sameNumber
    have sameLevel : ∀ level, indexAt level other = indexAt level va := by
      intro level
      have shift :
          ∀ address : Word,
            address.toNat / 2 ^ (12 + 9 * level) =
              address.toNat / 4096 / 2 ^ (9 * level) := by
        intro address
        rw [Nat.pow_add, Nat.div_div_eq_div_mul]
      apply BitVec.eq_of_toNat_eq
      rw [index, index, shift, shift, sameNumber]
    unfold tablePath
    rw [sameLevel 0, sameLevel 1, sameLevel 2]
    exact ⟨rfl, rfl⟩

namespace PageStore

variable {store later inner : PageStore} {root frame fresh : Frame}
variable {path : List PageIndex} {index : PageIndex} {va : Word}
variable {level : Nat}

/-- The entries of the pages. -/
def entries (store : PageStore) (frame : Frame) (index : PageIndex) : Word :=
  store.load (entryAddress frame index)

/-- The page that a path of a page table leads to. -/
def node
    (store : PageStore)
    (root : Frame)
    (path : List PageIndex) : Option Frame :=
  RadixTree.node childFrame store.entries root path

/-- A page belongs to a page table. -/
def Owns (store : PageStore) (root frame : Frame) : Prop :=
  RadixTree.Owns childFrame 2 store.entries root frame

/-- The entry that a page table holds for an address. -/
def pteAt (store : PageStore) (root : Frame) (va : Word) : Word :=
  RadixTree.entryAt childFrame 0 store.entries root (tablePath va)
    (indexAt 0 va)

/--
The pages of a page table are different from each other and from the free
pages, which are different from each other too.
-/
structure HoldsTable (store : PageStore) (root : Frame) : Prop where
  separate : RadixTree.Separate childFrame 2 store.entries root
  distinct : store.free.Nodup
  aligned : ∀ page ∈ store.free, PGROUNDDOWN page = page
  outside :
    ∀ frame, store.Owns root frame → frameAddress frame ∉ store.free

theorem entries_set
    {value : Word} :
    (store.set (entryAddress frame index) value).entries =
      RadixTree.write store.entries frame index value := by
  funext other next
  unfold entries set
  dsimp only
  by_cases samePage : other = frame
  · rw [samePage]
    by_cases sameIndex : next = index
    · rw [sameIndex, Function.update_self, RadixTree.write_self]
    · have ne : entryAddress frame next ≠ entryAddress frame index := by
        intro same
        exact sameIndex (entryAddress_inj.mp same).2
      rw [Function.update_of_ne ne, RadixTree.write_of_index_ne sameIndex]
  · have ne : entryAddress other next ≠ entryAddress frame index := by
      intro same
      exact samePage (entryAddress_inj.mp same).1
    rw [Function.update_of_ne ne, RadixTree.write_of_page_ne samePage]

theorem entries_zero :
    (store.zero (frameAddress frame)).entries =
      Function.update store.entries frame fun _ => 0 := by
  funext other next
  unfold entries zero
  dsimp only
  rw [pgrounddown_entryAddress]
  by_cases same : other = frame
  · rw [same, if_pos rfl, Function.update_self]
  · have ne : frameAddress other ≠ frameAddress frame := by
      intro sameAddress
      exact same (frameAddress_inj.mp sameAddress)
    rw [if_neg ne, Function.update_of_ne same]

/-- The path below a page that `walk` follows from a level. -/
def pathBelow (va : Word) : Nat → List PageIndex → List PageIndex
  | 0, path => path
  | level + 1, path => pathBelow va level (indexAt (level + 1) va :: path)

/-- A path leads to a page. -/
def has (store : PageStore) (root : Frame) (path : List PageIndex) : Bool :=
  (store.node root path).isSome

/-- How many pages are missing from a level down on the path of an address. -/
def lacking
    (present : List PageIndex → Bool)
    (va : Word) :
    Nat → List PageIndex → Nat
  | 0, _ => 0
  | level + 1, path =>
      if present (indexAt (level + 1) va :: path) then
        lacking present va level (indexAt (level + 1) va :: path)
      else
        level + 1

theorem node_pathBelow
    (isNone : store.node root path = none) :
    store.node root (pathBelow va level path) = none := by
  induction level generalizing path with
  | zero => exact isNone
  | succ level inductionHypothesis =>
      exact inductionHypothesis (RadixTree.node_cons_none isNone)

theorem suffix_pathBelow :
    path <:+ pathBelow va level path := by
  induction level generalizing path with
  | zero => exact List.suffix_refl path
  | succ level inductionHypothesis =>
      exact (List.suffix_cons _ path).trans inductionHypothesis

theorem node_cons
    (isNode : store.node root path = some frame) :
    store.node root (index :: path) =
      childFrame (store.load (entryAddress frame index)) :=
  RadixTree.node_cons isNode

theorem walkFrom_false
    (isNode : store.node root path = some frame) :
    store.walkFrom false va level (frameAddress frame) =
      ((store.node root (pathBelow va level path)).map fun page =>
        entryAddress page (indexAt 0 va), store) := by
  induction level generalizing path frame with
  | zero =>
      unfold walkFrom pathBelow
      rw [isNode, entryAddress_eq]
      rfl
  | succ level inductionHypothesis =>
      have next :
          store.node root (indexAt (level + 1) va :: path) = _ :=
        node_cons isNode
      unfold walkFrom pathBelow
      dsimp only
      rw [entryAddress_eq]
      unfold childFrame at next
      by_cases isValid :
          carries (store.load (entryAddress frame (indexAt (level + 1) va)))
            PTE_V = true
      · rw [if_pos isValid] at next ⊢
        rw [PTE2PA_eq]
        exact inductionHypothesis next
      · rw [if_neg isValid] at next ⊢
        rw [node_pathBelow next, if_neg Bool.false_ne_true]
        rfl

theorem walk_false :
    store.walk false (frameAddress root) va =
      (if MAXVA ≤ va.toNat then .outOfRange
        else
          (store.node root (tablePath va)).elim .null fun page =>
            .entry (entryAddress page (indexAt 0 va)), store) := by
  have isRoot : store.node root [] = some root := rfl
  have found : store.walkFrom false va 2 (frameAddress root) = _ :=
    walkFrom_false isRoot
  unfold walk
  by_cases high : MAXVA ≤ va.toNat
  · rw [if_pos high, if_pos high]
  · rw [if_neg high, if_neg high, found]
    unfold pathBelow pathBelow pathBelow
    cases isNode : store.node root [indexAt 1 va, indexAt 2 va] with
    | none =>
        unfold tablePath
        rw [isNode]
        rfl
    | some page =>
        unfold tablePath
        rw [isNode]
        rfl

end PageStore

end MyOS
