import MyOS.Lib.Run
import MyOS.ExecRefinement

namespace MyOS

open Lib
open PageStore

/-!
# `sbrk` moves the break

What `sys_sbrk` owes its caller, and the calls of which it is true: the break
goes out through an `int`, a shrinking call must find every page that it gives
back, and a failing call must not have taken pages for the table.
-/

namespace ProcMemory

variable {end_address : Word} {memory later : ProcMemory} {root : Frame}
variable {n : BitVec 32} {result : Word}

/-- The break has moved, and the pages that it covers with it. -/
structure Moved
    (root : Frame)
    (memory later : ProcMemory)
    (n : BitVec 32)
    (result : Word) : Prop where
  result : result = memory.sz
  sz : (later.sz.toNat : Int) = memory.sz.toNat + n.toInt
  pagetable : later.pagetable = memory.pagetable
  fresh :
    ∀ address : Word, address.toNat < MAXVA →
      ¬ InImage memory.sz address → InImage later.sz address →
        ∃ frame, frameAddress frame ∈ memory.store.free ∧
          later.store.mappingAt root address =
            some (pteFor (frameAddress frame) heapPerm) ∧
          later.store.entries frame = fun _ => 0
  gone :
    ∀ address : Word, address.toNat < MAXVA →
      InImage memory.sz address → ¬ InImage later.sz address →
        later.store.mappingAt root address = none ∧
          PTE2PA (memory.store.pteAt root address) ∈ later.store.free
  kept :
    ∀ address : Word, address.toNat < MAXVA →
      (InImage memory.sz address ↔ InImage later.sz address) →
        later.store.mappingAt root address =
          memory.store.mappingAt root address
  taken :
    ∀ page ∈ memory.store.free, page ∈ later.store.free ∨
      (∃ frame, page = frameAddress frame ∧ later.store.Owns root frame) ∨
        ∃ address : Word, ¬ InImage memory.sz address ∧
          InImage later.sz address ∧
            page = PTE2PA (later.store.pteAt root address)
  freed :
    ∀ page ∈ later.store.free, page ∈ memory.store.free ∨
      ∃ address : Word, InImage memory.sz address ∧
        ¬ InImage later.sz address ∧
          page = PTE2PA (memory.store.pteAt root address)

/-- The call has been refused and has changed nothing. -/
structure Unmoved
    (root : Frame)
    (memory later : ProcMemory)
    (result : Word) : Prop where
  result : result = -1
  sz : later.sz = memory.sz
  pagetable : later.pagetable = memory.pagetable
  kept :
    ∀ address : Word, address.toNat < MAXVA →
      later.store.mappingAt root address =
        memory.store.mappingAt root address
  free : ∀ page, page ∈ later.store.free ↔ page ∈ memory.store.free

/-- The break that a call asks for. -/
def breakAfter (memory : ProcMemory) (n : BitVec 32) : Word :=
  memory.sz + ofInt32 n

/-- The calls that `sys_sbrk` answers as it should. -/
inductive SbrkFits
    (end_address : Word)
    (root : Frame)
    (memory : ProcMemory)
    (n : BitVec 32) : Prop
  | stays
      (zero : n.toInt = 0)
      (small : memory.sz.toNat < 2147483648) :
      SbrkFits end_address root memory n
  | shrinks
      (negative : n.toInt < 0)
      (inside : 0 ≤ (memory.sz.toNat : Int) + n.toInt)
      (small : memory.sz.toNat < 2147483648)
      (removable :
        ∀ address : Word, InImage memory.sz address →
          ¬ InImage (memory.breakAfter n) address →
            Removable end_address true memory.store root address) :
      SbrkFits end_address root memory n
  | grows
      (positive : 0 < n.toInt)
      (small : memory.sz.toNat < 2147483648)
      (fine :
        ∀ address : Word, ¬ InImage memory.sz address →
          InImage (memory.breakAfter n) address →
            memory.store.Fine root address)
      (enough :
        demand (memory.store.has root)
            (pagesBetween memory.sz.toNat (memory.breakAfter n).toNat)
            (PGROUNDUP memory.sz) ≤
          memory.store.free.length) :
      SbrkFits end_address root memory n
  | runsOut
      (positive : 0 < n.toInt)
      {count : Nat}
      (before :
        count < pagesBetween memory.sz.toNat (memory.breakAfter n).toNat)
      (runsOut :
        memory.store.RunsOut root (PGROUNDUP memory.sz) count) :
      SbrkFits end_address root memory n

theorem toInt_ofInt32 : (ofInt32 n).toInt = n.toInt := by
  unfold ofInt32
  exact BitVec.toInt_signExtend_of_le (by decide)

theorem toNat_breakAfter
    (high : memory.sz.toNat ≤ MAXVA)
    (inside : 0 ≤ (memory.sz.toNat : Int) + n.toInt) :
    ((memory.breakAfter n).toNat : Int) = memory.sz.toNat + n.toInt := by
  have isMax : MAXVA = 274877906944 := rfl
  have same : (ofInt32 n).toInt = n.toInt := toInt_ofInt32
  have least := BitVec.le_toInt n
  have most := BitVec.toInt_lt (x := n)
  have bound := (ofInt32 n).isLt
  rw [BitVec.toInt_eq_toNat_cond] at same
  unfold breakAfter
  rw [BitVec.toNat_add]
  split at same
  · omega
  · omega

theorem inPages_between
    {low high address : Word}
    (less : low.toNat ≤ high.toNat)
    (lowest : low.toNat ≤ MAXVA) :
    InPages (PGROUNDUP low) (pagesBetween low.toNat high.toNat) address ↔
      ¬ InImage low address ∧ InImage high address := by
  have isPage : PGSIZE = 4096 := rfl
  unfold InPages InImage pagesBetween
  rw [toNat_pgroundup lowest]
  unfold pgRoundUp
  rw [isPage]
  omega

theorem between_ends
    {low high : Word}
    (less : low.toNat ≤ high.toNat)
    (highest : high.toNat ≤ MAXVA) :
    (PGROUNDUP low).toNat + 4096 * pagesBetween low.toNat high.toNat ≤
      MAXVA := by
  have isMax : MAXVA = 67108864 * 4096 := rfl
  have isPage : PGSIZE = 4096 := rfl
  rw [toNat_pgroundup (Nat.le_trans less highest)]
  unfold pagesBetween pgRoundUp
  rw [isPage]
  rw [isMax] at highest ⊢
  omega

theorem ofInt32_setWidth
    (small : memory.sz.toNat < 2147483648) :
    ofInt32 (memory.sz.setWidth 32) = memory.sz :=
  signExtend_setWidth small

theorem pgroundup_aligned
    {size : Word}
    (high : size.toNat ≤ MAXVA) :
    (PGROUNDUP size).toNat % 4096 = 0 := by
  rw [toNat_pgroundup high]
  exact Nat.mul_mod_left _ _

theorem sysSbrk_zero
    (zero : n.toInt = 0)
    (small : memory.sz.toNat < 2147483648) :
    memory.sysSbrk end_address n = some (memory.sz, memory) := by
  unfold sysSbrk growproc
  rw [zero, if_neg (Int.lt_irrefl 0), if_neg (Int.lt_irrefl 0)]
  dsimp only
  rw [if_neg (Int.lt_irrefl 0), ofInt32_setWidth small]

theorem moved_refl
    (zero : n.toInt = 0) :
    Moved root memory memory n memory.sz where
  result := rfl
  sz := by
    rw [zero, Int.add_zero]
  pagetable := rfl
  fresh := fun _ _ notIn isIn => absurd isIn notIn
  gone := fun _ _ isIn notIn => absurd isIn notIn
  kept := fun _ _ _ => rfl
  taken := fun _ isFree => Or.inl isFree
  freed := fun _ isFree => Or.inl isFree

theorem sysSbrk_shrinks
    (space : memory.Space end_address root)
    (negative : n.toInt < 0)
    (inside : 0 ≤ (memory.sz.toNat : Int) + n.toInt)
    (small : memory.sz.toNat < 2147483648)
    (removable :
      ∀ address : Word, InImage memory.sz address →
        ¬ InImage (memory.breakAfter n) address →
          Removable end_address true memory.store root address) :
    ∃ later, memory.sysSbrk end_address n = some (memory.sz, later) ∧
      Moved root memory later n memory.sz ∧
        later.Space end_address root := by
  have high := space.inRange
  have sum := toNat_breakAfter high inside
  have less : (memory.breakAfter n).toNat < memory.sz.toNat := by
    omega
  have lowest : (memory.breakAfter n).toNat ≤ MAXVA := by
    omega
  have between {address : Word} :
      InPages _ _ address ↔ _ :=
    inPages_between (Nat.le_of_lt less) lowest
  have canRemove {address : Word}
      (inPages :
        InPages (PGROUNDUP (memory.breakAfter n))
          (pagesBetween (memory.breakAfter n).toNat memory.sz.toNat)
          address) :
      Removable end_address true memory.store root address :=
    removable address (between.mp inPages).2 (between.mp inPages).1
  have outside :
      Outside true memory.store root (PGROUNDUP (memory.breakAfter n))
        (pagesBetween (memory.breakAfter n).toNat memory.sz.toNat) := by
    intro _ address low inPages
    exact (space.maps.apart low
      (mappingAt_eq_some.mpr ⟨rfl, (canRemove inPages).valid⟩)).1
  obtain ⟨store, isDone, unmaps⟩ :=
    uvmdealloc_spec space.maps.table.separate high less outside
      (fun address inPages => canRemove inPages)
  have aligned := pgroundup_aligned lowest
  have ends :
      (PGROUNDUP (memory.breakAfter n)).toNat +
          4096 * pagesBetween (memory.breakAfter n).toNat memory.sz.toNat ≤
        MAXVA :=
    between_ends (Nat.le_of_lt less) high
  have apart :=
    space.maps.unmaps aligned ends
      (fun address _ inPages => (canRemove inPages).valid) unmaps
  refine ⟨{ memory with sz := memory.breakAfter n, store := store }, ?_, ?_,
    ?_⟩
  · unfold sysSbrk growproc
    unfold breakAfter at isDone
    rw [if_neg (Int.not_lt_of_ge (Int.le_of_lt negative)), if_pos negative,
      space.isRoot, isDone]
    dsimp only
    rw [if_neg (Int.lt_irrefl 0), ofInt32_setWidth small]
    rfl
  · refine ⟨rfl, sum, rfl, ?_, ?_, ?_, ?_, ?_⟩
    · intro address _ notIn isIn
      exact absurd (isIn.mono (Nat.le_of_lt less)) notIn
    · intro address low isIn notIn
      have inPages := between.mpr ⟨notIn, isIn⟩
      refine ⟨?_, ?_⟩
      · apply mappingAt_eq_none
        dsimp only
        rw [unmaps.removed address low inPages]
        decide
      · dsimp only
        rw [unmaps.free]
        apply List.mem_append_left
        rw [List.mem_reverse]
        exact framesFrom_mem aligned ends inPages
    · intro address low both
      apply mappingAt_congr
      apply unmaps.kept address low
      intro inPages
      obtain ⟨notIn, isIn⟩ := between.mp inPages
      exact notIn (both.mp isIn)
    · intro page isFree
      apply Or.inl
      dsimp only
      rw [unmaps.free]
      exact List.mem_append_right _ isFree
    · intro page isFree
      dsimp only at isFree
      rw [unmaps.free] at isFree
      rcases List.mem_append.mp isFree with isNew | wasFree
      · obtain ⟨address, _, inPages, isPage⟩ :=
          mem_framesFrom ends (List.mem_reverse.mp isNew)
        obtain ⟨notIn, isIn⟩ := between.mp inPages
        exact Or.inr ⟨address, isIn, notIn, isPage⟩
      · exact Or.inl wasFree
  · refine ⟨space.isRoot, apart, ?_, lowest⟩
    intro page isFree
    dsimp only at isFree
    rw [unmaps.free] at isFree
    rcases List.mem_append.mp isFree with isNew | wasFree
    · obtain ⟨address, _, inPages, isPage⟩ :=
        mem_framesFrom ends (List.mem_reverse.mp isNew)
      rw [isPage]
      exact (canRemove inPages).freeable rfl
    · exact space.freeable page wasFree

theorem uvmalloc_turns
    {low high : Word}
    (less : low.toNat ≤ high.toNat)
    (lowest : low.toNat ≤ MAXVA) :
    (if PGROUNDUP low < high then
        ((high - PGROUNDUP low).toNat + (PGSIZE - 1)) / PGSIZE
      else
        0) =
      pagesBetween low.toNat high.toNat := by
  have isMax : MAXVA = 67108864 * 4096 := rfl
  have isPage : PGSIZE = 4096 := rfl
  have rounds := toNat_pgroundup lowest
  unfold pgRoundUp at rounds
  unfold pagesBetween pgRoundUp
  rw [isPage] at rounds ⊢
  by_cases begins : PGROUNDUP low < high
  · rw [if_pos begins]
    rw [BitVec.lt_def, rounds] at begins
    rw [BitVec.toNat_sub, rounds]
    have bound := high.isLt
    omega
  · rw [if_neg begins]
    rw [BitVec.lt_def, rounds] at begins
    omega

theorem breakAfter_le
    {low high : Word}
    (less : low.toNat ≤ high.toNat)
    (lowest : low.toNat ≤ MAXVA)
    (ends :
      (PGROUNDUP low).toNat + 4096 * pagesBetween low.toNat high.toNat ≤
          MAXVA ∨
        pagesBetween low.toNat high.toNat = 0) :
    high.toNat ≤ MAXVA := by
  have isMax : MAXVA = 67108864 * 4096 := rfl
  have isPage : PGSIZE = 4096 := rfl
  have rounds := toNat_pgroundup lowest
  rw [rounds] at ends
  unfold pagesBetween pgRoundUp at ends
  rw [isPage] at ends
  rw [isMax] at ends lowest ⊢
  omega

theorem sysSbrk_grows
    (space : memory.Space end_address root)
    (positive : 0 < n.toInt)
    (small : memory.sz.toNat < 2147483648)
    (fine :
      ∀ address : Word, ¬ InImage memory.sz address →
        InImage (memory.breakAfter n) address →
          memory.store.Fine root address)
    (enough :
      demand (memory.store.has root)
          (pagesBetween memory.sz.toNat (memory.breakAfter n).toNat)
          (PGROUNDUP memory.sz) ≤
        memory.store.free.length) :
    ∃ later, memory.sysSbrk end_address n = some (memory.sz, later) ∧
      Moved root memory later n memory.sz ∧
        later.Space end_address root := by
  have high := space.inRange
  have sum := toNat_breakAfter (n := n) high (by omega)
  have less : memory.sz.toNat ≤ (memory.breakAfter n).toNat := by
    omega
  have between {address : Word} :
      InPages _ _ address ↔ _ :=
    inPages_between less high
  have aligned := pgroundup_aligned high
  have notLess : ¬ memory.breakAfter n < memory.sz := by
    rw [BitVec.lt_def]
    exact Nat.not_lt_of_le less
  have someBreak : memory.breakAfter n ≠ 0 := by
    intro isZero
    rw [isZero] at sum
    have zero : (0 : Word).toNat = 0 := rfl
    omega
  have start : Grown root memory.store memory.store (PGROUNDUP memory.sz)
      heapPerm 0 [] [] :=
    .refl space.maps.table
  obtain ⟨store, tables, frames, isDone, grown⟩ :
      ∃ later tables frames,
        memory.store.uvmallocFrom end_address (frameAddress root)
            (PGROUNDUP memory.sz) (memory.breakAfter n) _ _ =
          some (memory.breakAfter n, later) ∧ _ :=
    uvmallocFrom_done aligned (Nat.add_zero _).symm space.freeable start
      (fun address inPages =>
        fine address (between.mp inPages).1 (between.mp inPages).2)
      enough
  rw [Nat.zero_add] at grown
  have apart := space.maps.grown (by decide) aligned grown
  refine ⟨{ memory with sz := memory.breakAfter n, store := store }, ?_, ?_,
    ?_⟩
  · unfold sysSbrk growproc
    rw [if_pos positive]
    unfold uvmalloc
    unfold breakAfter at isDone notLess someBreak less
    rw [if_neg notLess]
    dsimp only
    rw [uvmalloc_turns less high, space.isRoot, isDone]
    dsimp only
    rw [if_neg someBreak]
    dsimp only
    rw [if_neg (Int.lt_irrefl 0), ofInt32_setWidth small]
    rfl
  · refine ⟨rfl, sum, rfl, ?_, ?_, ?_, ?_, ?_⟩
    · intro address low notIn isIn
      obtain ⟨frame, isFrame, isPte⟩ :=
        grown.mapped address low (between.mpr ⟨notIn, isIn⟩)
      have isData : frame ∈ frames := List.mem_of_getElem? isFrame
      refine ⟨frame, grown.uses.data_free isData, ?_,
        grown.cleared frame isData⟩
      apply mappingAt_eq_some.mpr
      refine ⟨isPte, ?_⟩
      unfold pteFor
      rw [carries_PA2PTE (by decide)]
      exact Bool.or_true _
    · intro address _ isIn notIn
      exact absurd (isIn.mono less) notIn
    · intro address low both
      apply mappingAt_congr
      apply grown.kept address low
      intro inPages
      obtain ⟨notIn, isIn⟩ := between.mp inPages
      exact notIn (both.mpr isIn)
    · intro page wasFree
      rcases List.mem_append.mp (grown.uses.free.mem_iff.mp wasFree) with
        isUsed | isFree
      · obtain ⟨frame, isIn, rfl⟩ := List.mem_map.mp isUsed
        rcases List.mem_append.mp isIn with isTable | isData
        · exact Or.inr (Or.inl
            ⟨frame, rfl, (grown.uses.owns frame).mpr (Or.inl isTable)⟩)
        · obtain ⟨address, _, inPages, isPte⟩ := grown.page_of_frame isData
          obtain ⟨notIn, isIn⟩ := between.mp inPages
          refine Or.inr (Or.inr ⟨address, notIn, isIn, ?_⟩)
          dsimp only
          rw [isPte, PTE2PA_pteFor (by decide)]
      · exact Or.inl isFree
    · intro page isFree
      exact Or.inl (grown.uses.free_subset isFree)
  · refine ⟨space.isRoot, apart, ?_, ?_⟩
    · intro page isFree
      exact space.freeable page (grown.uses.free_subset isFree)
    · dsimp only
      exact breakAfter_le less high grown.high

theorem sysSbrk_runsOut
    (space : memory.Space end_address root)
    (positive : 0 < n.toInt)
    {count : Nat}
    (before :
      count < pagesBetween memory.sz.toNat (memory.breakAfter n).toNat)
    (runsOut :
      memory.store.RunsOut root (PGROUNDUP memory.sz) count) :
    ∃ later, memory.sysSbrk end_address n = some (-1, later) ∧
      Unmoved root memory later (-1) ∧ later.Space end_address root := by
  have high := space.inRange
  have sum := toNat_breakAfter (n := n) high (by omega)
  have less : memory.sz.toNat ≤ (memory.breakAfter n).toNat := by
    omega
  have aligned := pgroundup_aligned high
  have notLess : ¬ memory.breakAfter n < memory.sz := by
    rw [BitVec.lt_def]
    exact Nat.not_lt_of_le less
  have bHigh : (PGROUNDUP memory.sz).toNat ≤ MAXVA := by
    have ends : (PGROUNDUP memory.sz).toNat + 4096 * _ ≤ MAXVA :=
      between_ends (Nat.le_refl memory.sz.toNat) high
    exact Nat.le_trans (Nat.le_add_right _ _) ends
  have start : Grown root memory.store memory.store (PGROUNDUP memory.sz)
      heapPerm 0 [] [] :=
    .refl space.maps.table
  obtain ⟨store, mapped, isDone, uses, wasUnmapped, ptes⟩ :
      ∃ final mapped,
        memory.store.uvmallocFrom end_address (frameAddress root)
            (PGROUNDUP memory.sz) (memory.breakAfter n) _ _ =
          some (0, final) ∧ _ :=
    uvmallocFrom_runsOut aligned (Nat.add_zero _).symm bHigh space.freeable
      start before runsOut
  have sameMapping {address : Word} (low : address.toNat < MAXVA) :
      store.mappingAt root address = memory.store.mappingAt root address := by
    obtain ⟨removed, kept⟩ := ptes address low
    by_cases inPages : InPages (PGROUNDUP memory.sz) mapped address
    · rw [mappingAt_eq_none (wasUnmapped address low inPages)]
      apply mappingAt_eq_none
      rw [removed inPages]
      decide
    · exact mappingAt_congr (kept inPages)
  have apart : store.MapsApart root := by
    apply space.maps.of_uses uses
    intro va pte low isPte
    rw [← sameMapping low]
    exact isPte
  refine ⟨{ memory with store := store }, ?_, ?_, ?_⟩
  · unfold sysSbrk growproc
    rw [if_pos positive]
    unfold uvmalloc
    unfold breakAfter at isDone notLess less
    rw [if_neg notLess]
    dsimp only
    rw [uvmalloc_turns less high, space.isRoot, isDone]
    rfl
  · refine ⟨rfl, rfl, rfl, fun address low => sameMapping low, ?_⟩
    intro page
    exact uses.free.mem_iff.symm
  · refine ⟨space.isRoot, apart, ?_, high⟩
    intro page isFree
    exact space.freeable page (uses.free_subset isFree)

theorem SbrkFits.step
    (space : memory.Space end_address root)
    (fits : SbrkFits end_address root memory n) :
    ∃ result later, memory.sysSbrk end_address n = some (result, later) ∧
      (Moved root memory later n result ∨
        Unmoved root memory later result) ∧
          later.Space end_address root := by
  cases fits with
  | stays zero small =>
      exact ⟨memory.sz, memory, sysSbrk_zero zero small,
        Or.inl (moved_refl zero), space⟩
  | shrinks negative inside small removable =>
      obtain ⟨later, isDone, moved, spaceNow⟩ :=
        sysSbrk_shrinks space negative inside small removable
      exact ⟨memory.sz, later, isDone, Or.inl moved, spaceNow⟩
  | grows positive small fine enough =>
      obtain ⟨later, isDone, moved, spaceNow⟩ :=
        sysSbrk_grows space positive small fine enough
      exact ⟨memory.sz, later, isDone, Or.inl moved, spaceNow⟩
  | runsOut positive before runsOut =>
      obtain ⟨later, isDone, unmoved, spaceNow⟩ :=
        sysSbrk_runsOut space positive before runsOut
      exact ⟨-1, later, isDone, Or.inr unmoved, spaceNow⟩

end ProcMemory

end MyOS
