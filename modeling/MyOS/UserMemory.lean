import MyOS.PageGrowth

namespace MyOS

open Lib

/-!
# The memory of a process grows and shrinks

`uvmalloc` maps cleared pages one after the other and gives them back where the
memory runs out.  `uvmdealloc` unmaps and frees pages.
-/

namespace PageStore

variable {store later inner : PageStore} {root frame : Frame}
variable {a b va end_address oldsz newsz : Word}
variable {tables moreTables frames : List Frame} {count turns : Nat}

/-- The permissions of `uvmalloc` -/
def heapPerm : Word := PTE_W ||| PTE_R ||| PTE_U

theorem framesFrom_eq
    (high : b.toNat + 4096 * count ≤ MAXVA ∨ count = 0)
    (length : frames.length = count)
    (named :
      ∀ address : Word, address.toNat < MAXVA → InPages b count address →
        ∃ frame, frames[pageFrom b address]? = some frame ∧
          PTE2PA (store.pteAt root address) = frameAddress frame) :
    store.framesFrom root count b = frames.map frameAddress := by
  induction count generalizing b frames with
  | zero =>
      rw [List.length_eq_zero_iff.mp length]
      rfl
  | succ count inductionHypothesis =>
      have ends : b.toNat + 4096 * (count + 1) ≤ MAXVA :=
        high.resolve_right (Nat.succ_ne_zero count)
      have below : b.toNat < MAXVA := by
        omega
      have next := toNat_next below
      obtain ⟨first, others, isCons⟩ :=
        List.exists_cons_of_length_eq_add_one length
      have isFirst : InPages b (count + 1) b :=
        ⟨Nat.le_refl _, by omega⟩
      obtain ⟨frame, isFrame, isPte⟩ := named b below isFirst
      have isHead : frame = first := by
        have place : pageFrom b b = 0 := by
          unfold pageFrom
          rw [Nat.sub_self]
        rw [place, isCons] at isFrame
        cases isFrame
        rfl
      have nextHigh : (b + 4096).toNat + 4096 * count ≤ MAXVA := by
        rw [next]
        omega
      have nextLength : others.length = count := by
        rw [isCons, List.length_cons] at length
        exact Nat.succ.inj length
      have tail :
          store.framesFrom root count (b + 4096) =
            others.map frameAddress := by
        apply inductionHypothesis (Or.inl nextHigh) nextLength
        intro address low inPages
        obtain ⟨other, isOther, isOtherPte⟩ :=
          named address low ((inPages_succ below).mpr (Or.inr inPages))
        have place :
            pageFrom b address = pageFrom (b + 4096) address + 1 := by
          have starts := inPages.1
          unfold pageFrom
          rw [next] at starts ⊢
          omega
        rw [place, isCons, List.getElem?_cons_succ] at isOther
        exact ⟨other, isOther, isOtherPte⟩
      unfold PageStore.framesFrom
      rw [isPte, isHead, isCons, List.map_cons, tail]

theorem PTE2PA_pteFor
    {perm : Word}
    (flags : perm.toNat < 1024) :
    PTE2PA (pteFor (frameAddress frame) perm) = frameAddress frame := by
  unfold pteFor
  rw [PTE2PA_eq, frameOf_PA2PTE (flags_lt flags), pageOf_frameAddress]

theorem Grown.framesFrom
    {perm : Word}
    (flags : perm.toNat < 1024)
    (grown : Grown root store later b perm count tables frames) :
    later.framesFrom root count b = frames.map frameAddress := by
  apply framesFrom_eq grown.high grown.length
  intro address low inPages
  obtain ⟨frame, isFrame, isPte⟩ := grown.mapped address low inPages
  refine ⟨frame, isFrame, ?_⟩
  rw [isPte, PTE2PA_pteFor flags]

theorem toNat_pgroundup
    {size : Word}
    (high : size.toNat ≤ MAXVA) :
    (PGROUNDUP size).toNat = pgRoundUp size.toNat := by
  have isMax : MAXVA = 274877906944 := rfl
  have isPage : PGSIZE = 4096 := rfl
  have page : (4096 : Word).toNat = 4096 := rfl
  have one : (1 : Word).toNat = 1 := rfl
  have rounds : PGROUNDUP size = PGROUNDDOWN (size + 4096 - 1) := rfl
  unfold pgRoundUp
  rw [rounds, toNat_pgrounddown, BitVec.toNat_sub, BitVec.toNat_add, page,
    one, isPage]
  omega

theorem signExtend_setWidth
    {npages : Word}
    (small : npages.toNat < 2147483648) :
    (npages.setWidth 32).signExtend 64 = npages := by
  have low : (npages.setWidth 32).toNat = npages.toNat := by
    rw [BitVec.toNat_setWidth]
    omega
  have positive : (npages.setWidth 32).msb = false := by
    rw [BitVec.msb_eq_decide, low]
    exact decide_eq_false (by omega)
  rw [BitVec.signExtend_eq_setWidth_of_msb_false positive]
  apply BitVec.eq_of_toNat_eq
  rw [BitVec.toNat_setWidth, low]
  omega

/-- How many pages are between two breaks. -/
def pagesBetween (low high : Nat) : Nat :=
  (pgRoundUp high - pgRoundUp low) / PGSIZE

theorem toNat_pagesBetween
    (high : oldsz.toNat ≤ MAXVA)
    (less : newsz.toNat ≤ oldsz.toNat) :
    ((PGROUNDUP oldsz - PGROUNDUP newsz) / 4096).toNat =
      pagesBetween newsz.toNat oldsz.toNat := by
  have isMax : MAXVA = 274877906944 := rfl
  have isPage : PGSIZE = 4096 := rfl
  have page : (4096 : Word).toNat = 4096 := rfl
  unfold pagesBetween
  rw [BitVec.toNat_udiv, BitVec.toNat_sub, toNat_pgroundup high,
    toNat_pgroundup (Nat.le_trans less high), page]
  unfold pgRoundUp
  rw [isPage]
  omega

theorem uvmdealloc_spec
    (separate : RadixTree.Separate childFrame 2 store.entries root)
    (high : oldsz.toNat ≤ MAXVA)
    (less : newsz.toNat < oldsz.toNat)
    (outside :
      Outside true store root (PGROUNDUP newsz)
        (pagesBetween newsz.toNat oldsz.toNat))
    (removable :
      ∀ address,
        InPages (PGROUNDUP newsz) (pagesBetween newsz.toNat oldsz.toNat)
          address →
        Removable end_address true store root address) :
    ∃ later,
      store.uvmdealloc end_address (frameAddress root) oldsz newsz =
          some (newsz, later) ∧
        Unmaps root store later (PGROUNDUP newsz)
          (pagesBetween newsz.toNat oldsz.toNat)
          (store.framesFrom root (pagesBetween newsz.toNat oldsz.toNat)
            (PGROUNDUP newsz)).reverse := by
  have isMax : MAXVA = 274877906944 := rfl
  have isPage : PGSIZE = 4096 := rfl
  have newHigh : newsz.toNat ≤ MAXVA :=
    Nat.le_trans (Nat.le_of_lt less) high
  have roundsNew := toNat_pgroundup newHigh
  have roundsOld := toNat_pgroundup high
  have between := toNat_pagesBetween high (Nat.le_of_lt less)
  have aligned : (PGROUNDUP newsz).toNat % 4096 = 0 := by
    rw [roundsNew]
    exact Nat.mul_mod_left _ _
  have notLess : ¬ oldsz ≤ newsz := by
    rw [BitVec.le_def]
    exact Nat.not_le_of_lt less
  obtain ⟨later, isDone⟩ :=
    uvmunmapFrom_of_removable separate aligned outside removable
  have unmaps :=
    (uvmunmapFrom_some separate aligned outside isDone).2
  rw [if_pos rfl] at unmaps
  unfold uvmdealloc
  rw [if_neg notLess]
  by_cases crosses : PGROUNDUP newsz < PGROUNDUP oldsz
  · rw [if_pos crosses]
    dsimp only
    have small :
        ((PGROUNDUP oldsz - PGROUNDUP newsz) / 4096).toNat < 2147483648 := by
      rw [between]
      unfold pagesBetween pgRoundUp
      rw [isPage]
      omega
    rw [signExtend_setWidth small]
    have bytes :
        ((PGROUNDUP oldsz - PGROUNDUP newsz) / 4096 * 4096).toNat =
          4096 * pagesBetween newsz.toNat oldsz.toNat := by
      have page : (4096 : Word).toNat = 4096 := rfl
      rw [BitVec.toNat_mul, between, page]
      rw [between] at small
      omega
    have ends :
        (PGROUNDUP newsz).toNat +
            4096 * pagesBetween newsz.toNat oldsz.toNat =
          (PGROUNDUP oldsz).toNat := by
      rw [BitVec.lt_def] at crosses
      rw [roundsNew, roundsOld] at crosses ⊢
      unfold pagesBetween pgRoundUp at *
      rw [isPage] at *
      omega
    have begins :
        PGROUNDUP newsz <
          PGROUNDUP newsz +
            (PGROUNDUP oldsz - PGROUNDUP newsz) / 4096 * 4096 := by
      have bound := (PGROUNDUP oldsz).isLt
      rw [BitVec.lt_def] at crosses ⊢
      rw [BitVec.toNat_add, bytes, ends]
      omega
    have unmapped :
        store.uvmunmap end_address (frameAddress root) (PGROUNDUP newsz)
            ((PGROUNDUP oldsz - PGROUNDUP newsz) / 4096) true =
          some later := by
      unfold uvmunmap
      rw [isPage, if_neg (not_not_intro aligned), if_pos begins, bytes,
        Nat.mul_div_cancel_left _ (by decide)]
      exact isDone
    rw [unmapped]
    exact ⟨later, rfl, unmaps⟩
  · have isNone : pagesBetween newsz.toNat oldsz.toNat = 0 := by
      rw [BitVec.lt_def, roundsNew, roundsOld] at crosses
      unfold pagesBetween
      rw [Nat.sub_eq_zero_of_le (Nat.le_of_not_lt crosses)]
      exact Nat.zero_div _
    rw [if_neg crosses]
    rw [isNone] at isDone
    unfold uvmunmapFrom at isDone
    cases isDone
    exact ⟨store, rfl, unmaps⟩

theorem removable_heap
    {mem : Word}
    (low : va.toNat < MAXVA)
    (isPte : store.pteAt root va = pteFor mem heapPerm)
    (isPage : PGROUNDDOWN mem = mem)
    (freeable : Freeable end_address mem) :
    Removable end_address true store root va where
  below := low
  valid := by
    rw [isPte]
    unfold pteFor
    rw [carries_PA2PTE (by decide)]
    exact Bool.or_true _
  leaf := by
    intro isTable
    have readable : carries (store.pteAt root va) PTE_R = true := by
      rw [isPte]
      unfold pteFor
      rw [carries_PA2PTE (by decide)]
      rfl
    have clear : carries (PTE_FLAGS (store.pteAt root va)) PTE_R = false := by
      rw [isTable]
      rfl
    have same :
        carries (PTE_FLAGS (store.pteAt root va)) PTE_R =
          carries (store.pteAt root va) PTE_R := by
      unfold carries PTE_FLAGS
      rw [BitVec.and_assoc]
      rfl
    rw [same, readable] at clear
    cases clear
  freeable := by
    intro _
    rw [isPte]
    unfold pteFor
    rw [PTE2PA_eq, frameOf_PA2PTE (flags_lt (by decide)),
      frameAddress_pageOf, isPage]
    exact freeable

theorem Grown.removable
    (grown : Grown root store later b heapPerm count tables frames)
    (freeable : ∀ page ∈ store.free, Freeable end_address page)
    {address : Word}
    (inPages : InPages b count address) :
    Removable end_address true later root address ∧
      ¬ later.Owns root (frameOf (later.pteAt root address)) := by
  have low : address.toNat < MAXVA := by
    rcases grown.high with ends | isNone
    · exact Nat.lt_of_lt_of_le inPages.2 ends
    · rw [isNone] at inPages
      exact absurd inPages.2 (Nat.not_lt_of_le inPages.1)
  obtain ⟨frame, isFrame, isPte⟩ := grown.mapped address low inPages
  have isData : frame ∈ frames := List.mem_of_getElem? isFrame
  refine ⟨removable_heap low isPte (pgrounddown_frameAddress frame)
    (freeable _ (grown.uses.data_free isData)), ?_⟩
  rw [isPte]
  unfold pteFor
  rw [frameOf_PA2PTE (flags_lt (by decide)), pageOf_frameAddress]
  exact (grown.uses.data_apart isData).1

theorem Grown.unmaps
    {final : PageStore}
    (grown : Grown root store later b heapPerm count tables frames)
    (unmaps :
      Unmaps root later final b count
        (later.framesFrom root count b).reverse) :
    Uses root store final tables [] := by
  have before := grown.uses.before
  rw [grown.framesFrom (by decide)] at unmaps
  have freeThen :
      store.free.Perm ((tables ++ []).map frameAddress ++ final.free) := by
    rw [unmaps.free, List.append_nil]
    apply grown.uses.free.trans
    rw [List.map_append, List.append_assoc]
    apply List.Perm.append_left
    apply List.Perm.append_right
    exact (List.reverse_perm _).symm
  have distinct := freeThen.nodup_iff.mp before.distinct
  rw [List.nodup_append, List.append_nil] at distinct
  have wasFree {page : Word} : page ∈ final.free → page ∈ store.free :=
    fun isIn => freeThen.mem_iff.mpr (List.mem_append_right _ isIn)
  have freed {frame : Frame} :
      frameAddress frame ∈ (frames.map frameAddress).reverse →
        frameAddress frame ∈ store.free := by
    intro isIn
    apply wasFree
    rw [unmaps.free]
    exact List.mem_append_left _ isIn
  have owns (frame : Frame) :
      final.Owns root frame ↔ frame ∈ tables ∨ store.Owns root frame := by
    rw [unmaps.owns_iff, grown.uses.owns]
  refine ⟨before, ⟨?_, distinct.2.1, ?_, ?_⟩, freeThen, owns, ?_⟩
  · exact RadixTree.Separate.congr grown.uses.table.separate unmaps.node
  · intro page isIn
    exact before.aligned page (wasFree isIn)
  · intro frame isOwned isIn
    rcases (owns frame).mp isOwned with isTable | wasOwned
    · exact distinct.2.2 _ (List.mem_map_of_mem isTable) _ isIn rfl
    · exact before.outside frame wasOwned (wasFree isIn)
  · intro frame notOwned notFree
    have notLater : ¬ later.Owns root frame := by
      intro isOwned
      rcases (grown.uses.owns frame).mp isOwned with isTable | wasOwned
      · exact notFree (grown.uses.table_free isTable)
      · exact notOwned wasOwned
    rw [unmaps.rest frame notLater (fun isIn => notFree (freed isIn)),
      grown.uses.rest frame notOwned notFree]

theorem uvmallocFails_spec
    (aligned : b.toNat % 4096 = 0)
    (isNext : a.toNat = b.toNat + 4096 * count)
    (high : a.toNat ≤ MAXVA)
    (freeable : ∀ page ∈ store.free, Freeable end_address page)
    (grown : Grown root store later b heapPerm count tables frames) :
    ∃ final,
      later.uvmallocFails end_address (frameAddress root) b a =
          some (0, final) ∧
        Uses root store final tables [] ∧
          ∀ address : Word, address.toNat < MAXVA →
            (InPages b count address → final.pteAt root address = 0) ∧
            (¬ InPages b count address →
              final.pteAt root address = store.pteAt root address) := by
  have isPage : PGSIZE = 4096 := rfl
  have bHigh : b.toNat ≤ MAXVA := by
    omega
  have rounds : PGROUNDUP b = b := by
    apply BitVec.eq_of_toNat_eq
    rw [toNat_pgroundup bHigh]
    unfold pgRoundUp
    rw [isPage]
    omega
  have between : pagesBetween b.toNat a.toNat = count := by
    unfold pagesBetween pgRoundUp
    rw [isPage]
    omega
  unfold uvmallocFails
  by_cases isNone : count = 0
  · have notLess : a ≤ b := by
      rw [BitVec.le_def]
      omega
    have noFrames : frames = [] := by
      have length := grown.length
      rw [isNone] at length
      exact List.length_eq_zero_iff.mp length
    have uses := grown.uses
    rw [noFrames] at uses
    unfold uvmdealloc
    rw [if_pos notLess]
    refine ⟨later, rfl, uses, ?_⟩
    intro address low
    refine ⟨?_, grown.kept address low⟩
    intro inPages
    rw [isNone] at inPages
    exact absurd inPages.2 (Nat.not_lt_of_le inPages.1)
  · have less : b.toNat < a.toNat := by
      omega
    obtain ⟨final, isDone, unmaps⟩ :=
      uvmdealloc_spec grown.uses.table.separate high less
        (by
          rw [rounds, between]
          intro _ address _ inPages
          exact (grown.removable freeable inPages).2)
        (by
          rw [rounds, between]
          intro address inPages
          exact (grown.removable freeable inPages).1)
    rw [rounds, between] at unmaps
    rw [isDone]
    refine ⟨final, rfl, grown.unmaps unmaps, ?_⟩
    intro address low
    refine ⟨unmaps.removed address low, ?_⟩
    intro notIn
    rw [unmaps.kept address low notIn, grown.kept address low notIn]

/-! ## The loop of `uvmalloc` -/

/-- A page that can be mapped. -/
def Fine (store : PageStore) (root : Frame) (address : Word) : Prop :=
  address.toNat < MAXVA ∧
    ¬ carries (store.pteAt root address) PTE_V = true

theorem uvmallocFrom_mapped
    (isMapped :
      inner.mapFresh end_address (frameAddress root) a heapPerm
        (fun mem store => store.zero mem) = .mapped later) :
    inner.uvmallocFrom end_address (frameAddress root) b newsz (turns + 1) a =
      later.uvmallocFrom end_address (frameAddress root) b newsz turns
        (a + 4096) := by
  unfold heapPerm at isMapped
  conv_lhs => unfold uvmallocFrom
  rw [isMapped]

theorem uvmallocFrom_failed
    (isFailed :
      inner.mapFresh end_address (frameAddress root) a heapPerm
        (fun mem store => store.zero mem) = .failed later) :
    inner.uvmallocFrom end_address (frameAddress root) b newsz (turns + 1) a =
      later.uvmallocFails end_address (frameAddress root) b a := by
  unfold heapPerm at isFailed
  unfold uvmallocFrom
  rw [isFailed]

theorem uvmallocFrom_done
    (aligned : b.toNat % 4096 = 0)
    (isNext : a.toNat = b.toNat + 4096 * count)
    (freeable : ∀ page ∈ store.free, Freeable end_address page)
    (grown : Grown root store inner b heapPerm count tables frames)
    (fine : ∀ address, InPages a turns address → inner.Fine root address)
    (enough : demand (inner.has root) turns a ≤ inner.free.length) :
    ∃ later tables frames,
      inner.uvmallocFrom end_address (frameAddress root) b newsz turns a =
          some (newsz, later) ∧
        Grown root store later b heapPerm (count + turns) tables frames := by
  induction turns generalizing inner a count tables frames with
  | zero => exact ⟨inner, tables, frames, rfl, grown⟩
  | succ turns inductionHypothesis =>
      have aAligned : a.toNat % 4096 = 0 := by
        omega
      have isFirst : InPages a (turns + 1) a := by
        refine ⟨Nat.le_refl _, ?_⟩
        exact Nat.lt_add_of_pos_right
          (Nat.mul_pos (by decide) (Nat.succ_pos turns))
      obtain ⟨below, unmapped⟩ := fine a isFirst
      have next := toNat_next below
      unfold demand at enough
      have spec :
          MapsFresh root inner a heapPerm (fun mem store => store.zero mem) _ :=
        mapFresh_spec grown.uses.table fills_zero aAligned
          (fun page isIn => freeable page (grown.uses.free_subset isIn))
      cases isMapped :
          inner.mapFresh end_address (frameAddress root) a heapPerm
            (fun mem store => store.zero mem) with
      | panic =>
          rw [isMapped] at spec
          cases spec with
          | panic _ refuses =>
              rcases refuses with high | isValid
              · exact absurd below (Nat.not_lt_of_le high)
              · exact absurd isValid unmapped
      | failed failing =>
          rw [isMapped] at spec
          cases spec with
          | failed _ _ lacks => omega
      | mapped later =>
          rw [isMapped] at spec
          rw [uvmallocFrom_mapped isMapped]
          cases spec with
          | mapped _ _ uses isFree pte contents counts present =>
              rename_i moreTables mem rest
              have grownOn :=
                grown.snoc aligned isNext below unmapped uses isFree pte
                  contents
              have total := uses.length
              have same :
                  demand (later.has root) turns (a + 4096) =
                    demand (adding (inner.has root) a) turns (a + 4096) :=
                demand_congr fun path short => has_eq_adding present short
              obtain ⟨final, allTables, allFrames, isDone, grownAll⟩ :=
                inductionHypothesis (a := a + 4096)
                  (by rw [next, isNext, Nat.mul_succ, Nat.add_assoc])
                  grownOn
                  (by
                    intro address inPages
                    have wasIn :=
                      (inPages_succ below).mpr (Or.inr inPages)
                    have notHere := not_inPages_of_next below inPages
                    obtain ⟨low, wasUnmapped⟩ := fine address wasIn
                    refine ⟨low, ?_⟩
                    rw [pte address low,
                      if_neg (fun samePage => notHere
                        ((pageOf_eq_iff aAligned).mp samePage))]
                    exact wasUnmapped)
                  (by
                    rw [same]
                    rw [counts, List.length_singleton] at total
                    omega)
              refine ⟨final, allTables, allFrames, isDone, ?_⟩
              rw [Nat.add_assoc, Nat.add_comm 1 turns] at grownAll
              exact grownAll

/-- The table has the pages for an address. -/
def Ready (store : PageStore) (root : Frame) (address : Word) : Prop :=
  missing (store.has root) address = 0

theorem Ready.has_iff
    (ready : inner.Ready root a)
    (present :
      ∀ other, other.length ≤ 2 →
        (later.has root other = true ↔
          inner.has root other = true ∨ other <:+ tablePath a))
    {path : List PageIndex}
    (short : path.length ≤ 2) :
    later.has root path = inner.has root path := by
  rw [Bool.eq_iff_iff, present path short]
  constructor
  · rintro (isThere | suffix)
    · exact isThere
    · obtain ⟨page, isNode⟩ :=
        PageStore.has_iff.mp (missing_eq_zero_iff.mp ready).2
      exact PageStore.has_iff.mpr (RadixTree.node_of_suffix isNode suffix)
  · intro isThere
    exact Or.inl isThere

theorem Ready.iff
    (ready : inner.Ready root a)
    (present :
      ∀ other, other.length ≤ 2 →
        (later.has root other = true ↔
          inner.has root other = true ∨ other <:+ tablePath a)) :
    later.Ready root va ↔ inner.Ready root va := by
  unfold Ready
  rw [missing_congr fun path short => ready.has_iff present short]

/--
The memory runs out after a number of pages, each of which has its place in the
table: none is left for the next page, or one is left, which the table would
need for it.
-/
structure RunsOut
    (store : PageStore)
    (root : Frame)
    (a : Word)
    (count : Nat) : Prop where
  fine : ∀ address, InPages a count address → store.Fine root address
  ready : ∀ address, InPages a count address → store.Ready root address
  short :
    store.free.length = count ∨
      store.free.length = count + 1 ∧
        ∀ address, address.toNat = a.toNat + 4096 * count →
          store.Fine root address ∧ ¬ store.Ready root address

theorem uvmallocFrom_runsOut
    {more : Nat}
    (aligned : b.toNat % 4096 = 0)
    (isNext : a.toNat = b.toNat + 4096 * count)
    (high : a.toNat ≤ MAXVA)
    (freeable : ∀ page ∈ store.free, Freeable end_address page)
    (grown : Grown root store inner b heapPerm count [] frames)
    (before : more < turns)
    (runsOut : inner.RunsOut root a more) :
    ∃ final mapped,
      inner.uvmallocFrom end_address (frameAddress root) b newsz turns a =
          some (0, final) ∧
        Uses root store final [] [] ∧
          (∀ address : Word, address.toNat < MAXVA →
            InPages b mapped address →
              ¬ carries (store.pteAt root address) PTE_V = true) ∧
          ∀ address : Word, address.toNat < MAXVA →
            (InPages b mapped address → final.pteAt root address = 0) ∧
            (¬ InPages b mapped address →
              final.pteAt root address = store.pteAt root address) := by
  induction more generalizing inner a count frames turns with
  | zero =>
      obtain ⟨rest, isTurns⟩ :=
        Nat.exists_eq_add_one_of_ne_zero (Nat.pos_iff_ne_zero.mp before)
      have aAligned : a.toNat % 4096 = 0 := by
        omega
      have spec :
          MapsFresh root inner a heapPerm (fun mem store => store.zero mem) _ :=
        mapFresh_spec grown.uses.table fills_zero aAligned
          (fun page isIn => freeable page (grown.uses.free_subset isIn))
      rw [isTurns]
      cases isMapped :
          inner.mapFresh end_address (frameAddress root) a heapPerm
            (fun mem store => store.zero mem) with
      | panic =>
          rw [isMapped] at spec
          cases spec with
          | panic someFree refuses =>
              rcases runsOut.short with isNone | ⟨_, isNextPage⟩
              · exact absurd (List.length_eq_zero_iff.mp isNone) someFree
              · obtain ⟨⟨below, unmapped⟩, _⟩ :=
                  isNextPage a (Nat.add_zero _).symm
                rcases refuses with tooHigh | isValid
                · exact absurd below (Nat.not_lt_of_le tooHigh)
                · exact absurd isValid unmapped
      | mapped later =>
          rw [isMapped] at spec
          cases spec with
          | mapped _ _ uses isFree _ _ counts _ =>
              have total := uses.length
              rw [List.length_singleton, counts] at total
              rcases runsOut.short with isNone | ⟨isOne, isNextPage⟩
              · rw [isFree] at isNone
                cases isNone
              · obtain ⟨_, notReady⟩ := isNextPage a (Nat.add_zero _).symm
                unfold Ready at notReady
                omega
      | failed later =>
          rw [isMapped] at spec
          rw [uvmallocFrom_failed isMapped]
          cases spec with
          | failed uses same lacks counts isFine =>
              rename_i tables
              have noTables : tables = [] := by
                apply List.length_eq_zero_iff.mp
                rw [counts]
                rcases runsOut.short with isNone | ⟨isOne, _⟩
                · omega
                · omega
              rw [noTables] at uses
              have grownOn := grown.grow uses same
              obtain ⟨final, isDone, usesAll, ptes⟩ :=
                uvmallocFails_spec aligned isNext high freeable grownOn
              exact ⟨final, count, isDone, usesAll, grownOn.unmapped, ptes⟩
  | succ more inductionHypothesis =>
      obtain ⟨rest, isTurns⟩ :=
        Nat.exists_eq_add_one_of_ne_zero
          (Nat.pos_iff_ne_zero.mp (Nat.lt_of_le_of_lt (Nat.zero_le _) before))
      have aAligned : a.toNat % 4096 = 0 := by
        omega
      have isFirst : InPages a (more + 1) a := by
        refine ⟨Nat.le_refl _, ?_⟩
        exact Nat.lt_add_of_pos_right
          (Nat.mul_pos (by decide) (Nat.succ_pos more))
      obtain ⟨below, unmapped⟩ := runsOut.fine a isFirst
      have ready := runsOut.ready a isFirst
      have next := toNat_next below
      have someFree : inner.free.length ≠ 0 := by
        rcases runsOut.short with isSome | ⟨isSome, _⟩
        · omega
        · omega
      have spec :
          MapsFresh root inner a heapPerm (fun mem store => store.zero mem) _ :=
        mapFresh_spec grown.uses.table fills_zero aAligned
          (fun page isIn => freeable page (grown.uses.free_subset isIn))
      rw [isTurns]
      cases isMapped :
          inner.mapFresh end_address (frameAddress root) a heapPerm
            (fun mem store => store.zero mem) with
      | panic =>
          rw [isMapped] at spec
          cases spec with
          | panic _ refuses =>
              rcases refuses with tooHigh | isValid
              · exact absurd below (Nat.not_lt_of_le tooHigh)
              · exact absurd isValid unmapped
      | failed failing =>
          rw [isMapped] at spec
          cases spec with
          | failed _ _ lacks =>
              unfold Ready at ready
              omega
      | mapped later =>
          rw [isMapped] at spec
          rw [uvmallocFrom_mapped isMapped]
          cases spec with
          | mapped low isUnmapped uses isFree pte contents counts present =>
              rename_i moreTables mem others
              have noTables : moreTables = [] := by
                apply List.length_eq_zero_iff.mp
                rw [counts]
                exact ready
              rw [noTables] at uses
              have grownOn :=
                grown.snoc aligned isNext below unmapped uses isFree pte
                  contents
              have total := uses.length
              rw [List.length_singleton, List.length_nil] at total
              have stays {address : Word} :
                  inner.Fine root address → ¬ InPages a 1 address →
                    later.Fine root address := by
                rintro ⟨low, wasUnmapped⟩ notHere
                refine ⟨low, ?_⟩
                rw [pte address low,
                  if_neg (fun samePage => notHere
                    ((pageOf_eq_iff aAligned).mp samePage))]
                exact wasUnmapped
              apply inductionHypothesis (a := a + 4096)
                (by rw [next, isNext, Nat.mul_succ, Nat.add_assoc])
                (by rw [next]; exact next_le_maxva aAligned below)
                grownOn (by omega)
              refine ⟨?_, ?_, ?_⟩
              · intro address inPages
                exact stays
                  (runsOut.fine address
                    ((inPages_succ below).mpr (Or.inr inPages)))
                  (not_inPages_of_next below inPages)
              · intro address inPages
                exact (Ready.iff ready present).mpr
                  (runsOut.ready address
                    ((inPages_succ below).mpr (Or.inr inPages)))
              · rcases runsOut.short with isAll | ⟨isOne, isLast⟩
                · exact Or.inl (by omega)
                · refine Or.inr ⟨by omega, ?_⟩
                  intro address place
                  rw [next] at place
                  have isPlace :
                      address.toNat = a.toNat + 4096 * (more + 1) := by
                    omega
                  obtain ⟨fine, notReady⟩ := isLast address isPlace
                  have notHere : ¬ InPages a 1 address := by
                    unfold InPages
                    omega
                  refine ⟨stays fine notHere, ?_⟩
                  intro readyNow
                  exact notReady ((Ready.iff ready present).mp readyNow)

end PageStore

end MyOS
