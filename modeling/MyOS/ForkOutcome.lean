import MyOS.Fork

namespace MyOS

open Lib
open PageStore

/-!
# What `sys_fork` comes to

From the two pages of the child on, `sys_fork` builds a table and copies pages
into it, as the outline says.  What has been taken by then is given back only
where there is no page at all for the table.
-/

namespace ForkKernel

variable {k later : ForkKernel} {p np : Slot} {old new : Frame}
variable {trapframe kstack : Word} {rest : List Word}
variable {store table : PageStore}

theorem pagesOf_holding
    (isFree : k.store.free = trapframe :: kstack :: rest) :
    (k.holding np (k.stacked np trapframe kstack) store).pagesOf np =
      k.childPages := by
  have isTrapframe : k.childPages.trapframe = trapframe := by
    unfold childPages
    rw [isFree]
    rfl
  have isChild :
      (k.holding np (k.stacked np trapframe kstack) store).proc np =
        k.stacked np trapframe kstack :=
    Function.update_self ..
  unfold pagesOf
  rw [isChild, ← isTrapframe]
  rfl

theorem makeTable_none
    (p np : Slot)
    (stackFreeable : Freeable k.end_address kstack)
    (frameFreeable : Freeable k.end_address trapframe)
    (isPage : PGROUNDDOWN trapframe = trapframe)
    (isStack : PGROUNDDOWN kstack = kstack)
    (isFree : k.store.free = trapframe :: kstack :: rest)
    (noTable : procPagetable k.childPages store = .ok (none, table)) :
    ∃ child freed final,
      (k.holding np (k.stacked np trapframe kstack) store).makeTable p np =
          .refused final ∧
        GivesBack (k.holding np child freed) np [trapframe] final ∧
          freed.free = kstack :: table.free ∧
            ∀ frame, frameAddress frame ≠ kstack →
              freed.entries frame = table.entries frame := by
  obtain ⟨freed, isFreed⟩ :
      ∃ freed, table.kfree k.end_address kstack = some freed :=
    kfree_of_freeable stackFreeable
  obtain ⟨_, free, entries⟩ := kfree_some isFreed
  rw [isStack] at entries
  have isChild :
      (k.holding np (k.stacked np trapframe kstack) store).proc np =
        k.stacked np trapframe kstack :=
    Function.update_self ..
  have isHeld :
      (k.holding np { k.stacked np trapframe kstack with pagetable := 0 }
          freed).proc np =
        { k.stacked np trapframe kstack with pagetable := 0 } :=
    Function.update_self ..
  have gives :=
    giveBack_spec
      (k.holding np { k.stacked np trapframe kstack with pagetable := 0 }
        freed) np
  rw [isHeld] at gives
  obtain ⟨final, isRefused, givesBack⟩ := gives frameFreeable isPage
  refine ⟨_, freed, final, ?_, givesBack, free, entries⟩
  rw [← isRefused]
  unfold makeTable
  rw [pagesOf_holding isFree]
  have isStore :
      (k.holding np (k.stacked np trapframe kstack) store).store = store :=
    rfl
  rw [isStore, noTable, isChild]
  dsimp only
  have isKstack : (k.stacked np trapframe kstack).kstack = kstack := rfl
  have isEnd :
      (k.holding np (k.stacked np trapframe kstack) store).end_address =
        k.end_address :=
    rfl
  rw [isKstack, isEnd, isFreed]
  dsimp only
  unfold setProc holding
  dsimp only
  rw [Function.update_idem]

/-- What is known of the pages of a caller and of its child. -/
structure ChildPages
    (k : ForkKernel)
    (p : Slot)
    (old : Frame)
    (trapframe kstack : Word)
    (rest : List Word) : Prop where
  frameFreeable : Freeable k.end_address trapframe
  stackFreeable : Freeable k.end_address kstack
  framePage : PGROUNDDOWN trapframe = trapframe
  stackPage : PGROUNDDOWN kstack = kstack
  distinct : trapframe ∉ rest ∧ kstack ∉ rest ∧ trapframe ≠ kstack
  supplies : Supplies k.end_address k.childPages (k.store.taking rest)

theorem Forkable.childPages
    (forkable : k.Forkable p old)
    (isFree : k.store.free = trapframe :: kstack :: rest) :
    ChildPages k p old trapframe kstack rest := by
  have table : k.store.HoldsTable old := forkable.space.maps.table
  have frameIn : trapframe ∈ k.store.free := by
    rw [isFree]
    exact List.mem_cons_self
  have stackIn : kstack ∈ k.store.free := by
    rw [isFree]
    exact List.mem_cons_of_mem _ List.mem_cons_self
  have distinct := table.distinct
  rw [isFree, List.nodup_cons, List.nodup_cons] at distinct
  obtain ⟨notLater, notRest, _⟩ := distinct
  rw [List.mem_cons, not_or] at notLater
  exact {
    frameFreeable := forkable.space.freeable trapframe frameIn
    stackFreeable := forkable.space.freeable kstack stackIn
    framePage := table.aligned trapframe frameIn
    stackPage := table.aligned kstack stackIn
    distinct := ⟨notLater.2, notRest, notLater.1⟩
    supplies := forkable.supplies isFree rfl
  }

theorem sysFork_noRoot
    (forkable : k.Forkable p old)
    (isSlot : k.freeSlot = some np)
    (isFree : k.store.free = [trapframe, kstack]) :
    ∃ final, k.sysFork p = .refused final ∧ AsBefore k final := by
  have pages := forkable.childPages isFree
  have noTable :
      procPagetable k.childPages (k.store.taking []) =
        .ok (none, k.store.taking []) :=
    rfl
  obtain ⟨child, freed, final, isRefused, gives, free, entries⟩ :=
    makeTable_none p np pages.stackFreeable
      pages.frameFreeable pages.framePage pages.stackPage isFree noTable
  rw [← sysFork_stacked isSlot isFree] at isRefused
  refine ⟨final, isRefused, gives.asBefore isSlot ?_ ?_⟩
  · intro page
    rw [free, isFree]
    exact Iff.rfl
  · intro frame notFree
    have notStack : frameAddress frame ≠ kstack := by
      intro same
      apply notFree
      rw [same, isFree]
      exact List.mem_cons_of_mem _ List.mem_cons_self
    exact entries frame notStack

theorem sysFork_noTable
    {root : Frame}
    {tables : List Frame}
    (forkable : k.Forkable p old)
    (isSlot : k.freeSlot = some np)
    (isFree : k.store.free = trapframe :: kstack :: rest)
    (noTable :
      procPagetable k.childPages (k.store.taking rest) = .ok (none, table))
    (builds : Builds (k.store.taking rest) table root tables)
    (exhausted : table.free = []) :
    ∃ final, k.sysFork p = .refused final ∧ ¬ AsBefore k final := by
  have pages := forkable.childPages isFree
  obtain ⟨child, freed, final, isRefused, gives, free, _⟩ :=
    makeTable_none p np pages.stackFreeable
      pages.frameFreeable pages.framePage pages.stackPage isFree noTable
  rw [← sysFork_stacked isSlot isFree] at isRefused
  refine ⟨final, isRefused, ?_⟩
  intro asBefore
  have rootIn : frameAddress root ∈ rest := by
    have isRest : (k.store.taking rest).free = rest := rfl
    rw [← isRest, builds.free]
    exact List.mem_cons_self
  have wasFree : frameAddress root ∈ k.store.free := by
    rw [isFree]
    exact List.mem_cons_of_mem _ (List.mem_cons_of_mem _ rootIn)
  have isFreeNow := (asBefore.free _).mpr wasFree
  have isFreed :
      (k.holding np child freed).store.free = kstack :: table.free :=
    free
  rw [gives.free, isFreed, exhausted, List.singleton_append, List.mem_cons,
    List.mem_singleton] at isFreeNow
  -- the root of the table has been taken and nobody knows it any more
  rcases isFreeNow with same | same
  · rw [same] at rootIn
    exact pages.distinct.1 rootIn
  · rw [same] at rootIn
    exact pages.distinct.2.1 rootIn

/-! ## With a table -/

theorem copyTrapframe_rest
    {frame : Frame}
    {src : Word}
    (isPage : PGROUNDDOWN trapframe = trapframe)
    (elsewhere : frameAddress frame ≠ trapframe) :
    (table.copyTrapframe trapframe src).entries frame =
      table.entries frame :=
  (fills_copyTrapframe trapframe table isPage).2 frame elsewhere

theorem newTable
    {tables : List Frame}
    (forkable : k.Forkable p old)
    (isFree : k.store.free = trapframe :: kstack :: rest)
    (builds : Builds (k.store.taking rest) table new tables)
    (outlines :
      Outlines k.end_address new table
        (Outline.ofKernel k.childPages rest.length))
    (src : Word) :
    k.store.NewTable (table.copyTrapframe trapframe src) new ∧
      Outlines k.end_address new (table.copyTrapframe trapframe src)
        (Outline.ofKernel k.childPages rest.length) := by
  have pages := forkable.childPages isFree
  have isRest : (k.store.taking rest).free = rest := rfl
  have ofRest {page : Word} (isIn : page ∈ rest) : page ∈ k.store.free := by
    rw [isFree]
    exact List.mem_cons_of_mem _ (List.mem_cons_of_mem _ isIn)
  have owned {frame : Frame} (owns : table.Owns new frame) :
      frameAddress frame ∈ rest := by
    rw [← isRest, builds.free]
    rcases (builds.owns frame).mp owns with isRoot | isTable
    · rw [isRoot]
      exact List.mem_cons_self
    · exact List.mem_cons_of_mem _
        (List.mem_append_left _ (List.mem_map_of_mem isTable))
  have same : SameTable new table (table.copyTrapframe trapframe src) := by
    intro frame owns
    apply copyTrapframe_rest pages.framePage
    intro isFrame
    apply pages.distinct.1
    rw [← isFrame]
    exact owned owns
  have outlinesNow := outlines.of_same same rfl
  refine ⟨⟨outlinesNow.workable.apart, ?_, ?_, ?_⟩, outlinesNow⟩
  · intro frame owns
    exact ofRest (owned (same.owns.mp owns))
  · intro page isIn
    apply ofRest
    rw [← isRest, builds.free]
    exact List.mem_cons_of_mem _ (List.mem_append_right _ isIn)
  · intro frame notFree
    have notRest : frameAddress frame ∉ (k.store.taking rest).free :=
      fun isIn => notFree (ofRest isIn)
    have elsewhere : frameAddress frame ≠ trapframe := by
      intro isFrame
      apply notFree
      rw [isFrame, isFree]
      exact List.mem_cons_self
    rw [copyTrapframe_rest pages.framePage elsewhere,
      builds.rest frame notRest]
    rfl

theorem map_copyItem_va (addresses : List Word) :
    (addresses.map (k.store.copyItem old)).map (·.va) = addresses := by
  rw [List.map_map]
  exact List.map_id addresses

theorem copyItems_fit
    (forkable : k.Forkable p old) :
    ∀ item ∈ (k.mappedPages p old).map (k.store.copyItem old),
      item.Fits := by
  intro item isIn
  obtain ⟨va, isMapped, isItem⟩ := List.mem_map.mp isIn
  have inRange : (k.proc p).sz.toNat ≤ MAXVA := forkable.space.inRange
  obtain ⟨aligned, _⟩ := (mem_mapped_iff inRange).mp isMapped
  rw [← isItem]
  exact copyItem_fits aligned

theorem uvmcopy_eq
    (forkable : k.Forkable p old)
    (made : k.store.NewTable table new)
    (freeable : ∀ page ∈ table.free, Freeable k.end_address page) :
    table.uvmcopy k.end_address (k.proc p).pagetable (frameAddress new)
        (k.proc p).sz =
      copyResult
        (table.mapAll k.end_address (frameAddress new)
          ((k.mappedPages p old).map (k.store.copyItem old))) := by
  have isRoot : (k.proc p).pagetable = frameAddress old :=
    forkable.space.isRoot
  have inRange : (k.proc p).sz.toNat ≤ MAXVA := forkable.space.inRange
  have parent : k.store.MapsApart old := forkable.space.maps
  rw [isRoot]
  exact uvmcopyFrom_eq (made.tablesApart parent) made.apart.table freeable rfl
    (copyTurns_high inRange) fun _ => (made.same parent).pteAt

@[simp]
theorem setProc_self (proc : ForkProc) :
    (k.setProc np proc).proc np = proc :=
  Function.update_self ..

theorem setProc_of_ne
    {proc : ForkProc}
    (different : p ≠ np) :
    (k.setProc np proc).proc p = k.proc p :=
  Function.update_of_ne different ..

theorem publish_sz :
    ((k.publish p np).proc np).sz = (k.proc p).sz := by
  unfold publish
  rw [setProc_self]

theorem publish_pagetable :
    ((k.publish p np).proc np).pagetable = (k.proc np).pagetable := by
  unfold publish
  rw [setProc_self]

theorem copyProcess_forks
    (forkable : k.Forkable p old)
    (isSlot : k.freeSlot = some np)
    (isFree : k.store.free = trapframe :: kstack :: rest)
    (some : 2 < k.store.free.length)
    (enough : ¬ rest.length < 1 + k.childPages.need)
    (made :
      k.store.NewTable
        (table.copyTrapframe trapframe (k.proc p).trapframe) new)
    (outlines :
      Outlines k.end_address new
        (table.copyTrapframe trapframe (k.proc p).trapframe)
        (Outline.ofKernel k.childPages rest.length)) :
    Forks k p old
      ((k.holding np (k.stacked np trapframe kstack) table).copyProcess p np
        (frameAddress new)) := by
  have different := forkable.slot_ne isSlot
  have slotUsed : k.freeSlot ≠ none := by
    rw [isSlot]
    exact Option.some_ne_none np
  have isLength : k.store.free.length - 2 = rest.length := by
    rw [isFree]
    rfl
  have isOutline :
      k.forkOutline p old =
        (Outline.ofKernel k.childPages rest.length).placeAll
          (k.mappedPages p old) := by
    unfold forkOutline
    rw [isLength, if_neg enough]
  have isChild :
      (k.holding np (k.stacked np trapframe kstack) table).proc np =
        k.stacked np trapframe kstack :=
    Function.update_self ..
  have isParent :
      (k.holding np (k.stacked np trapframe kstack) table).proc p =
        k.proc p :=
    Function.update_of_ne different ..
  have follows := outlines.placeAll (copyItems_fit forkable)
  rw [map_copyItem_va, ← isOutline] at follows
  have lays :=
    mapAll_spec made.apart.table (copyItems_fit forkable)
      outlines.workable.freeable
  have copies := uvmcopy_eq forkable made outlines.workable.freeable
  unfold copyProcess
  rw [isChild, isParent]
  have isFrame :
      (k.stacked np trapframe kstack).trapframe = trapframe :=
    rfl
  have isStore :
      (k.holding np (k.stacked np trapframe kstack) table).store = table :=
    rfl
  have isEnd :
      (k.holding np (k.stacked np trapframe kstack) table).end_address =
        k.end_address :=
    rfl
  rw [isFrame, isStore, isEnd, copies]
  generalize
    (table.copyTrapframe trapframe (k.proc p).trapframe).mapAll k.end_address
      (frameAddress new) ((k.mappedPages p old).map (k.store.copyItem old)) =
      result at follows lays ⊢
  generalize isOutlined : k.forkOutline p old = outlined at follows
  cases follows with
  | panic => exact .panic slotUsed some isOutlined
  | bad workable =>
      refine .leaks slotUsed some isOutlined ?_
      intro asBefore
      -- the slot of the child is still allocated
      have free := (asBefore.status np).mpr (freeSlot_free isSlot)
      unfold setProc at free
      dsimp only at free
      rw [Function.update_self] at free
      cases free
  | done outlinesNow =>
      cases lays with
      | mapped laid =>
          rw [← isLength] at outlines
          refine .forked isSlot some isOutlined made outlines laid ?_
          rw [publish_sz, publish_pagetable, setProc_self,
            setProc_of_ne different]
          exact ⟨congrArg ForkProc.sz isParent, rfl⟩

theorem sysFork_forks (forkable : k.Forkable p old) :
    Forks k p old (k.sysFork p) := by
  cases isSlot : k.freeSlot with
  | none =>
      have isRefused : k.sysFork p = .refused k := by
        unfold sysFork allocproc
        rw [isSlot]
      rw [isRefused]
      exact .asBefore (Or.inl isSlot) .refl
  | some np =>
      match isFree : k.store.free with
      | [] =>
          obtain ⟨later, isRefused, same⟩ :=
            sysFork_noTrapframe (p := p) isSlot isFree
          have few : k.store.free.length ≤ 2 := by
            rw [isFree]
            exact Nat.zero_le 2
          rw [isRefused]
          exact .asBefore (Or.inr few) same
      | [trapframe] =>
          obtain ⟨later, isRefused, same⟩ :=
            sysFork_noStack forkable isSlot isFree
          have few : k.store.free.length ≤ 2 := by
            rw [isFree]
            exact Nat.le_succ 1
          rw [isRefused]
          exact .asBefore (Or.inr few) same
      | [trapframe, kstack] =>
          obtain ⟨later, isRefused, same⟩ :=
            sysFork_noRoot forkable isSlot isFree
          have few : k.store.free.length ≤ 2 := by
            rw [isFree]
            exact Nat.le_refl 2
          rw [isRefused]
          exact .asBefore (Or.inr few) same
      | trapframe :: kstack :: page :: rest =>
          have pages := forkable.childPages isFree
          have some : 2 < k.store.free.length := by
            rw [isFree]
            exact Nat.lt_add_left rest.length (Nat.lt_succ_self 2)
          have slotUsed : k.freeSlot ≠ none := by
            rw [isSlot]
            exact Option.some_ne_none np
          have table :=
            procPagetable_spec pages.supplies.inMemory
              pages.supplies.distinct pages.supplies.aligned
          generalize isTable :
            procPagetable k.childPages (k.store.taking (page :: rest)) =
              result at table
          cases table with
          | none isEmpty => cases isEmpty
          | failed builds exhausted lacks =>
              obtain ⟨final, isRefused, leaks⟩ :=
                sysFork_noTable forkable isSlot isFree isTable builds exhausted
              have isBad : k.forkOutline p old = .bad := by
                unfold forkOutline
                rw [if_pos]
                rw [isFree]
                exact lacks
              rw [isRefused]
              exact .leaks slotUsed some isBad leaks
          | @built later root tables builds only count present =>
              obtain ⟨enough, outlines⟩ :=
                outlines_ofKernel pages.supplies builds only count present
              obtain ⟨made, outlinesNow⟩ :=
                newTable forkable isFree builds outlines
                  (k.proc p).trapframe
              have forks :=
                copyProcess_forks forkable isSlot isFree some
                  (Nat.not_lt_of_le enough) made outlinesNow
              rw [sysFork_stacked isSlot isFree]
              unfold makeTable
              rw [pagesOf_holding isFree]
              have isStore :
                  (k.holding np (k.stacked np trapframe kstack)
                    (k.store.taking (page :: rest))).store =
                      k.store.taking (page :: rest) :=
                rfl
              rw [isStore, isTable]
              exact forks

end ForkKernel

end MyOS
