import MyOS.ForkOutcome

namespace MyOS

open Lib
open PageStore

/-!
# When `fork` clones, and when it leaves nothing behind

The pages that `proc_pagetable` maps for a child are in its table before any
page of the parent is copied.  Where one of them is below the break, the copy
panics or the child has a page that its parent has not.
-/

namespace Outline

variable {outline : Outline} {va : Word} {addresses : List Word}

theorem placeAll_ne_panic
    (below : ∀ va ∈ addresses, va.toNat < MAXVA)
    (fresh : ∀ va ∈ addresses, pageOf va ∉ outline.pages)
    (distinct : (addresses.map pageOf).Nodup) :
    outline.placeAll addresses ≠ .panic := by
  induction addresses generalizing outline with
  | nil =>
      intro isPanic
      cases isPanic
  | cons va rest inductionHypothesis =>
      intro isPanic
      rw [List.map_cons, List.nodup_cons] at distinct
      unfold placeAll at isPanic
      cases isPlaced : outline.place va with
      | panic =>
          unfold place at isPlaced
          have fine : ¬ (MAXVA ≤ va.toNat ∨ pageOf va ∈ outline.pages) :=
            not_or.mpr
              ⟨Nat.not_le_of_lt (below va List.mem_cons_self),
                fresh va List.mem_cons_self⟩
          rw [if_neg fine] at isPlaced
          split at isPlaced
          next => cases isPlaced
          next =>
            split at isPlaced
            next => cases isPlaced
            next => cases isPlaced
      | bad =>
          rw [isPlaced] at isPanic
          cases isPanic
      | done inner =>
          rw [isPlaced] at isPanic
          obtain ⟨_, _, _, isInner⟩ := place_done isPlaced
          refine inductionHypothesis
            (fun other isIn => below other (List.mem_cons_of_mem _ isIn))
            ?_ distinct.2 isPanic
          intro other isIn isMapped
          rw [isInner, List.mem_cons] at isMapped
          rcases isMapped with same | before
          · exact distinct.1 (same ▸ List.mem_map_of_mem isIn)
          · exact fresh other (List.mem_cons_of_mem _ isIn) before

theorem ofKernel_userret (pages : KernelPages) (left : Nat) :
    pageOf (PGROUNDDOWN pages.userret) ∈ (ofKernel pages left).pages := by
  refine List.mem_map.mpr ⟨pages.userretPage, ?_, rfl⟩
  exact List.mem_cons_of_mem _ (List.mem_cons_of_mem _ List.mem_cons_self)

theorem lacking_le
    (present : List PageIndex → Bool)
    (va : Word)
    (level : Nat)
    (path : List PageIndex) :
    lacking present va level path ≤ level := by
  induction level generalizing path with
  | zero => exact Nat.le_refl 0
  | succ level inductionHypothesis =>
      unfold lacking
      split
      next => exact Nat.le_succ_of_le (inductionHypothesis _)
      next => exact Nat.le_refl _

theorem placeAll_panic
    (isIn : va ∈ addresses)
    (isMapped : pageOf va ∈ outline.pages)
    (enough : 3 * addresses.length ≤ outline.left) :
    outline.placeAll addresses = .panic := by
  induction addresses generalizing outline with
  | nil => cases isIn
  | cons head rest inductionHypothesis =>
      rw [List.length_cons] at enough
      have few : missing outline.present head ≤ 2 :=
        lacking_le outline.present head 2 []
      unfold placeAll
      cases isPlaced : outline.place head with
      | panic => rfl
      | bad =>
          unfold place at isPlaced
          rw [if_neg (by omega)] at isPlaced
          split at isPlaced
          next => cases isPlaced
          next =>
            rw [if_neg (by omega)] at isPlaced
            cases isPlaced
      | done inner =>
          obtain ⟨_, notMapped, _, isInner⟩ := place_done isPlaced
          have isRest : va ∈ rest := by
            rcases List.mem_cons.mp isIn with same | isLater
            · rw [same] at isMapped
              exact absurd isMapped notMapped
            · exact isLater
          apply inductionHypothesis isRest
          · rw [isInner]
            exact List.mem_cons_of_mem _ isMapped
          · rw [isInner]
            dsimp only
            omega

end Outline

namespace PageStore

variable {store : PageStore} {old : Frame} {i va : Word} {turns : Nat}

theorem mappedFrom_distinct
    (aligned : i.toNat % 4096 = 0)
    (high : i.toNat + 4096 * turns ≤ MAXVA) :
    ((store.mappedFrom old turns i).map pageOf).Nodup := by
  induction turns generalizing i with
  | zero => exact List.nodup_nil
  | succ turns inductionHypothesis =>
      have below : i.toNat < MAXVA := by
        omega
      have next := toNat_next below
      have nextAligned : (i + 4096).toNat % 4096 = 0 := by
        rw [next]
        omega
      have nextHigh : (i + 4096).toNat + 4096 * turns ≤ MAXVA := by
        rw [next]
        omega
      have rest := inductionHypothesis nextAligned nextHigh
      unfold mappedFrom
      split
      next =>
        rw [List.map_cons, List.nodup_cons]
        refine ⟨?_, rest⟩
        intro isIn
        obtain ⟨other, isLater, same⟩ := List.mem_map.mp isIn
        obtain ⟨otherAligned, ⟨lower, _⟩, _⟩ :=
          (mem_mappedFrom nextAligned nextHigh).mp isLater
        have samePage := congrArg (fun frame => (frameAddress frame).toNat) same
        rw [frameAddress_pageOf, frameAddress_pageOf, toNat_pgrounddown,
          toNat_pgrounddown] at samePage
        omega
      next => exact rest

end PageStore

namespace ForkKernel

variable {k later : ForkKernel} {p np : Slot} {old new : Frame}

/-- The child has what its parent has below the break. -/
def ClonesParent
    (k : ForkKernel)
    (p : Slot)
    (old : Frame)
    (np : Slot)
    (later : ForkKernel) : Prop :=
  (later.proc np).sz = (k.proc p).sz ∧
    ∃ new, (later.proc np).pagetable = frameAddress new ∧
      Clones k.store old (k.proc p).sz later.store new

/-- The pages of the child's first mappings are not below the break. -/
def KernelAboveBreak (k : ForkKernel) (p : Slot) : Prop :=
  ∀ entry ∈ k.childPages.mapped, (k.proc p).sz.toNat ≤ entry.1.toNat

theorem KernelAboveBreak.apart
    {va : Word}
    {left : Nat}
    (above : k.KernelAboveBreak p)
    (below : va.toNat < (k.proc p).sz.toNat) :
    pageOf va ∉ (Outline.ofKernel k.childPages left).pages := by
  intro isMapped
  obtain ⟨entry, isIn, same⟩ := List.mem_map.mp isMapped
  have isPage := mapped_aligned entry isIn
  have samePage := congrArg (fun frame => (frameAddress frame).toNat) same
  rw [frameAddress_pageOf, frameAddress_pageOf, isPage, toNat_pgrounddown]
    at samePage
  have high := above entry isIn
  omega

theorem KernelAboveBreak.ne_panic
    (above : k.KernelAboveBreak p)
    (forkable : k.Forkable p old) :
    k.forkOutline p old ≠ .panic := by
  have inRange : (k.proc p).sz.toNat ≤ MAXVA := forkable.space.inRange
  have low {va : Word} (isIn : va ∈ k.mappedPages p old) :
      va.toNat < (k.proc p).sz.toNat :=
    ((mem_mapped_iff inRange).mp isIn).2.1
  unfold forkOutline
  split
  next =>
    intro isPanic
    cases isPanic
  next =>
    apply Outline.placeAll_ne_panic
    · exact fun va isIn => Nat.lt_of_lt_of_le (low isIn) inRange
    · exact fun va isIn => above.apart (low isIn)
    · exact mappedFrom_distinct rfl (copyTurns_high inRange)

theorem KernelAboveBreak.clones
    {first store : PageStore}
    {frames : List Frame}
    {left : Nat}
    (above : k.KernelAboveBreak p)
    (forkable : k.Forkable p old)
    (made : k.store.NewTable first new)
    (outlines :
      Outlines k.end_address new first (Outline.ofKernel k.childPages left))
    (laid :
      Laid new first ((k.mappedPages p old).map (k.store.copyItem old)) frames
        store) :
    Clones k.store old (k.proc p).sz store new := by
  have inRange : (k.proc p).sz.toNat ≤ MAXVA := forkable.space.inRange
  refine clones_of_laid forkable.space.maps inRange made ?_ laid
  intro va below isValid
  exact above.apart below
    ((outlines.pages va (Nat.lt_of_lt_of_le below inRange)).mp isValid)

theorem aboveBreak_of_clones
    {first store : PageStore}
    {frames : List Frame}
    {left : Nat}
    (forkable : k.Forkable p old)
    (outlines :
      Outlines k.end_address new first (Outline.ofKernel k.childPages left))
    (laid :
      Laid new first ((k.mappedPages p old).map (k.store.copyItem old)) frames
        store)
    (clones : Clones k.store old (k.proc p).sz store new) :
    k.KernelAboveBreak p := by
  intro entry isIn
  by_contra notAbove
  have below := Nat.lt_of_not_le notAbove
  have inRange : (k.proc p).sz.toNat ≤ MAXVA := forkable.space.inRange
  have low : entry.1.toNat < MAXVA := Nat.lt_of_lt_of_le below inRange
  have isThere : carries (first.pteAt new entry.1) PTE_V = true :=
    (outlines.pages entry.1 low).mpr (List.mem_map_of_mem isIn)
  have notCopied :
      ∀ item ∈ (k.mappedPages p old).map (k.store.copyItem old),
        pageOf entry.1 ≠ pageOf item.va := by
    intro item isItem same
    obtain ⟨itemLow, unmapped⟩ := laid.fine.1 item isItem
    rw [← pteAt_congr itemLow low same] at unmapped
    exact unmapped isThere
  have isPage := congrArg BitVec.toNat (mapped_aligned entry isIn)
  rw [toNat_pgrounddown] at isPage
  have aligned : entry.1.toNat % 4096 = 0 := by
    omega
  have notParent : k.store.mappingAt old entry.1 = none := by
    apply mappingAt_eq_none
    intro isValid
    have isMapped : entry.1 ∈ k.mappedPages p old :=
      (mem_mapped_iff inRange).mpr ⟨aligned, below, isValid⟩
    exact notCopied _ (List.mem_map_of_mem isMapped) rfl
  have notChild := clones.unmapped entry.1 below notParent
  have stays : store.pteAt new entry.1 = first.pteAt new entry.1 :=
    laid.kept low notCopied
  have isMapping :
      store.mappingAt new entry.1 = some (first.pteAt new entry.1) :=
    mappingAt_eq_some.mpr ⟨stays, isThere⟩
  rw [notChild] at isMapping
  cases isMapping

/--
`fork` never panics and makes a clone exactly when there is no free slot, the
pages run out, or the pages that `proc_pagetable` maps for the child are not
below the break.
-/
theorem fork_clones_iff
    (forkable : k.Forkable p old) :
    (k.sysFork p ≠ .panic ∧
        ∀ np later, k.sysFork p = .forked np later →
          ClonesParent k p old np later) ↔
      k.freeSlot = none ∨ k.forkOutline p old = .bad ∨
        k.KernelAboveBreak p := by
  have forks := sysFork_forks forkable
  generalize k.sysFork p = result at forks
  cases forks with
  | asBefore early same =>
      have isNone : k.freeSlot = none ∨ k.forkOutline p old = .bad := by
        rcases early with isNone | few
        · exact Or.inl isNone
        · refine Or.inr ?_
          unfold forkOutline
          rw [if_pos]
          omega
      refine iff_of_true ⟨?_, ?_⟩ (or_assoc.mp (Or.inl isNone))
      · intro isPanic
        cases isPanic
      · intro np later isForked
        cases isForked
  | leaks slot some isBad leaks =>
      refine iff_of_true ⟨?_, ?_⟩ (Or.inr (Or.inl isBad))
      · intro isPanic
        cases isPanic
      · intro np later isForked
        cases isForked
  | panic slot some isPanic =>
      refine iff_of_false (fun holds => holds.1 rfl) ?_
      rintro (isNone | isBad | above)
      · exact slot isNone
      · rw [isPanic] at isBad
        cases isBad
      · exact above.ne_panic forkable isPanic
  | @forked np later first new outline frames isFree some isDone made outlines
      laid memory =>
      constructor
      · rintro ⟨_, clones⟩
        obtain ⟨_, other, isTable, isClone⟩ := clones np later rfl
        have same : other = new :=
          frameAddress_inj.mp (isTable.symm.trans memory.2)
        rw [same] at isClone
        exact Or.inr (Or.inr
          (aboveBreak_of_clones forkable outlines laid isClone))
      · rintro (isNone | isBad | above)
        · rw [isFree] at isNone
          cases isNone
        · rw [isDone] at isBad
          cases isBad
        · refine ⟨?_, ?_⟩
          · intro isPanic
            cases isPanic
          · intro child after isForked
            obtain ⟨rfl, rfl⟩ := ForkResult.forked.inj isForked
            exact ⟨memory.1, new, memory.2,
              above.clones forkable made outlines laid⟩

/--
A `fork` that returns -1 leaves everything as it was exactly when there is no
free slot, when there are two free pages at most, or when the pages do not run
out.
-/
theorem fork_failsCleanly_iff
    (forkable : k.Forkable p old) :
    (∀ later, k.sysFork p = .refused later → AsBefore k later) ↔
      k.freeSlot = none ∨ k.store.free.length ≤ 2 ∨
        k.forkOutline p old ≠ .bad := by
  have forks := sysFork_forks forkable
  generalize k.sysFork p = result at forks
  cases forks with
  | asBefore early same =>
      refine iff_of_true ?_ (or_assoc.mp (Or.inl early))
      intro later isRefused
      rw [← ForkResult.refused.inj isRefused]
      exact same
  | leaks slot some isBad leaks =>
      refine iff_of_false (fun clean => leaks (clean _ rfl)) ?_
      rintro (isNone | few | notBad)
      · exact slot isNone
      · exact Nat.not_lt_of_le few some
      · exact notBad isBad
  | panic slot some isPanic =>
      refine iff_of_true ?_ (Or.inr (Or.inr ?_))
      · intro later isRefused
        cases isRefused
      · rw [isPanic]
        intro isBad
        cases isBad
  | forked isFree some isDone made outlines laid memory =>
      refine iff_of_true ?_ (Or.inr (Or.inr ?_))
      · intro later isRefused
        cases isRefused
      · rw [isDone]
        intro isBad
        cases isBad

theorem sysFork_panics
    (forkable : k.Forkable p old)
    (slot : k.freeSlot ≠ none)
    (isPanic : k.forkOutline p old = .panic) :
    k.sysFork p = .panic := by
  have forks := sysFork_forks forkable
  generalize k.sysFork p = result at forks
  cases forks with
  | asBefore early same =>
      rcases early with isNone | few
      · exact absurd isNone slot
      · unfold forkOutline at isPanic
        rw [if_pos (by omega)] at isPanic
        cases isPanic
  | leaks _ _ isBad _ =>
      rw [isPanic] at isBad
      cases isBad
  | panic => rfl
  | forked _ _ isDone _ _ _ _ =>
      rw [isPanic] at isDone
      cases isDone

theorem sysFork_leaks
    (forkable : k.Forkable p old)
    (slot : k.freeSlot ≠ none)
    (some : 2 < k.store.free.length)
    (isBad : k.forkOutline p old = .bad) :
    ∃ later, k.sysFork p = .refused later ∧ ¬ AsBefore k later := by
  have forks := sysFork_forks forkable
  generalize k.sysFork p = result at forks
  cases forks with
  | asBefore early same =>
      rcases early with isNone | few
      · exact absurd isNone slot
      · exact absurd some (Nat.not_lt_of_le few)
  | leaks _ _ _ leaks => exact ⟨_, rfl, leaks⟩
  | panic _ _ isPanic =>
      rw [isPanic] at isBad
      cases isBad
  | forked _ _ isDone _ _ _ _ =>
      rw [isDone] at isBad
      cases isBad

end ForkKernel

/-! ## One process -/

/-- A kernel with one process, which runs an image. -/
def Image.kernel (image : Image) (store : PageStore) : ForkKernel where
  proc := fun slot =>
    { status := if slot = 0 then .running else .free
      pid := 1
      pagetable := image.pagetable
      trapframe := examplePages.trapframe
      kstack := 0
      sz := image.sz
      parent := none
      xstate := 0
      chan := none
      killed := false
      ofile := fun _ => none
      cwd := none
      cwd_path := [] }
  nextpid := 2
  fileRef := fun _ => 0
  inodeRef := fun _ => 0
  userret := examplePages.userret
  uservec := examplePages.uservec
  end_address := exampleEnd
  store := store

/-- A property of the image that a file is made into. -/
def OutlinedLoad.fits (test : Word → Outline → Bool) : OutlinedLoad → Bool
  | .panic => false
  | .bad => false
  | .loaded sz outline => test sz outline

theorem exampleText :
    ForkKernel.Text exampleEnd examplePages.userret examplePages.uservec where
  userretLow := by decide +kernel
  uservecLow := by decide +kernel
  near := by decide +kernel
  userretBelow := by decide +kernel
  uservecBelow := by decide +kernel

theorem exampleText_page : PGROUNDDOWN examplePages.userret = 0x80001000 := by
  decide +kernel

namespace Image

variable {image : Image} {store : PageStore} {root : Frame}

theorem kernel_freeSlot : (image.kernel store).freeSlot ≠ none := by
  intro isNone
  have used := List.find?_eq_none.mp isNone 1 (List.mem_finRange 1)
  exact used rfl

theorem kernel_forkable
    (space : (image.memory store).Space exampleEnd root) :
    (image.kernel store).Forkable 0 root where
  space := space
  text := exampleText
  inUse := by
    intro isFree
    cases isFree

end Image

theorem exampleLoads
    {count : Nat}
    {file : List UInt8}
    {test : Word → Outline → Bool}
    (few : count ≤ 1000)
    (met : (Outline.make examplePages file count).fits test = true) :
    ∃ image loaded root outline,
      (exampleStore count).makeImage exampleEnd examplePages file =
          .made image loaded ∧
        (image.kernel loaded).Forkable 0 root ∧
          Outlines exampleEnd root loaded outline ∧
            test image.sz outline = true := by
  cases isLoaded : Outline.make examplePages file count with
  | panic =>
      rw [isLoaded] at met
      cases met
  | bad =>
      rw [isLoaded] at met
      cases met
  | loaded sz outline =>
      rw [isLoaded] at met
      rw [← length_exampleStore count] at isLoaded
      obtain ⟨image, later, root, isMade, isBreak, isRoot, outlines⟩ :=
        makeImage_of_outline (exampleSupplies few) isLoaded
      refine ⟨image, later, root, outline, isMade,
        Image.kernel_forkable ?_, outlines, ?_⟩
      · refine ⟨isRoot, outlines.workable.apart, outlines.workable.freeable, ?_⟩
        have below := Outline.make_below isLoaded
        rw [← isBreak] at below
        exact below
      · rw [isBreak]
        exact met

/-- A file with a segment above the memory of the kernel -/
def highFile : List UInt8 :=
  exampleFile
    (field 4 1 ++ field 4 7 ++ field 8 0 ++ field 8 0x90000000 ++
      field 16 0 ++ field 8 4096 ++ field 8 4096)

/-- A program with a page above the kernel is started, and panics the kernel
when it calls `fork`. -/
theorem fork_panics_highFile :
    ∃ image loaded,
      (exampleStore 400).makeImage exampleEnd examplePages highFile =
          .made image loaded ∧
        (image.kernel loaded).sysFork 0 = .panic := by
  have met :
      (Outline.make examplePages highFile 400).fits
          (fun sz outline =>
            decide (0x80001000 < sz.toNat) &&
              outline.pages.contains (pageOf 0x80001000) &&
                decide (3 * outline.pages.length + 7 ≤ outline.left)) =
        true := by
    decide +kernel
  obtain ⟨image, loaded, root, outline, isMade, forkable, outlines, checked⟩ :=
    exampleLoads (by decide) met
  refine ⟨image, loaded, isMade, ?_⟩
  simp only [Bool.and_eq_true, decide_eq_true_eq, List.contains_iff_mem]
    at checked
  obtain ⟨⟨isHigh, isMapped⟩, enough⟩ := checked
  have inRange : image.sz.toNat ≤ MAXVA := forkable.space.inRange
  have low : (0x80001000 : Word).toNat < MAXVA :=
    Nat.lt_of_lt_of_le isHigh inRange
  have isCopied :
      (0x80001000 : Word) ∈ (image.kernel loaded).mappedPages 0 root :=
    (mem_mapped_iff inRange).mpr
      ⟨rfl, isHigh, (outlines.pages _ low).mpr isMapped⟩
  -- the pages that are mapped are among those of the outline
  have few :
      ((image.kernel loaded).mappedPages 0 root).length ≤
        outline.pages.length := by
    have distinct :
        (((image.kernel loaded).mappedPages 0 root).map pageOf).Nodup :=
      mappedFrom_distinct rfl (copyTurns_high inRange)
    have among :
        ((image.kernel loaded).mappedPages 0 root).map pageOf ⊆
          outline.pages := by
      intro frame isIn
      obtain ⟨va, isVa, isFrame⟩ := List.mem_map.mp isIn
      obtain ⟨_, below, isValid⟩ := (mem_mapped_iff inRange).mp isVa
      rw [← isFrame]
      exact (outlines.pages va (Nat.lt_of_lt_of_le below inRange)).mp isValid
    have shorter := (List.subperm_of_subset distinct among).length_le
    rw [List.length_map] at shorter
    exact shorter
  have need : (image.kernel loaded).childPages.need ≤ 4 :=
    Nat.add_le_add (Outline.lacking_le ..) (Outline.lacking_le ..)
  have isLeft : (image.kernel loaded).store.free.length = outline.left :=
    outlines.left
  apply ForkKernel.sysFork_panics forkable Image.kernel_freeSlot
  unfold ForkKernel.forkOutline
  rw [if_neg (by omega)]
  apply Outline.placeAll_panic isCopied
  · rw [← exampleText_page]
    exact Outline.ofKernel_userret _ _
  · unfold Outline.ofKernel
    dsimp only
    omega

theorem Image.kernel_aboveBreak
    {image : Image}
    {store : PageStore}
    {root : Frame}
    (forkable : (image.kernel store).Forkable 0 root)
    (some : 0 < store.free.length)
    (isBreak : image.sz = 0x21000) :
    (image.kernel store).KernelAboveBreak 0 := by
  have size : ((image.kernel store).proc 0).sz.toNat = 0x21000 :=
    congrArg BitVec.toNat isBreak
  intro entry isIn
  rw [size]
  rcases List.mem_cons.mp isIn with isFrame | isText
  · obtain ⟨page, rest, isFree⟩ :=
      List.exists_cons_of_length_pos some
    have pageFree : page ∈ (image.kernel store).store.free := by
      have isStore : (image.kernel store).store.free = store.free := rfl
      rw [isStore, isFree]
      exact List.mem_cons_self
    have isPage : PGROUNDDOWN page = page :=
      forkable.space.maps.table.aligned page pageFree
    have isTrapframe : (image.kernel store).childPages.trapframe = page := by
      have isHead :
          (image.kernel store).childPages.trapframe =
            store.free.headD 0 :=
        rfl
      rw [isHead, isFree]
      rfl
    have freeable := forkable.space.freeable page pageFree
    obtain ⟨_, inside⟩ := not_or.mp freeable
    have notBelow := (not_or.mp inside).1
    have isEnd : (image.kernel store).end_address.toNat = 0x80100000 := rfl
    rw [isFrame]
    unfold KernelPages.trapframePage
    rw [isTrapframe, isPage]
    rw [BitVec.lt_def] at notBelow
    dsimp only
    omega
  · have low :
        ([examplePages.uservecPage, examplePages.userretPage].all fun entry =>
          decide (0x21000 ≤ entry.1.toNat)) = true := by
      decide +kernel
    exact of_decide_eq_true (List.all_eq_true.mp low entry isText)

/-- The image without segments is cloned. -/
theorem fork_clones_emptyImage :
    ∃ image loaded root,
      (exampleStore 400).makeImage exampleEnd examplePages (exampleFile []) =
          .made image loaded ∧
        (image.kernel loaded).sysFork 0 ≠ .panic ∧
          ∀ np later, (image.kernel loaded).sysFork 0 = .forked np later →
            ForkKernel.ClonesParent (image.kernel loaded) 0 root np later := by
  have met :
      (Outline.make examplePages (exampleFile []) 400).fits
          (fun sz outline => decide (sz = 0x21000 ∧ 0 < outline.left)) =
        true := by
    decide +kernel
  obtain ⟨image, loaded, root, outline, isMade, forkable, outlines, checked⟩ :=
    exampleLoads (by decide) met
  obtain ⟨isBreak, left⟩ := of_decide_eq_true checked
  rw [← outlines.left] at left
  exact ⟨image, loaded, root, isMade,
    (ForkKernel.fork_clones_iff forkable).mpr
      (Or.inr (Or.inr (Image.kernel_aboveBreak forkable left isBreak)))⟩

/-- With three free pages, a failed `fork` keeps some of them. -/
theorem fork_leaks_threePages :
    ∃ image loaded later,
      (exampleStore 41).makeImage exampleEnd examplePages (exampleFile []) =
          .made image loaded ∧
        (image.kernel loaded).sysFork 0 = .refused later ∧
          ¬ ForkKernel.AsBefore (image.kernel loaded) later := by
  have met :
      (Outline.make examplePages (exampleFile []) 41).fits
          (fun _ outline => decide (outline.left = 3)) =
        true := by
    decide +kernel
  obtain ⟨image, loaded, root, outline, isMade, forkable, outlines, checked⟩ :=
    exampleLoads (by decide) met
  have three : (image.kernel loaded).store.free.length = 3 :=
    outlines.left.trans (of_decide_eq_true checked)
  have need : 2 ≤ (image.kernel loaded).childPages.need :=
    Nat.le_add_right 2 _
  have isBad : (image.kernel loaded).forkOutline 0 root = .bad := by
    unfold ForkKernel.forkOutline
    rw [if_pos]
    omega
  obtain ⟨later, isRefused, leaks⟩ :=
    ForkKernel.sysFork_leaks forkable Image.kernel_freeSlot (by omega) isBad
  exact ⟨image, loaded, later, isMade, isRefused, leaks⟩

/-- With two free pages, a failed `fork` gives both of them back. -/
theorem fork_failsCleanly_twoPages :
    ∃ image loaded,
      (exampleStore 40).makeImage exampleEnd examplePages (exampleFile []) =
          .made image loaded ∧
        ∀ later, (image.kernel loaded).sysFork 0 = .refused later →
          ForkKernel.AsBefore (image.kernel loaded) later := by
  have met :
      (Outline.make examplePages (exampleFile []) 40).fits
          (fun _ outline => decide (outline.left = 2)) =
        true := by
    decide +kernel
  obtain ⟨image, loaded, root, outline, isMade, forkable, outlines, checked⟩ :=
    exampleLoads (by decide) met
  have two : (image.kernel loaded).store.free.length = 2 :=
    outlines.left.trans (of_decide_eq_true checked)
  exact ⟨image, loaded, isMade,
    (ForkKernel.fork_failsCleanly_iff forkable).mpr
      (Or.inr (Or.inl two.le))⟩

end MyOS
