import MyOS.Param
import MyOS.Lib.Chain

namespace MyOS

/-!
# The physical page allocator

`kalloc.c` keeps the free pages in a list threaded through their first
doublewords.  This module has the three functions as the code runs them
undisturbed.  Pages are named by their physical addresses; address zero is the
null pointer.
-/

/-- The list head and the first doubleword of every page. -/
structure PageMemory where
  freeMemList : Nat
  next : Nat → Nat

/-- The kernel image, which `kernel.ld` places at `KERNBASE`. -/
structure KernelImage where
  endAddress : Nat
  linked : KERNBASE ≤ endAddress

/-- The safety check of `kfree`; a page that fails it panics. -/
def KernelImage.validPage (image : KernelImage) (pa : Nat) : Prop :=
  pa % PGSIZE = 0 ∧ image.endAddress ≤ pa ∧ pa < PHYSTOP

instance (image : KernelImage) (pa : Nat) :
    Decidable (image.validPage pa) :=
  inferInstanceAs (Decidable (_ ∧ _ ∧ _))

/-- `kfree`: `none` is the panic on an invalid address. -/
def kfree
    (image : KernelImage)
    (memory : PageMemory)
    (pa : Nat) : Option PageMemory :=
  if image.validPage pa then
    some {
      freeMemList := pa
      next := Function.update memory.next pa memory.freeMemList }
  else
    none

/-- `kalloc`: the page taken from the head of the list, or null. -/
def kalloc (memory : PageMemory) : Nat × PageMemory :=
  if memory.freeMemList = 0 then
    (0, memory)
  else
    (memory.freeMemList,
      { memory with freeMemList := memory.next memory.freeMemList })

/-- The page addresses that the loop of `kinit` visits, in order. -/
def KernelImage.pages (image : KernelImage) : List Nat :=
  (List.range ((PHYSTOP - pgRoundUp image.endAddress) / PGSIZE)).map
    fun index => pgRoundUp image.endAddress + PGSIZE * index

/-- `kinit`: free every page from the end of the kernel to `PHYSTOP`. -/
def kinit (image : KernelImage) : Option PageMemory :=
  image.pages.foldlM (kfree image)
    { freeMemList := 0, next := fun _ => 0 }

/-- The free list runs through exactly these pages. -/
def PageMemory.FreeList (memory : PageMemory) (pages : List Nat) : Prop :=
  Lib.Chain 0 memory.next memory.freeMemList pages

namespace KernelImage

variable {image : KernelImage}

theorem validPage.ne_zero
    {pa : Nat}
    (valid : image.validPage pa) :
    pa ≠ 0 := by
  have above := Nat.le_trans image.linked valid.2.1
  rintro rfl
  simp [KERNBASE] at above

theorem mem_pages
    {pa : Nat} :
    pa ∈ image.pages ↔ image.validPage pa := by
  simp only [pages, validPage, List.mem_map, List.mem_range]
  unfold pgRoundUp PGSIZE PHYSTOP KERNBASE
  constructor
  · rintro ⟨index, bound, rfl⟩
    omega
  · rintro ⟨aligned, above, below⟩
    refine ⟨(pa - (image.endAddress + (4096 - 1)) / 4096 * 4096) / 4096,
      ?_, ?_⟩ <;> omega

theorem pages_nodup : image.pages.Nodup := by
  have injective
      (start : Nat) :
      Function.Injective fun index => start + PGSIZE * index := by
    intro first second same
    simp only [PGSIZE] at same
    omega
  exact List.nodup_range.map (injective _)

end KernelImage

theorem PageMemory.FreeList.kfree
    {image : KernelImage}
    {memory : PageMemory}
    {pages : List Nat}
    (freeList : memory.FreeList pages)
    {pa : Nat}
    (valid : image.validPage pa)
    (notFree : pa ∉ pages) :
    ∃ after,
      MyOS.kfree image memory pa = some after ∧
        after.FreeList (pa :: pages) :=
  ⟨{ freeMemList := pa
     next := Function.update memory.next pa memory.freeMemList },
    by simp [MyOS.kfree, valid],
    Lib.Chain.push freeList valid.ne_zero notFree⟩

theorem PageMemory.FreeList.kalloc
    {memory : PageMemory}
    {page : Nat}
    {pages : List Nat}
    (freeList : memory.FreeList (page :: pages)) :
    (MyOS.kalloc memory).1 = page ∧
      (MyOS.kalloc memory).2.FreeList pages := by
  obtain ⟨head, link⟩ := memory
  cases freeList with
  | cons notNull tail =>
      exact ⟨by simp_all [MyOS.kalloc], by simpa [MyOS.kalloc, notNull]⟩

theorem PageMemory.FreeList.kalloc_nil
    {memory : PageMemory}
    (freeList : memory.FreeList []) :
    MyOS.kalloc memory = (0, memory) := by
  obtain ⟨head, link⟩ := memory
  cases freeList
  rfl

theorem kinit_freeList (image : KernelImage) :
    ∃ memory,
      kinit image = some memory ∧
        memory.FreeList image.pages.reverse := by
  have threaded :
      ∀ (pages freed : List Nat) (memory : PageMemory),
        memory.FreeList freed →
        (∀ pa ∈ pages, image.validPage pa) →
        pages.Nodup →
        (∀ pa ∈ pages, pa ∉ freed) →
        ∃ after,
          pages.foldlM (kfree image) memory = some after ∧
            after.FreeList (pages.reverse ++ freed) := by
    intro pages
    induction pages with
    | nil =>
        intro freed memory freeList _ _ _
        exact ⟨memory, rfl, freeList⟩
    | cons pa rest inductionHypothesis =>
        intro freed memory freeList valid distinct fresh
        obtain ⟨after, freedNow, afterList⟩ :=
          freeList.kfree (valid pa List.mem_cons_self)
            (fresh pa List.mem_cons_self)
        rw [List.nodup_cons] at distinct
        obtain ⟨final, freedLater, finalList⟩ :=
          inductionHypothesis (pa :: freed) after afterList
            (fun page inRest => valid page (List.mem_cons_of_mem _ inRest))
            distinct.2
            (by
              intro page inRest
              simp only [List.mem_cons, not_or]
              refine ⟨?_, fresh page (List.mem_cons_of_mem _ inRest)⟩
              rintro rfl
              exact distinct.1 inRest)
        refine ⟨final, ?_, by simpa using finalList⟩
        simpa [List.foldlM_cons, freedNow] using freedLater
  have run :=
    threaded image.pages [] { freeMemList := 0, next := fun _ => 0 }
      .nil (fun pa member => KernelImage.mem_pages.mp member)
      KernelImage.pages_nodup (by simp)
  simpa [kinit] using run

end MyOS
