import MyOS.ExecSegments

namespace MyOS

open Lib
open PageStore

/-!
# Outlines of address spaces

An outline knows which pages are mapped, which pages the table has and how many
pages are free.  It decides what becomes of a file: `sys_exec` on the page
store does what the same loops do on an outline.
-/

/-- The mapped pages, the pages of the table and the number of free pages. -/
structure Outline where
  pages : List Frame
  present : List PageIndex → Bool
  left : Nat

/-- What a loop comes to on an outline. -/
inductive Outlined where
  | panic
  | bad
  | done (outline : Outline)

/-- What the loop over the program headers comes to on an outline. -/
inductive OutlinedLoad where
  | panic
  | bad
  | loaded (sz : Word) (outline : Outline)

/-- The addresses of pages that follow one another. -/
def pagesFrom : Nat → Word → List Word
  | 0, _ => []
  | turns + 1, a => a :: pagesFrom turns (a + 4096)

/-- The addresses of the pages of a segment. -/
def ProgHdr.pages (ph : ProgHdr) : List Word :=
  pagesFrom
    (if PGROUNDDOWN ph.vaddr < PGROUNDUP (ph.vaddr + ph.memsz) then
      (PGROUNDUP (ph.vaddr + ph.memsz) - PGROUNDDOWN ph.vaddr).toNat / PGSIZE
    else
      0)
    (PGROUNDDOWN ph.vaddr)

namespace Outline

/-- A page is taken and mapped. -/
def place (va : Word) (outline : Outline) : Outlined :=
  if outline.left = 0 then
    .bad
  else if MAXVA ≤ va.toNat ∨ pageOf va ∈ outline.pages then
    .panic
  else if outline.left < missing outline.present va + 1 then
    .bad
  else
    .done {
      pages := pageOf va :: outline.pages
      present := adding outline.present va
      left := outline.left - (missing outline.present va + 1)
    }

/-- Pages are taken and mapped one after the other. -/
def placeAll : List Word → Outline → Outlined
  | [], outline => .done outline
  | va :: rest, outline =>
      match outline.place va with
      | .panic => .panic
      | .bad => .bad
      | .done outline => placeAll rest outline

/-- A segment is read into the pages that are mapped. -/
def readFrom
    (file : List UInt8) :
    Nat → Word → Word → Word → Outline → Outlined
  | 0, _, _, _, outline => .done outline
  | turns + 1, seg_va, file_off, file_sz, outline =>
      if file_sz = 0 then
        .done outline
      else if MAXVA ≤ seg_va.toNat then
        .panic
      else if pageOf seg_va ∉ outline.pages then
        .bad
      else if
          (fileRead file (file_off.setWidth 32)
              ((chunkAt seg_va file_sz).setWidth 32)).length ≠
            (chunkAt seg_va file_sz).toNat then
        .bad
      else
        readFrom file turns (seg_va + chunkAt seg_va file_sz)
          (file_off + chunkAt seg_va file_sz)
          (file_sz - chunkAt seg_va file_sz) outline

/-- A segment is mapped and read. -/
def loadSegment
    (file : List UInt8)
    (ph : ProgHdr)
    (outline : Outline) : Outlined :=
  match outline.placeAll ph.pages with
  | .panic => .panic
  | .bad => .bad
  | .done outline =>
      outline.readFrom file ph.filesz.toNat ph.vaddr ph.off ph.filesz

/-- The segments of the program headers, one after the other. -/
def loadFrom
    (file : List UInt8) :
    Nat → BitVec 32 → Word → Outline → OutlinedLoad
  | 0, _, sz, outline => .loaded sz outline
  | turns + 1, off, sz, outline =>
      let bytes := fileRead file off ProgHdr.size
      if bytes.length ≠ 56 then
        .bad
      else
        let ph := ProgHdr.ofBytes bytes
        if ph.type ≠ ELF_PROG_LOAD then
          loadFrom file turns (off + ProgHdr.size) sz outline
        else if ph.memsz < ph.filesz then
          .bad
        else if ph.vaddr + ph.memsz < ph.vaddr then
          .bad
        else
          match outline.loadSegment file ph with
          | .panic => .panic
          | .bad => .bad
          | .done outline =>
              loadFrom file turns (off + ProgHdr.size)
                (if sz < ph.vaddr + ph.memsz then ph.vaddr + ph.memsz else sz)
                outline

/-- The pages that a new table begins with. -/
def ofKernel (pages : KernelPages) (left : Nat) : Outline where
  pages := pages.mapped.map fun entry => pageOf entry.1
  present := pages.present
  left := left - (1 + pages.need)

/-- The address space for a file. -/
def make
    (pages : KernelPages)
    (file : List UInt8)
    (left : Nat) : OutlinedLoad :=
  let bytes := fileRead file 0 ElfHdr.size
  let elf := ElfHdr.ofBytes bytes
  if bytes.length ≠ 64 then
    .bad
  else if elf.magic ≠ ELF_MAGIC then
    .bad
  else if left < 1 + pages.need then
    .bad
  else
    match (ofKernel pages left).loadFrom file elf.phnum.toNat
      (elf.phoff.setWidth 32) 0 with
    | .panic => .panic
    | .bad => .bad
    | .loaded sz outline =>
        match outline.placeAll
          (PGROUNDUP sz :: pagesFrom stack_pages (PGROUNDUP sz + 4096)) with
        | .panic => .panic
        | .bad => .bad
        | .done outline =>
            .loaded (PGROUNDUP sz + 4096 + 4096 * 32) outline

end Outline

end MyOS
