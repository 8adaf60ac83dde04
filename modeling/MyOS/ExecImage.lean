import MyOS.PageBytes
import MyOS.PageRoutines

namespace MyOS

open Lib

/-!
# Images from files

The part of `sys_exec` that makes an address space from a file: the ELF header,
the program headers and their segments, the stub behind them and the stack.
The file is the list of its bytes.
-/

/-- `ELF_MAGIC` -/
def ELF_MAGIC : BitVec 32 := 0x464C457F

/-- `ELF_PROG_LOAD` -/
def ELF_PROG_LOAD : BitVec 32 := 1

/-- The fields of `struct elfhdr` that `sys_exec` reads. -/
structure ElfHdr where
  magic : BitVec 32
  entry : Word
  phoff : Word
  phnum : BitVec 16
  deriving Repr, DecidableEq

/-- The fields of `struct proghdr` that `sys_exec` reads. -/
structure ProgHdr where
  type : BitVec 32
  off : Word
  vaddr : Word
  filesz : Word
  memsz : Word
  deriving Repr, DecidableEq

/-- `sizeof(struct elfhdr)` -/
def ElfHdr.size : BitVec 32 := 64

/-- `sizeof(struct proghdr)` -/
def ProgHdr.size : BitVec 32 := 56

/-- The ELF header in the bytes that were read. -/
def ElfHdr.ofBytes (bytes : List UInt8) : ElfHdr where
  magic := .ofNat 32 ((Bytes.ofList bytes).le32 0)
  entry := .ofNat 64 ((Bytes.ofList bytes).le64 24)
  phoff := .ofNat 64 ((Bytes.ofList bytes).le64 32)
  phnum := .ofNat 16 ((Bytes.ofList bytes).le16 56)

/-- The program header in the bytes that were read. -/
def ProgHdr.ofBytes (bytes : List UInt8) : ProgHdr where
  type := .ofNat 32 ((Bytes.ofList bytes).le32 0)
  off := .ofNat 64 ((Bytes.ofList bytes).le64 8)
  vaddr := .ofNat 64 ((Bytes.ofList bytes).le64 16)
  filesz := .ofNat 64 ((Bytes.ofList bytes).le64 32)
  memsz := .ofNat 64 ((Bytes.ofList bytes).le64 40)

/-- The bytes that `readi(ip, 0, dst, off, n)` copies. -/
def fileRead (file : List UInt8) (off n : BitVec 32) : List UInt8 :=
  if file.length < off.toNat ∨ off + n < off then
    []
  else
    (file.drop off.toNat).take n.toNat

/-- The code behind the image: `exit(0)`. -/
def exitcode : List UInt8 :=
  [0x93, 0x08, 0x20, 0x00, 0x13, 0x05, 0x00, 0x00, 0x73, 0x00, 0x00, 0x00]

/-- What the loop over the program headers comes to. -/
inductive Loading where
  | panic
  | bad (store : PageStore)
  | loaded (sz : Word) (store : PageStore)

/-- The address space that `sys_exec` has made. -/
structure Image where
  pagetable : Word
  sz : Word
  exitstub : Word
  stackbase : Word
  entry : Word
  deriving Repr, DecidableEq

/--
What the making of an address space comes to; where it goes to `bad`, there
may be a page table already.
-/
inductive Making where
  | panic
  | bad (new_pagetable : Option Word) (store : PageStore)
  | made (image : Image) (store : PageStore)

namespace PageStore

/-- A loop that maps cleared pages, with as many turns as there are pages. -/
def mapPagesFrom
    (end_address pagetable perm : Word) :
    Nat → Word → PageStore → Mapping
  | 0, _, store => .mapped store
  | turns + 1, a, store =>
      match store.mapFresh end_address pagetable a perm
        (fun mem store => store.zero mem) with
      | .panic => .panic
      | .failed store => .failed store
      | .mapped store =>
          mapPagesFrom end_address pagetable perm turns (a + 4096) store

/--
The loop that reads a segment into its pages.  Each turn reads one byte at
least, so that there are no more turns than bytes.
-/
def readSegmentFrom
    (pagetable : Word)
    (file : List UInt8) :
    Nat → Word → Word → Word → PageStore → Mapping
  | 0, _, _, _, store => .mapped store
  | turns + 1, seg_va, file_off, file_sz, store =>
      if file_sz = 0 then
        .mapped store
      else
        let a := PGROUNDDOWN seg_va
        let offset_in_page := seg_va - a
        let n :=
          if file_sz < 4096 - offset_in_page then file_sz
          else 4096 - offset_in_page
        match (store.walk false pagetable a).1 with
        | .outOfRange => .panic
        | .null => .failed store
        | .entry pte =>
            if ¬ carries (store.load pte) PTE_V then
              .failed store
            else
              let bytes :=
                fileRead file (file_off.setWidth 32) (n.setWidth 32)
              let store :=
                store.putBytes (PTE2PA (store.load pte) + offset_in_page)
                  bytes
              if bytes.length ≠ n.toNat then
                .failed store
              else
                readSegmentFrom pagetable file turns (seg_va + n)
                  (file_off + n) (file_sz - n) store

/-- A segment is mapped and read. -/
def loadSegment
    (end_address pagetable : Word)
    (file : List UInt8)
    (ph : ProgHdr)
    (store : PageStore) : Mapping :=
  let va_start := PGROUNDDOWN ph.vaddr
  let va_end := PGROUNDUP (ph.vaddr + ph.memsz)
  match store.mapPagesFrom end_address pagetable
    (PTE_R ||| PTE_W ||| PTE_X ||| PTE_U)
    (if va_start < va_end then (va_end - va_start).toNat / PGSIZE else 0)
    va_start with
  | .panic => .panic
  | .failed store => .failed store
  | .mapped store =>
      store.readSegmentFrom pagetable file ph.filesz.toNat ph.vaddr ph.off
        ph.filesz

/--
The loop over the program headers, with as many turns as there are headers
left; the offset of a header is an `int`.
-/
def loadFrom
    (end_address pagetable : Word)
    (file : List UInt8) :
    Nat → BitVec 32 → Word → PageStore → Loading
  | 0, _, sz, store => .loaded sz store
  | turns + 1, off, sz, store =>
      let bytes := fileRead file off ProgHdr.size
      if bytes.length ≠ 56 then
        .bad store
      else
        let ph := ProgHdr.ofBytes bytes
        if ph.type ≠ ELF_PROG_LOAD then
          loadFrom end_address pagetable file turns (off + ProgHdr.size) sz
            store
        else if ph.memsz < ph.filesz then
          .bad store
        else if ph.vaddr + ph.memsz < ph.vaddr then
          .bad store
        else
          match store.loadSegment end_address pagetable file ph with
          | .panic => .panic
          | .failed store => .bad store
          | .mapped store =>
              loadFrom end_address pagetable file turns (off + ProgHdr.size)
                (if sz < ph.vaddr + ph.memsz then ph.vaddr + ph.memsz else sz)
                store

/-- The page with the code behind the image. -/
def fillStub (mem : Word) (store : PageStore) : PageStore :=
  (store.zero mem).putBytes mem exitcode

/-- How many pages the stack has. -/
def stack_pages : Nat := 32

/-- The address space for a file, from its header to its stack. -/
def makeImage
    (end_address : Word)
    (pages : KernelPages)
    (file : List UInt8)
    (store : PageStore) : Making :=
  let bytes := fileRead file 0 ElfHdr.size
  let elf := ElfHdr.ofBytes bytes
  if bytes.length ≠ 64 then
    .bad none store
  else if elf.magic ≠ ELF_MAGIC then
    .bad none store
  else
    match procPagetable pages store with
    | .error _ => .panic
    | .ok (none, store) => .bad none store
    | .ok (some pagetable, store) =>
        match store.loadFrom end_address pagetable file elf.phnum.toNat
          (elf.phoff.setWidth 32) 0 with
        | .panic => .panic
        | .bad store => .bad pagetable store
        | .loaded sz store =>
            let exitstub := PGROUNDUP sz
            match store.mapFresh end_address pagetable exitstub
              (PTE_R ||| PTE_X ||| PTE_U) fillStub with
            | .panic => .panic
            | .failed store => .bad pagetable store
            | .mapped store =>
                let stackbase := exitstub + 4096
                match store.mapPagesFrom end_address pagetable
                  (PTE_R ||| PTE_W ||| PTE_U) stack_pages stackbase with
                | .panic => .panic
                | .failed store => .bad pagetable store
                | .mapped store =>
                    .made {
                      pagetable := pagetable
                      sz := stackbase + 4096 * 32
                      exitstub := exitstub
                      stackbase := stackbase
                      entry := elf.entry
                    } store

end PageStore

end MyOS
