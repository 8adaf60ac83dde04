import Mathlib.Data.List.DropRight
import MyOS.DiskFormat
import MyOS.DirectoryEntries
import MyOS.WorkingDirectory

namespace MyOS

open Lib

/-!
# The image builder

`mkfs.c`: the image as bytes at offsets, the directories that are kept in
memory until the end, and the files that are packed on the way.  The host is a
function from source paths to what a sequence of reads returns.  The image can
be written; every other `die` is a fault.
-/

/-- `FSMAGIC` -/
def FSMAGIC : Nat := 0x10203040

/-- `NLOG` -/
def NLOG : Nat := 30

/-- `LOG_START` -/
def LOG_START : Nat := 2

/-- `MAX_IMAGE_PATH` -/
def MAX_IMAGE_PATH : Nat := 128

/-- `MAX_DIRS` -/
def MAX_DIRS : Nat := 32

/-- `MAX_DIRENTS` -/
def MAX_DIRENTS : Nat := BSIZE / direntSize

/-- `MAX_PACKED_FILES` -/
def MAX_PACKED_FILES : Nat := 512

/-- Why `mkfs` gives up. -/
inductive MkfsError where
  | outOfInodes
  | outOfBlocks
  | emptyComponent
  | componentTooLong
  | tooManyEntries
  | duplicateEntry
  | tooManyDirectories
  | parentTooLong
  | imagePathTooLong
  | notAbsolute
  | notAFile
  | invalidSource
  | sourceTooLong
  | cannotOpen
  | fileTooLarge
  | readFailed
  | tooManyFiles
  deriving Repr, DecidableEq

/-- A file of the host: what the reads return, and how the last one ends. -/
structure HostFile where
  chunks : List (List UInt8)
  failed : Bool
  bounded : ∀ chunk ∈ chunks, chunk ≠ [] ∧ chunk.length ≤ BSIZE

/-- The bytes of a file of the host. -/
def HostFile.content (file : HostFile) : List UInt8 :=
  file.chunks.flatten

/-- `struct image_dir`; `nentry` is the length of the list. -/
structure ImageDir where
  path : List UInt8
  inum : Nat
  parentInum : Nat
  blockno : Nat
  inode : Dinode
  entries : List (List UInt8 × Nat)

/-- `struct image_file` -/
structure ImageFile where
  src : List UInt8
  inum : Nat
  inode : Dinode

/-- The image with the offset of its descriptor, and the globals. -/
structure Mkfs where
  image : Bytes
  offset : Nat
  freeinode : Nat
  freeblock : Nat
  dirs : List ImageDir
  files : List ImageFile

/-- A routine of `mkfs`. -/
abbrev MkfsRoutine (Result : Type) : Type :=
  Routine MkfsError Mkfs Result

namespace Mkfs

/-- What `mkfs` starts with, and an empty image. -/
def start : Mkfs where
  image := fun _ => 0
  offset := 0
  freeinode := ROOTINO + 1
  freeblock := FIRST_DATA_BLOCK
  dirs := []
  files := []

def checkedLseek (off : Nat) : MkfsRoutine Unit :=
  Routine.modify fun s => { s with offset := off }

def checkedWrite (buf : Bytes) (n : Nat) : MkfsRoutine Unit :=
  Routine.modify fun s =>
    { s with
      image := s.image.put s.offset n buf
      offset := s.offset + n }

def writeBlock (blockno : Nat) (buf : Bytes) : MkfsRoutine Unit := do
  checkedLseek (blockno * BSIZE)
  checkedWrite buf BSIZE

def zeroBlock (blockno : Nat) : MkfsRoutine Unit :=
  writeBlock blockno fun _ => 0

def allocInode : MkfsRoutine Nat := do
  let s ← Routine.get
  if NINODES ≤ s.freeinode then
    Routine.fault .outOfInodes
  else
    Routine.modify fun s => { s with freeinode := s.freeinode + 1 }
    return s.freeinode

def allocBlock : MkfsRoutine Nat := do
  let s ← Routine.get
  if FSSIZE ≤ s.freeblock then
    Routine.fault .outOfBlocks
  else
    zeroBlock s.freeblock
    Routine.modify fun s => { s with freeblock := s.freeblock + 1 }
    return s.freeblock

def writeInode (inum : Nat) (inode : Dinode) : MkfsRoutine Unit := do
  checkedLseek (INODE_START * BSIZE + inum * dinodeSize)
  checkedWrite inode.bytes dinodeSize

/-- The fields of `struct superblock` in their order. -/
def superblockFields : List Nat :=
  [FSMAGIC, FSSIZE, FSSIZE - FIRST_DATA_BLOCK + 1, NINODES, NLOG, LOG_START,
    INODE_START, BMAP_START]

/-- The bytes of `struct superblock` -/
def superblockBytes : Bytes :=
  fun index => Bytes.ofNat (superblockFields.getD (index / 4) 0) (index % 4)

def initFsImage : MkfsRoutine Unit := do
  Routine.forEach (fun _ => checkedWrite (fun _ => 0) BSIZE)
    (List.range FSSIZE)
  checkedLseek BSIZE
  checkedWrite superblockBytes (4 * superblockFields.length)

def checkComponentName (name : List UInt8) : MkfsRoutine Unit :=
  if name.length = 0 then
    Routine.fault .emptyComponent
  else if DIRSIZ ≤ name.length then
    Routine.fault .componentTooLong
  else
    return ()

/-- Change a directory. -/
def setDir (dir : Nat) (change : ImageDir → ImageDir) : MkfsRoutine Unit :=
  Routine.modify fun s => { s with dirs := s.dirs.modify dir change }

/-- `dir_add`; a directory is its place in `dirs`. -/
def dirAdd (dir : Nat) (name : List UInt8) (inum : Nat) : MkfsRoutine Unit := do
  let s ← Routine.get
  let entries := (s.dirs[dir]?.map ImageDir.entries).getD []
  if MAX_DIRENTS ≤ entries.length then
    Routine.fault .tooManyEntries
  else if
      entries.any fun entry =>
        strncmpFrom (nameByte entry.1) (nameByte name) DIRSIZ 0 == 0 then
    Routine.fault .duplicateEntry
  else
    setDir dir fun d =>
      { d with
        entries :=
          d.entries ++ [(name.take DIRSIZ, inum % shortModulus)] }

def findDir (s : Mkfs) (path : List UInt8) : Option Nat :=
  s.dirs.findIdx? fun d => d.path == path

def findFile (s : Mkfs) (src : List UInt8) : Option Nat :=
  s.files.findIdx? fun f => f.src == src

/-- The inode of a directory in `new_dir`. -/
def dirInode (blockno : Nat) : Dinode :=
  { Dinode.zeroed T_DIR with
    nlink := 2
    addrs := fun index => if index.val = 0 then blockno else 0 }

/-- `dir->inum = ndirs == 1 ? ROOTINO : alloc_inode();` -/
def chooseInum (ndirs : Nat) : MkfsRoutine Nat :=
  if ndirs = 1 then return ROOTINO else allocInode

/-- `dir->blockno = dir->inum == ROOTINO ? ROOT_BLOCK : alloc_block();` -/
def chooseBlock (inum : Nat) : MkfsRoutine Nat :=
  if inum = ROOTINO then return ROOT_BLOCK else allocBlock

def newDir (path : List UInt8) (parentInum : Nat) : MkfsRoutine Nat := do
  let s ← Routine.get
  if MAX_DIRS ≤ s.dirs.length then
    Routine.fault .tooManyDirectories
  else
    let dir := s.dirs.length
    let inum ← chooseInum (dir + 1)
    let blockno ← chooseBlock inum
    Routine.modify fun s =>
      { s with
        dirs :=
          s.dirs ++
            [{
              path := path.take (MAX_IMAGE_PATH - 1)
              inum := inum
              parentInum := parentInum
              blockno := blockno
              inode := dirInode blockno
              entries := []
            }] }
    dirAdd dir dotName inum
    dirAdd dir dotDotName parentInum
    return dir

def initRootDir : MkfsRoutine Unit := do
  zeroBlock ROOT_BLOCK
  let _ ← newDir [slash] ROOTINO

/-- `append_component` -/
def appendComponent (path name : List UInt8) : MkfsRoutine (List UInt8) :=
  let path := if path ≠ [slash] then path ++ [slash] else path
  if MAX_IMAGE_PATH ≤ path.length + name.length then
    Routine.fault .imagePathTooLong
  else
    return path ++ name

/-- `inode->nlink++` -/
def oneMoreLink (inode : Dinode) : Dinode :=
  { inode with nlink := (inode.nlink + 1) % shortModulus }

/-- The part of `ensure_dir` for a directory that is missing. -/
def makeDir (current : List UInt8) (dir : Nat) (component : List UInt8) :
    MkfsRoutine Nat := do
  let s ← Routine.get
  let next ← newDir current ((s.dirs[dir]?.map ImageDir.inum).getD 0)
  let s ← Routine.get
  dirAdd dir component ((s.dirs[next]?.map ImageDir.inum).getD 0)
  setDir dir fun d => { d with inode := oneMoreLink d.inode }
  return next

/-- The loop of `ensure_dir` at the rest `p` of the path. -/
def ensureFrom : Nat → List UInt8 → List UInt8 → Nat → MkfsRoutine Nat
  | 0, _, _, dir => pure dir
  | fuel + 1, p, current, dir =>
      match p.dropWhile (· == slash) with
      | [] => pure dir
      | p => do
          let component := p.takeWhile (· != slash)
          if DIRSIZ ≤ component.length then
            Routine.fault .componentTooLong
          checkComponentName component
          let current ← appendComponent current component
          let s ← Routine.get
          let next ←
            match s.findDir current with
            | some next => pure next
            | none => makeDir current dir component
          ensureFrom fuel (p.dropWhile (· != slash)) current next

def ensureDir (path : List UInt8) : MkfsRoutine Nat := do
  if path.head? ≠ some slash then
    Routine.fault .notAbsolute
  else
    let s ← Routine.get
    let dir := (s.findDir [slash]).getD 0
    if path = [slash] then
      return dir
    else
      ensureFrom (path.length + 1) path [slash] dir

def initStandardDirs : MkfsRoutine Unit := do
  let _ ← ensureDir [47, 98, 105, 110]
  let _ ← ensureDir [47, 108, 105, 98]
  let _ ← ensureDir [47, 105, 110, 99, 108, 117, 100, 101]
  let _ ← ensureDir [47, 115, 114, 99]
  let _ ← ensureDir [47, 116, 109, 112]

/-- What stands behind the last slash of a path. -/
def hostBasename (path : List UInt8) : List UInt8 :=
  path.rtakeWhile (· != slash)

def parentAndName (path : List UInt8) :
    MkfsRoutine (List UInt8 × List UInt8) :=
  let base := hostBasename path
  if base.length = 0 ∨ DIRSIZ ≤ base.length then
    Routine.fault .componentTooLong
  else if slash ∉ path ∨ path.length = base.length + 1 then
    return ([slash], base)
  else
    let len := path.length - (base.length + 1)
    if MAX_IMAGE_PATH ≤ len then
      Routine.fault .parentTooLong
    else
      return (path.take len, base)

/-- The loop of `normalize_dest_path` at the rest of the input. -/
def normalizeLoop : List UInt8 → List UInt8 → List UInt8
  | [], out => out
  | char :: rest, out =>
      if MAX_IMAGE_PATH - 1 ≤ out.length then
        out
      else if char = slash ∧ 1 < out.length ∧ out.getLast? = some slash then
        normalizeLoop rest out
      else
        normalizeLoop rest (out ++ [char])

/-- `while (n > 1 && out[n - 1] == '/') n--;` -/
def trimSlashes : List UInt8 → List UInt8
  | [] => []
  | first :: rest => first :: rest.rdropWhile (· == slash)

def normalizeDestPath (input : List UInt8) : MkfsRoutine (List UInt8) :=
  let out := if input.head? ≠ some slash then [slash] else []
  let out := trimSlashes (normalizeLoop input out)
  if out = [] ∨ out = [slash] then
    Routine.fault .notAFile
  else
    return out

/-- The character `=` -/
def equalsSign : UInt8 := 61

/-- `parse_mapping`; the source and the destination. -/
def parseMapping (arg : List UInt8) : MkfsRoutine (List UInt8 × List UInt8) :=
  if equalsSign ∈ arg then
    let src := arg.takeWhile (· != equalsSign)
    if src.length = 0 ∨ MAX_IMAGE_PATH ≤ src.length then
      Routine.fault .invalidSource
    else do
      let dst ← normalizeDestPath (arg.drop (src.length + 1))
      return (src, dst)
  else if MAX_IMAGE_PATH ≤ arg.length then
    Routine.fault .sourceTooLong
  else
    return (arg, copyText (slash :: hostBasename arg) MAX_IMAGE_PATH)

/-- The locals of `add_file_data`; `currentSecond` is none where it is -1. -/
structure Packing where
  inode : Dinode
  indirect : Nat → Nat
  dindirect : Nat → Nat
  second : Nat → Nat
  blockIndex : Nat
  currentSecond : Option Nat

/-- A table of 256 block numbers as bytes. -/
def tableBytes (table : Nat → Nat) : Bytes :=
  fun index => Bytes.ofNat (table (index / 4)) (index % 4)

/-- `inode->addrs[index] = block` -/
def Packing.setAddr (p : Packing) (index : AddrIndex) (block : Nat) : Packing :=
  { p with
    inode :=
      { p.inode with addrs := Function.update p.inode.addrs index block } }

/-- `if (block_index == NDIRECT) inode->addrs[NDIRECT] = alloc_block();` -/
def reserveIndirect (p : Packing) : MkfsRoutine Packing :=
  if p.blockIndex = NDIRECT then do
    let block ← allocBlock
    return p.setAddr indirectIndex block
  else
    return p

/-- `add_file_data` makes sure that there is a double-indirect block. -/
def reserveDouble (p : Packing) : MkfsRoutine Packing :=
  if p.inode.addrs doubleIndex = 0 then do
    let block ← allocBlock
    return p.setAddr doubleIndex block
  else
    return p

/-- `write_block(dindirect[current_second], second)`, where there is one. -/
def writeSecond (p : Packing) : MkfsRoutine Unit :=
  match p.currentSecond with
  | some current => writeBlock (p.dindirect current) (tableBytes p.second)
  | none => return ()

/-- `add_file_data` goes on with another second-level block. -/
def changeSecond (p : Packing) (outer : Nat) : MkfsRoutine Packing :=
  if p.currentSecond = some outer then
    return p
  else do
    writeSecond p
    let block ← allocBlock
    return { p with
      currentSecond := some outer
      second := fun _ => 0
      dindirect := Function.update p.dindirect outer block }

/-- `add_file_data` notes the number of a data block. -/
def placeBlock (p : Packing) (block : Nat) : MkfsRoutine Packing :=
  if isDirect : p.blockIndex < NDIRECT then
    return p.setAddr (directIndex p.blockIndex isDirect) block
  else if p.blockIndex < NDIRECT + NINDIRECT then
    return { p with
      indirect := Function.update p.indirect (p.blockIndex - NDIRECT) block }
  else do
    let rel := p.blockIndex - NDIRECT - NINDIRECT
    let p ← reserveDouble p
    let p ← changeSecond p (rel / NINDIRECT)
    return { p with
      second := Function.update p.second (rel % NINDIRECT) block }

/-- A turn of the loop of `add_file_data`. -/
def addChunk (p : Packing) (chunk : List UInt8) : MkfsRoutine Packing :=
  if MAXFILE ≤ p.blockIndex then
    Routine.fault .fileTooLarge
  else do
    let p ← reserveIndirect p
    let block ← allocBlock
    writeBlock block (Bytes.ofList chunk)
    let p ← placeBlock p block
    return { p with
      inode :=
        { p.inode with size := (p.inode.size + chunk.length) % uintModulus }
      blockIndex := p.blockIndex + 1 }

/-- The loop of `add_file_data`. -/
def addChunks : List (List UInt8) → Packing → MkfsRoutine Packing
  | [], p => pure p
  | chunk :: rest, p => do
      let p ← addChunk p chunk
      addChunks rest p

/-- `if (block != 0) write_block(block, table);` -/
def writeTable (block : Nat) (table : Nat → Nat) : MkfsRoutine Unit :=
  if block ≠ 0 then
    writeBlock block (tableBytes table)
  else
    return ()

/-- `add_file_data` writes the tables that are left. -/
def writeTables (p : Packing) : MkfsRoutine Unit := do
  writeTable (p.inode.addrs indirectIndex) p.indirect
  writeSecond p
  writeTable (p.inode.addrs doubleIndex) p.dindirect

/-- The locals of `add_file_data` at its beginning. -/
def Packing.start (inode : Dinode) : Packing where
  inode := inode
  indirect := fun _ => 0
  dindirect := fun _ => 0
  second := fun _ => 0
  blockIndex := 0
  currentSecond := none

/-- `add_file_data`; the inode as it leaves it. -/
def addFileData (host : HostFile) (inode : Dinode) : MkfsRoutine Dinode := do
  let p ← addChunks host.chunks (Packing.start inode)
  if host.failed then
    Routine.fault .readFailed
  else
    writeTables p
    return p.inode

/-- `add_file` for a source that has been packed already. -/
def addLink (dir : Nat) (name : List UInt8) (existing : Nat) :
    MkfsRoutine Unit := do
  Routine.modify fun s =>
    { s with
      files :=
        s.files.modify existing fun f =>
          { f with inode := oneMoreLink f.inode } }
  let s ← Routine.get
  match s.files[existing]? with
  | none => return ()
  | some f =>
      writeInode f.inum f.inode
      dirAdd dir name f.inum

/-- `add_file` for a source that has not been packed yet. -/
def packFile
    (dir : Nat)
    (name src : List UInt8)
    (file : HostFile) :
    MkfsRoutine Unit := do
  let inum ← allocInode
  let inode ← addFileData file { Dinode.zeroed T_FILE with nlink := 1 }
  let s ← Routine.get
  if MAX_PACKED_FILES ≤ s.files.length then
    Routine.fault .tooManyFiles
  else
    Routine.modify fun s =>
      { s with
        files :=
          s.files ++
            [{
              src := src.take (MAX_IMAGE_PATH - 1)
              inum := inum
              inode := inode
            }] }
    writeInode inum inode
    dirAdd dir name inum

def addFile
    (host : List UInt8 → Option HostFile)
    (src dst : List UInt8) :
    MkfsRoutine Unit := do
  let (parent, name) ← parentAndName dst
  checkComponentName name
  let dir ← ensureDir parent
  let s ← Routine.get
  match s.findFile src with
  | some existing => addLink dir name existing
  | none =>
      match host src with
      | none => Routine.fault .cannotOpen
      | some file => packFile dir name src file

/-- A turn of the loop of `flush_dirs`. -/
def flushDir (dir : Nat) : MkfsRoutine Unit := do
  setDir dir fun d =>
    { d with
      inode := { d.inode with size := d.entries.length * direntSize } }
  let s ← Routine.get
  match s.dirs[dir]? with
  | none => return ()
  | some d =>
      writeBlock d.blockno (Bytes.ofList (directoryBytes d.entries))
      writeInode d.inum d.inode

def flushDirs : MkfsRoutine Unit := do
  let s ← Routine.get
  Routine.forEach flushDir (List.range s.dirs.length)

/-- A block of the bitmap with the bits of the blocks from `start` to `stop`. -/
def bitmapBytes (start stop : Nat) : Bytes :=
  (List.range' start (stop - start)).foldl
    (fun bmap i => bmap.setBit (i - start)) (fun _ => 0)

/-- A turn of the loop of `write_bitmap`. -/
def writeBitmapBlock (block : Nat) : MkfsRoutine Unit := do
  let s ← Routine.get
  let start := block * BPB
  writeBlock (BMAP_START + block)
    (bitmapBytes start (min (start + BPB) s.freeblock))

def writeBitmap : MkfsRoutine Unit :=
  Routine.forEach writeBitmapBlock (List.range BMAP_BLOCKS)

/-- A turn of the loop of `main` over the mappings. -/
def addMapping
    (host : List UInt8 → Option HostFile)
    (arg : CString) :
    MkfsRoutine Unit := do
  let (src, dst) ← parseMapping arg.bytes
  addFile host src dst

/-- `main` from the opened image on; the arguments are the mappings. -/
def main
    (host : List UInt8 → Option HostFile)
    (args : List CString) :
    MkfsRoutine Unit := do
  initFsImage
  initRootDir
  initStandardDirs
  Routine.forEach (addMapping host) args
  flushDirs
  writeBitmap

end Mkfs

end MyOS
