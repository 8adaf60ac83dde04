import MyOS.InodeLayer

namespace MyOS

open Lib

/-!
# Directories and paths

The directory layer of `fs.c` with `safestrcpy`, and the system calls that
change directories.  A name is the contents of a `char[DIRSIZ]` buffer up to
its NUL, or all of it where `skipelem` has cut a longer component.
-/

/-- Bytes of a directory entry's name. -/
def DIRSIZ : Nat := 14

/-- `sizeof(struct dirent)` -/
def direntSize : Nat := 16

/-- The inode of the root directory. -/
def ROOTINO : Nat := 1

/-- The character between the components of a path. -/
def slash : UInt8 := 47

/-- The name `.` -/
def dotName : List UInt8 := [46]

/-- The name `..` -/
def dotDotName : List UInt8 := [46, 46]

/-- `struct dirent` -/
structure Dirent where
  inum : Nat
  name : Bytes

namespace Dirent

/-- An entry from its bytes. -/
def ofBytes (bytes : List UInt8) : Dirent where
  inum := (Bytes.ofList bytes).le16 0
  name := fun index => Bytes.ofList bytes (2 + index)

/-- The bytes of an entry. -/
def bytes (entry : Dirent) : Bytes :=
  fun index =>
    if index < 2 then Bytes.ofNat entry.inum index else entry.name (index - 2)

/-- What `memset` leaves of an entry. -/
def zeroed : Dirent where
  inum := 0
  name := fun _ => 0

end Dirent

/-- A character of a name; behind its end there is the NUL. -/
def nameByte (name : List UInt8) : Bytes :=
  Bytes.ofList name

/-- The comparison in the loop of `dirlookup`, from character `i` on. -/
def matchesFrom (left right : Bytes) : Nat → Nat → Bool
  | 0, _ => true
  | fuel + 1, i =>
      if left i ≠ right i then
        false
      else if left i = 0 then
        true
      else
        matchesFrom left right fuel (i + 1)

/-- `strncmp` from character `i` on, with `n` characters left. -/
def strncmpFrom (p q : Bytes) : Nat → Nat → Int
  | 0, _ => 0
  | n + 1, i =>
      if p i ≠ 0 ∧ p i = q i then
        strncmpFrom p q n (i + 1)
      else
        (p i).toNat - (q i).toNat

/-- `namecmp` -/
def namecmp (s t : List UInt8) : Int :=
  strncmpFrom (nameByte s) (nameByte t) DIRSIZ 0

/-- The loop of `safestrcpy` at character `i`, with room for `n` more. -/
def safestrcpyFrom (t : Bytes) : Nat → Nat → Bytes → Bytes
  | 0, i, s => Function.update s i 0
  | n + 1, i, s =>
      if t i = 0 then
        Function.update (Function.update s i 0) (i + 1) 0
      else
        safestrcpyFrom t n (i + 1) (Function.update s i (t i))

/-- `safestrcpy` -/
def safestrcpy (s t : Bytes) (n : Nat) : Bytes :=
  match n with
  | 0 => s
  | n + 1 => safestrcpyFrom t n 0 s

/-- The rest of a path behind its next component, and the component. -/
def skipelem (path : List UInt8) : Option (List UInt8 × List UInt8) :=
  match path.dropWhile (· == slash) with
  | [] => none
  | start =>
      some
        ((start.dropWhile (· != slash)).dropWhile (· == slash),
          (start.takeWhile (· != slash)).take DIRSIZ)

namespace FileSystem

/-- The most entries that a directory can have. -/
def direntBound : Nat := 0x10000000

/-- `dirlookup` from an offset on. -/
def dirlookupFrom (dp : InodeIndex) (name : List UInt8) :
    Nat → Nat → FsRoutine (Option (InodeIndex × Nat))
  | 0, _ => pure none
  | fuel + 1, off => do
      let inode ← inodeAt dp
      if off < inode.size then
        let bytes ← readi dp .kernel off direntSize
        if bytes.length ≠ direntSize then
          Routine.fault .dirlookupReadError
        else
          let de := Dirent.ofBytes bytes
          if de.inum ≠ 0 ∧ matchesFrom de.name (nameByte name) DIRSIZ 0 then
            let inode ← inodeAt dp
            let ip ← iget inode.dev de.inum
            return some (ip, off)
          else
            dirlookupFrom dp name fuel (off + direntSize)
      else
        return none

/-- `dirlookup`; the inode with the offset of its entry. -/
def dirlookup (dp : InodeIndex) (name : List UInt8) :
    FsRoutine (Option (InodeIndex × Nat)) := do
  let inode ← inodeAt dp
  if inode.type ≠ T_DIR then
    Routine.fault .dirlookupNotDirectory
  else
    dirlookupFrom dp name direntBound 0

/-- The search of `dirlink` for an unused entry. -/
def dirlinkSlotFrom (dp : InodeIndex) : Nat → Nat → FsRoutine Nat
  | 0, off => pure off
  | fuel + 1, off => do
      let inode ← inodeAt dp
      if off < inode.size then
        let bytes ← readi dp .kernel off direntSize
        if bytes.length ≠ direntSize then
          Routine.fault .dirlinkReadi
        else if (Dirent.ofBytes bytes).inum = 0 then
          return off
        else
          dirlinkSlotFrom dp fuel (off + direntSize)
      else
        return off

/-- The entry that `dirlink` writes. -/
def linkEntry (name : List UInt8) (inum : Nat) : Dirent where
  inum := inum
  name := safestrcpy (fun _ => 0) (nameByte name) DIRSIZ

def dirlink (dp : InodeIndex) (name : List UInt8) (inum : Nat) :
    FsRoutine Int := do
  match ← dirlookup dp name with
  | some (ip, _) =>
      iput ip
      return -1
  | none =>
      let off ← dirlinkSlotFrom dp direntBound 0
      let written ← writei dp (linkEntry name inum).bytes off direntSize
      if written ≠ direntSize then
        return -1
      else
        return 0

/-- Where a path starts. -/
def pathStart (cwd : Option InodeIndex) (path : List UInt8) :
    FsRoutine InodeIndex :=
  if path.head? = some slash then
    iget ROOTDEV ROOTINO
  else
    match cwd with
    | none => iget ROOTDEV ROOTINO
    | some ip => idup ip

/-- The loop of `namei`; a path has fewer components than characters. -/
def nameiFrom : Nat → InodeIndex → List UInt8 → FsRoutine (Option InodeIndex)
  | 0, ip, _ => pure (some ip)
  | fuel + 1, ip, path =>
      match skipelem path with
      | none =>
          pure (some ip)
      | some (rest, name) => do
          ilock ip
          let inode ← inodeAt ip
          if inode.type ≠ T_DIR then
            iunlockput ip
            return none
          else
            match ← dirlookup ip name with
            | none =>
                iunlockput ip
                return none
            | some (next, _) =>
                iunlockput ip
                nameiFrom fuel next rest

def namei (cwd : Option InodeIndex) (path : List UInt8) :
    FsRoutine (Option InodeIndex) := do
  let ip ← pathStart cwd path
  nameiFrom (path.length + 1) ip path

/-- The loop of `nameiparent`. -/
def nameiparentFrom :
    Nat → InodeIndex → List UInt8 →
      FsRoutine (Option (InodeIndex × List UInt8))
  | 0, ip, _ => do
      iput ip
      return none
  | fuel + 1, ip, path =>
      match skipelem path with
      | none => do
          iput ip
          return none
      | some (rest, name) => do
          ilock ip
          let inode ← inodeAt ip
          if inode.type ≠ T_DIR then
            iunlockput ip
            return none
          else if rest = [] then
            iunlock ip
            return some (ip, name)
          else
            match ← dirlookup ip name with
            | none =>
                iunlockput ip
                return none
            | some (next, _) =>
                iunlockput ip
                nameiparentFrom fuel next rest

/-- `nameiparent`; the parent directory with the last component. -/
def nameiparent (cwd : Option InodeIndex) (path : List UInt8) :
    FsRoutine (Option (InodeIndex × List UInt8)) := do
  let ip ← pathStart cwd path
  nameiparentFrom (path.length + 1) ip path

/-- `nlink++` -/
def linkOnce (inode : Inode) : Inode :=
  { inode with nlink := (inode.nlink + 1) % shortModulus }

/-- `nlink--` -/
def unlinkOnce (inode : Inode) : Inode :=
  { inode with nlink := (inode.nlink + (shortModulus - 1)) % shortModulus }

/-- `.` and `..` are not removed. -/
def isDotName (name : List UInt8) : Bool :=
  namecmp name dotName == 0 || namecmp name dotDotName == 0

/-- `sys_mkdir` behind its parent directory. -/
def mkdirIn (dp : InodeIndex) (name : List UInt8) : FsRoutine Int := do
  ilock dp
  match ← dirlookup dp name with
  | some (ip, _) =>
      iunlockput dp
      ilock ip
      iunlockput ip
      return -1
  | none =>
      let parent ← inodeAt dp
      let ip ← ialloc parent.dev T_DIR
      ilock ip
      setInode ip fun inode => { inode with nlink := 2 }
      let inode ← inodeAt ip
      let dot ← dirlink ip dotName inode.inum
      let anchored ←
        if dot < 0 then
          pure false
        else do
          let parent ← inodeAt dp
          let dotDot ← dirlink ip dotDotName parent.inum
          pure (decide (0 ≤ dotDot))
      if anchored = false then
        iunlockput ip
        iunlockput dp
        return -1
      else
        let inode ← inodeAt ip
        let linked ← dirlink dp name inode.inum
        if linked < 0 then
          iunlockput ip
          iunlockput dp
          return -1
        else
          setInode dp linkOnce
          iupdate dp
          iupdate ip
          iunlockput dp
          iunlockput ip
          return 0

def sysMkdir (cwd : Option InodeIndex) (path : List UInt8) :
    FsRoutine Int := do
  match ← nameiparent cwd path with
  | none => return -1
  | some (dp, name) => mkdirIn dp name

/-- `sys_unlink` behind its parent directory. -/
def unlinkIn (dp : InodeIndex) (name : List UInt8) : FsRoutine Int := do
  ilock dp
  if isDotName name then
    iunlockput dp
    return -1
  else
    match ← dirlookup dp name with
    | none =>
        iunlockput dp
        return -1
    | some (ip, offset) =>
        ilock ip
        let written ← writei dp Dirent.zeroed.bytes offset direntSize
        if written ≠ direntSize then
          Routine.fault .unlinkWritei
        else
          let inode ← inodeAt ip
          if inode.type = T_DIR then
            setInode dp unlinkOnce
            iupdate dp
          setInode ip unlinkOnce
          iupdate ip
          iunlockput ip
          iunlockput dp
          return 0

def sysUnlink (cwd : Option InodeIndex) (path : List UInt8) :
    FsRoutine Int := do
  match ← nameiparent cwd path with
  | none => return -1
  | some (dp, name) => unlinkIn dp name

/-- The overwritten target of a rename; whether the rename goes on. -/
def renameTarget (newDp : InodeIndex) (newName : List UInt8) :
    FsRoutine Bool := do
  match ← dirlookup newDp newName with
  | none => return true
  | some (target, targetOff) =>
      ilock target
      let inode ← inodeAt target
      if inode.type ≠ T_FILE then
        iunlockput target
        return false
      else
        let written ← writei newDp Dirent.zeroed.bytes targetOff direntSize
        if written ≠ direntSize then
          Routine.fault .renameUnlinkTarget
        else
          setInode target unlinkOnce
          iupdate target
          iunlockput target
          return true

/-- `sys_rename` with both parents at hand; 0 where it succeeds. -/
def renameInto
    (oldDp ip newDp : InodeIndex)
    (oldName newName : List UInt8)
    (oldOff : Nat) :
    FsRoutine Int := do
  ilock newDp
  if isDotName newName then
    return -1
  else
    let old ← inodeAt oldDp
    let new ← inodeAt newDp
    if old.dev = new.dev ∧ old.inum = new.inum ∧
        namecmp oldName newName = 0 then
      return 0
    else
      let goesOn ← renameTarget newDp newName
      if goesOn = false then
        return -1
      else
        let inode ← inodeAt ip
        let linked ← dirlink newDp newName inode.inum
        if linked < 0 then
          return -1
        else
          let written ← writei oldDp Dirent.zeroed.bytes oldOff direntSize
          if written ≠ direntSize then
            Routine.fault .renameUnlinkOld
          else
            return 0

/--
`sys_rename`.  Every path behind the lookup of the source releases the new
parent, the source and the old parent in this order.
-/
def sysRename (cwd : Option InodeIndex) (oldPath newPath : List UInt8) :
    FsRoutine Int := do
  match ← nameiparent cwd oldPath with
  | none => return -1
  | some (oldDp, oldName) =>
      ilock oldDp
      if isDotName oldName then
        iunlockput oldDp
        return -1
      else
        match ← dirlookup oldDp oldName with
        | none =>
            iunlockput oldDp
            return -1
        | some (ip, oldOff) =>
            ilock ip
            let inode ← inodeAt ip
            if inode.type ≠ T_FILE then
              iunlockput ip
              iunlockput oldDp
              return -1
            else
              match ← nameiparent cwd newPath with
              | none =>
                  iunlockput ip
                  iunlockput oldDp
                  return -1
              | some (newDp, newName) =>
                  let result ←
                    renameInto oldDp ip newDp oldName newName oldOff
                  iunlockput newDp
                  iunlockput ip
                  iunlockput oldDp
                  return result

end FileSystem

end MyOS
