import MyOS.Directory
import MyOS.ProcTable

namespace MyOS

open Lib

/-!
# The file table

`file.c` and the system calls on descriptors, as routines that wait for the
disk wherever the file system does.  A pipe's memory is not part of the state,
so that closing an end of a pipe only gives the table slot back.

Ghost components number the inode references that `sys_open` takes, follow each
of them from the call into the table slot it is bound to, and count how often
it is dropped; they remember what every slot was bound to, which slot a process
is in the middle of closing, and which slot the last segment handed out.
-/

/-- A slot of the file table. -/
abbrev FileSlot : Type := Fin NFILE

/-- A slot of a process's descriptor table. -/
abbrev Descriptor : Type := Fin NOFILE

/-- `struct file`, without the pipe that an end of a pipe belongs to. -/
structure FileObject where
  type : FileType
  ref : Int
  readable : Bool
  writable : Bool
  ip : Option InodeIndex
  off : Nat
  deriving Repr, DecidableEq

/-- What `sys_open` has bound a file to, and with which inode reference. -/
structure Opening where
  reference : Nat
  ip : InodeIndex
  off : Nat
  readable : Bool
  writable : Bool
  deriving Repr, DecidableEq

/-- The file system, the file table and the processes' descriptors. -/
structure FileKernel where
  fs : FileSystem
  file : FileSlot → FileObject
  ofile : Slot → Descriptor → Option FileSlot
  cwd : Slot → Option InodeIndex
  alive : Slot → Bool
  /-- The slot whose last `fileclose` a process is in. -/
  closing : Slot → Option FileSlot
  /-- The inode reference that a process's `sys_open` holds. -/
  opening : Slot → Option Nat
  opened : FileSlot → Option Opening
  /-- The inode reference that `ip` of a file stands for. -/
  carries : FileSlot → Option Nat
  /-- The references taken so far. -/
  opens : Nat
  drops : Nat → Nat
  handed : Option FileSlot

/-- A routine of the file layer. -/
abbrev FileRoutine (Result : Type) : Type :=
  Routine FsPanic FileKernel Result

/-- `O_WRONLY` -/
def O_WRONLY : Nat := 0x001

/-- `O_RDWR` -/
def O_RDWR : Nat := 0x002

/-- `O_CREAT` -/
def O_CREAT : Nat := 0x200

/-- `O_TRUNC` -/
def O_TRUNC : Nat := 0x400

/-- `O_EXCL` -/
def O_EXCL : Nat := 0x800

/-- `O_APPEND` -/
def O_APPEND : Nat := 0x1000

/-- `flags & flag` -/
def hasFlag (flags flag : Nat) : Bool :=
  flags &&& flag != 0

/-- `flags & (O_WRONLY | O_RDWR)` -/
def opensToWrite (flags : Nat) : Bool :=
  hasFlag flags O_WRONLY || hasFlag flags O_RDWR

/-- The slots of the file table in the order of its scan. -/
def fileSlots : List FileSlot :=
  List.finRange NFILE

/-- A process's descriptors in the order of their scan. -/
def descriptors : List Descriptor :=
  List.finRange NOFILE

namespace FileKernel

/-- The file system inside the larger state. -/
def fsComponent : Component FileKernel FileSystem where
  read := fun kernel => kernel.fs
  write := fun fs kernel => { kernel with fs := fs }
  read_write := fun _ _ => rfl
  write_read := fun _ => rfl

/-- A routine of the file system. -/
def onFs {Result : Type} (routine : FsRoutine Result) : FileRoutine Result :=
  routine.within fsComponent

/-- A slot of the file table. -/
def fileAt (f : FileSlot) : FileRoutine FileObject :=
  Routine.gets fun kernel => kernel.file f

/-- Change a slot of the file table. -/
def setFile (f : FileSlot) (change : FileObject → FileObject) :
    FileRoutine Unit :=
  Routine.modify fun kernel =>
    { kernel with
      file := Function.update kernel.file f (change (kernel.file f)) }

/-- A process's descriptor, where the number is one and it is open. -/
def argfd (kernel : FileKernel) (p : Slot) (fd : Int) :
    Option (Descriptor × FileSlot) :=
  if inRange : 0 ≤ fd ∧ fd.toNat < NOFILE then
    let slot : Descriptor := ⟨fd.toNat, inRange.2⟩
    (kernel.ofile p slot).map fun f => (slot, f)
  else
    none

/-- Change an entry of a process's descriptor table. -/
def setOfile (p : Slot) (fd : Descriptor) (f : Option FileSlot) :
    FileRoutine Unit :=
  Routine.modify fun kernel =>
    { kernel with
      ofile :=
        Function.update kernel.ofile p
          (Function.update (kernel.ofile p) fd f) }

/-!
## Ghost bookkeeping
-/

/-- `sys_open` has a reference to the inode that it opens. -/
def takeReference (p : Slot) : FileRoutine Unit :=
  Routine.modify fun kernel =>
    { kernel with
      opening := Function.update kernel.opening p (some kernel.opens)
      opens := kernel.opens + 1 }

/-- Count a drop of a reference. -/
def countDrop (kernel : FileKernel) (reference : Option Nat) :
    Nat → Nat :=
  match reference with
  | none => kernel.drops
  | some t => Function.update kernel.drops t (kernel.drops t + 1)

/-- `sys_open` gives its reference back before it fails. -/
def dropOpening (p : Slot) : FileRoutine Unit :=
  Routine.modify fun kernel =>
    { kernel with
      drops := kernel.countDrop (kernel.opening p)
      opening := Function.update kernel.opening p none }

/-- `sys_open` returns with the reference that it had. -/
def forgetOpening (p : Slot) : FileRoutine Unit :=
  Routine.modify fun kernel =>
    { kernel with opening := Function.update kernel.opening p none }

/-- The last descriptor of a file is being closed. -/
def beginClose (p : Slot) (f : FileSlot) : FileRoutine Unit :=
  Routine.modify fun kernel =>
    { kernel with
      closing := Function.update kernel.closing p (some f)
      opened := Function.update kernel.opened f none }

/-- The caller of `fileclose` has taken the descriptor out of its table. -/
def finishClose (p : Slot) : FileRoutine Unit :=
  Routine.modify fun kernel =>
    { kernel with closing := Function.update kernel.closing p none }

/-- `fileclose` drops the reference that the file stands for. -/
def dropCarried (f : FileSlot) : FileRoutine Unit :=
  Routine.modify fun kernel =>
    { kernel with drops := kernel.countDrop (kernel.carries f) }

/-- The file stands for no reference any more. -/
def clearCarried (f : FileSlot) : FileRoutine Unit :=
  Routine.modify fun kernel =>
    { kernel with carries := Function.update kernel.carries f none }

/-- The opening as the file shows it, with the reference of `sys_open`. -/
def openingOf (kernel : FileKernel) (p : Slot) (f : FileSlot) :
    Option Opening :=
  match kernel.opening p, (kernel.file f).ip with
  | some t, some ip =>
      some {
        reference := t
        ip := ip
        off := (kernel.file f).off
        readable := (kernel.file f).readable
        writable := (kernel.file f).writable
      }
  | _, _ => none

/-- `sys_open` has filled the file in. -/
def bindReference (p : Slot) (f : FileSlot) : FileRoutine Unit :=
  Routine.modify fun kernel =>
    { kernel with
      opened := Function.update kernel.opened f (kernel.openingOf p f)
      carries := Function.update kernel.carries f (kernel.opening p)
      opening := Function.update kernel.opening p none }

/-- A read, a write or a seek through the file moves its offset. -/
def moveOpened (f : FileSlot) (move : Nat → Nat) : FileRoutine Unit :=
  Routine.modify fun kernel =>
    { kernel with
      opened :=
        Function.update kernel.opened f
          ((kernel.opened f).map fun opening =>
            { opening with off := move opening.off }) }

/-!
## `file.c`
-/

/-- The first slot without references. -/
def freeFile? (kernel : FileKernel) : Option FileSlot :=
  fileSlots.find? fun f => (kernel.file f).ref == 0

/-- The first descriptor that is not in use. -/
def freeDescriptor? (kernel : FileKernel) (p : Slot) : Option Descriptor :=
  descriptors.find? fun fd => kernel.ofile p fd == none

def filealloc : FileRoutine (Option FileSlot) := do
  let kernel ← Routine.get
  match kernel.freeFile? with
  | none => return none
  | some f =>
      setFile f fun file => { file with ref := 1 }
      Routine.modify fun kernel => { kernel with handed := some f }
      return some f

def fdalloc (p : Slot) (f : FileSlot) : FileRoutine (Option Descriptor) := do
  let kernel ← Routine.get
  match kernel.freeDescriptor? p with
  | none => return none
  | some fd =>
      setOfile p fd (some f)
      return some fd

def filedup (f : FileSlot) : FileRoutine Unit :=
  setFile f fun file => { file with ref := file.ref + 1 }

/-- The inode that a field `ip` points to. -/
def followIp (f : FileSlot) : FileRoutine InodeIndex := do
  let file ← fileAt f
  match file.ip with
  | none => Routine.fault .nullInode
  | some ip => return ip

/-- The end of the last `fileclose` of a slot. -/
def clearFile (f : FileSlot) : FileRoutine Unit := do
  setFile f fun file => { file with type := .none, ip := none, off := 0 }
  clearCarried f

def fileclose (p : Slot) (f : FileSlot) : FileRoutine Unit := do
  let file ← fileAt f
  if file.ref < 1 then
    Routine.fault .fileclose
  else
    setFile f fun file => { file with ref := file.ref - 1 }
    let file ← fileAt f
    if file.ref = 0 then
      beginClose p f
      if file.type = .inode then
        let ip ← followIp f
        dropCarried f
        onFs (FileSystem.iput ip)
      clearFile f

/-- `f->off = move(f->off)` -/
def seek (f : FileSlot) (move : Nat → Nat) : FileRoutine Unit := do
  setFile f fun file => { file with off := move file.off }
  moveOpened f move

/-- `f->off += count` -/
def advance (f : FileSlot) (count : Nat) : FileRoutine Unit :=
  seek f fun off => (off + count) % uintModulus

def fileread
    (f : FileSlot)
    (target : FileSystem.ReadTarget)
    (n : Nat) :
    FileRoutine Int := do
  let file ← fileAt f
  if file.readable = false then
    return -1
  else
    onFs (FileSystem.ilock (← followIp f))
    let file ← fileAt f
    let bytes ←
      onFs (FileSystem.readi (← followIp f) target file.off n)
    advance f bytes.length
    onFs (FileSystem.iunlock (← followIp f))
    return bytes.length

def filewrite (f : FileSlot) (src : Bytes) (n : Nat) :
    FileRoutine Int := do
  let file ← fileAt f
  if file.writable = false then
    return -1
  else
    onFs (FileSystem.ilock (← followIp f))
    let file ← fileAt f
    let r ← onFs (FileSystem.writei (← followIp f) src file.off n)
    if 0 < r then
      advance f r.toNat
    onFs (FileSystem.iunlock (← followIp f))
    return if 0 < r then r else -1

/-!
## `sysfile.c` and `sysproc.c`
-/

/-- The directory check of `sys_open` on an inode that exists already. -/
def lockExisting (p : Slot) (ip : InodeIndex) (flags : Nat) :
    FileRoutine (Option InodeIndex) := do
  onFs (FileSystem.ilock ip)
  let inode ← onFs (FileSystem.inodeAt ip)
  if inode.type = T_DIR ∧ opensToWrite flags then
    dropOpening p
    onFs (FileSystem.iunlockput ip)
    return none
  else
    return some ip

/-- `sys_open` on a path whose last component is not in its directory. -/
def createFile (p : Slot) (dp : InodeIndex) (name : List UInt8) :
    FileRoutine (Option InodeIndex) := do
  let parent ← onFs (FileSystem.inodeAt dp)
  let ip ← onFs (FileSystem.ialloc parent.dev T_FILE)
  takeReference p
  onFs (FileSystem.ilock ip)
  onFs (FileSystem.setInode ip fun inode => { inode with nlink := 1 })
  onFs (FileSystem.iupdate ip)
  let inode ← onFs (FileSystem.inodeAt ip)
  let linked ← onFs (FileSystem.dirlink dp name inode.inum)
  if linked < 0 then
    dropOpening p
    onFs (FileSystem.iunlockput ip)
    onFs (FileSystem.iunlockput dp)
    return none
  else
    onFs (FileSystem.iunlockput dp)
    return some ip

/-- `sys_open` up to where it holds the inode to be opened. -/
def openInode (p : Slot) (path : List UInt8) (flags : Nat) :
    FileRoutine (Option InodeIndex) := do
  let kernel ← Routine.get
  if hasFlag flags O_CREAT then
    match ← onFs (FileSystem.nameiparent (kernel.cwd p) path) with
    | none => return none
    | some (dp, name) =>
        onFs (FileSystem.ilock dp)
        match ← onFs (FileSystem.dirlookup dp name) with
        | none =>
            createFile p dp name
        | some (ip, _) =>
            takeReference p
            onFs (FileSystem.iunlockput dp)
            if hasFlag flags O_EXCL then
              dropOpening p
              onFs (FileSystem.iput ip)
              return none
            else
              lockExisting p ip flags
  else
    match ← onFs (FileSystem.namei (kernel.cwd p) path) with
    | none => return none
    | some ip =>
        takeReference p
        lockExisting p ip flags

/-- `sys_open` fills in the file of a new descriptor. -/
def fillFile (f : FileSlot) (ip : InodeIndex) (flags : Nat) :
    FileRoutine Unit := do
  setFile f fun file =>
    { file with
      type := .inode
      ip := some ip
      off := 0
      readable := !hasFlag flags O_WRONLY
      writable := opensToWrite flags }
  let inode ← onFs (FileSystem.inodeAt ip)
  if hasFlag flags O_APPEND ∧ inode.type = T_FILE then
    setFile f fun file => { file with off := inode.size }

/-- `sys_open` from where it allocates a file. -/
def openFile (p : Slot) (ip : InodeIndex) (flags : Nat) :
    FileRoutine Unit := do
  match ← filealloc with
  | none =>
      dropOpening p
      onFs (FileSystem.iunlockput ip)
  | some f =>
      match ← fdalloc p f with
      | none =>
          fileclose p f
          finishClose p
          onFs (FileSystem.iunlock ip)
          forgetOpening p
      | some _ =>
          fillFile f ip flags
          bindReference p f
          onFs (FileSystem.iunlock ip)

def sysOpen (p : Slot) (path : List UInt8) (flags : Nat) :
    FileRoutine Unit := do
  match ← openInode p path flags with
  | none => return ()
  | some ip =>
      let inode ← onFs (FileSystem.inodeAt ip)
      if hasFlag flags O_TRUNC ∧ inode.type = T_FILE ∧
          opensToWrite flags then
        onFs (FileSystem.itrunc ip)
      openFile p ip flags

def sysClose (p : Slot) (fd : Int) : FileRoutine Unit := do
  let kernel ← Routine.get
  match kernel.argfd p fd with
  | none => return ()
  | some (slot, f) =>
      setOfile p slot none
      fileclose p f
      finishClose p

/-- Give a descriptor to a file that has one already. -/
def shareFile (p : Slot) (fd : Descriptor) (f : FileSlot) :
    FileRoutine Unit := do
  setOfile p fd (some f)
  filedup f

def sysDup (p : Slot) (oldfd : Int) : FileRoutine Unit := do
  let kernel ← Routine.get
  match kernel.argfd p oldfd, kernel.freeDescriptor? p with
  | some (_, f), some fd => shareFile p fd f
  | _, _ => return ()

def sysDup2 (p : Slot) (oldfd newfd : Int) : FileRoutine Unit := do
  let kernel ← Routine.get
  match kernel.argfd p oldfd with
  | none => return ()
  | some (old, f) =>
      if inRange : 0 ≤ newfd ∧ newfd.toNat < NOFILE then
        let new : Descriptor := ⟨newfd.toNat, inRange.2⟩
        if old = new then
          return ()
        else
          match kernel.ofile p new with
          | none => shareFile p new f
          | some closed =>
              fileclose p closed
              setOfile p new none
              finishClose p
              shareFile p new f
      else
        return ()

/-- `F_DUPFD` of `sys_fcntl` -/
def fcntlDupfd (p : Slot) (fd arg : Int) : FileRoutine Unit := do
  let kernel ← Routine.get
  match kernel.argfd p fd with
  | none => return ()
  | some (_, f) =>
      let free :=
        descriptors.find? fun (newfd : Descriptor) =>
          decide (arg ≤ newfd.val) && kernel.ofile p newfd == none
      match free with
      | some newfd =>
          if 0 ≤ arg then
            shareFile p newfd f
      | none => return ()

/-- A turn of the loop of `sys_fork` over the parent's descriptors. -/
def forkFile (p child : Slot) (fd : Descriptor) : FileRoutine Unit := do
  let kernel ← Routine.get
  match kernel.ofile p fd with
  | none => return ()
  | some f => shareFile child fd f

/-- The descriptors and the working directory of a child. -/
def forkFiles (p child : Slot) : FileRoutine Unit := do
  Routine.forEach (forkFile p child) descriptors
  let kernel ← Routine.get
  match kernel.cwd p with
  | none => return ()
  | some ip =>
      let _ ← onFs (FileSystem.idup ip)
      Routine.modify fun kernel =>
        { kernel with cwd := Function.update kernel.cwd child (some ip) }

/-- `sys_fork` where it succeeds; the child is a slot that was not in use. -/
def sysFork (p child : Slot) : FileRoutine Unit := do
  Routine.modify fun kernel =>
    { kernel with alive := Function.update kernel.alive child true }
  forkFiles p child

/-- A turn of the loop of `proc_exit` over the descriptors. -/
def exitFile (p : Slot) (fd : Descriptor) : FileRoutine Unit := do
  let kernel ← Routine.get
  match kernel.ofile p fd with
  | none => return ()
  | some f =>
      fileclose p f
      setOfile p fd none
      finishClose p

/-- The end of `proc_exit`, as far as files are concerned. -/
def leaveFiles (p : Slot) : FileRoutine Unit := do
  let kernel ← Routine.get
  match kernel.cwd p with
  | none => return ()
  | some ip =>
      onFs (FileSystem.iput ip)
      Routine.modify fun kernel =>
        { kernel with cwd := Function.update kernel.cwd p none }

/-- `proc_exit` -/
def procExit (p : Slot) : FileRoutine Unit := do
  Routine.forEach (exitFile p) descriptors
  leaveFiles p
  Routine.modify fun kernel =>
    { kernel with alive := Function.update kernel.alive p false }

/-- `sys_read` on an inode's file. -/
def sysRead
    (p : Slot)
    (fd : Int)
    (target : FileSystem.ReadTarget)
    (n : Int) :
    FileRoutine Unit := do
  let kernel ← Routine.get
  match kernel.argfd p fd with
  | none => return ()
  | some (_, f) =>
      if (kernel.file f).readable ∧ (kernel.file f).type = .inode then
        let _ ← fileread f target (n % uintModulus).toNat

/-- A turn of the loop of `sys_write` moves at most 128 bytes. -/
def writeFrom (f : FileSlot) (source : Nat → Option UInt8) :
    Nat → Nat → Nat → FileRoutine Unit
  | 0, _, _ => pure ()
  | fuel + 1, written, left =>
      if left = 0 then
        pure ()
      else do
        let count := min left 128
        let present :=
          (List.range count).all fun i => (source (written + i)).isSome
        let file ← fileAt f
        if present = true ∧ file.type = .inode then
          let ret ←
            filewrite f (fun i => (source (written + i)).getD 0) count
          if ret = count then
            writeFrom f source fuel (written + count) (left - count)

/-- `sys_write` on an inode's file. -/
def sysWrite
    (p : Slot) (fd : Int) (source : Nat → Option UInt8) (len : Int) :
    FileRoutine Unit := do
  let kernel ← Routine.get
  match kernel.argfd p fd with
  | none => return ()
  | some (_, f) =>
      if (kernel.file f).writable then
        writeFrom f source len.toNat 0 len.toNat

def sysLseek (p : Slot) (fd offset whence : Int) : FileRoutine Unit := do
  let kernel ← Routine.get
  match kernel.argfd p fd with
  | none => return ()
  | some (_, f) =>
      if whence = 0 then
        seek f fun _ => (offset % uintModulus).toNat
      else if whence = 1 then
        seek f fun off => ((off + offset) % uintModulus).toNat
      else if whence = 2 then
        let inode ← onFs (FileSystem.inodeAt (← followIp f))
        seek f fun _ => ((inode.size + offset) % uintModulus).toNat

/-- `sys_chdir` -/
def sysChdir (p : Slot) (path : List UInt8) : FileRoutine Unit := do
  let kernel ← Routine.get
  match ← onFs (FileSystem.namei (kernel.cwd p) path) with
  | none => return ()
  | some ip =>
      onFs (FileSystem.ilock ip)
      let inode ← onFs (FileSystem.inodeAt ip)
      if inode.type ≠ T_DIR then
        onFs (FileSystem.iunlockput ip)
      else
        onFs (FileSystem.iunlock ip)
        let kernel ← Routine.get
        match kernel.cwd p with
        | none => Routine.fault .nullInode
        | some old =>
            onFs (FileSystem.iput old)
            Routine.modify fun kernel =>
              { kernel with cwd := Function.update kernel.cwd p (some ip) }

end FileKernel

end MyOS
