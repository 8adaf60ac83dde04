import MyOS.FileTable
import MyOS.WorkingDirectory

namespace MyOS

open Lib
open Routine

/-!
# What the calls on files return

`sys_open` and `sys_write` with their results, and `sys_ftruncate`.  Without the
results they are the routines of the file table.
-/

namespace FileKernel

/-- `sys_open` from where it allocates a file. -/
def openFd (p : Slot) (ip : InodeIndex) (flags : Nat) : FileRoutine Int := do
  match ← filealloc with
  | none =>
      dropOpening p
      onFs (FileSystem.iunlockput ip)
      return -1
  | some f =>
      match ← fdalloc p f with
      | none =>
          fileclose p f
          finishClose p
          onFs (FileSystem.iunlock ip)
          forgetOpening p
          return -1
      | some fd =>
          fillFile f ip flags
          bindReference p f
          onFs (FileSystem.iunlock ip)
          return fd.val

/-- `sys_open` from where it holds the inode. -/
def openHeld (p : Slot) (ip : InodeIndex) (flags : Nat) :
    FileRoutine Int := do
  let inode ← onFs (FileSystem.inodeAt ip)
  if hasFlag flags O_TRUNC ∧ inode.type = T_FILE ∧ opensToWrite flags then
    onFs (FileSystem.itrunc ip)
  openFd p ip flags

/-- `sys_open`; the descriptor. -/
def openCall (p : Slot) (text : List UInt8) (flags : Nat) :
    FileRoutine Int := do
  match argstr text MAXPATH with
  | none => return -1
  | some path =>
      match ← openInode p path flags with
      | none => return -1
      | some ip => openHeld p ip flags

/-- The loop of `sys_write`; `written` is `total_written`. -/
def writeCountFrom (f : FileSlot) (source : Nat → Option UInt8) :
    Nat → Nat → Nat → FileRoutine Int
  | 0, written, _ => pure written
  | fuel + 1, written, left =>
      if left = 0 then
        pure written
      else do
        let count := min left 128
        let present :=
          (List.range count).all fun i => (source (written + i)).isSome
        let file ← fileAt f
        if present = true ∧ file.type = .inode then
          let ret ←
            filewrite f (fun i => (source (written + i)).getD 0) count
          if ret = count then
            writeCountFrom f source fuel (written + count) (left - count)
          else
            return if 0 < written then (written : Int) else -1
        else
          return if 0 < written then (written : Int) else -1

/-- `sys_write` on an inode's file; how many bytes it has written. -/
def writeCall
    (p : Slot)
    (fd : Int)
    (source : Nat → Option UInt8)
    (len : Int) :
    FileRoutine Int := do
  let kernel ← Routine.get
  match kernel.argfd p fd with
  | none => return -1
  | some (_, f) =>
      if (kernel.file f).writable then
        writeCountFrom f source len.toNat 0 len.toNat
      else
        return -1

/-- The offset that `sys_lseek` returns. -/
def offsetOf (f : FileSlot) : FileRoutine Int := do
  let file ← fileAt f
  return file.off

/-- `sys_lseek`; the offset. -/
def lseekCall (p : Slot) (fd offset whence : Int) : FileRoutine Int := do
  let kernel ← Routine.get
  match kernel.argfd p fd with
  | none => return -1
  | some (_, f) =>
      if whence = 0 then
        seek f fun _ => (offset % uintModulus).toNat
        offsetOf f
      else if whence = 1 then
        seek f fun off => ((off + offset) % uintModulus).toNat
        offsetOf f
      else if whence = 2 then
        let inode ← onFs (FileSystem.inodeAt (← followIp f))
        seek f fun _ => ((inode.size + offset) % uintModulus).toNat
        offsetOf f
      else
        return -1

/-- The loop of `sys_ftruncate` that fills a file up; whether it succeeds. -/
def fillUp (ip : InodeIndex) (length : Nat) : Nat → FsRoutine Bool
  | 0 => pure true
  | fuel + 1 => do
      let inode ← FileSystem.inodeAt ip
      if inode.size < length then
        let n := min (length - inode.size) 128
        let written ← FileSystem.writei ip (fun _ => 0) inode.size n
        if written ≠ n then
          return false
        else
          fillUp ip length fuel
      else
        return true

/-- `sys_ftruncate` -/
def ftruncateCall (p : Slot) (fd length : Int) : FileRoutine Int := do
  let kernel ← Routine.get
  match kernel.argfd p fd with
  | none => return -1
  | some (_, f) =>
      let file := kernel.file f
      if file.type ≠ .inode ∨ file.writable = false ∨ length < 0 then
        return -1
      else
        let ip ← followIp f
        onFs (FileSystem.ilock ip)
        let inode ← onFs (FileSystem.inodeAt ip)
        if inode.type ≠ T_FILE then
          onFs (FileSystem.iunlock ip)
          return -1
        else
          let filled ←
            if length = 0 then do
              onFs (FileSystem.itrunc ip)
              pure true
            else if inode.size < length.toNat then
              onFs (fillUp ip length.toNat length.toNat)
            else do
              onFs (FileSystem.setInode ip fun inode =>
                { inode with size := length.toNat })
              onFs (FileSystem.iupdate ip)
              pure true
          if filled = false then
            onFs (FileSystem.iunlock ip)
            return -1
          else
            let file ← fileAt f
            if length.toNat < file.off then
              setFile f fun file => { file with off := length.toNat }
              moveOpened f fun _ => length.toNat
            onFs (FileSystem.iunlock ip)
            return 0

/-!
## Without the results
-/

variable {p : Slot} {flags : Nat}

theorem openFile_eq (ip : InodeIndex) :
    openFile p ip flags = (openFd p ip flags >>= fun _ => pure ()) := by
  unfold openFile openFd
  rw [bind_assoc]
  congr 1
  funext found
  cases found with
  | none =>
      simp only [bind_assoc, pure_bind, bind_pure_unit]
  | some f =>
      dsimp only
      rw [bind_assoc]
      congr 1
      funext fd
      cases fd with
      | none =>
          simp only [bind_assoc, pure_bind, bind_pure_unit]
      | some fd =>
          simp only [bind_assoc, pure_bind, bind_pure_unit]

theorem sysOpen_eq
    {text : List UInt8}
    (short : text.length < MAXPATH) :
    sysOpen p text flags =
      (openCall p text flags >>= fun _ => pure ()) := by
  have isText : argstr text MAXPATH = some text := if_pos short
  unfold sysOpen openCall openHeld
  rw [isText]
  dsimp only
  rw [bind_assoc]
  congr 1
  funext found
  cases found with
  | none =>
      rfl
  | some ip =>
      dsimp only
      rw [bind_assoc]
      congr 1
      funext inode
      split
      · rw [openFile_eq, bind_assoc]
      · rw [openFile_eq]

theorem writeFrom_eq
    {f : FileSlot}
    {source : Nat → Option UInt8}
    (fuel written left : Nat) :
    writeFrom f source fuel written left =
      (writeCountFrom f source fuel written left >>= fun _ => pure ()) := by
  induction fuel generalizing written left with
  | zero =>
      rfl
  | succ fuel inductionHypothesis =>
      unfold writeFrom writeCountFrom
      split
      · rfl
      · dsimp only
        rw [bind_assoc]
        congr 1
        funext file
        split
        · rw [bind_assoc]
          congr 1
          funext ret
          split
          · exact inductionHypothesis ..
          · rfl
        · rfl

theorem sysWrite_eq
    {fd len : Int}
    {source : Nat → Option UInt8} :
    sysWrite p fd source len =
      (writeCall p fd source len >>= fun _ => pure ()) := by
  unfold sysWrite writeCall
  rw [bind_assoc]
  congr 1
  funext kernel
  cases kernel.argfd p fd with
  | none =>
      rfl
  | some found =>
      dsimp only
      split
      · exact writeFrom_eq ..
      · rfl

theorem sysLseek_eq
    {fd offset whence : Int} :
    sysLseek p fd offset whence =
      (lseekCall p fd offset whence >>= fun _ => pure ()) := by
  unfold sysLseek lseekCall
  rw [bind_assoc]
  congr 1
  funext kernel
  cases kernel.argfd p fd with
  | none =>
      rfl
  | some found =>
      dsimp only
      split
      · rw [bind_assoc]
        rfl
      · split
        · rw [bind_assoc]
          rfl
        · split
          · rw [bind_assoc]
            rfl
          · rfl

end FileKernel

end MyOS
