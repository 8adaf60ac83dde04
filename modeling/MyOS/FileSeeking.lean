import MyOS.FileSanity

namespace MyOS

open Lib
open Routine

/-!
# Seeking

What `sys_lseek` is for: it moves the offset of a file to a place, and refuses
places that an offset cannot have and files that have no places.  The code
checks neither, so that it does this exactly where there is nothing to check.
-/

namespace FileKernel

/-- The place that an offset is counted from, for a known `whence`. -/
def seekBase (whence : Int) (off size : Nat) : Option Nat :=
  if whence = 0 then
    some 0
  else if whence = 1 then
    some off
  else if whence = 2 then
    some size
  else
    none

/-- An offset that `f->off` can have. -/
def toOffset (target : Int) : Option Nat :=
  if 0 ≤ target ∧ target < uintModulus then some target.toNat else none

/-- The node that a file is open on. -/
def nodeOf? (vol : Volume) (file : FileObject) : Option Nat :=
  if file.type = .inode then
    file.ip.map fun ip => (vol.handle ip).inum
  else
    none

/-- The file and the place that a seek asks for. -/
def seekTarget
    (vol : Volume)
    (kernel : FileKernel)
    (p : Slot)
    (fd offset whence : Int) :
    Option (FileSlot × Nat) :=
  (kernel.argfd p fd).bind fun (_, f) =>
    (nodeOf? vol (kernel.file f)).bind fun inum =>
      (seekBase whence (kernel.file f).off (vol.node inum).bytes.length).bind
        fun base => (toOffset (base + offset)).map fun off => (f, off)

variable {kernel later : FileKernel} {vol : Volume} {p : Slot}
variable {f : FileSlot} {ip : InodeIndex} {inum off : Nat}
variable {fd offset whence : Int}

/-- The state behind a seek. -/
def sought (kernel : FileKernel) (f : FileSlot) (move : Nat → Nat) :
    FileKernel :=
  { kernel with
    file :=
      Function.update kernel.file f
        { kernel.file f with off := move (kernel.file f).off }
    opened :=
      Function.update kernel.opened f
        ((kernel.opened f).map fun opening =>
          { opening with off := move opening.off }) }

/-- The place that `sys_lseek` moves an offset to. -/
def wrapped (base : Nat) (offset : Int) : Nat :=
  ((base + offset) % uintModulus).toNat

end FileKernel

end MyOS
