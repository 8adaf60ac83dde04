import MyOS.DirectoryChanges
import MyOS.DiskImage

namespace MyOS

open Lib
open Routine

/-!
# Path resolution

`namei` walks from directory to directory, and `nameiparent` with a last
`dirlookup` comes to the same inode.  With two unused in-core inodes no walk
can fill the table: it holds at most two handles at a time.
-/

namespace Volume

variable {vol : Volume} {inum : Nat} {names : List (List UInt8)}

/-- Two in-core inodes are unused. -/
def Vacant (vol : Volume) : Prop :=
  ∃ x y, x ≠ y ∧ (vol.handle x).ref = 0 ∧ (vol.handle y).ref = 0

end Volume

namespace FileSystem

variable {tolerated : FileSystem → FsPanic → Prop}
variable {fs later : FileSystem} {base vol : Volume}
variable {extra : InodeIndex → Nat} {inum : Nat}
variable {cwd : Option InodeIndex} {path : List UInt8}

theorem Represents.ref_eq
    {lagging : Option Nat}
    (represents : fs.Represents vol lagging)
    (ip : InodeIndex) :
    (vol.handle ip).ref = (fs.inode ip).ref := by
  obtain ⟨m, _, isVolume⟩ := represents
  rw [isVolume]
  rfl

theorem vacant_full (vacant : base.Vacant) :
    ToleratesFull (fun _ _ => False) base 0 := by
  intro fs vol more atMost represents borrows full
  obtain ⟨x, y, different, xUnused, yUnused⟩ := vacant
  have unborrowed {z : InodeIndex}
      (unused : (base.handle z).ref = 0)
      (notMore : more z = 0) :
      False := by
    have now := borrows.ref z
    rw [unused, represents.ref_eq, Pi.add_apply, notMore] at now
    exact full z now
  rcases atMost with rfl | ⟨ip, rfl⟩
  · exact unborrowed xUnused rfl
  · by_cases same : x = ip
    · rw [same] at different
      exact unborrowed yUnused (Volume.one_of_ne different.symm)
    · exact unborrowed xUnused (Volume.one_of_ne same)

end FileSystem

end MyOS
