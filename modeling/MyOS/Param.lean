namespace MyOS

/-!
# System parameters

The constants of `param.h` and `memlayout.h` that the modelled code uses.
-/

/-- Number of process table slots. -/
def NPROC : Nat := 64

/-- Number of harts. -/
def NCPU : Nat := 1

/-- Descriptors per process. -/
def NOFILE : Nat := 16

/-- Slots of the global file table. -/
def NFILE : Nat := 100

/-- Slots of the in-core inode table. -/
def NINODE : Nat := 50

/-- The device that holds the root file system. -/
def ROOTDEV : Nat := 1

/-- Slots of the buffer cache, `MAXOPBLOCKS * 3`. -/
def NBUF : Nat := 30

/-- Blocks of the file system image. -/
def FSSIZE : Nat := 16384

/-- Bytes of a disk block. -/
def BSIZE : Nat := 1024

/-- Bytes of a page. -/
def PGSIZE : Nat := 4096

/-- The first address that `walk` panics on, `1L << 38`. -/
def MAXVA : Nat := 0x4000000000

/-- Where the kernel is loaded and physical memory begins. -/
def KERNBASE : Nat := 0x80000000

/-- The end of physical memory, 128 MB above `KERNBASE`. -/
def PHYSTOP : Nat := KERNBASE + 128 * 1024 * 1024

/-- `PGROUNDUP(sz)`, the next page boundary at or above `sz`. -/
def pgRoundUp (size : Nat) : Nat :=
  (size + (PGSIZE - 1)) / PGSIZE * PGSIZE

/-- `PGROUNDDOWN(a)`, the page boundary at or below `a`. -/
def pgRoundDown (address : Nat) : Nat :=
  address / PGSIZE * PGSIZE

/-- Bytes of a buffer for a path. -/
def MAXPATH : Nat := 128

/-- Bytes of the shell's buffers for lines. -/
def LINE_SIZE : Nat := 256

end MyOS
