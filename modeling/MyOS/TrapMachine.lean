import Mathlib.Data.List.Nodup
import Mathlib.Logic.Function.Basic

namespace MyOS

/-!
# The machine under the trap trampoline

The two hand-written sequences `uservec` (`trampoline.S`) and `userret`
(`userret.S`) move the user's registers between the hart and the process's
`struct trapframe`.  This module gives the instructions they use a meaning and
transcribes both sequences in source order.

The trapframe page is mapped at its physical address in the kernel's and in
the user's page table, so `csrw satp` changes no address used here.  Memory is
addressed by doubleword: the trapframe is page aligned and every access below
is at a multiple of eight.
-/

/-- A 64-bit machine word. -/
abbrev Word := BitVec 64

/-- The general registers `x1`-`x31` under their ABI names. -/
inductive Reg where
  | ra | sp | gp | tp
  | t0 | t1 | t2
  | s0 | s1
  | a0 | a1 | a2 | a3 | a4 | a5 | a6 | a7
  | s2 | s3 | s4 | s5 | s6 | s7 | s8 | s9 | s10 | s11
  | t3 | t4 | t5 | t6
  deriving Repr, DecidableEq

/-- The number `n` of the register `xn` that an ABI name stands for. -/
def Reg.number (reg : Reg) : Nat :=
  reg.ctorIdx + 1

/-- The control registers that the trampoline reads or writes. -/
inductive Csr where
  | sepc | sscratch | satp | stvec
  deriving Repr, DecidableEq

/-- The instructions of `trampoline.S` and `userret.S`. -/
inductive Instr where
  | csrrw (rd : Reg) (csr : Csr) (rs : Reg)
  | csrr (rd : Reg) (csr : Csr)
  | csrw (csr : Csr) (rs : Reg)
  | sd (rs : Reg) (offset : Nat) (base : Reg)
  | ld (rd : Reg) (offset : Nat) (base : Reg)
  | fsd (rs : Fin 32) (offset : Nat) (base : Reg)
  | fld (rd : Fin 32) (offset : Nat) (base : Reg)
  | frcsr (rd : Reg)
  | fscsr (rs : Reg)
  | sfenceVma
  | jr (rs : Reg)
  | sret
  deriving Repr, DecidableEq

/--
The hart and the memory it reaches.  `fcsr` has eight implemented bits: three
of rounding mode and five of accrued exceptions.
-/
structure Machine where
  x : Reg → Word
  f : Fin 32 → Word
  fcsr : BitVec 8
  csr : Csr → Word
  pc : Word
  mem : Word → Word

/-- The doubleword address `offset(base)` of a load or a store. -/
def Machine.address (machine : Machine) (offset : Nat) (base : Reg) : Word :=
  machine.x base + BitVec.ofNat 64 offset

/--
The effect of one instruction.  Only the jumps set `pc`; between them the
sequences run straight through.
-/
def exec (machine : Machine) : Instr → Machine
  | .csrrw rd csr rs =>
      { machine with
        x := Function.update machine.x rd (machine.csr csr)
        csr := Function.update machine.csr csr (machine.x rs) }
  | .csrr rd csr =>
      { machine with x := Function.update machine.x rd (machine.csr csr) }
  | .csrw csr rs =>
      { machine with csr := Function.update machine.csr csr (machine.x rs) }
  | .sd rs offset base =>
      { machine with
        mem := Function.update machine.mem
          (machine.address offset base) (machine.x rs) }
  | .ld rd offset base =>
      { machine with
        x := Function.update machine.x rd
          (machine.mem (machine.address offset base)) }
  | .fsd rs offset base =>
      { machine with
        mem := Function.update machine.mem
          (machine.address offset base) (machine.f rs) }
  | .fld rd offset base =>
      { machine with
        f := Function.update machine.f rd
          (machine.mem (machine.address offset base)) }
  | .frcsr rd =>
      { machine with
        x := Function.update machine.x rd (machine.fcsr.zeroExtend 64) }
  | .fscsr rs =>
      { machine with fcsr := (machine.x rs).truncate 8 }
  | .sfenceVma =>
      machine
  | .jr rs =>
      { machine with pc := machine.x rs }
  | .sret =>
      { machine with pc := machine.csr .sepc }

/-- Run a straight sequence of instructions. -/
def execAll (machine : Machine) (instrs : List Instr) : Machine :=
  instrs.foldl exec machine

theorem execAll_append
    (machine : Machine)
    (first second : List Instr) :
    execAll machine (first ++ second) =
      execAll (execAll machine first) second := by
  simp [execAll]

@[simp] theorem execAll_nil (machine : Machine) :
    execAll machine [] = machine :=
  rfl

@[simp] theorem execAll_cons
    (machine : Machine)
    (instr : Instr)
    (rest : List Instr) :
    execAll machine (instr :: rest) =
      execAll (exec machine instr) rest :=
  rfl

/-- `uservec` up to the first store of a user register. -/
def uservecEntry : List Instr :=
  [ .csrrw .a0 .sscratch .a0,
    .csrr .t0 .sepc,
    .sd .t0 24 .a0 ]

/-- The stores of the general registers in `uservec`; `a0` follows later. -/
def uservecGeneral : List Instr :=
  [ .sd .ra 40 .a0,
    .sd .sp 48 .a0,
    .sd .gp 56 .a0,
    .sd .tp 64 .a0,
    .sd .t0 72 .a0,
    .sd .t1 80 .a0,
    .sd .t2 88 .a0,
    .sd .s0 96 .a0,
    .sd .s1 104 .a0,
    .sd .a1 120 .a0,
    .sd .a2 128 .a0,
    .sd .a3 136 .a0,
    .sd .a4 144 .a0,
    .sd .a5 152 .a0,
    .sd .a6 160 .a0,
    .sd .a7 168 .a0,
    .sd .s2 176 .a0,
    .sd .s3 184 .a0,
    .sd .s4 192 .a0,
    .sd .s5 200 .a0,
    .sd .s6 208 .a0,
    .sd .s7 216 .a0,
    .sd .s8 224 .a0,
    .sd .s9 232 .a0,
    .sd .s10 240 .a0,
    .sd .s11 248 .a0,
    .sd .t3 256 .a0,
    .sd .t4 264 .a0,
    .sd .t5 272 .a0,
    .sd .t6 280 .a0 ]

/-- The stores of the floating-point registers in `uservec`. -/
def uservecFloat : List Instr :=
  [ .fsd 0 288 .a0,
    .fsd 1 296 .a0,
    .fsd 2 304 .a0,
    .fsd 3 312 .a0,
    .fsd 4 320 .a0,
    .fsd 5 328 .a0,
    .fsd 6 336 .a0,
    .fsd 7 344 .a0,
    .fsd 8 352 .a0,
    .fsd 9 360 .a0,
    .fsd 10 368 .a0,
    .fsd 11 376 .a0,
    .fsd 12 384 .a0,
    .fsd 13 392 .a0,
    .fsd 14 400 .a0,
    .fsd 15 408 .a0,
    .fsd 16 416 .a0,
    .fsd 17 424 .a0,
    .fsd 18 432 .a0,
    .fsd 19 440 .a0,
    .fsd 20 448 .a0,
    .fsd 21 456 .a0,
    .fsd 22 464 .a0,
    .fsd 23 472 .a0,
    .fsd 24 480 .a0,
    .fsd 25 488 .a0,
    .fsd 26 496 .a0,
    .fsd 27 504 .a0,
    .fsd 28 512 .a0,
    .fsd 29 520 .a0,
    .fsd 30 528 .a0,
    .fsd 31 536 .a0 ]

/-- `uservec` after the last floating-point store, up to the jump. -/
def uservecExit : List Instr :=
  [ .frcsr .t0,
    .sd .t0 544 .a0,
    .csrr .t0 .sscratch,
    .sd .t0 112 .a0,
    .ld .sp 8 .a0,
    .ld .t1 0 .a0,
    .csrw .satp .t1,
    .sfenceVma,
    .ld .t0 16 .a0,
    .jr .t0 ]

/-- `trampoline.S:5-91`, the entry of every trap from user mode. -/
def uservec : List Instr :=
  uservecEntry ++ (uservecGeneral ++ uservecFloat) ++ uservecExit

/-- `userret` up to the first load of a floating-point register. -/
def userretEntry : List Instr :=
  [ .csrw .satp .a1,
    .sfenceVma,
    .ld .t0 544 .a0,
    .fscsr .t0 ]

/-- The loads of the floating-point registers in `userret`. -/
def userretFloat : List Instr :=
  [ .fld 0 288 .a0,
    .fld 1 296 .a0,
    .fld 2 304 .a0,
    .fld 3 312 .a0,
    .fld 4 320 .a0,
    .fld 5 328 .a0,
    .fld 6 336 .a0,
    .fld 7 344 .a0,
    .fld 8 352 .a0,
    .fld 9 360 .a0,
    .fld 10 368 .a0,
    .fld 11 376 .a0,
    .fld 12 384 .a0,
    .fld 13 392 .a0,
    .fld 14 400 .a0,
    .fld 15 408 .a0,
    .fld 16 416 .a0,
    .fld 17 424 .a0,
    .fld 18 432 .a0,
    .fld 19 440 .a0,
    .fld 20 448 .a0,
    .fld 21 456 .a0,
    .fld 22 464 .a0,
    .fld 23 472 .a0,
    .fld 24 480 .a0,
    .fld 25 488 .a0,
    .fld 26 496 .a0,
    .fld 27 504 .a0,
    .fld 28 512 .a0,
    .fld 29 520 .a0,
    .fld 30 528 .a0,
    .fld 31 536 .a0 ]

/-- The loads of the general registers in `userret`, `a0` left out. -/
def userretGeneral : List Instr :=
  [ .ld .ra 40 .a0,
    .ld .sp 48 .a0,
    .ld .gp 56 .a0,
    .ld .tp 64 .a0,
    .ld .t0 72 .a0,
    .ld .t1 80 .a0,
    .ld .t2 88 .a0,
    .ld .s0 96 .a0,
    .ld .s1 104 .a0,
    .ld .a1 120 .a0,
    .ld .a2 128 .a0,
    .ld .a3 136 .a0,
    .ld .a4 144 .a0,
    .ld .a5 152 .a0,
    .ld .a6 160 .a0,
    .ld .a7 168 .a0,
    .ld .s2 176 .a0,
    .ld .s3 184 .a0,
    .ld .s4 192 .a0,
    .ld .s5 200 .a0,
    .ld .s6 208 .a0,
    .ld .s7 216 .a0,
    .ld .s8 224 .a0,
    .ld .s9 232 .a0,
    .ld .s10 240 .a0,
    .ld .s11 248 .a0,
    .ld .t3 256 .a0,
    .ld .t4 264 .a0,
    .ld .t5 272 .a0,
    .ld .t6 280 .a0 ]

/-- The last two instructions of `userret`. -/
def userretExit : List Instr :=
  [ .ld .a0 112 .a0,
    .sret ]

/-- `userret.S:8-107`, the only way back to user mode. -/
def userret : List Instr :=
  userretEntry ++ (userretFloat ++ userretGeneral) ++ userretExit

/-- The fields of `struct trapframe` (`proc.h:90-131`). -/
inductive TrapFrameField where
  | kernelSatp
  | kernelSp
  | kernelTrap
  | epc
  | kernelHartid
  | general (reg : Reg)
  | float (index : Fin 32)
  | fcsr
  deriving Repr, DecidableEq

/--
Byte offset of a field.  The structure holds five kernel words, then the
registers in the order `x1`-`x31`, then `f[32]` and `fcsr`, all of eight bytes.
-/
def TrapFrameField.offset : TrapFrameField → Nat
  | .kernelSatp => 0
  | .kernelSp => 8
  | .kernelTrap => 16
  | .epc => 24
  | .kernelHartid => 32
  | .general reg => 40 + 8 * (reg.number - 1)
  | .float index => 288 + 8 * index.val
  | .fcsr => 544

end MyOS
