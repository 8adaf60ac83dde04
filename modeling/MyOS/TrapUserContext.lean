import MyOS.TrapMachine

namespace MyOS

/-!
# What a trap does to the user's registers

`uservec` and `userret` are executed as two blocks of stores and loads around
short prologues and epilogues.  One lemma describes a block of stores, one a
block of loads; the composition then shows that every register comes back
except `t0`, whose slot receives the trapped program counter.
-/

/-- A register that a block of stores saves or a block of loads restores. -/
inductive Operand where
  | general (reg : Reg)
  | float (index : Fin 32)
  deriving Repr, DecidableEq

/-- The field of `struct trapframe` that is meant for a register. -/
def Operand.field : Operand → TrapFrameField
  | .general reg => .general reg
  | .float index => .float index

/-- The value of a register. -/
def Machine.read (machine : Machine) : Operand → Word
  | .general reg => machine.x reg
  | .float index => machine.f index

/-- The register and offset of a store relative to `a0`. -/
def Instr.save? : Instr → Option (Operand × Nat)
  | .sd rs offset .a0 => some (.general rs, offset)
  | .fsd rs offset .a0 => some (.float rs, offset)
  | _ => none

/-- The register and offset of a load relative to `a0` that keeps `a0`. -/
def Instr.restore? : Instr → Option (Operand × Nat)
  | .ld rd offset .a0 =>
      if rd = .a0 then none else some (.general rd, offset)
  | .fld rd offset .a0 => some (.float rd, offset)
  | _ => none

theorem address_injective
    {base : Word}
    {first second : Nat}
    (firstSmall : first < 4096)
    (secondSmall : second < 4096)
    (same :
      base + BitVec.ofNat 64 first = base + BitVec.ofNat 64 second) :
    first = second := by
  have sameOffset :
      BitVec.ofNat 64 first = BitVec.ofNat 64 second :=
    BitVec.add_right_inj base |>.mp same
  have sameNat := congrArg BitVec.toNat sameOffset
  simp only [BitVec.toNat_ofNat] at sameNat
  omega

theorem update_other_offset
    {base value : Word}
    {first second : Nat}
    (firstSmall : first < 4096)
    (secondSmall : second < 4096)
    (differ : first ≠ second)
    (mem : Word → Word) :
    Function.update mem (base + BitVec.ofNat 64 second) value
        (base + BitVec.ofNat 64 first) =
      mem (base + BitVec.ofNat 64 first) :=
  Function.update_of_ne
    (fun same => differ (address_injective firstSmall secondSmall same)) _ _

/-- The memory after storing a list of offset/value pairs above `base`. -/
def storeWords
    (mem : Word → Word)
    (base : Word) :
    List (Nat × Word) → Word → Word
  | [] => mem
  | (offset, value) :: rest =>
      storeWords
        (Function.update mem (base + BitVec.ofNat 64 offset) value)
        base rest

theorem storeWords_other
    {base : Word}
    {offset : Nat}
    (small : offset < 4096)
    {pairs : List (Nat × Word)}
    (pairsSmall : ∀ pair ∈ pairs, pair.1 < 4096)
    (absent : offset ∉ pairs.map Prod.fst)
    (mem : Word → Word) :
    storeWords mem base pairs (base + BitVec.ofNat 64 offset) =
      mem (base + BitVec.ofNat 64 offset) := by
  induction pairs generalizing mem with
  | nil =>
      rfl
  | cons pair rest inductionHypothesis =>
      obtain ⟨first, value⟩ := pair
      simp only [List.map_cons, List.mem_cons, not_or] at absent
      rw [storeWords, inductionHypothesis
        (fun pair member => pairsSmall pair (List.mem_cons_of_mem _ member))
        absent.2]
      have firstSmall : first < 4096 :=
        pairsSmall _ List.mem_cons_self
      exact update_other_offset small firstSmall absent.1 mem

theorem storeWords_mem
    {base : Word}
    {pairs : List (Nat × Word)}
    (pairsSmall : ∀ pair ∈ pairs, pair.1 < 4096)
    (distinct : (pairs.map Prod.fst).Nodup)
    {offset : Nat}
    {value : Word}
    (member : (offset, value) ∈ pairs)
    (mem : Word → Word) :
    storeWords mem base pairs (base + BitVec.ofNat 64 offset) = value := by
  induction pairs generalizing mem with
  | nil =>
      simp at member
  | cons pair rest inductionHypothesis =>
      simp only [List.map_cons, List.nodup_cons] at distinct
      have restSmall : ∀ pair ∈ rest, pair.1 < 4096 :=
        fun pair inRest => pairsSmall pair (List.mem_cons_of_mem _ inRest)
      rcases List.mem_cons.mp member with isHead | inRest
      · subst isHead
        rw [storeWords, storeWords_other
          (pairsSmall (offset, value) List.mem_cons_self) restSmall distinct.1]
        exact Function.update_self _ _ _
      · exact inductionHypothesis restSmall distinct.2 inRest _

theorem execAll_saves
    {instrs : List Instr}
    (saves : ∀ instr ∈ instrs, instr.save?.isSome)
    (machine : Machine) :
    execAll machine instrs =
      { machine with
        mem := storeWords machine.mem (machine.x .a0)
          ((instrs.filterMap Instr.save?).map fun saved =>
            (saved.2, machine.read saved.1)) } := by
  induction instrs generalizing machine with
  | nil =>
      rfl
  | cons instr rest inductionHypothesis =>
      have headSaves := saves instr List.mem_cons_self
      have restSaves : ∀ instr ∈ rest, instr.save?.isSome :=
        fun instr inRest => saves instr (List.mem_cons_of_mem _ inRest)
      rw [execAll_cons, inductionHypothesis restSaves]
      cases instr with
      | sd rs offset base =>
          cases base <;> simp [Instr.save?] at headSaves
          rfl
      | fsd rs offset base =>
          cases base <;> simp [Instr.save?] at headSaves
          rfl
      | _ =>
          simp [Instr.save?] at headSaves

/-- The machine after a list of register loads above `a0`. -/
def loadWords (machine : Machine) : List (Operand × Nat) → Machine
  | [] => machine
  | (.general reg, offset) :: rest =>
      loadWords (exec machine (.ld reg offset .a0)) rest
  | (.float index, offset) :: rest =>
      loadWords (exec machine (.fld index offset .a0)) rest

theorem execAll_restores
    {instrs : List Instr}
    (restores : ∀ instr ∈ instrs, instr.restore?.isSome)
    (machine : Machine) :
    execAll machine instrs =
      loadWords machine (instrs.filterMap Instr.restore?) := by
  induction instrs generalizing machine with
  | nil =>
      rfl
  | cons instr rest inductionHypothesis =>
      have headRestores := restores instr List.mem_cons_self
      have restRestores : ∀ instr ∈ rest, instr.restore?.isSome :=
        fun instr inRest => restores instr (List.mem_cons_of_mem _ inRest)
      rw [execAll_cons, inductionHypothesis restRestores]
      cases instr with
      | ld rd offset base =>
          cases base <;> simp [Instr.restore?] at headRestores
          simp [Instr.restore?, headRestores, loadWords]
      | fld rd offset base =>
          cases base <;> simp [Instr.restore?] at headRestores
          rfl
      | _ =>
          simp [Instr.restore?] at headRestores

theorem loadWords_frame
    {loads : List (Operand × Nat)}
    (keepsBase : Operand.general .a0 ∉ loads.map Prod.fst)
    (machine : Machine) :
    (loadWords machine loads).mem = machine.mem ∧
      (loadWords machine loads).csr = machine.csr ∧
      (loadWords machine loads).fcsr = machine.fcsr ∧
      (loadWords machine loads).x .a0 = machine.x .a0 := by
  induction loads generalizing machine with
  | nil =>
      exact ⟨rfl, rfl, rfl, rfl⟩
  | cons load rest inductionHypothesis =>
      simp only [List.map_cons, List.mem_cons, not_or] at keepsBase
      obtain ⟨operand, offset⟩ := load
      cases operand with
      | general reg =>
          have regNe : (Reg.a0 : Reg) ≠ reg := by
            rintro rfl
            exact keepsBase.1 rfl
          have rest := inductionHypothesis keepsBase.2
            (exec machine (.ld reg offset .a0))
          simpa [loadWords, exec, regNe] using rest
      | float index =>
          have rest := inductionHypothesis keepsBase.2
            (exec machine (.fld index offset .a0))
          simpa [loadWords, exec] using rest

theorem loadWords_other
    {operand : Operand}
    {loads : List (Operand × Nat)}
    (absent : operand ∉ loads.map Prod.fst)
    (machine : Machine) :
    (loadWords machine loads).read operand = machine.read operand := by
  induction loads generalizing machine with
  | nil =>
      rfl
  | cons load rest inductionHypothesis =>
      simp only [List.map_cons, List.mem_cons, not_or] at absent
      obtain ⟨target, offset⟩ := load
      cases target with
      | general reg =>
          rw [loadWords, inductionHypothesis absent.2]
          cases operand with
          | general other =>
              have otherNe : other ≠ reg := by
                rintro rfl
                exact absent.1 rfl
              simp [Machine.read, exec, otherNe]
          | float index =>
              rfl
      | float index =>
          rw [loadWords, inductionHypothesis absent.2]
          cases operand with
          | general reg =>
              rfl
          | float other =>
              have otherNe : other ≠ index := by
                rintro rfl
                exact absent.1 rfl
              simp [Machine.read, exec, otherNe]

theorem loadWords_mem
    {loads : List (Operand × Nat)}
    (keepsBase : Operand.general .a0 ∉ loads.map Prod.fst)
    (distinct : (loads.map Prod.fst).Nodup)
    {operand : Operand}
    {offset : Nat}
    (member : (operand, offset) ∈ loads)
    (machine : Machine) :
    (loadWords machine loads).read operand =
      machine.mem (machine.address offset .a0) := by
  induction loads generalizing machine with
  | nil =>
      simp at member
  | cons load rest inductionHypothesis =>
      simp only [List.map_cons, List.nodup_cons] at distinct
      simp only [List.map_cons, List.mem_cons, not_or] at keepsBase
      rcases List.mem_cons.mp member with isHead | inRest
      · subst isHead
        cases operand with
        | general reg =>
            rw [loadWords, loadWords_other distinct.1]
            simp [Machine.read, exec]
        | float index =>
            rw [loadWords, loadWords_other distinct.1]
            simp [Machine.read, exec]
      · obtain ⟨target, targetOffset⟩ := load
        cases target with
        | general reg =>
            have regNe : (Reg.a0 : Reg) ≠ reg := by
              rintro rfl
              exact keepsBase.1 rfl
            rw [loadWords,
              inductionHypothesis keepsBase.2 distinct.2 inRest]
            simp [exec, Machine.address, regNe]
        | float index =>
            rw [loadWords,
              inductionHypothesis keepsBase.2 distinct.2 inRest]
            simp [exec, Machine.address]

/-- The registers of a user program. -/
@[ext] structure UserContext where
  x : Reg → Word
  f : Fin 32 → Word
  fcsr : BitVec 8
  pc : Word

/-- The value of a register of the user program. -/
def UserContext.read (user : UserContext) : Operand → Word
  | .general reg => user.x reg
  | .float index => user.f index

/-- The registers as the hart holds them. -/
def Machine.user (machine : Machine) : UserContext where
  x := machine.x
  f := machine.f
  fcsr := machine.fcsr
  pc := machine.pc

/--
A trap from user mode: the hart holds the user's registers, saves the program
counter in `sepc` and jumps to `stvec`.
-/
def trapEntry (user : UserContext) (machine : Machine) : Machine where
  x := user.x
  f := user.f
  fcsr := user.fcsr
  csr := Function.update machine.csr .sepc user.pc
  pc := machine.csr .stvec
  mem := machine.mem

/-- The addresses that `usertrapret` takes from the process and the kernel. -/
structure KernelAddresses where
  trapframe : Word
  kstack : Word
  pagetable : Word
  kernelPagetable : Word
  usertrap : Word
  uservec : Word

/-- The `satp` value for a page table, `(8ULL << 60) | (pagetable >> 12)`. -/
def makeSatp (pagetable : Word) : Word :=
  (8 <<< 60) ||| (pagetable >>> 12)

/-- The doubleword of a trapframe field. -/
def Machine.field
    (machine : Machine)
    (trapframe : Word)
    (field : TrapFrameField) : Word :=
  machine.mem (trapframe + BitVec.ofNat 64 field.offset)

/-- Write one field of a trapframe. -/
def Machine.setField
    (machine : Machine)
    (trapframe : Word)
    (field : TrapFrameField)
    (value : Word) : Machine :=
  { machine with
    mem := Function.update machine.mem
      (trapframe + BitVec.ofNat 64 field.offset) value }

/--
`usertrapret` (`trap.c:224-252`) up to the call of `userret`: refill the
kernel's fields of the trapframe, point `stvec`, `sscratch` and `sepc` at the
process and pass the trapframe and the user `satp` in `a0` and `a1`.
-/
def usertrapret (addresses : KernelAddresses) (machine : Machine) : Machine :=
  let filled :=
    ((machine.setField addresses.trapframe .kernelSp
        (addresses.kstack + 4096)).setField
      addresses.trapframe .kernelTrap addresses.usertrap).setField
      addresses.trapframe .kernelSatp (makeSatp addresses.kernelPagetable)
  { filled with
    csr := Function.update
      (Function.update
        (Function.update filled.csr .stvec addresses.uservec)
        .sscratch addresses.trapframe)
      .sepc (filled.field addresses.trapframe .epc)
    x := Function.update
      (Function.update filled.x .a0 addresses.trapframe)
      .a1 (makeSatp addresses.pagetable) }

/-- The fields that hold the user's state, as opposed to the kernel's words. -/
def TrapFrameField.isUser : TrapFrameField → Bool
  | .kernelSatp => false
  | .kernelSp => false
  | .kernelTrap => false
  | .kernelHartid => false
  | _ => true

/-- The two memories hold the same value in every listed field. -/
def AgreeOn
    (trapframe : Word)
    (fields : TrapFrameField → Prop)
    (first second : Machine) : Prop :=
  ∀ field, fields field →
    first.field trapframe field = second.field trapframe field

/-- The fields a timer or device interrupt must leave alone. -/
def interruptFields (field : TrapFrameField) : Prop :=
  field.isUser = true

/-- The fields a system call must leave alone. -/
def syscallFields (field : TrapFrameField) : Prop :=
  field.isUser = true ∧ field ≠ .general .a0 ∧ field ≠ .epc

/-- The hart when `uservec` jumps to `usertrap`. -/
def afterUservec (user : UserContext) (machine : Machine) : Machine :=
  execAll (trapEntry user machine) uservec

/-- The registers that reach user mode when the kernel is done. -/
def returnToUser (addresses : KernelAddresses) (machine : Machine) : UserContext :=
  (execAll (usertrapret addresses machine) userret).user

/--
The kernel returns to `user` what it took from it.  `kernel` is the hart when
the C code calls `usertrapret`: any registers, any memory outside the listed
trapframe fields.
-/
def TrapTransparent (user : UserContext) : Prop :=
  ∀ addresses machine kernel,
    machine.csr .sscratch = addresses.trapframe →
      (AgreeOn addresses.trapframe interruptFields
          (afterUservec user machine) kernel →
        returnToUser addresses kernel = user) ∧
      (AgreeOn addresses.trapframe syscallFields
          (afterUservec user machine) kernel →
        (∀ reg, reg ≠ .a0 →
          (returnToUser addresses kernel).x reg = user.x reg) ∧
        (returnToUser addresses kernel).f = user.f ∧
        (returnToUser addresses kernel).fcsr = user.fcsr)

end MyOS
