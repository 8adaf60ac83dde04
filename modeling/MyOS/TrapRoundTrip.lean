import MyOS.TrapUserContext

namespace MyOS

/-!
# The composition of `uservec` and `userret`

Slot by slot, the trapframe after `uservec` holds the user's registers, with
one exception: `csrr t0, sepc` overwrites `t0` before `sd t0, 72(a0)`, so the
slot of `t0` holds the trapped program counter.  `userret` reads every slot
back.  A trap is therefore transparent exactly when `t0` equals `pc`.
-/

/-- The registers saved by the two store blocks, with their offsets. -/
def uservecSaves : List (Operand × Nat) :=
  (uservecGeneral ++ uservecFloat).filterMap Instr.save?

/-- The registers loaded by the two load blocks, with their offsets. -/
def userretRestores : List (Operand × Nat) :=
  (userretFloat ++ userretGeneral).filterMap Instr.restore?

theorem uservecSaves_complete :
    ∀ instr ∈ uservecGeneral ++ uservecFloat, instr.save?.isSome := by
  decide

theorem userretRestores_complete :
    ∀ instr ∈ userretFloat ++ userretGeneral, instr.restore?.isSome := by
  decide

theorem uservecSaves_small :
    ∀ saved ∈ uservecSaves, saved.2 < 4096 := by
  decide

theorem uservecSaves_distinct :
    (uservecSaves.map Prod.snd).Nodup := by
  decide

theorem userretRestores_distinct :
    (userretRestores.map Prod.fst).Nodup := by
  decide

theorem userretRestores_keepsBase :
    Operand.general .a0 ∉ userretRestores.map Prod.fst := by
  decide

theorem trampoline_offsets
    {operand : Operand}
    (notBase : operand ≠ .general .a0) :
    (operand, operand.field.offset) ∈ uservecSaves ∧
      (operand, operand.field.offset) ∈ userretRestores := by
  cases operand with
  | general reg =>
      cases reg
      case a0 =>
        exact (notBase rfl).elim
      all_goals decide
  | float index =>
      revert index
      decide

/-- The hart after the first three instructions of `uservec`. -/
def entered (user : UserContext) (machine : Machine) : Machine :=
  execAll (trapEntry user machine) uservecEntry

section Uservec

variable (user : UserContext) (machine : Machine)

theorem entered_read
    {operand : Operand}
    (notBase : operand ≠ .general .a0) :
    (entered user machine).read operand =
      if operand = .general .t0 then user.pc else user.read operand := by
  cases operand with
  | general reg =>
      cases reg
      case a0 =>
        exact (notBase rfl).elim
      all_goals
        simp [entered, uservecEntry, exec, trapEntry, Machine.read,
          UserContext.read]
  | float index =>
      rfl

theorem entered_base :
    (entered user machine).x .a0 = machine.csr .sscratch := by
  simp [entered, uservecEntry, exec, trapEntry]

theorem afterUservec_mem :
    (afterUservec user machine).mem =
      Function.update
        (Function.update
          (storeWords (entered user machine).mem (machine.csr .sscratch)
            (uservecSaves.map fun saved =>
              (saved.2, (entered user machine).read saved.1)))
          (machine.csr .sscratch +
            BitVec.ofNat 64 TrapFrameField.fcsr.offset)
          (user.fcsr.zeroExtend 64))
        (machine.csr .sscratch +
          BitVec.ofNat 64 (TrapFrameField.general .a0).offset)
        (user.x .a0) := by
  have blocks :=
    execAll_saves uservecSaves_complete (entered user machine)
  rw [entered_base] at blocks
  have split :
      afterUservec user machine =
        execAll (execAll (entered user machine)
          (uservecGeneral ++ uservecFloat)) uservecExit := by
    simp [afterUservec, uservec, execAll_append, entered]
  have scratch :
      (entered user machine).csr .sscratch = user.x .a0 := by
    simp [entered, uservecEntry, exec, trapEntry]
  have float : (entered user machine).fcsr = user.fcsr :=
    rfl
  rw [split, blocks]
  simp [uservecExit, exec, Machine.address, entered_base, scratch, float,
    uservecSaves, TrapFrameField.offset, Reg.number]
  rfl

variable {user machine}

theorem uservecPairs_small :
    ∀ pair ∈ uservecSaves.map (fun saved =>
        (saved.2, (entered user machine).read saved.1)),
      pair.1 < 4096 := by
  intro pair member
  obtain ⟨saved, inSaves, rfl⟩ := List.mem_map.mp member
  exact uservecSaves_small saved inSaves

theorem afterUservec_field
    {operand : Operand}
    (notBase : operand ≠ .general .a0) :
    (afterUservec user machine).field (machine.csr .sscratch)
        operand.field =
      if operand = .general .t0 then user.pc else user.read operand := by
  have member := (trampoline_offsets notBase).1
  have small : operand.field.offset < 4096 :=
    uservecSaves_small _ member
  have apart :
      operand.field.offset ≠ TrapFrameField.fcsr.offset ∧
        operand.field.offset ≠ (TrapFrameField.general .a0).offset := by
    have absent :
        ∀ saved ∈ uservecSaves,
          saved.2 ≠ TrapFrameField.fcsr.offset ∧
            saved.2 ≠ (TrapFrameField.general .a0).offset := by
      decide
    exact absent _ member
  have stored := List.mem_map_of_mem
    (f := fun saved => (saved.2, (entered user machine).read saved.1))
    member
  rw [Machine.field, afterUservec_mem,
    update_other_offset small (by decide) apart.2,
    update_other_offset small (by decide) apart.1,
    storeWords_mem uservecPairs_small ?_ stored]
  · exact entered_read user machine notBase
  · simpa [List.map_map, Function.comp_def] using uservecSaves_distinct

theorem afterUservec_special
    (user : UserContext)
    (machine : Machine) :
    (afterUservec user machine).field (machine.csr .sscratch)
        (.general .a0) = user.x .a0 ∧
      (afterUservec user machine).field (machine.csr .sscratch)
        .fcsr = user.fcsr.zeroExtend 64 ∧
      (afterUservec user machine).field (machine.csr .sscratch)
        .epc = user.pc := by
  refine ⟨?_, ?_, ?_⟩
  · rw [Machine.field, afterUservec_mem]
    exact Function.update_self _ _ _
  · rw [Machine.field, afterUservec_mem,
      update_other_offset (by decide) (by decide) (by decide)]
    exact Function.update_self _ _ _
  · have absent :
        TrapFrameField.epc.offset ∉
          (uservecSaves.map fun saved =>
            (saved.2, (entered user machine).read saved.1)).map
              Prod.fst := by
      have notSaved :
          TrapFrameField.epc.offset ∉ uservecSaves.map Prod.snd := by
        decide
      simpa [List.map_map, Function.comp_def] using notSaved
    rw [Machine.field, afterUservec_mem,
      update_other_offset (by decide) (by decide) (by decide),
      update_other_offset (by decide) (by decide) (by decide),
      storeWords_other (by decide) uservecPairs_small absent]
    simp [entered, uservecEntry, exec, trapEntry, Machine.address,
      TrapFrameField.offset]

end Uservec

section Userret

variable (addresses : KernelAddresses) (kernel : Machine)

theorem usertrapret_field
    (field : TrapFrameField)
    (isUser : field.isUser = true) :
    (usertrapret addresses kernel).field addresses.trapframe field =
      kernel.field addresses.trapframe field := by
  have bound : field.offset < 4096 := by
    cases field with
    | general reg =>
        cases reg <;> decide
    | float index =>
        simp only [TrapFrameField.offset]
        omega
    | _ =>
        decide
  have positions :
      field.offset ≠ TrapFrameField.kernelSatp.offset ∧
        field.offset ≠ TrapFrameField.kernelSp.offset ∧
        field.offset ≠ TrapFrameField.kernelTrap.offset := by
    cases field with
    | general reg =>
        simp only [TrapFrameField.offset]
        omega
    | float index =>
        simp only [TrapFrameField.offset]
        omega
    | _ =>
        simp_all [TrapFrameField.isUser, TrapFrameField.offset]
  simp only [usertrapret, Machine.field, Machine.setField]
  rw [update_other_offset bound (by decide) positions.1,
    update_other_offset bound (by decide) positions.2.2,
    update_other_offset bound (by decide) positions.2.1]

/-- The hart after the first four instructions of `userret`. -/
def leaving : Machine :=
  execAll (usertrapret addresses kernel) userretEntry

theorem leaving_base :
    (leaving addresses kernel).x .a0 = addresses.trapframe := by
  simp [leaving, userretEntry, exec, usertrapret]

theorem leaving_mem :
    (leaving addresses kernel).mem =
      (usertrapret addresses kernel).mem := by
  simp [leaving, userretEntry, exec]

theorem returnToUser_eq :
    returnToUser addresses kernel =
      (execAll (loadWords (leaving addresses kernel) userretRestores)
        userretExit).user := by
  rw [returnToUser, userret, execAll_append, execAll_append,
    execAll_restores userretRestores_complete]
  rfl

theorem returnToUser_read
    {operand : Operand}
    (notBase : operand ≠ .general .a0) :
    (returnToUser addresses kernel).read operand =
      kernel.field addresses.trapframe operand.field := by
  have member := (trampoline_offsets notBase).2
  have loaded :=
    loadWords_mem userretRestores_keepsBase userretRestores_distinct
      member (leaving addresses kernel)
  have isUser : operand.field.isUser = true := by
    cases operand <;> rfl
  have kept :
      (returnToUser addresses kernel).read operand =
        (loadWords (leaving addresses kernel) userretRestores).read
          operand := by
    rw [returnToUser_eq]
    cases operand with
    | general reg =>
        have regNe : reg ≠ .a0 := by
          rintro rfl
          exact notBase rfl
        simp [userretExit, exec, Machine.user, UserContext.read,
          Machine.read, regNe]
    | float index =>
        rfl
  rw [kept, loaded, Machine.address, leaving_base, leaving_mem]
  exact usertrapret_field addresses kernel _ isUser

theorem returnToUser_special :
    (returnToUser addresses kernel).x .a0 =
        kernel.field addresses.trapframe (.general .a0) ∧
      (returnToUser addresses kernel).fcsr =
        (kernel.field addresses.trapframe .fcsr).truncate 8 ∧
      (returnToUser addresses kernel).pc =
        kernel.field addresses.trapframe .epc := by
  obtain ⟨mem, csr, fcsr, base⟩ :=
    loadWords_frame userretRestores_keepsBase (leaving addresses kernel)
  rw [returnToUser_eq]
  refine ⟨?_, ?_, ?_⟩
  · simp only [userretExit, execAll_cons, execAll_nil, exec, Machine.user,
      Machine.address, Function.update_self, mem, base, leaving_base,
      leaving_mem]
    exact usertrapret_field addresses kernel (.general .a0) rfl
  · have filled :=
      usertrapret_field addresses kernel .fcsr rfl
    simp only [userretExit, execAll_cons, execAll_nil, exec, Machine.user,
      fcsr]
    rw [← filled]
    simp [leaving, userretEntry, exec, Machine.address, Machine.field,
      usertrapret, TrapFrameField.offset]
  · have filled :=
      usertrapret_field addresses kernel .epc rfl
    simp only [userretExit, execAll_cons, execAll_nil, exec, Machine.user,
      csr]
    rw [← filled]
    simp [leaving, userretEntry, exec, Machine.field, Machine.setField,
      usertrapret, TrapFrameField.offset]

end Userret

theorem returnToUser_of_agree
    {addresses : KernelAddresses}
    {user : UserContext}
    {machine kernel : Machine}
    (scratch : machine.csr .sscratch = addresses.trapframe)
    (operand : Operand)
    (notBase : operand ≠ .general .a0)
    (agree :
      (afterUservec user machine).field addresses.trapframe operand.field =
        kernel.field addresses.trapframe operand.field) :
    (returnToUser addresses kernel).read operand =
      if operand = .general .t0 then user.pc else user.read operand := by
  rw [returnToUser_read addresses kernel notBase, ← agree, ← scratch]
  exact afterUservec_field notBase

theorem TrapTransparent.temporary_eq
    {user : UserContext}
    (transparent : TrapTransparent user) :
    user.x .t0 = user.pc := by
  let machine : Machine :=
    { x := user.x, f := user.f, fcsr := user.fcsr,
      csr := fun _ => 0, pc := 0, mem := fun _ => 0 }
  let addresses : KernelAddresses :=
    { trapframe := 0, kstack := 0, pagetable := 0,
      kernelPagetable := 0, usertrap := 0, uservec := 0 }
  have returned :=
    (transparent addresses machine (afterUservec user machine) rfl).1
      (fun _ _ => rfl)
  have scratch : machine.csr .sscratch = addresses.trapframe := rfl
  have slot :
      (returnToUser addresses (afterUservec user machine)).read
          (.general .t0) = user.pc :=
    returnToUser_of_agree scratch (.general .t0) (by decide) rfl
  rw [returned] at slot
  simpa [UserContext.read] using slot

/--
A trap gives the user program back what it took exactly when `t0` happens to
hold the trapped program counter.
-/
theorem trapTransparent_iff (user : UserContext) :
    TrapTransparent user ↔ user.x .t0 = user.pc := by
  constructor
  · exact TrapTransparent.temporary_eq
  · intro sameWord addresses machine kernel scratch
    have restored :
        ∀ operand : Operand,
          operand ≠ .general .a0 →
          (afterUservec user machine).field addresses.trapframe
              operand.field =
            kernel.field addresses.trapframe operand.field →
          (returnToUser addresses kernel).read operand =
            user.read operand := by
      intro operand notBase agree
      rw [returnToUser_of_agree scratch operand notBase agree]
      split
      next isTemporary =>
        subst isTemporary
        exact sameWord.symm
      next =>
        rfl
    obtain ⟨baseSlot, floatSlot, counterSlot⟩ :=
      afterUservec_special user machine
    obtain ⟨baseBack, floatBack, counterBack⟩ :=
      returnToUser_special addresses kernel
    rw [scratch] at baseSlot floatSlot counterSlot
    refine ⟨?_, ?_⟩
    · intro agree
      apply UserContext.ext
      · funext reg
        by_cases isBase : reg = .a0
        · subst isBase
          rw [baseBack, ← agree (.general .a0) rfl, baseSlot]
        · exact restored (.general reg) (by simpa using isBase)
            (agree _ rfl)
      · funext index
        exact restored (.float index) (by simp) (agree _ rfl)
      · rw [floatBack, ← agree .fcsr rfl, floatSlot]
        simp
      · rw [counterBack, ← agree .epc rfl, counterSlot]
    · intro agree
      refine ⟨?_, ?_, ?_⟩
      · intro reg notBase
        exact restored (.general reg) (by simpa using notBase)
          (agree _ ⟨rfl, by simpa [Operand.field] using notBase, by
            simp [Operand.field]⟩)
      · funext index
        exact restored (.float index) (by simp)
          (agree _ ⟨rfl, by simp [Operand.field], by
            simp [Operand.field]⟩)
      · rw [floatBack, ← agree _ ⟨rfl, by simp, by simp⟩, floatSlot]
        simp

/-- A user program interrupted at address zero with one in `t0`. -/
def interruptedContext : UserContext where
  x := fun reg => if reg = .t0 then 1 else 0
  f := fun _ => 0
  fcsr := 0
  pc := 0

/-- The interrupted program does not get its `t0` back. -/
theorem interruptedContext_not_transparent :
    ¬ TrapTransparent interruptedContext := by
  intro transparent
  have sameWord := transparent.temporary_eq
  simp [interruptedContext] at sameWord

end MyOS
