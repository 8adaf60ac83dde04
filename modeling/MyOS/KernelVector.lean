import MyOS.TrapUserContext

namespace MyOS

/-!
# The kernel's trap vector

`sys_trap_vector` (`kernelvec.S`) stores the general registers of the
interrupted kernel code below its stack pointer, calls `sys_trap_handler` and
loads them back.  Here the two halves around the call are executed; whatever
happens between them, the registers come back if the frame is left alone and
the stack pointer is the one the handler was called with.
-/

/-- `addi rd, rs, imm` -/
def Machine.addi
    (machine : Machine)
    (rd rs : Reg)
    (imm : Int) : Machine :=
  { machine with
    x := Function.update machine.x rd (machine.x rs + BitVec.ofInt 64 imm) }

/-- The stores `sd reg, offset(sp)` of `sys_trap_vector`, in source order. -/
def vectorSaves : List (Reg × Nat) :=
  [ (.ra, 0), (.gp, 16), (.tp, 24), (.t0, 32), (.t1, 40), (.t2, 48),
    (.s0, 56), (.s1, 64), (.a0, 72), (.a1, 80), (.a2, 88), (.a3, 96),
    (.a4, 104), (.a5, 112), (.a6, 120), (.a7, 128), (.s2, 136), (.s3, 144),
    (.s4, 152), (.s5, 160), (.s6, 168), (.s7, 176), (.s8, 184), (.s9, 192),
    (.s10, 200), (.s11, 208), (.t3, 216), (.t4, 224), (.t5, 232), (.t6, 240) ]

/-- The loads `ld reg, offset(sp)` of `sys_trap_vector`, in source order. -/
def vectorLoads : List (Reg × Nat) :=
  [ (.ra, 0), (.gp, 16), (.tp, 24), (.t0, 32), (.t1, 40), (.t2, 48),
    (.s0, 56), (.s1, 64), (.a0, 72), (.a1, 80), (.a2, 88), (.a3, 96),
    (.a4, 104), (.a5, 112), (.a6, 120), (.a7, 128), (.s2, 136), (.s3, 144),
    (.s4, 152), (.s5, 160), (.s6, 168), (.s7, 176), (.s8, 184), (.s9, 192),
    (.s10, 200), (.s11, 208), (.t3, 216), (.t4, 224), (.t5, 232), (.t6, 240) ]

/-- `sys_trap_vector` up to `call sys_trap_handler`. -/
def vectorEntry (machine : Machine) : Machine :=
  let machine := machine.addi .sp .sp (-256)
  let machine :=
    execAll machine (vectorSaves.map fun save => .sd save.1 save.2 .sp)
  let machine := machine.addi .t0 .sp 256
  exec machine (.sd .t0 8 .sp)

/-- `sys_trap_vector` after the call. -/
def vectorExit (machine : Machine) : Machine :=
  let machine :=
    execAll machine (vectorLoads.map fun load => .ld load.1 load.2 .sp)
  let machine := machine.addi .sp .sp 256
  exec machine .sret

/-- The offset of a register in the frame. -/
def Reg.vectorOffset (reg : Reg) : Nat :=
  8 * (reg.number - 1)

/-- A frame at `base` holds the registers, the stack pointer apart. -/
def FrameHolds
    (mem : Word → Word)
    (base : Word)
    (x : Reg → Word) : Prop :=
  ∀ reg, reg ≠ .sp → mem (base + BitVec.ofNat 64 reg.vectorOffset) = x reg

/-- The frame at `base` contains the address. -/
def InFrame (base address : Word) : Prop :=
  ∃ slot, slot < 32 ∧ address = base + BitVec.ofNat 64 (8 * slot)

theorem FrameHolds.of_agree
    {mem other : Word → Word}
    {base : Word}
    {x : Reg → Word}
    (holds : FrameHolds mem base x)
    (agree : ∀ address, InFrame base address → other address = mem address) :
    FrameHolds other base x := by
  intro reg notSp
  rw [← holds reg notSp]
  apply agree
  refine ⟨reg.number - 1, ?_, rfl⟩
  cases reg
  all_goals decide

theorem execAll_stores
    (saves : List (Reg × Nat))
    (machine : Machine) :
    execAll machine (saves.map fun save => .sd save.1 save.2 .sp) =
      { machine with
        mem := storeWords machine.mem (machine.x .sp)
          (saves.map fun save => (save.2, machine.x save.1)) } := by
  induction saves generalizing machine with
  | nil =>
      rfl
  | cons save rest inductionHypothesis =>
      rw [List.map_cons, execAll_cons, inductionHypothesis]
      rfl

/-- The registers after a list of loads. -/
def loadRegs
    (mem : Word → Word)
    (base : Word) : List (Reg × Nat) → (Reg → Word) → Reg → Word
  | [], x => x
  | (reg, offset) :: rest, x =>
      loadRegs mem base rest
        (Function.update x reg (mem (base + BitVec.ofNat 64 offset)))

theorem execAll_loads
    {loads : List (Reg × Nat)}
    (keepsBase : Reg.sp ∉ loads.map Prod.fst)
    (machine : Machine) :
    execAll machine (loads.map fun load => .ld load.1 load.2 .sp) =
      { machine with
        x := loadRegs machine.mem (machine.x .sp) loads machine.x } := by
  induction loads generalizing machine with
  | nil =>
      rfl
  | cons load rest inductionHypothesis =>
      simp only [List.map_cons, List.mem_cons, not_or] at keepsBase
      rw [List.map_cons, execAll_cons, inductionHypothesis keepsBase.2]
      have base :
          (exec machine (.ld load.1 load.2 .sp)).x .sp = machine.x .sp :=
        Function.update_of_ne keepsBase.1 _ _
      rw [base]
      rfl

theorem loadRegs_other
    {mem : Word → Word}
    {base : Word}
    {reg : Reg}
    {loads : List (Reg × Nat)}
    (absent : reg ∉ loads.map Prod.fst)
    (x : Reg → Word) :
    loadRegs mem base loads x reg = x reg := by
  induction loads generalizing x with
  | nil =>
      rfl
  | cons load rest inductionHypothesis =>
      simp only [List.map_cons, List.mem_cons, not_or] at absent
      rw [loadRegs, inductionHypothesis absent.2,
        Function.update_of_ne absent.1]

theorem loadRegs_mem
    {mem : Word → Word}
    {base : Word}
    {reg : Reg}
    {offset : Nat}
    {loads : List (Reg × Nat)}
    (distinct : (loads.map Prod.fst).Nodup)
    (member : (reg, offset) ∈ loads)
    (x : Reg → Word) :
    loadRegs mem base loads x reg =
      mem (base + BitVec.ofNat 64 offset) := by
  induction loads generalizing x with
  | nil =>
      cases member
  | cons load rest inductionHypothesis =>
      simp only [List.map_cons, List.nodup_cons] at distinct
      rcases List.mem_cons.mp member with isHead | inRest
      · subst isHead
        rw [loadRegs, loadRegs_other distinct.1, Function.update_self]
      · exact inductionHypothesis distinct.2 inRest _

theorem vector_offsets
    {reg : Reg}
    (notSp : reg ≠ .sp) :
    (reg, reg.vectorOffset) ∈ vectorSaves ∧
      (reg, reg.vectorOffset) ∈ vectorLoads := by
  cases reg
  case sp =>
    exact (notSp rfl).elim
  all_goals decide

/-- Where the frame of a trap taken now is. -/
def Machine.frameBase (machine : Machine) : Word :=
  machine.x .sp + BitVec.ofInt 64 (-256)

theorem vectorEntry_mem (machine : Machine) :
    ∃ value,
      (vectorEntry machine).mem =
        Function.update
          (storeWords machine.mem machine.frameBase
            (vectorSaves.map fun save =>
              (save.2, (machine.addi .sp .sp (-256)).x save.1)))
          (machine.frameBase + BitVec.ofNat 64 8) value := by
  have apart : Reg.sp ≠ .t0 := by
    decide
  refine ⟨(machine.frameBase + BitVec.ofInt 64 256), ?_⟩
  simp only [vectorEntry, execAll_stores, exec, Machine.address, Machine.addi,
    Machine.frameBase, Function.update_of_ne apart, Function.update_self]

theorem vectorEntry_frame (machine : Machine) :
    FrameHolds (vectorEntry machine).mem machine.frameBase machine.x := by
  intro reg notSp
  obtain ⟨value, isMem⟩ := vectorEntry_mem machine
  have saved := (vector_offsets notSp).1
  have small : ∀ save ∈ vectorSaves, save.2 < 4096 := by
    decide
  have distinct : (vectorSaves.map Prod.snd).Nodup := by
    decide
  have notSlot : reg.vectorOffset ≠ 8 := by
    intro same
    cases reg
    case sp =>
      exact notSp rfl
    all_goals cases same
  have slotSmall : reg.vectorOffset < 4096 := small _ saved
  have eightSmall : 8 < 4096 := by
    decide
  have kept :
      (machine.addi .sp .sp (-256)).x reg = machine.x reg :=
    Function.update_of_ne notSp _ _
  rw [isMem, update_other_offset slotSmall eightSmall notSlot, ← kept]
  apply storeWords_mem
  · intro pair member
    obtain ⟨save, inSaves, isPair⟩ := List.mem_map.mp member
    rw [← isPair]
    exact small save inSaves
  · rw [List.map_map]
    exact distinct
  · exact List.mem_map.mpr ⟨_, saved, rfl⟩

theorem storeWords_outside
    {base address : Word}
    (outside : ¬ InFrame base address)
    {pairs : List (Nat × Word)}
    (aligned : ∀ pair ∈ pairs, ∃ slot, slot < 32 ∧ pair.1 = 8 * slot)
    (mem : Word → Word) :
    storeWords mem base pairs address = mem address := by
  induction pairs generalizing mem with
  | nil =>
      rfl
  | cons pair rest inductionHypothesis =>
      obtain ⟨slot, bound, isSlot⟩ := aligned pair List.mem_cons_self
      have apart : address ≠ base + BitVec.ofNat 64 pair.1 := by
        intro same
        rw [isSlot] at same
        exact outside ⟨slot, bound, same⟩
      rw [storeWords, inductionHypothesis
        fun other member => aligned other (List.mem_cons_of_mem _ member)]
      exact Function.update_of_ne apart _ _

theorem vectorEntry_other
    {machine : Machine}
    {address : Word}
    (outside : ¬ InFrame machine.frameBase address) :
    (vectorEntry machine).mem address = machine.mem address := by
  obtain ⟨value, isMem⟩ := vectorEntry_mem machine
  have apart : address ≠ machine.frameBase + BitVec.ofNat 64 8 := by
    intro same
    exact outside ⟨1, by decide, same⟩
  have aligned : ∀ save ∈ vectorSaves, save.2 = save.1.vectorOffset := by
    decide
  have numbers : ∀ save ∈ vectorSaves, save.1.number - 1 < 32 := by
    decide
  rw [isMem, Function.update_of_ne apart]
  apply storeWords_outside outside
  intro pair member
  obtain ⟨save, inSaves, isPair⟩ := List.mem_map.mp member
  rw [← isPair]
  exact ⟨_, numbers save inSaves, aligned save inSaves⟩

theorem vectorExit_x
    {machine : Machine}
    {x : Reg → Word}
    (holds : FrameHolds machine.mem (machine.x .sp) x)
    (below : machine.x .sp = x .sp + BitVec.ofInt 64 (-256)) :
    (vectorExit machine).x = x := by
  have keepsBase : Reg.sp ∉ vectorLoads.map Prod.fst := by
    decide
  have distinct : (vectorLoads.map Prod.fst).Nodup := by
    decide
  have back : BitVec.ofInt 64 (-256) + BitVec.ofInt 64 256 = 0#64 := by
    decide
  funext reg
  simp only [vectorExit, execAll_loads keepsBase, exec, Machine.addi]
  by_cases isSp : reg = .sp
  · subst isSp
    rw [Function.update_self, loadRegs_other keepsBase, below,
      BitVec.add_assoc, back, BitVec.add_zero]
  · rw [Function.update_of_ne isSp,
      loadRegs_mem distinct (vector_offsets isSp).2]
    exact holds reg isSp

theorem vectorExit_mem (machine : Machine) :
    (vectorExit machine).mem = machine.mem := by
  have keepsBase : Reg.sp ∉ vectorLoads.map Prod.fst := by
    decide
  simp only [vectorExit, execAll_loads keepsBase]
  rfl

theorem vectorExit_pc (machine : Machine) :
    (vectorExit machine).pc = machine.csr .sepc := by
  have keepsBase : Reg.sp ∉ vectorLoads.map Prod.fst := by
    decide
  simp only [vectorExit, execAll_loads keepsBase]
  rfl

end MyOS
