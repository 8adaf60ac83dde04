import MyOS.KernelTraps
import MyOS.TrapRoundTrip

namespace MyOS

/-!
# The register that names the hart

`start` puts the hart id in `tp`, and `mycpu` indexes `cpus` with whatever `tp`
holds.  The kernel's own code never writes the register: the compiler does not
use it, `swtch` does not name it and `sys_trap_vector` stores and loads it.
`uservec` stores the user's `tp` and goes on with it.
-/

/-- A trap from supervisor mode that has not returned. -/
structure VectorFrame where
  base : Word
  x : Reg → Word

/-- The hart, the kernel threads that share it, and what `cpus` holds. -/
structure HartState where
  hart : Machine
  /-- The hart is in user mode. -/
  user : Bool
  /-- The kernel thread that the hart is in. -/
  thread : ThreadId
  frames : ThreadId → List VectorFrame
  /-- `p->context` -/
  context : Slot → Reg → Word
  /-- `cpus[i].context`, and what is in its place outside the array. -/
  cpuContext : Int → Reg → Word
  /-- `cpus[i].proc`, and what is in its place outside the array. -/
  cpuProc : Int → ThreadId
  /-- The index of `c` in `scheduler`. -/
  schedulerCpu : Int
  /-- The process that `scheduler` has installed. -/
  installed : ThreadId

/-- What happens next. -/
inductive HartAction where
  /-- Instructions in user mode. -/
  | user (next : Machine)
  /-- A trap from user mode, as far as the jump to `usertrap`. -/
  | usertrap
  /-- Compiled kernel code. -/
  | kernel (next : Machine)
  /-- A trap from supervisor mode, as far as `call sys_trap_handler`. -/
  | interrupt
  /-- The return of `sys_trap_handler`. -/
  | handled
  /-- `c->proc = p; swtch(&c->context, &p->context);` in `scheduler` -/
  | install (p : Slot)
  /-- `swtch(&p->context, &mycpu()->context);` in `sched` -/
  | sched
  /-- `c->proc = 0;` in `scheduler` -/
  | uninstall
  /-- `allocproc` sets the context of a process without a thread. -/
  | create (p : Slot) (context : Reg → Word)
  /-- `usertrapret` and `userret` -/
  | usertrapret (addresses : KernelAddresses)

/-- The action is a trap from user mode. -/
def HartAction.isUsertrap : HartAction → Bool
  | .usertrap => true
  | _ => false

namespace HartState

/-- `int hartid = r_tp();` -/
def hartid (s : HartState) : Int :=
  ((s.hart.x .tp).truncate 32).toInt

/-- `mycpu()`, as an index into `cpus`. -/
def mycpu (s : HartState) : Int :=
  s.hartid

/-- `myproc()` -/
def myproc (s : HartState) : ThreadId :=
  s.cpuProc s.mycpu

/-- All traps from supervisor mode that have not returned. -/
def pending (s : HartState) : List VectorFrame :=
  s.frames none ++ (List.finRange NPROC).flatMap fun p => s.frames (some p)

/-- The memory of the frames is as it was. -/
def framesKept (s : HartState) (mem : Word → Word) : Bool :=
  s.pending.all fun frame =>
    (ThreadState.frameSlots frame.base).all fun address =>
      mem address == s.hart.mem address

/-- The stack has room for a frame. -/
def hasRoom (s : HartState) : Bool :=
  s.pending.all fun frame =>
    ThreadState.apart s.hart.frameBase frame.base

/-- A page holds no part of a frame. -/
def offStacks (s : HartState) (page : Word) : Bool :=
  s.pending.all fun frame =>
    (ThreadState.frameSlots frame.base).all fun address =>
      decide (4096 ≤ (address - page).toNat)

/-- The registers after the loads of `swtch`. -/
def switched (s : HartState) (context : Reg → Word) : Machine :=
  { s.hart with
    x := fun reg =>
      if reg ∈ contextRegs then context reg else s.hart.x reg
    pc := context .ra }

/-- One step. -/
def step? (s : HartState) (action : HartAction) : Option HartState :=
  match action with
  | .user next =>
      if s.user = true ∧ s.framesKept next.mem = true then
        some { s with hart := { next with csr := s.hart.csr } }
      else
        none
  | .usertrap =>
      -- The trapframe is a page of its own, apart from every kernel stack.
      if s.user = true ∧ s.offStacks (s.hart.csr .sscratch) = true then
        some
          { s with
            hart := afterUservec s.hart.user s.hart
            user := false }
      else
        none
  | .kernel next =>
      if s.user = false ∧ s.framesKept next.mem = true then
        some
          { s with
            hart :=
              { next with
                x := Function.update next.x .tp (s.hart.x .tp) } }
      else
        none
  | .interrupt =>
      if s.user = false ∧ s.hasRoom = true then
        some
          { s with
            hart :=
              vectorEntry
                { s.hart with
                  csr := Function.update s.hart.csr .sepc s.hart.pc }
            frames :=
              Function.update s.frames s.thread
                ({ base := s.hart.frameBase, x := s.hart.x } ::
                  s.frames s.thread) }
      else
        none
  | .handled =>
      match s.frames s.thread with
      | [] => none
      | frame :: outer =>
          -- Compiled C code returns with the stack pointer it was called with.
          if s.user = false ∧ s.hart.x .sp = frame.base then
            some
              { s with
                hart := vectorExit s.hart
                frames := Function.update s.frames s.thread outer }
          else
            none
  | .install p =>
      if s.user = false ∧ s.thread = none then
        some
          { s with
            hart := s.switched (s.context p)
            thread := some p
            cpuContext :=
              Function.update s.cpuContext s.schedulerCpu s.hart.x
            cpuProc := Function.update s.cpuProc s.schedulerCpu (some p)
            installed := some p }
      else
        none
  | .sched =>
      if s.user = false then
        s.thread.map fun p =>
          { s with
            hart := s.switched (s.cpuContext s.mycpu)
            thread := none
            context := Function.update s.context p s.hart.x }
      else
        none
  | .uninstall =>
      if s.user = false ∧ s.thread = none then
        some
          { s with
            cpuProc := Function.update s.cpuProc s.schedulerCpu none
            installed := none }
      else
        none
  | .create p context =>
      if s.user = false ∧ s.thread ≠ some p then
        some
          { s with
            context := Function.update s.context p context
            frames := Function.update s.frames (some p) [] }
      else
        none
  | .usertrapret addresses =>
      if s.user = false ∧ (s.frames s.thread).isEmpty = true ∧
          s.thread.isSome = true ∧ s.offStacks addresses.trapframe = true then
        some
          { s with
            hart := execAll (MyOS.usertrapret addresses s.hart) userret
            user := true }
      else
        none

/-- The graph of `step?`. -/
def Step
    (s : HartState)
    (action : HartAction)
    (after : HartState) : Prop :=
  s.step? action = some after

/--
The kernel at the first instruction of the loop of `scheduler`: `start` has
executed `w_tp(r_mhartid())`, and `scheduler` has set `c` and `c->proc`.
-/
def boot
    (mhartid : Fin NCPU)
    (hart : Machine)
    (context : Slot → Reg → Word)
    (cpuContext : Int → Reg → Word)
    (cpuProc : Int → ThreadId) : HartState :=
  let s : HartState :=
    { hart :=
        { hart with
          x := Function.update hart.x .tp (BitVec.ofNat 64 mhartid.val) }
      user := false
      thread := none
      frames := fun _ => []
      context := context
      cpuContext := cpuContext
      cpuProc := cpuProc
      schedulerCpu := 0
      installed := none }
  { s with
    schedulerCpu := s.mycpu
    cpuProc := Function.update s.cpuProc s.mycpu none }

/--
While kernel code runs, `tp` is the hart id, `mycpu` is inside `cpus`, and
`myproc` is the process that the scheduler has installed.
-/
structure IdentifiesHart (mhartid : Fin NCPU) (s : HartState) : Prop where
  tp : s.user = false → s.hart.x .tp = BitVec.ofNat 64 mhartid.val
  inside : s.user = false → 0 ≤ s.mycpu ∧ s.mycpu < NCPU
  myproc : s.user = false → s.myproc = s.installed
  own : s.user = false → ∀ p, s.thread = some p → s.myproc = some p

/-- A user program that traps has the hart id in `tp`. -/
def TrapsWithHartId
    (mhartid : Fin NCPU)
    (s : HartState)
    (action : HartAction) : Prop :=
  action.isUsertrap = true → s.hart.x .tp = BitVec.ofNat 64 mhartid.val

instance
    (mhartid : Fin NCPU)
    (s : HartState)
    (action : HartAction) :
    Decidable (TrapsWithHartId mhartid s action) :=
  inferInstanceAs (Decidable (_ → _))

end HartState

/-! ## What the instructions do to `tp` and to the frames -/

theorem afterUservec_tp (user : UserContext) (machine : Machine) :
    (afterUservec user machine).x .tp = user.x .tp := by
  have blocks := execAll_saves uservecSaves_complete (entered user machine)
  have split :
      afterUservec user machine =
        execAll (execAll (entered user machine)
          (uservecGeneral ++ uservecFloat)) uservecExit := by
    simp [afterUservec, uservec, execAll_append, entered]
  rw [split, blocks]
  simp [uservecExit, exec, entered, uservecEntry, trapEntry]

theorem ne_of_offPage
    {page address : Word}
    {offset : Nat}
    (outside : 4096 ≤ (address - page).toNat)
    (small : offset < 4096) :
    address ≠ page + BitVec.ofNat 64 offset := by
  intro same
  rw [same, BitVec.add_comm, BitVec.add_sub_cancel, BitVec.toNat_ofNat]
    at outside
  omega

theorem storeWords_offPage
    {base address : Word}
    (outside : 4096 ≤ (address - base).toNat)
    {pairs : List (Nat × Word)}
    (small : ∀ pair ∈ pairs, pair.1 < 4096)
    (mem : Word → Word) :
    storeWords mem base pairs address = mem address := by
  induction pairs generalizing mem with
  | nil =>
      rfl
  | cons pair rest inductionHypothesis =>
      have headSmall := small pair List.mem_cons_self
      rw [storeWords, inductionHypothesis
        fun other member => small other (List.mem_cons_of_mem _ member)]
      exact Function.update_of_ne (ne_of_offPage outside headSmall) _ _

theorem afterUservec_offPage
    {user : UserContext}
    {machine : Machine}
    {address : Word}
    (outside : 4096 ≤ (address - machine.csr .sscratch).toNat) :
    (afterUservec user machine).mem address = machine.mem address := by
  have entry :
      (entered user machine).mem address = machine.mem address := by
    have apart : address ≠ machine.csr .sscratch + BitVec.ofNat 64 24 :=
      ne_of_offPage outside (by decide)
    simp only [entered, uservecEntry, execAll_cons, execAll_nil, exec,
      trapEntry, Machine.address]
    rw [Function.update_of_ne]
    simpa using apart
  rw [afterUservec_mem,
    Function.update_of_ne (ne_of_offPage outside (by decide)),
    Function.update_of_ne (ne_of_offPage outside (by decide)),
    storeWords_offPage outside uservecPairs_small, entry]

theorem userret_offPage
    {addresses : KernelAddresses}
    {machine : Machine}
    {address : Word}
    (outside : 4096 ≤ (address - addresses.trapframe).toNat) :
    (execAll (usertrapret addresses machine) userret).mem address =
      machine.mem address := by
  have loads :=
    (loadWords_frame userretRestores_keepsBase
      (leaving addresses machine)).1
  have stays :
      (execAll (usertrapret addresses machine) userret).mem =
        (usertrapret addresses machine).mem := by
    rw [userret, execAll_append, execAll_append,
      execAll_restores userretRestores_complete]
    exact loads.trans (leaving_mem addresses machine)
  rw [stays]
  simp only [usertrapret, Machine.setField]
  rw [Function.update_of_ne (ne_of_offPage outside (by decide)),
    Function.update_of_ne (ne_of_offPage outside (by decide)),
    Function.update_of_ne (ne_of_offPage outside (by decide))]

theorem vectorEntry_tp (machine : Machine) :
    (vectorEntry machine).x .tp = machine.x .tp := by
  simp [vectorEntry, execAll_stores, exec, Machine.addi]

theorem tp_notMem_contextRegs : Reg.tp ∉ contextRegs := by
  decide

/-! ## The invariant -/

/-- A frame holds the registers it was made from, with the hart id in `tp`. -/
structure VectorFrame.Saves
    (mhartid : Fin NCPU)
    (mem : Word → Word)
    (frame : VectorFrame) : Prop where
  holds : FrameHolds mem frame.base frame.x
  below : frame.base = frame.x .sp + BitVec.ofInt 64 (-256)
  tp : frame.x .tp = BitVec.ofNat 64 mhartid.val

theorem VectorFrame.Saves.of_agree
    {mhartid : Fin NCPU}
    {mem other : Word → Word}
    {frame : VectorFrame}
    (saves : frame.Saves mhartid mem)
    (agree :
      ∀ address, InFrame frame.base address → other address = mem address) :
    frame.Saves mhartid other where
  holds := saves.holds.of_agree agree
  below := saves.below
  tp := saves.tp

/-- The invariant of the hart. -/
structure HartFits (mhartid : Fin NCPU) (s : HartState) : Prop where
  tp : s.user = false → s.hart.x .tp = BitVec.ofNat 64 mhartid.val
  frames : ∀ t, ∀ frame ∈ s.frames t, frame.Saves mhartid s.hart.mem
  scheduler : s.schedulerCpu = mhartid.val
  proc : s.cpuProc mhartid.val = s.installed
  thread : ∀ p, s.thread = some p → s.installed = some p

namespace HartFits

open HartState

variable {mhartid : Fin NCPU} {s after : HartState}

theorem mycpu_eq
    (tp : s.hart.x .tp = BitVec.ofNat 64 mhartid.val) :
    s.mycpu = mhartid.val := by
  have zero : mhartid.val = 0 := Nat.lt_one_iff.mp mhartid.isLt
  simp [mycpu, hartid, tp, zero]

theorem identifies (fits : HartFits mhartid s) : IdentifiesHart mhartid s where
  tp := fits.tp
  inside := by
    intro kernel
    have bound := mhartid.isLt
    rw [mycpu_eq (fits.tp kernel)]
    omega
  myproc := by
    intro kernel
    rw [myproc, mycpu_eq (fits.tp kernel), fits.proc]
  own := by
    intro kernel p isThread
    rw [myproc, mycpu_eq (fits.tp kernel), fits.proc, fits.thread p isThread]

theorem mem_pending
    {t : ThreadId}
    {frame : VectorFrame}
    (member : frame ∈ s.frames t) :
    frame ∈ s.pending := by
  cases t with
  | none =>
      exact List.mem_append_left _ member
  | some p =>
      apply List.mem_append_right
      exact List.mem_flatMap.mpr ⟨p, List.mem_finRange p, member⟩

theorem mem_frameSlots
    {base address : Word}
    (inFrame : InFrame base address) :
    address ∈ ThreadState.frameSlots base := by
  obtain ⟨slot, bound, isAddress⟩ := inFrame
  rw [isAddress]
  exact List.mem_map.mpr ⟨slot, List.mem_range.mpr bound, rfl⟩

theorem frames_of_kept
    {mem : Word → Word}
    (fits : HartFits mhartid s)
    (kept : s.framesKept mem = true) :
    ∀ t, ∀ frame ∈ s.frames t, frame.Saves mhartid mem := by
  intro t frame member
  apply (fits.frames t frame member).of_agree
  intro address inFrame
  have slots := List.all_eq_true.mp kept frame (mem_pending member)
  exact eq_of_beq
    (List.all_eq_true.mp slots address (mem_frameSlots inFrame))

theorem frames_of_offStacks
    {mem : Word → Word}
    {page : Word}
    (fits : HartFits mhartid s)
    (off : s.offStacks page = true)
    (stores :
      ∀ address, 4096 ≤ (address - page).toNat →
        mem address = s.hart.mem address) :
    ∀ t, ∀ frame ∈ s.frames t, frame.Saves mhartid mem := by
  intro t frame member
  apply (fits.frames t frame member).of_agree
  intro address inFrame
  have slots := List.all_eq_true.mp off frame (mem_pending member)
  exact stores address
    (of_decide_eq_true
      (List.all_eq_true.mp slots address (mem_frameSlots inFrame)))

theorem frames_interrupt
    (fits : HartFits mhartid s)
    (tp : s.hart.x .tp = BitVec.ofNat 64 mhartid.val)
    (room : s.hasRoom = true)
    {hart : Machine}
    (sameX : hart.x = s.hart.x)
    (sameMem : hart.mem = s.hart.mem) :
    ∀ t, ∀ frame ∈
        Function.update s.frames s.thread
          ({ base := s.hart.frameBase, x := s.hart.x } :: s.frames s.thread)
          t,
      frame.Saves mhartid (vectorEntry hart).mem := by
  have sameBase : hart.frameBase = s.hart.frameBase := by
    rw [Machine.frameBase, sameX, Machine.frameBase]
  have older :
      ∀ t, ∀ frame ∈ s.frames t,
        frame.Saves mhartid (vectorEntry hart).mem := by
    intro t frame member
    apply (fits.frames t frame member).of_agree
    intro address inFrame
    have isApart := List.all_eq_true.mp room frame (mem_pending member)
    have outside := notInFrame_of_apart isApart inFrame
    rw [← sameBase] at outside
    rw [vectorEntry_other outside, sameMem]
  intro t frame member
  by_cases running : t = s.thread
  · rw [running, Function.update_self] at member
    rcases List.mem_cons.mp member with isNew | isOlder
    · rw [isNew]
      refine {
        holds := ?_
        below := rfl
        tp := tp
      }
      have pushed := vectorEntry_frame hart
      rw [sameX, sameBase] at pushed
      exact pushed
    · exact older _ frame isOlder
  · rw [Function.update_of_ne running] at member
    exact older t frame member

theorem handled_tp
    {frame : VectorFrame}
    {outer : List VectorFrame}
    (fits : HartFits mhartid s)
    (isFrames : s.frames s.thread = frame :: outer)
    (isSp : s.hart.x .sp = frame.base) :
    (vectorExit s.hart).x .tp = BitVec.ofNat 64 mhartid.val := by
  have saves := fits.frames s.thread frame (by
    rw [isFrames]
    exact List.mem_cons_self)
  have holds := saves.holds
  rw [← isSp] at holds
  rw [vectorExit_x holds (isSp.trans saves.below)]
  exact saves.tp

theorem switched_tp
    (tp : s.hart.x .tp = BitVec.ofNat 64 mhartid.val)
    (context : Reg → Word) :
    (s.switched context).x .tp = BitVec.ofNat 64 mhartid.val := by
  simp only [switched, if_neg tp_notMem_contextRegs]
  exact tp

theorem step
    {action : HartAction}
    (fits : HartFits mhartid s)
    (condition : TrapsWithHartId mhartid s action)
    (taken : s.Step action after) :
    HartFits mhartid after := by
  unfold Step at taken
  cases action with
  | user next =>
      obtain ⟨⟨isUser, kept⟩, isAfter⟩ :=
        Option.ite_none_right_eq_some.mp taken
      cases isAfter
      refine {
        tp := ?_
        frames := fits.frames_of_kept kept
        scheduler := fits.scheduler
        proc := fits.proc
        thread := fits.thread
      }
      intro kernel
      rw [isUser] at kernel
      cases kernel
  | usertrap =>
      obtain ⟨⟨isUser, off⟩, isAfter⟩ :=
        Option.ite_none_right_eq_some.mp taken
      cases isAfter
      refine {
        tp := ?_
        frames := ?_
        scheduler := fits.scheduler
        proc := fits.proc
        thread := fits.thread
      }
      · intro _
        exact (afterUservec_tp s.hart.user s.hart).trans (condition rfl)
      · exact fits.frames_of_offStacks off fun _ => afterUservec_offPage
  | kernel next =>
      obtain ⟨⟨isKernel, kept⟩, isAfter⟩ :=
        Option.ite_none_right_eq_some.mp taken
      cases isAfter
      refine {
        tp := ?_
        frames := fits.frames_of_kept kept
        scheduler := fits.scheduler
        proc := fits.proc
        thread := fits.thread
      }
      intro kernel
      exact (Function.update_self Reg.tp _ next.x).trans (fits.tp kernel)
  | interrupt =>
      obtain ⟨⟨isKernel, room⟩, isAfter⟩ :=
        Option.ite_none_right_eq_some.mp taken
      cases isAfter
      refine {
        tp := ?_
        frames := fits.frames_interrupt (fits.tp isKernel) room rfl rfl
        scheduler := fits.scheduler
        proc := fits.proc
        thread := fits.thread
      }
      intro kernel
      exact (vectorEntry_tp _).trans (fits.tp kernel)
  | handled =>
      unfold step? at taken
      dsimp only at taken
      cases isFrames : s.frames s.thread with
      | nil =>
          rw [isFrames] at taken
          cases taken
      | cons frame outer =>
          rw [isFrames] at taken
          obtain ⟨⟨isKernel, isSp⟩, isAfter⟩ :=
            Option.ite_none_right_eq_some.mp taken
          cases isAfter
          refine {
            tp := fun _ => fits.handled_tp isFrames isSp
            frames := ?_
            scheduler := fits.scheduler
            proc := fits.proc
            thread := fits.thread
          }
          intro t other member
          dsimp only at member ⊢
          rw [vectorExit_mem]
          by_cases running : t = s.thread
          · rw [running, Function.update_self] at member
            apply fits.frames s.thread
            rw [isFrames]
            exact List.mem_cons_of_mem _ member
          · rw [Function.update_of_ne running] at member
            exact fits.frames t other member
  | install p =>
      obtain ⟨⟨isKernel, isThread⟩, isAfter⟩ :=
        Option.ite_none_right_eq_some.mp taken
      cases isAfter
      refine {
        tp := fun kernel => switched_tp (fits.tp kernel) _
        frames := fits.frames
        scheduler := fits.scheduler
        proc := ?_
        thread := fun _ same => same
      }
      dsimp only
      rw [fits.scheduler, Function.update_self]
  | sched =>
      obtain ⟨isKernel, switches⟩ := Option.ite_none_right_eq_some.mp taken
      obtain ⟨p, isThread, isAfter⟩ := Option.map_eq_some_iff.mp switches
      cases isAfter
      refine {
        tp := fun kernel => switched_tp (fits.tp kernel) _
        frames := fits.frames
        scheduler := fits.scheduler
        proc := fits.proc
        thread := ?_
      }
      intro q isScheduler
      cases isScheduler
  | uninstall =>
      obtain ⟨⟨isKernel, isThread⟩, isAfter⟩ :=
        Option.ite_none_right_eq_some.mp taken
      cases isAfter
      refine {
        tp := fits.tp
        frames := fits.frames
        scheduler := fits.scheduler
        proc := ?_
        thread := ?_
      }
      · dsimp only
        rw [fits.scheduler, Function.update_self]
      · intro q runs
        rw [isThread] at runs
        cases runs
  | create p context =>
      obtain ⟨⟨isKernel, notRunning⟩, isAfter⟩ :=
        Option.ite_none_right_eq_some.mp taken
      cases isAfter
      refine {
        tp := fits.tp
        frames := ?_
        scheduler := fits.scheduler
        proc := fits.proc
        thread := fits.thread
      }
      intro t frame member
      dsimp only at member
      by_cases isP : t = some p
      · rw [isP, Function.update_self] at member
        cases member
      · rw [Function.update_of_ne isP] at member
        exact fits.frames t frame member
  | usertrapret addresses =>
      obtain ⟨⟨isKernel, _, _, off⟩, isAfter⟩ :=
        Option.ite_none_right_eq_some.mp taken
      cases isAfter
      refine {
        tp := ?_
        frames := fits.frames_of_offStacks off fun _ => userret_offPage
        scheduler := fits.scheduler
        proc := fits.proc
        thread := fits.thread
      }
      intro kernel
      cases kernel

theorem boot
    (mhartid : Fin NCPU)
    (hart : Machine)
    (context : Slot → Reg → Word)
    (cpuContext : Int → Reg → Word)
    (cpuProc : Int → ThreadId) :
    HartFits mhartid
      (HartState.boot mhartid hart context cpuContext cpuProc) := by
  have tp :
      (HartState.boot mhartid hart context cpuContext cpuProc).hart.x .tp =
        BitVec.ofNat 64 mhartid.val :=
    Function.update_self Reg.tp _ hart.x
  have isCpu := mycpu_eq tp
  refine {
    tp := fun _ => tp
    frames := ?_
    scheduler := isCpu
    proc := ?_
    thread := ?_
  }
  · intro t frame member
    cases member
  · rw [← isCpu]
    exact Function.update_self ..
  · intro p isThread
    cases isThread

end HartFits

namespace HartState

variable {mhartid : Fin NCPU} {s after : HartState}

theorem trapsWithHartId_of_identifies
    {action : HartAction}
    (taken : s.Step action after)
    (identifies : IdentifiesHart mhartid after) :
    TrapsWithHartId mhartid s action := by
  intro isTrap
  cases action with
  | usertrap =>
      obtain ⟨_, isAfter⟩ := Option.ite_none_right_eq_some.mp taken
      cases isAfter
      have tp := identifies.tp rfl
      exact (afterUservec_tp s.hart.user s.hart).symm.trans tp
  | _ =>
      cases isTrap

/--
In a run of the kernel, `tp`, `mycpu` and `myproc` are right in every state
exactly if every user program that traps does so with the hart id in its `tp`.
-/
theorem identifiesHart_iff_trapsWithHartId
    {hart : Machine}
    {context : Slot → Reg → Word}
    {cpuContext : Int → Reg → Word}
    {cpuProc : Int → ThreadId}
    {trace : List (HartState × HartAction)}
    {final : HartState}
    (run :
      Lib.Run Step (boot mhartid hart context cpuContext cpuProc)
        trace final) :
    (∀ entry ∈ trace, IdentifiesHart mhartid entry.1) ∧
        IdentifiesHart mhartid final ↔
      Lib.Meets (TrapsWithHartId mhartid) trace := by
  have base := HartFits.boot mhartid hart context cpuContext cpuProc
  induction run with
  | start =>
      constructor
      · intro _ entry member
        cases member
      · intro _
        refine ⟨?_, base.identifies⟩
        intro entry member
        cases member
  | @next trace current final action earlier last inductionHypothesis =>
      rw [Lib.Meets.snoc_iff]
      constructor
      · rintro ⟨identified, identifies⟩
        refine ⟨inductionHypothesis.mp ⟨?_, ?_⟩,
          trapsWithHartId_of_identifies last identifies⟩
        · intro entry member
          exact identified entry (List.mem_append_left _ member)
        · exact identified (current, action)
            (List.mem_append_right _ List.mem_cons_self)
      · rintro ⟨meets, condition⟩
        have fits : HartFits mhartid current :=
          earlier.invariant base
            (fun holds met taken => HartFits.step holds met taken) meets
        obtain ⟨identified, identifies⟩ := inductionHypothesis.mpr meets
        refine ⟨?_, (fits.step condition last).identifies⟩
        intro entry member
        rcases List.mem_append.mp member with isEarlier | isLast
        · exact identified entry isEarlier
        · rw [List.mem_singleton.mp isLast]
          exact identifies

/-- The only hart of the machine. -/
def onlyHart : Fin NCPU :=
  ⟨0, Nat.zero_lt_one⟩

/-- The kernel with zeros everywhere. -/
def bootZero : HartState :=
  boot onlyHart ThreadState.zeroHart (fun _ _ => 0) (fun _ _ => 0)
    fun _ => none

/-- The addresses of a process whose trapframe is the page at zero. -/
def zeroAddresses : KernelAddresses where
  trapframe := 0
  kstack := 0
  pagetable := 0
  kernelPagetable := 0
  usertrap := 0
  uservec := 0

/-- User code sets `tp`. -/
def tpSet (value : Word) : Machine :=
  { ThreadState.zeroHart with
    x := fun reg => if reg = .tp then value else 0 }

/--
A process runs in user mode with zero in `tp`, traps, is interrupted in the
kernel and gives the hart back to the scheduler.
-/
theorem identifiesHart_iff_trapsWithHartId_zero :
    ∃ trace final,
      Lib.Run Step bootZero trace final ∧
        (∀ entry ∈ trace, IdentifiesHart onlyHart entry.1) ∧
        final.user = false ∧
        IdentifiesHart onlyHart final := by
  let actions : List HartAction :=
    [.install 0, .usertrapret zeroAddresses, .user (tpSet 0), .usertrap,
      .interrupt, .handled, .sched]
  have reaches :
      (Lib.runActions (Lib.guarded (TrapsWithHartId onlyHart) step?) bootZero
        actions).any (fun final => !final.user) = true := by
    decide +kernel
  obtain ⟨final, accepted, isKernel⟩ := (Option.any_eq_true _ _).mp reaches
  obtain ⟨trace, run, meets⟩ := Lib.runActions_guarded accepted
  obtain ⟨identified, identifies⟩ :=
    (identifiesHart_iff_trapsWithHartId run).mpr meets
  exact ⟨trace, final, run, identified, by simpa using isKernel, identifies⟩

/-- A user program sets `tp` to one and traps. -/
theorem user_tp_reaches_kernel :
    ¬ ∀ (mhartid : Fin NCPU) (hart : Machine) (context : Slot → Reg → Word)
        (cpuContext : Int → Reg → Word) (cpuProc : Int → ThreadId)
        (trace : List (HartState × HartAction)) (final : HartState),
      Lib.Run Step (boot mhartid hart context cpuContext cpuProc)
          trace final →
        IdentifiesHart mhartid final := by
  intro law
  let actions : List HartAction :=
    [.install 0, .usertrapret zeroAddresses, .user (tpSet 1), .usertrap]
  have reaches :
      (Lib.runActions step? bootZero actions).any (fun final =>
        !final.user && decide (final.mycpu = 1)) = true := by
    decide +kernel
  obtain ⟨final, accepted, wrong⟩ := (Option.any_eq_true _ _).mp reaches
  obtain ⟨trace, _, run⟩ := Lib.runActions_sound accepted
  simp only [Bool.and_eq_true, Bool.not_eq_true', decide_eq_true_eq] at wrong
  have inside := ((law _ _ _ _ _ trace final run).inside wrong.1).2
  rw [wrong.2] at inside
  exact absurd inside (by decide)

end HartState

end MyOS
