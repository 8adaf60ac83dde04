import MyOS.KernelThreadSteps

namespace MyOS

/-!
# The return from a trap in the kernel

The frame of a trap keeps the interrupted registers while the stacks are used
as stacks, and `sepc` and `sstatus` are written last.  That is enough if no
interrupt is taken after `sepc` has been written, and so if interrupts are
still off when the scheduler has switched back to a process that yielded in
`sys_trap_handler`.
-/

namespace ThreadState

/-- The entry of the table that the scheduler is about to run. -/
def resumes? (s : ThreadState) : Option Slot :=
  match s.scheduler with
  | .locked p => if s.status p = .ready then some p else none
  | _ => none

/--
The scheduler switches to a process that yielded in `sys_trap_handler`, and the
process's `release` is going to enable interrupts.
-/
def enablesInTrap (s : ThreadState) : ThreadAction → Bool
  | .schedule =>
      s.intena && s.resumes?.any fun p => !(s.traps (some p)).isEmpty
  | _ => false

/--
A process that yielded in `sys_trap_handler` is switched to only while `intena`
is 0.
-/
def StaysDisabled (s : ThreadState) (action : ThreadAction) : Prop :=
  s.enablesInTrap action = false

instance (s : ThreadState) (action : ThreadAction) :
    Decidable (StaysDisabled s action) :=
  inferInstanceAs (Decidable (_ = false))

/--
The traps of the running thread return to what they interrupted: the `sret`
resumes supervisor mode at the interrupted program counter, with the
interrupted registers and with interrupts enabled as they were, and no
interrupt is taken after `sepc` has been restored.
-/
structure TrapsReturn (s : ThreadState) : Prop where
  resumes :
    ∀ frame outer after,
      s.traps s.proc = frame :: outer → frame.point = .returning →
      s.Step .handler after →
        after.hart.pc = frame.pc ∧ after.hart.x = frame.x ∧
          after.sstatus.sie = true ∧ s.sstatus.spp = true
  quiet :
    ∀ frame outer irq after,
      s.traps s.proc = frame :: outer →
      frame.point = .sstatusNext ∨ frame.point = .returning →
        ¬ s.Step (.interrupt irq) after

end ThreadState

/-- A frame holds what its trap interrupted. -/
structure FrameFits (mem : Word → Word) (frame : TrapFrame) : Prop where
  holds : FrameHolds mem frame.base frame.x
  below : frame.base = frame.x .sp + BitVec.ofInt 64 (-256)
  sepc : frame.sepc = frame.pc
  sstatus : frame.sstatus = { sie := false, spie := true, spp := true }

/--
What the control registers are while a thread with the given traps runs: a
trap runs with interrupts off, and `sepc` and `sstatus` are the trap's own
once they are restored.
-/
structure TrapRuns
    (traps : List TrapFrame)
    (held : List LockName)
    (intena : Bool)
    (sepc : Word)
    (sstatus : Sstatus) : Prop where
  off : traps ≠ [] → sstatus.sie = false
  keepsOff : traps ≠ [] → held ≠ [] → intena = false
  sepc :
    ∀ frame ∈ traps, frame.point = .sstatusNext ∨ frame.point = .returning →
      sepc = frame.sepc
  sstatus :
    ∀ frame ∈ traps, frame.point = .returning → sstatus = frame.sstatus

/-- The invariant of the traps. -/
structure TrapsFit (s : ThreadState) : Prop where
  frames : ∀ t, ∀ frame ∈ s.traps t, FrameFits s.hart.mem frame
  single : ∀ t, (s.traps t).length ≤ 1
  runs :
    TrapRuns (s.traps s.proc) s.held s.intena (s.hart.csr .sepc) s.sstatus

/-- The invariant of the threads; a panic stops the hart where it is. -/
structure ThreadsFit (s : ThreadState) : Prop where
  locks : LocksFit s
  traps : s.panicked = false → TrapsFit s

theorem TrapRuns.outside
    (held : List LockName)
    (intena : Bool)
    (sepc : Word)
    (sstatus : Sstatus) :
    TrapRuns [] held intena sepc sstatus where
  off := fun some => absurd rfl some
  keepsOff := fun some => absurd rfl some
  sepc := fun _ member => absurd member List.not_mem_nil
  sstatus := fun _ member => absurd member List.not_mem_nil

theorem FrameFits.of_agree
    {mem other : Word → Word}
    {frame : TrapFrame}
    (fits : FrameFits mem frame)
    (agree :
      ∀ address, InFrame frame.base address → other address = mem address) :
    FrameFits other frame where
  holds := fits.holds.of_agree agree
  below := fits.below
  sepc := fits.sepc
  sstatus := fits.sstatus

theorem notInFrame_of_apart
    {first second address : Word}
    (isApart : ThreadState.apart first second = true)
    (inSecond : InFrame second address) :
    ¬ InFrame first address := by
  rintro ⟨i, iBound, isFirst⟩
  obtain ⟨j, jBound, isSecond⟩ := inSecond
  obtain ⟨above, beneath⟩ := of_decide_eq_true isApart
  rw [isFirst] at isSecond
  have iSmall : (BitVec.ofNat 64 (8 * i)).toNat = 8 * i := by
    rw [BitVec.toNat_ofNat]
    omega
  have jSmall : (BitVec.ofNat 64 (8 * j)).toNat = 8 * j := by
    rw [BitVec.toNat_ofNat]
    omega
  have same := congrArg BitVec.toNat isSecond
  rw [BitVec.toNat_add, BitVec.toNat_add, iSmall, jSmall] at same
  rw [BitVec.toNat_sub] at above beneath
  have firstBound := first.isLt
  have secondBound := second.isLt
  omega

theorem TrapRuns.early
    {traps : List TrapFrame}
    {held : List LockName}
    {intena : Bool}
    {sstatus : Sstatus}
    (early :
      ∀ frame ∈ traps,
        frame.point ≠ .sstatusNext ∧ frame.point ≠ .returning)
    (off : traps ≠ [] → sstatus.sie = false)
    (keepsOff : traps ≠ [] → held ≠ [] → intena = false)
    (sepc : Word) :
    TrapRuns traps held intena sepc sstatus where
  off := off
  keepsOff := keepsOff
  sepc := by
    intro frame member late
    rcases late with isNext | isLast
    · exact absurd isNext (early frame member).1
    · exact absurd isLast (early frame member).2
  sstatus := by
    intro frame member isLast
    exact absurd isLast (early frame member).2

namespace TrapsFit

open ThreadState

variable {s m after : ThreadState} {p : Slot} {lk : LockName}

theorem caller_outside
    {held : List LockName}
    {traps : ThreadId → List TrapFrame}
    {point : Slot → KernelPoint}
    {scheduler : SchedulerPoint}
    (placed : LocksPlaced (some p) held traps point scheduler) :
    traps none = [] := by
  have caller := placed.caller p rfl
  unfold locksOf at caller
  cases isTraps : traps none with
  | nil =>
      rfl
  | cons frame outer =>
      rw [isTraps] at caller
      simp only [locksAt] at caller
      cases isPoint : frame.point with
      | body irq =>
          rw [isPoint] at caller
          cases irq
          all_goals cases caller
      | yielded =>
          rw [isPoint] at caller
          cases caller
      | sepcNext =>
          rw [isPoint] at caller
          cases caller
      | sstatusNext =>
          rw [isPoint] at caller
          cases caller
      | returning =>
          rw [isPoint] at caller
          cases caller

theorem parked_yielded
    {held : List LockName}
    {traps : ThreadId → List TrapFrame}
    {point : Slot → KernelPoint}
    {scheduler : SchedulerPoint}
    {frame : TrapFrame}
    {outer : List TrapFrame}
    (placed : LocksPlaced none held traps point scheduler)
    (isTraps : traps (some p) = frame :: outer) :
    frame.point = .yielded := by
  have parked := placed.parked p (Option.some_ne_none p).symm
  unfold locksOf at parked
  rw [isTraps] at parked
  simp only [locksAt] at parked
  cases isPoint : frame.point with
  | body irq =>
      rw [isPoint] at parked
      cases irq
      all_goals cases parked
  | yielded =>
      rfl
  | sepcNext =>
      rw [isPoint] at parked
      cases parked
  | sstatusNext =>
      rw [isPoint] at parked
      cases parked
  | returning =>
      rw [isPoint] at parked
      cases parked

theorem mayLock_early
    (single : ∀ t, (s.traps t).length ≤ 1)
    (may : s.mayLock = true) :
    ∀ frame ∈ s.traps s.proc,
      frame.point ≠ .sstatusNext ∧ frame.point ≠ .returning := by
  intro frame member
  unfold mayLock at may
  rcases Bool.or_eq_true_iff.mp may with client | body
  · obtain ⟨p, isClient⟩ := Option.isSome_iff_exists.mp client
    obtain ⟨isProc, outside, _⟩ := client?_eq isClient
    rw [isProc, outside] at member
    cases member
  · obtain ⟨top, isTop, isBody⟩ := (Option.any_eq_true _ _).mp body
    obtain ⟨outer, isTraps⟩ := List.head?_eq_some_iff.mp isTop
    have alone := single s.proc
    rw [isTraps] at alone member
    cases outer with
    | nil =>
        rw [List.mem_singleton.mp member, eq_of_beq isBody]
        decide
    | cons next rest =>
        simp at alone

theorem acquire
    (fits : TrapsFit s)
    (counted : LocksCounted s.noff s.held s.sstatus.sie)
    (may : s.mayLock = true)
    (acquired : s.acquire lk = some after) :
    TrapsFit after := by
  obtain ⟨_, isAfter⟩ := acquire_eq acquired
  subst isAfter
  refine {
    frames := fits.frames
    single := fits.single
    runs := ?_
  }
  apply TrapRuns.early (mayLock_early fits.single may)
  · exact fun _ => rfl
  · intro some _
    have count := counted.count
    by_cases first : s.noff = 0
    · simp only [pushOff, if_pos first]
      exact fits.runs.off some
    · simp only [pushOff, if_neg first]
      have holds : s.held ≠ [] := by
        intro nothing
        rw [nothing] at count
        exact first count
      exact fits.runs.keepsOff some holds

theorem release_off
    (runs :
      TrapRuns (s.traps s.proc) s.held s.intena (s.hart.csr .sepc) s.sstatus)
    (some : s.traps s.proc ≠ [])
    (holds : s.held ≠ []) :
    (s.sstatus.sie || decide (s.noff - 1 = 0) && s.intena) = false := by
  rw [runs.off some, runs.keepsOff some holds, Bool.and_false, Bool.or_false]

theorem release
    (fits : TrapsFit s)
    (may : s.mayLock = true)
    (released : s.release lk = some after) :
    TrapsFit after := by
  obtain ⟨member, isAfter⟩ := release_eq released
  subst isAfter
  have holds : s.held ≠ [] := List.ne_nil_of_mem member
  refine {
    frames := fits.frames
    single := fits.single
    runs := ?_
  }
  apply TrapRuns.early (mayLock_early fits.single may)
  · intro some
    exact release_off (s := s) fits.runs some holds
  · intro some _
    exact fits.runs.keepsOff some holds

theorem ofOutside
    (frames : ∀ t, ∀ frame ∈ s.traps t, FrameFits s.hart.mem frame)
    (single : ∀ t, (s.traps t).length ≤ 1)
    (outside : s.traps s.proc = []) :
    TrapsFit s where
  frames := frames
  single := single
  runs := by
    rw [outside]
    exact .outside ..

theorem sched_alive
    (alive : (m.sched p).panicked = false) :
    m.sched p = m.swtch none := by
  rcases m.sched_cases p with isPanic | ⟨_, _, _, isSwitch⟩
  · rw [isPanic] at alive
    cases alive
  · exact isSwitch

theorem sched
    (frames : ∀ t, ∀ frame ∈ m.traps t, FrameFits m.hart.mem frame)
    (single : ∀ t, (m.traps t).length ≤ 1)
    (outside : m.traps none = [])
    (alive : (m.sched p).panicked = false) :
    TrapsFit (m.sched p) := by
  rw [sched_alive alive]
  exact ofOutside frames single outside

theorem yield
    (frames : ∀ t, ∀ frame ∈ m.traps t, FrameFits m.hart.mem frame)
    (single : ∀ t, (m.traps t).length ≤ 1)
    (outside : m.traps none = [])
    (yields : m.yield p = some after)
    (alive : after.panicked = false) :
    TrapsFit after := by
  obtain ⟨locked, acquired, isAfter⟩ := Option.map_eq_some_iff.mp yields
  obtain ⟨_, isLocked⟩ := acquire_eq acquired
  subst isLocked
  rw [← isAfter] at alive ⊢
  apply sched _ _ _ alive
  · exact frames
  · exact single
  · exact outside

theorem sleep
    (fits : TrapsFit s)
    (outside : s.traps none = [])
    (sleeps : s.sleep p lk = some after)
    (alive : after.panicked = false) :
    TrapsFit after := by
  unfold ThreadState.sleep at sleeps
  split at sleeps
  · cases sleeps
    apply sched _ _ _ alive
    · exact fits.frames
    · exact fits.single
    · exact outside
  · obtain ⟨locked, acquired, rest⟩ := Option.bind_eq_some_iff.mp sleeps
    obtain ⟨unlocked, released, isAfter⟩ := Option.map_eq_some_iff.mp rest
    obtain ⟨_, isLocked⟩ := acquire_eq acquired
    obtain ⟨_, isUnlocked⟩ := release_eq released
    subst isUnlocked
    subst isLocked
    rw [← isAfter] at alive ⊢
    apply sched _ _ _ alive
    · exact fits.frames
    · exact fits.single
    · exact outside

theorem exit
    (fits : TrapsFit s)
    (outside : s.traps none = [])
    (exits : s.exit p = some after)
    (alive : after.panicked = false) :
    TrapsFit after := by
  obtain ⟨locked, acquired, isAfter⟩ := Option.map_eq_some_iff.mp exits
  obtain ⟨_, isLocked⟩ := acquire_eq acquired
  subst isLocked
  rw [← isAfter] at alive ⊢
  apply sched _ _ _ alive
  · exact fits.frames
  · exact fits.single
  · exact outside

theorem goOn
    (fits : TrapsFit s)
    (outside : s.traps s.proc = [])
    (goes : s.goOn p = some after) :
    TrapsFit after := by
  have releases :
      ∀ point, (s.setPoint p point).release (.process p) = some after →
        TrapsFit after := by
    intro point released
    obtain ⟨_, isAfter⟩ := release_eq released
    subst isAfter
    exact ofOutside fits.frames fits.single outside
  unfold ThreadState.goOn at goes
  split at goes
  · exact releases _ goes
  · exact releases _ goes
  · cases goes
    exact ofOutside fits.frames fits.single outside
  · obtain ⟨_, isAfter⟩ := acquire_eq goes
    subst isAfter
    exact ofOutside fits.frames fits.single outside
  · exact releases _ goes
  · cases goes
    exact ofOutside fits.frames fits.single outside
  · cases goes
  · cases goes

theorem schedule
    (fits : TrapsFit s)
    (placed : LocksPlaced none s.held s.traps s.point s.scheduler)
    (counted : LocksCounted s.noff s.held s.sstatus.sie)
    (isScheduler : s.proc = none)
    (outside : s.traps none = [])
    (disabled : s.StaysDisabled .schedule)
    (schedules : s.schedule = some after) :
    TrapsFit after := by
  have here : s.traps s.proc = [] := by
    rw [isScheduler]
    exact outside
  unfold ThreadState.schedule at schedules
  cases isPoint : s.scheduler with
  | head =>
      simp only [isPoint] at schedules
      cases schedules
      exact ofOutside fits.frames fits.single here
  | scan entry =>
      simp only [isPoint] at schedules
      split at schedules
      · obtain ⟨_, isAfter⟩ := acquire_eq schedules
        subst isAfter
        exact ofOutside fits.frames fits.single here
      · cases schedules
        exact ofOutside fits.frames fits.single here
  | locked p =>
      simp only [isPoint] at schedules
      split at schedules
      · rename_i isReady
        cases schedules
        have resumes : s.resumes? = some p := by
          unfold resumes?
          simp only [isPoint, if_pos isReady]
        have holds : s.held ≠ [] := by
          have own : s.held = s.scheduler.locks := by
            apply placed.own
            unfold locksOf
            rw [outside]
            rfl
          rw [own, isPoint]
          exact List.cons_ne_nil _ _
        refine {
          frames := fits.frames
          single := fits.single
          runs := ?_
        }
        have early :
            ∀ frame ∈ s.traps (some p),
              frame.point ≠ .sstatusNext ∧ frame.point ≠ .returning := by
          intro frame member
          have alone := fits.single (some p)
          cases isTraps : s.traps (some p) with
          | nil =>
              rw [isTraps] at member
              cases member
          | cons top outer =>
              have isYielded := parked_yielded placed isTraps
              rw [isTraps] at alone member
              cases outer with
              | nil =>
                  rw [List.mem_singleton.mp member, isYielded]
                  decide
              | cons next rest =>
                  simp at alone
        apply TrapRuns.early early
        · exact fun _ => counted.off holds
        · intro some _
          have nonempty : (s.traps (.some p)).isEmpty = false :=
            List.isEmpty_eq_false_iff.mpr some
          unfold StaysDisabled enablesInTrap at disabled
          simp only [resumes, Option.any_some, nonempty, Bool.not_false,
            Bool.and_true] at disabled
          exact disabled
      · obtain ⟨_, isAfter⟩ := release_eq schedules
        subst isAfter
        exact ofOutside fits.frames fits.single here
  | switched p =>
      simp only [isPoint] at schedules
      obtain ⟨_, isAfter⟩ := release_eq schedules
      subst isAfter
      exact ofOutside fits.frames fits.single here

theorem mem_frames
    {t : ThreadId}
    {frame : TrapFrame}
    (member : frame ∈ s.traps t) :
    frame ∈ s.frames := by
  cases t with
  | none =>
      exact List.mem_append_left _ member
  | some p =>
      apply List.mem_append_right
      exact List.mem_flatMap.mpr ⟨p, List.mem_finRange p, member⟩

theorem trap
    (fits : TrapsFit s)
    (free : s.held = [])
    (enabled : s.sstatus.sie = true)
    (room : s.hasRoom = true)
    (irq : Interrupt) :
    TrapsFit (s.trap irq) := by
  have outside : s.traps s.proc = [] := by
    by_contra some
    have off := fits.runs.off some
    rw [enabled] at off
    cases off
  have handled : ¬ (true = false ∨ false = true) := by
    decide
  let hart : Machine :=
    { s.hart with csr := Function.update s.hart.csr .sepc s.hart.pc }
  have intact :
      ∀ t, ∀ frame ∈ s.traps t, FrameFits (vectorEntry hart).mem frame := by
    intro t frame member
    apply (fits.frames t frame member).of_agree
    intro address inFrame
    have isApart := List.all_eq_true.mp room frame (mem_frames member)
    have outside' := notInFrame_of_apart isApart inFrame
    exact vectorEntry_other outside'
  unfold ThreadState.trap
  rw [if_neg handled]
  refine {
    frames := ?_
    single := ?_
    runs := ?_
  }
  · intro t frame member
    by_cases running : t = s.proc
    · simp only [running, Function.update_self, outside,
        List.mem_singleton] at member
      rw [member]
      refine {
        holds := vectorEntry_frame hart
        below := rfl
        sepc := ?_
        sstatus := ?_
      }
      · exact Function.update_self Csr.sepc s.hart.pc s.hart.csr
      · rw [enabled]
    · simp only [Function.update_of_ne running] at member
      exact intact t frame member
  · intro t
    by_cases running : t = s.proc
    · simp only [running, Function.update_self, outside]
      exact Nat.le_refl 1
    · simp only [Function.update_of_ne running]
      exact fits.single t
  · simp only [Function.update_self, outside]
    apply TrapRuns.early
    · intro frame member
      rw [List.mem_singleton.mp member]
      constructor
      all_goals
        intro same
        cases same
    · exact fun _ => rfl
    · intro _ some
      exact absurd free some

theorem frames_setTrap
    {frame : TrapFrame}
    {outer : List TrapFrame}
    (fits : TrapsFit s)
    (isTraps : s.traps s.proc = frame :: outer)
    (point : TrapPoint) :
    ∀ t, ∀ other ∈ (s.setTrap frame outer point).traps t,
      FrameFits s.hart.mem other := by
  intro t other member
  by_cases running : t = s.proc
  · have before := fits.frames s.proc
    rw [isTraps] at before
    simp only [setTrap, running, Function.update_self] at member
    rcases List.mem_cons.mp member with isFrame | inOuter
    · have own := before frame List.mem_cons_self
      rw [isFrame]
      exact {
        holds := own.holds
        below := own.below
        sepc := own.sepc
        sstatus := own.sstatus
      }
    · exact before other (List.mem_cons_of_mem _ inOuter)
  · simp only [setTrap, Function.update_of_ne running] at member
    exact fits.frames t other member

theorem single_setTrap
    {frame : TrapFrame}
    {outer : List TrapFrame}
    (fits : TrapsFit s)
    (isTraps : s.traps s.proc = frame :: outer)
    (point : TrapPoint) :
    ∀ t, ((s.setTrap frame outer point).traps t).length ≤ 1 := by
  intro t
  by_cases running : t = s.proc
  · have before := fits.single s.proc
    rw [isTraps] at before
    simp only [setTrap, running, Function.update_self]
    exact before
  · simp only [setTrap, Function.update_of_ne running]
    exact fits.single t

theorem outer_nil
    {frame : TrapFrame}
    {outer : List TrapFrame}
    (fits : TrapsFit s)
    (isTraps : s.traps s.proc = frame :: outer) :
    outer = [] := by
  have alone := fits.single s.proc
  rw [isTraps] at alone
  cases outer with
  | nil =>
      rfl
  | cons next rest =>
      simp at alone

theorem setTrap_early
    {frame : TrapFrame}
    {outer : List TrapFrame}
    {point : TrapPoint}
    (fits : TrapsFit s)
    (isTraps : s.traps s.proc = frame :: outer)
    (early : point ≠ .sstatusNext ∧ point ≠ .returning) :
    TrapsFit (s.setTrap frame outer point) := by
  have some : s.traps s.proc ≠ [] := by
    rw [isTraps]
    exact List.cons_ne_nil _ _
  refine {
    frames := fits.frames_setTrap isTraps point
    single := fits.single_setTrap isTraps point
    runs := ?_
  }
  simp only [setTrap, Function.update_self, fits.outer_nil isTraps]
  apply TrapRuns.early
  · intro other member
    rw [List.mem_singleton.mp member]
    exact early
  · exact fun _ => fits.runs.off some
  · exact fun _ holds => fits.runs.keepsOff some holds

theorem handler
    (fits : TrapsFit s)
    (placed : LocksPlaced s.proc s.held s.traps s.point s.scheduler)
    (handles : s.handler = some after)
    (alive : after.panicked = false) :
    TrapsFit after := by
  unfold ThreadState.handler at handles
  split at handles
  · cases handles
  rename_i frame outer isTraps
  have early : ∀ point : TrapPoint,
      point ≠ .sstatusNext ∧ point ≠ .returning →
        TrapsFit (s.setTrap frame outer point) :=
    fun point isEarly => fits.setTrap_early isTraps isEarly
  have some : s.traps s.proc ≠ [] := by
    rw [isTraps]
    exact List.cons_ne_nil _ _
  have alone := fits.outer_nil isTraps
  have own : FrameFits s.hart.mem frame := by
    apply fits.frames s.proc
    rw [isTraps]
    exact List.mem_cons_self
  cases isPoint : frame.point with
  | body irq =>
      cases irq with
      | timer =>
          simp only [isPoint] at handles
          cases isProc : s.proc with
          | none =>
              simp only [isProc] at handles
              cases handles
              exact early .sepcNext (by decide)
          | some p =>
              simp only [isProc] at handles
              split at handles
              · have yielded := early .yielded (by decide)
                apply yield _ _ _ handles alive
                · exact yielded.frames
                · exact yielded.single
                · rw [isProc] at placed
                  have other : none ≠ s.proc := by
                    rw [isProc]
                    exact (Option.some_ne_none p).symm
                  simp only [setTrap, Function.update_of_ne other]
                  exact caller_outside placed
              · cases handles
                exact early .sepcNext (by decide)
      | device =>
          simp only [isPoint] at handles
          split at handles
          · cases handles
            exact early .sepcNext (by decide)
          · cases handles
  | yielded =>
      simp only [isPoint] at handles
      cases isProc : s.proc with
      | none =>
          simp only [isProc] at handles
          cases handles
      | some p =>
          simp only [isProc] at handles
          have moved := early .sepcNext (by decide)
          obtain ⟨member, isAfter⟩ := release_eq handles
          subst isAfter
          have holds : s.held ≠ [] := List.ne_nil_of_mem member
          refine {
            frames := moved.frames
            single := moved.single
            runs := ?_
          }
          simp only [setTrap, popOff, setSie, Function.update_self, alone]
          apply TrapRuns.early
          · intro other isOther
            rw [List.mem_singleton.mp isOther]
            constructor
            all_goals
              intro same
              cases same
          · intro _
            exact release_off fits.runs some holds
          · intro _ _
            exact fits.runs.keepsOff some holds
  | sepcNext =>
      simp only [isPoint] at handles
      cases handles
      refine {
        frames := fits.frames_setTrap isTraps _
        single := fits.single_setTrap isTraps _
        runs := ?_
      }
      simp only [setTrap, Function.update_self, alone]
      refine {
        off := fun _ => fits.runs.off some
        keepsOff := fun _ holds => fits.runs.keepsOff some holds
        sepc := ?_
        sstatus := ?_
      }
      · intro other isOther _
        rw [List.mem_singleton.mp isOther]
      · intro other isOther isLast
        rw [List.mem_singleton.mp isOther] at isLast
        cases isLast
  | sstatusNext =>
      simp only [isPoint] at handles
      cases handles
      have restored : s.hart.csr .sepc = frame.sepc := by
        apply fits.runs.sepc frame
        · rw [isTraps]
          exact List.mem_cons_self
        · exact Or.inl isPoint
      refine {
        frames := fits.frames_setTrap isTraps _
        single := fits.single_setTrap isTraps _
        runs := ?_
      }
      simp only [setTrap, Function.update_self, alone]
      refine {
        off := ?_
        keepsOff := fun _ holds => fits.runs.keepsOff some holds
        sepc := ?_
        sstatus := ?_
      }
      · intro _
        rw [own.sstatus]
      · intro other isOther _
        rw [List.mem_singleton.mp isOther]
        exact restored
      · intro other isOther _
        rw [List.mem_singleton.mp isOther]
  | returning =>
      simp only [isPoint] at handles
      split at handles
      · cases handles
        apply ofOutside
        · intro t other member
          rw [vectorExit_mem]
          by_cases running : t = s.proc
          · simp only [running, Function.update_self, alone] at member
            cases member
          · simp only [Function.update_of_ne running] at member
            exact fits.frames t other member
        · intro t
          by_cases running : t = s.proc
          · simp only [running, Function.update_self, alone]
            exact Nat.zero_le 1
          · simp only [Function.update_of_ne running]
            exact fits.single t
        · simp only [Function.update_self, alone]
      · cases handles

theorem execute
    {pc : Word}
    {x : Reg → Word}
    {mem : Word → Word}
    (fits : TrapsFit s)
    (executes : s.execute pc x mem = some after) :
    TrapsFit after := by
  obtain ⟨leaves, isAfter⟩ := Option.ite_none_right_eq_some.mp executes
  cases isAfter
  refine {
    frames := ?_
    single := fits.single
    runs := fits.runs
  }
  intro t frame member
  apply (fits.frames t frame member).of_agree
  rintro address ⟨slot, bound, isAddress⟩
  have intact := List.all_eq_true.mp leaves frame (mem_frames member)
  have inSlots : address ∈ frameSlots frame.base := by
    rw [isAddress]
    exact List.mem_map.mpr ⟨slot, List.mem_range.mpr bound, rfl⟩
  exact eq_of_beq (List.all_eq_true.mp intact address inSlots)

theorem create
    (fits : TrapsFit s)
    (notRunning : s.proc ≠ some p)
    (context : Reg → Word) :
    TrapsFit
      { (s.setPoint p .forkret).setStatus p .ready with
        context := Function.update s.context (some p) context
        traps := Function.update s.traps (some p) []
        entry := Function.update s.entry (some p) none } := by
  refine {
    frames := ?_
    single := ?_
    runs := ?_
  }
  · intro t frame member
    by_cases isP : t = some p
    · simp only [isP, Function.update_self] at member
      cases member
    · simp only [Function.update_of_ne isP] at member
      exact fits.frames t frame member
  · intro t
    by_cases isP : t = some p
    · simp only [isP, Function.update_self]
      exact Nat.zero_le 1
    · simp only [Function.update_of_ne isP]
      exact fits.single t
  · have runs := fits.runs
    have same : Function.update s.traps (some p) [] s.proc = s.traps s.proc :=
      Function.update_of_ne notRunning _ _
    rw [← same] at runs
    exact runs

end TrapsFit

namespace ThreadsFit

open ThreadState

variable {s after : ThreadState} {action : ThreadAction}

theorem step
    (fits : ThreadsFit s)
    (disabled : s.StaysDisabled action)
    (taken : s.Step action after) :
    ThreadsFit after := by
  refine {
    locks := fits.locks.step taken
    traps := ?_
  }
  intro alive
  have counted := fits.locks.counted
  unfold ThreadState.Step ThreadState.step? at taken
  split at taken
  · cases taken
  rename_i notPanicked
  have running : s.panicked = false := eq_false_of_ne_true notPanicked
  have placed := fits.locks.placed running
  have traps := fits.traps running
  cases action with
  | interrupt irq =>
      obtain ⟨⟨enabled, _, room⟩, isAfter⟩ :=
        Option.ite_none_right_eq_some.mp taken
      cases isAfter
      exact traps.trap (fits.locks.noLocks enabled) enabled room irq
  | execute pc x mem =>
      exact traps.execute taken
  | acquire lk =>
      obtain ⟨may, acquired⟩ := Option.ite_none_right_eq_some.mp taken
      exact traps.acquire counted may acquired
  | release lk =>
      obtain ⟨may, released⟩ := Option.ite_none_right_eq_some.mp taken
      exact traps.release may released
  | wake q =>
      obtain ⟨_, isAfter⟩ := Option.ite_none_right_eq_some.mp taken
      cases isAfter
      exact ⟨traps.frames, traps.single, traps.runs⟩
  | yield =>
      obtain ⟨p, client, yields⟩ := Option.bind_eq_some_iff.mp taken
      obtain ⟨isProc, _, _⟩ := client?_eq client
      rw [isProc] at placed
      apply TrapsFit.yield _ _ _ yields alive
      · exact traps.frames
      · exact traps.single
      · exact TrapsFit.caller_outside placed
  | sleep lk =>
      obtain ⟨p, client, sleeps⟩ := Option.bind_eq_some_iff.mp taken
      obtain ⟨isProc, _, _⟩ := client?_eq client
      rw [isProc] at placed
      exact traps.sleep (TrapsFit.caller_outside placed) sleeps alive
  | zombie =>
      obtain ⟨p, _, isAfter⟩ := Option.map_eq_some_iff.mp taken
      cases isAfter
      exact ⟨traps.frames, traps.single, traps.runs⟩
  | exit =>
      obtain ⟨p, client, exits⟩ := Option.bind_eq_some_iff.mp taken
      obtain ⟨isProc, _, _⟩ := client?_eq client
      rw [isProc] at placed
      exact traps.exit (TrapsFit.caller_outside placed) exits alive
  | goOn =>
      obtain ⟨p, isProc, goes⟩ := Option.bind_eq_some_iff.mp taken
      obtain ⟨outside, went⟩ := Option.ite_none_right_eq_some.mp goes
      exact traps.goOn (List.isEmpty_iff.mp outside) went
  | usertrap syscall =>
      obtain ⟨p, isProc, enters⟩ := Option.bind_eq_some_iff.mp taken
      obtain ⟨⟨outside, _⟩, isAfter⟩ :=
        Option.ite_none_right_eq_some.mp enters
      cases isAfter
      exact .ofOutside traps.frames traps.single (List.isEmpty_iff.mp outside)
  | usertrapret epc =>
      obtain ⟨p, client, returns⟩ := Option.bind_eq_some_iff.mp taken
      obtain ⟨_, isAfter⟩ := Option.ite_none_right_eq_some.mp returns
      obtain ⟨isProc, outside, _⟩ := client?_eq client
      rw [← isProc] at outside
      cases isAfter
      exact .ofOutside traps.frames traps.single outside
  | schedule =>
      obtain ⟨⟨isScheduler, outside⟩, schedules⟩ :=
        Option.ite_none_right_eq_some.mp taken
      rw [List.isEmpty_iff] at outside
      rw [isScheduler] at placed
      exact traps.schedule placed counted isScheduler outside disabled
        schedules
  | handler =>
      exact traps.handler placed taken alive
  | create q context =>
      obtain ⟨⟨_, notRunning⟩, isAfter⟩ :=
        Option.ite_none_right_eq_some.mp taken
      cases isAfter
      exact traps.create notRunning context
  | reap q =>
      obtain ⟨_, isAfter⟩ := Option.ite_none_right_eq_some.mp taken
      cases isAfter
      exact ⟨traps.frames, traps.single, traps.runs⟩

theorem boot
    (hart : Machine)
    (context : ThreadId → Reg → Word)
    (ready : Slot → Bool) :
    ThreadsFit (ThreadState.boot hart context ready) where
  locks := LocksFit.boot hart context ready
  traps := by
    intro _
    apply TrapsFit.ofOutside
    · intro t frame member
      cases member
    · intro t
      exact Nat.zero_le 1
    · rfl

theorem returns
    {frame : TrapFrame}
    {outer : List TrapFrame}
    (fits : TrapsFit s)
    (isTraps : s.traps s.proc = frame :: outer)
    (isPoint : frame.point = .returning)
    (handles : s.handler = some after) :
    after.hart.pc = frame.pc ∧ after.hart.x = frame.x ∧
      after.sstatus.sie = true ∧ s.sstatus.spp = true := by
  have member : frame ∈ s.traps s.proc := by
    rw [isTraps]
    exact List.mem_cons_self
  have own := fits.frames s.proc frame member
  have isSepc : s.hart.csr .sepc = frame.sepc :=
    fits.runs.sepc frame member (Or.inr isPoint)
  have isSstatus : s.sstatus = frame.sstatus :=
    fits.runs.sstatus frame member isPoint
  unfold ThreadState.handler at handles
  simp only [isTraps, isPoint] at handles
  split at handles
  · rename_i isBase
    cases handles
    have holds := own.holds
    have below := own.below
    rw [← isBase] at holds below
    refine ⟨?_, ?_, ?_, ?_⟩
    · rw [vectorExit_pc, isSepc, own.sepc]
    · exact vectorExit_x holds below
    · rw [isSstatus, own.sstatus]
    · rw [isSstatus, own.sstatus]
  · cases handles

theorem trapsReturn
    (fits : ThreadsFit s) :
    s.TrapsReturn where
  resumes := by
    intro frame outer after isTraps isPoint taken
    have alive : s.panicked = false := by
      by_contra panicked
      unfold Step step? at taken
      rw [if_pos (eq_true_of_ne_false panicked)] at taken
      cases taken
    have handles : s.handler = some after := by
      unfold Step step? at taken
      rw [if_neg (ne_true_of_eq_false alive)] at taken
      exact taken
    exact returns (fits.traps alive) isTraps isPoint handles
  quiet := by
    intro frame outer irq after isTraps _ taken
    unfold Step step? at taken
    split at taken
    · cases taken
    rename_i notPanicked
    have running : s.panicked = false := eq_false_of_ne_true notPanicked
    obtain ⟨⟨enabled, _⟩, _⟩ := Option.ite_none_right_eq_some.mp taken
    have off := (fits.traps running).runs.off
    rw [isTraps] at off
    rw [off (List.cons_ne_nil _ _)] at enabled
    cases enabled

end ThreadsFit

namespace ThreadState

/--
Traps from kernel code return to what they interrupted, in every state of every
run in which a process that yielded in `sys_trap_handler` is switched to only
while `intena` is 0.
-/
theorem trapsReturn_of_staysDisabled
    {hart : Machine}
    {context : ThreadId → Reg → Word}
    {ready : Slot → Bool}
    {trace : List (ThreadState × ThreadAction)}
    {final : ThreadState}
    (run : Lib.Run Step (boot hart context ready) trace final)
    (disabled : Lib.Meets StaysDisabled trace) :
    final.TrapsReturn := by
  have fits : ThreadsFit final := by
    refine run.invariant (ThreadsFit.boot hart context ready) ?_ disabled
    intro current action next holds condition taken
    exact holds.step condition taken
  exact fits.trapsReturn

/-- The kernel with two processes to run. -/
def bootTwo : ThreadState :=
  boot zeroHart (fun _ _ => 0) fun p => p == 0 || p == 1

/-- The scheduler passes `n` entries of the table that are not ready. -/
def passes (n : Nat) : List ThreadAction :=
  List.replicate (2 * n) .schedule

/-- A process begins and returns to user mode. -/
def begins : List ThreadAction := [.goOn, .usertrapret 0]

/-- The scheduler leaves a process and runs the next entry. -/
def runsNext : List ThreadAction := [.schedule, .schedule, .schedule]

/-- A process is in kernel code, at an address on its stack. -/
def interrupted : List ThreadAction :=
  [.usertrap true,
    .execute 0x80001000 (fun reg => if reg = .sp then 0x80010000 else 0)
      fun _ => 0,
    .interrupt .timer]

/--
The process at entry 1 yields in `sys_trap_handler`.  The one at entry 0 yields
at a timer interrupt in user mode, so that the scheduler goes on with
interrupts off until it has switched back.
-/
theorem trapsReturn_of_staysDisabled_twoProcesses :
    ∃ trace final,
      Lib.Run Step bootTwo trace final ∧
        Lib.Meets StaysDisabled trace ∧
        final.traps final.proc ≠ [] ∧
        final.TrapsReturn := by
  let actions : List ThreadAction :=
    runsNext ++ begins ++ [.usertrap false, .yield] ++
      runsNext ++ begins ++ interrupted ++ [.handler, .schedule] ++
      passes 62 ++ [.schedule] ++ runsNext ++
      [.goOn, .usertrapret 0, .usertrap false, .yield] ++
      runsNext ++ [.handler, .handler, .handler]
  have reaches :
      (Lib.runActions (Lib.guarded StaysDisabled step?) bootTwo actions).any
        (fun final => !(final.traps final.proc).isEmpty) = true := by
    decide +kernel
  obtain ⟨final, accepted, some⟩ := (Option.any_eq_true _ _).mp reaches
  obtain ⟨trace, run, disabled⟩ := Lib.runActions_guarded accepted
  exact ⟨trace, final, run, disabled, by simpa using some,
    trapsReturn_of_staysDisabled run disabled⟩

/--
A process that yielded in `sys_trap_handler` is switched to after `intr_on`, so
that its `release` enables interrupts.  The next one comes between `w_sepc` and
`w_sstatus`, and the `sret` goes where that one came.
-/
theorem interrupt_after_sepc_misreturns :
    ¬ ∀ (hart : Machine) (context : ThreadId → Reg → Word)
        (ready : Slot → Bool) (trace : List (ThreadState × ThreadAction))
        (final : ThreadState),
      Lib.Run Step (boot hart context ready) trace final →
        final.TrapsReturn := by
  intro law
  let actions : List ThreadAction :=
    runsNext ++ begins ++ interrupted ++ [.handler, .schedule] ++
      passes 63 ++ [.schedule] ++ runsNext ++
      [.handler, .handler, .interrupt .device, .handler, .handler, .handler,
        .handler, .handler]
  have reaches :
      (Lib.runActions step? (boot zeroHart (fun _ _ => 0) fun p => p == 0)
        actions).any (fun final =>
          (final.traps final.proc).head?.any fun frame =>
            decide (frame.point = .returning) &&
              (final.step? .handler).any fun after =>
                decide (after.hart.pc ≠ frame.pc)) = true := by
    decide +kernel
  obtain ⟨final, accepted, wrong⟩ := (Option.any_eq_true _ _).mp reaches
  obtain ⟨trace, _, run⟩ := Lib.runActions_sound accepted
  obtain ⟨frame, isTop, misreturns⟩ := (Option.any_eq_true _ _).mp wrong
  obtain ⟨outer, isTraps⟩ := List.head?_eq_some_iff.mp isTop
  simp only [Bool.and_eq_true, decide_eq_true_eq] at misreturns
  obtain ⟨isPoint, returns⟩ := misreturns
  obtain ⟨after, taken, elsewhere⟩ := (Option.any_eq_true _ _).mp returns
  have resumed := (law _ _ _ trace final run).resumes frame outer after
    isTraps isPoint taken
  exact of_decide_eq_true elsewhere resumed.1

end ThreadState

end MyOS
