import MyOS.ProcSchedulingAdvance

namespace MyOS

/-!
# What a step can do to the process table

Every step changes at most one entry beyond wakeups, in one of eight ways.
The laws about exit and about parents need only this list.
-/

/-- The fields of a process that `fork`, `exit` and `wait` exchange. -/
structure ProcCore where
  status : TaskStatus
  pid : BitVec 32
  parent : Option Slot
  xstate : BitVec 32
  birth : Nat
  forker : Option Nat
  deriving Repr, DecidableEq

/-- The shared fields of a process. -/
def Proc.core (p : Proc) : ProcCore where
  status := p.status
  pid := p.pid
  parent := p.parent
  xstate := p.xstate
  birth := p.birth
  forker := p.forker

/-- Nothing but a wakeup happened to the shared fields. -/
def Proc.Woken (before after : Proc) : Prop :=
  after.core = before.core ∨
    before.status = .sleeping ∧
      after.core = { before.core with status := .ready }

theorem Proc.Woken.refl (p : Proc) : p.Woken p :=
  Or.inl rfl

theorem Proc.Woken.trans
    {before middle after : Proc}
    (first : before.Woken middle)
    (second : middle.Woken after) :
    before.Woken after := by
  rcases first with same | ⟨was, is⟩
  · have status : middle.status = before.status := congrArg (·.status) same
    rcases second with later | ⟨wasLater, isLater⟩
    · exact Or.inl (later.trans same)
    · refine Or.inr ⟨status.symm.trans wasLater, ?_⟩
      rw [isLater, same]
  · have status : middle.status = .ready := congrArg (·.status) is
    rcases second with later | ⟨wasLater, _⟩
    · exact Or.inr ⟨was, later.trans is⟩
    · rw [status] at wasLater
      cases wasLater

/-- The ghost history of the kernel. -/
structure KernelHistory where
  births : Nat
  forked : List Forking
  exits : List (Nat × BitVec 32)
  reaped : List Reaping

/-- The child of a `fork` that has stored the parent pointer. -/
def Point.adopted : Point → Option Slot
  | .forkCwd np => some np
  | .forkReady np => some np
  | .holding _ after => after.adopted
  | .itrunc _ after => after.adopted
  | .closeFile _ after => after.adopted
  | .yielded _ after => after.adopted
  | .slept _ after => after.adopted
  | _ => none

/-- A process works on no other child than before. -/
structure Point.SameChild (before after : Point) : Prop where
  child : ∀ np, after.child = some np → before.child = some np
  adopted : ∀ np, after.adopted = some np → before.adopted = some np

theorem Point.SameChild.refl (point : Point) : point.SameChild point :=
  ⟨fun _ is => is, fun _ is => is⟩

theorem Point.SameChild.trans
    {before middle after : Point}
    (first : before.SameChild middle)
    (second : middle.SameChild after) :
    before.SameChild after :=
  ⟨fun np is => first.child np (second.child np is),
    fun np is => first.adopted np (second.adopted np is)⟩

theorem Point.SameChild.of_none
    {before after : Point}
    (noChild : after.child = none)
    (noneAdopted : after.adopted = none) :
    before.SameChild after := by
  refine ⟨?_, ?_⟩
  · intro np isChild
    rw [noChild] at isChild
    cases isChild
  · intro np isAdopted
    rw [noneAdopted] at isAdopted
    cases isAdopted

namespace Kernel

/-- The ghost history of the kernel. -/
def history (k : Kernel) : KernelHistory where
  births := k.births
  forked := k.forked
  exits := k.exits
  reaped := k.reaped

/-- Nothing but wakeups and moves inside the code happened. -/
structure Quiet (k after : Kernel) : Prop where
  history : after.history = k.history
  woken : ∀ slot, (k.proc slot).Woken (after.proc slot)
  points : ∀ slot, (k.proc slot).point.SameChild (after.proc slot).point

/-- The effect of a step on the process table and the history. -/
inductive TableStep
    (k : Kernel)
    (action : KernelAction)
    (after : Kernel) : Prop where
  | quiet
      (quiet : Quiet k after)
  /-- A process gets or gives up the CPU. -/
  | switches
      (slot : Slot)
      (status : TaskStatus)
      (history : after.history = k.history)
      (was :
        (k.proc slot).status = .running ∨ (k.proc slot).status = .ready ∨
          (k.proc slot).point.truncating = true)
      (live : (k.proc slot).live)
      (is : status = .ready ∨ status = .sleeping ∨ status = .running)
      (others :
        ∀ other, other ≠ slot → (k.proc other).Woken (after.proc other))
      (self :
        (after.proc slot).core =
          { (k.proc slot).core with status := status })
      (points :
        ∀ other, (k.proc other).point.SameChild (after.proc other).point)
  /-- `proc_exit` begins. -/
  | exits
      (slot : Slot)
      (xstate : BitVec 32)
      (history :
        after.history =
          { k.history with
            exits := k.exits ++ [((k.proc slot).birth, xstate)] })
      (was : (k.proc slot).status = .running)
      (others :
        ∀ other, other ≠ slot → (k.proc other).Woken (after.proc other))
      (self :
        (after.proc slot).core =
          { (k.proc slot).core with
            status := .zombie
            xstate := xstate })
      (points :
        ∀ other, (k.proc other).point.SameChild (after.proc other).point)
  /-- `allocproc`, in a `fork`, with or without a page. -/
  | allocates
      (slot np : Slot)
      (status : TaskStatus)
      (history : after.history = { k.history with births := k.births + 1 })
      (current : (k.proc slot).status = .running)
      (wasFree : (k.proc np).status = .free)
      (is : status = .allocated ∨ status = .free)
      (others :
        ∀ other, other ≠ np → (k.proc other).Woken (after.proc other))
      (child :
        (after.proc np).core = {
          status := status
          pid := k.nextPid
          parent := none
          xstate := 0
          birth := k.births
          forker := some (k.proc slot).birth })
      (points :
        ∀ other, other ≠ slot →
          (k.proc other).point.SameChild (after.proc other).point)
      (point :
        ∀ c, (after.proc slot).point.child = some c → c = np)
      (notAdopted : (after.proc slot).point.adopted = none)
  /-- A failing `fork` gives the slot back. -/
  | frees
      (np : Slot)
      (history : after.history = k.history)
      (was : (k.proc np).status = .allocated)
      (others :
        ∀ other, other ≠ np → (k.proc other).Woken (after.proc other))
      (child :
        (after.proc np).core = { (k.proc np).core with status := .free })
      (points :
        ∀ other, (k.proc other).point.SameChild (after.proc other).point)
  /-- `fork` stores the parent pointer. -/
  | adopts
      (slot np : Slot)
      (history : after.history = k.history)
      (current : (k.proc slot).status = .running)
      (was : (k.proc np).status = .allocated)
      (isChild : (k.proc slot).point.child = some np)
      (others :
        ∀ other, other ≠ np → (k.proc other).Woken (after.proc other))
      (child :
        (after.proc np).core = { (k.proc np).core with parent := some slot })
      (points :
        ∀ other, other ≠ slot →
          (k.proc other).point.SameChild (after.proc other).point)
      (point : (after.proc slot).point.child = some np)
  /-- `fork` activates the child. -/
  | activates
      (slot np : Slot)
      (history :
        after.history =
          { k.history with
            forked := k.forked ++ [{
              parent := (k.proc slot).birth
              child := (k.proc np).birth
              pid := (k.proc np).pid }] })
      (current : (k.proc slot).status = .running)
      (was : (k.proc np).status = .allocated)
      (isChild : (k.proc slot).point.child = some np)
      (isAdopted : (k.proc slot).point.adopted = some np)
      (others :
        ∀ other, other ≠ np → (k.proc other).Woken (after.proc other))
      (child :
        (after.proc np).core = { (k.proc np).core with status := .ready })
      (points :
        ∀ other, other ≠ np →
          (k.proc other).point.SameChild (after.proc other).point)
      (point : (after.proc slot).point = .syscall)
      (npPoint : (after.proc np).point = .forkret)
  /-- `wait` returns a child. -/
  | reaps
      (slot son : Slot)
      (copies copied : Bool)
      (history :
        after.history =
          { k.history with
            reaped := k.reaped ++ [{
              caller := (k.proc slot).birth
              child := (k.proc son).birth
              pid := (k.proc son).pid
              xstate := (k.proc son).xstate }] })
      (isAdvance : action = .advance copied)
      (current : k.cpu.proc = some slot)
      (atScan : (k.proc slot).point = .waitScan copies)
      (delivered : copies = true → copied = true)
      (found : k.findSon slot = .zombie son)
      (was : (k.proc son).status = .zombie)
      (isSon : (k.proc son).parent = some slot)
      (differs : son ≠ slot)
      (others :
        ∀ other, other ≠ son → (k.proc other).Woken (after.proc other))
      (child :
        (after.proc son).core =
          { (k.proc son).core with
            status := .free
            pid := 0
            parent := none
            xstate := 0 })
      (points :
        ∀ other, (k.proc other).point.SameChild (after.proc other).point)

namespace Quiet

variable {k after : Kernel} {slot : Slot}

theorem trans
    {middle : Kernel}
    (first : Quiet k middle)
    (second : Quiet middle after) :
    Quiet k after where
  history := second.history.trans first.history
  woken := fun slot => (first.woken slot).trans (second.woken slot)
  points := fun slot => (first.points slot).trans (second.points slot)

theorem moves
    (slot : Slot)
    (history : after.history = k.history)
    (others : ∀ other, other ≠ slot → after.proc other = k.proc other)
    (core : (after.proc slot).core = (k.proc slot).core)
    (same : (k.proc slot).point.SameChild (after.proc slot).point) :
    Quiet k after := by
  refine ⟨history, ?_, ?_⟩
  · intro other
    by_cases isSlot : other = slot
    · subst isSlot
      exact Or.inl core
    · rw [others other isSlot]
      exact .refl _
  · intro other
    by_cases isSlot : other = slot
    · subst isSlot
      exact same
    · rw [others other isSlot]
      exact .refl _

theorem sameTable
    (history : after.history = k.history)
    (proc : after.proc = k.proc) :
    Quiet k after := by
  refine ⟨history, ?_, ?_⟩ <;> intro other <;> rw [proc]
  · exact .refl _
  · exact .refl _

theorem setPoint
    {point : Point}
    (same : (k.proc slot).point.SameChild point) :
    Quiet k (k.setPoint slot point) := by
  refine .moves slot rfl ?_ ?_ ?_
  · intro other differs
    simp [Kernel.setPoint, setProc, differs]
  · simp [Kernel.setPoint, setProc, Proc.core]
  · simp only [Kernel.setPoint, setProc, Function.update_self]
    exact same

theorem setProc
    {p : Proc}
    (core : p.core = (k.proc slot).core)
    (point : p.point = (k.proc slot).point) :
    Quiet k (k.setProc slot p) := by
  refine .moves slot rfl ?_ ?_ ?_
  · intro other differs
    simp [Kernel.setProc, differs]
  · simp [Kernel.setProc, core]
  · simp only [Kernel.setProc, Function.update_self, point]
    exact .refl _

theorem setFile (k : Kernel) (f : Nat) (file : OpenFile) :
    Quiet k (k.setFile f file) :=
  .sameTable rfl rfl

theorem setInode (k : Kernel) (ip : Nat) (inode : InodeSlot) :
    Quiet k (k.setInode ip inode) :=
  .sameTable rfl rfl

theorem release (k : Kernel) (lock : LockName) :
    Quiet k (k.release lock) :=
  .sameTable rfl rfl

theorem setInterrupts (k : Kernel) (on : Bool) :
    Quiet k (k.setInterrupts on) :=
  .sameTable rfl rfl

theorem setDescriptor
    (k : Kernel)
    (slot : Slot)
    (fd : Nat)
    (f : Option Nat) :
    Quiet k (k.setDescriptor slot fd f) :=
  .setProc rfl rfl

theorem setCwd (k : Kernel) (slot : Slot) (cwd : Option Nat) :
    Quiet k (k.setCwd slot cwd) :=
  .setProc rfl rfl

theorem wakeup (k : Kernel) (chan : Option Channel) :
    Quiet k (k.wakeup chan) := by
  refine ⟨rfl, ?_, ?_⟩ <;> intro slot <;> simp only [Kernel.wakeup] <;>
    split
  · rename_i woken
    exact Or.inr ⟨woken.2.1, rfl⟩
  · exact .refl _
  · exact .refl _
  · exact .refl _

theorem interruptProcs (k : Kernel) : Quiet k k.interruptProcs := by
  refine ⟨rfl, ?_, ?_⟩ <;> intro slot <;>
    simp only [Kernel.interruptProcs, interruptProc] <;> split
  · by_cases sleeping : (k.proc slot).status = .sleeping
    · exact Or.inr ⟨sleeping, by simp [Proc.core, sleeping]⟩
    · exact Or.inl (by simp [Proc.core, sleeping])
  · exact .refl _
  · exact .refl _
  · exact .refl _

theorem acquire
    {lock : LockName}
    (acquired : k.acquire lock = some after) :
    after.proc = k.proc ∧ after.history = k.history := by
  unfold Kernel.acquire at acquired
  split at acquired
  · cases acquired
  · cases acquired
    exact ⟨rfl, rfl⟩

theorem iput
    {point : Point}
    (ip : Nat)
    (same : (k.proc slot).point.SameChild point) :
    Quiet k (k.iput slot ip point) := by
  have stored : ∀ inode, Quiet k (k.setInode ip inode) :=
    fun inode => .sameTable rfl rfl
  unfold Kernel.iput
  dsimp only
  split
  · exact (stored _).trans (.setPoint ⟨same.child, same.adopted⟩)
  · exact (stored _).trans (.setPoint same)

theorem pipeclose
    {pipe : Nat}
    {writable : Bool}
    (closed : k.pipeclose pipe writable = some after) :
    Quiet k after ∧
      ∀ slot, (after.proc slot).point = (k.proc slot).point := by
  have stored : ∀ ends, Quiet k (k.setPipe pipe ends) :=
    fun ends => .sameTable rfl rfl
  unfold Kernel.pipeclose at closed
  split at closed
  · cases closed
  · dsimp only at closed
    split at closed <;> cases closed
    · exact ⟨(stored _).trans (.wakeup _ _),
        fun slot => (wakeup_undisturbed _ _ slot).point⟩
    · exact ⟨(stored _).trans (.wakeup _ _),
        fun slot => (wakeup_undisturbed _ _ slot).point⟩

theorem fileclose
    {f : Nat}
    {point : Point}
    (same : (k.proc slot).point.SameChild point)
    (closed : k.fileclose slot f point = some after) :
    Quiet k after := by
  have stored : ∀ file, Quiet k (k.setFile f file) :=
    fun file => .sameTable rfl rfl
  unfold Kernel.fileclose at closed
  dsimp only at closed
  split at closed
  · cases closed
    exact .sameTable rfl rfl
  · split at closed
    · cases closed
      exact (stored _).trans (.setPoint same)
    · split at closed
      · cases closed
        exact (stored _).trans (.iput _ ⟨same.child, same.adopted⟩)
      · obtain ⟨next, isNext, rfl⟩ := Option.map_eq_some_iff.mp closed
        obtain ⟨quiet, point⟩ := pipeclose isNext
        refine ((stored _).trans quiet).trans (.setPoint ?_)
        rw [point slot]
        exact ⟨same.child, same.adopted⟩
      · cases closed
        exact (stored _).trans (.setPoint ⟨same.child, same.adopted⟩)

end Quiet

/-! ## Switching -/

theorem schedAs_frame (k : Kernel) (slot : Slot) (p : Proc) :
    (k.schedAs slot p).proc = Function.update k.proc slot p ∧
      (k.schedAs slot p).history = k.history := by
  unfold schedAs sched
  split
  · exact ⟨rfl, rfl⟩
  · split
    · exact ⟨rfl, rfl⟩
    · split
      · exact ⟨rfl, rfl⟩
      · split
        · exact ⟨rfl, rfl⟩
        · exact ⟨rfl, rfl⟩

theorem yield_frame
    {k after : Kernel}
    {slot : Slot}
    {interrupts : Bool}
    {point : Point}
    (taken : k.yield slot interrupts point = some after) :
    after.proc = Function.update k.proc slot
        { k.proc slot with
          status := .ready
          point := .yielded interrupts point } ∧
      after.history = k.history := by
  obtain ⟨next, isNext, rfl⟩ := Option.map_eq_some_iff.mp taken
  obtain ⟨proc, history⟩ := Quiet.acquire isNext
  obtain ⟨stored, kept⟩ := schedAs_frame next slot
    { next.proc slot with
      status := .ready
      point := .yielded interrupts point }
  exact ⟨stored.trans (by rw [proc]), kept.trans history⟩

theorem sleep_frame
    {k after : Kernel}
    {slot : Slot}
    {chan : Channel}
    {lock : LockName}
    {point : Point}
    (taken : k.sleep slot chan lock point = some after) :
    after.proc = Function.update k.proc slot
        { k.proc slot with
          status := .sleeping
          chan := some chan
          point := .slept lock point } ∧
      after.history = k.history := by
  obtain ⟨own, isOwn, rfl⟩ := Option.map_eq_some_iff.mp taken
  have same : own.proc = k.proc ∧ own.history = k.history := by
    split at isOwn
    · cases isOwn
      exact ⟨rfl, rfl⟩
    · obtain ⟨next, isNext, rfl⟩ := Option.map_eq_some_iff.mp isOwn
      obtain ⟨proc, history⟩ := Quiet.acquire isNext
      exact ⟨proc, history⟩
  obtain ⟨proc, history⟩ := same
  obtain ⟨stored, kept⟩ := schedAs_frame own slot
    { own.proc slot with
      status := .sleeping
      chan := some chan
      point := .slept lock point }
  exact ⟨stored.trans (by rw [proc]), kept.trans history⟩

namespace TableStep

variable {awake : Prop} {k after : Kernel} {slot : Slot}
variable {action : KernelAction}

theorem gaveUp
    {p : Proc}
    (history : after.history = k.history)
    (stored : after.proc = Function.update k.proc slot p)
    (was :
      (k.proc slot).status = .running ∨
        (k.proc slot).point.truncating = true)
    (live : (k.proc slot).live)
    (is : p.status = .ready ∨ p.status = .sleeping)
    (core : p.core = { (k.proc slot).core with status := p.status })
    (same : (k.proc slot).point.SameChild p.point) :
    TableStep k action after := by
  refine .switches slot p.status history ?_ live ?_ ?_ ?_ ?_
  · exact was.imp_right Or.inr
  · exact is.imp_right Or.inl
  · intro other differs
    rw [stored, Function.update_of_ne differs]
    exact .refl _
  · rw [stored, Function.update_self]
    exact core
  · intro other
    by_cases isSlot : other = slot
    · subst isSlot
      rw [stored, Function.update_self]
      exact same
    · rw [stored, Function.update_of_ne isSlot]
      exact .refl _

theorem resume
    {middle : Kernel}
    (history : middle.history = k.history)
    (parked : (k.proc slot).point.parked slot)
    (isReady : (k.proc slot).status = .ready)
    (others : ∀ other, other ≠ slot → middle.proc other = k.proc other)
    (self : middle.proc slot = { k.proc slot with status := .running })
    (taken : middle.resume slot = some after) :
    TableStep k action after := by
  have live : (k.proc slot).live := by simp [Proc.live, isReady]
  have goes :
      ∀ (chan : Option Channel) (rest : Point) (final : Kernel),
        final.history = middle.history →
        final.proc = Function.update middle.proc slot
          { middle.proc slot with
            chan := chan
            point := rest } →
        (k.proc slot).point.SameChild rest →
        TableStep k action final := by
    intro chan rest final kept stored same
    refine .switches slot .running (kept.trans history)
      (Or.inr (Or.inl isReady)) live (Or.inr (Or.inr rfl)) ?_ ?_ ?_
    · intro other differs
      rw [stored, Function.update_of_ne differs, others other differs]
      exact .refl _
    · rw [stored, Function.update_self, self]
      rfl
    · intro other
      by_cases isSlot : other = slot
      · subst isSlot
        rw [stored, Function.update_self]
        exact same
      · rw [stored, Function.update_of_ne isSlot, others other isSlot]
        exact .refl _
  have point : (middle.proc slot).point = (k.proc slot).point := by
    rw [self]
  unfold Kernel.resume at taken
  rw [point] at taken
  cases waiting : (k.proc slot).point with
  | forkret =>
      rw [waiting] at taken
      cases taken
      exact goes _ .user _ rfl rfl (.of_none rfl rfl)
  | yielded interrupts rest =>
      rw [waiting] at taken
      cases taken
      refine goes _ rest _ rfl rfl ?_
      rw [waiting]
      exact ⟨fun _ is => is, fun _ is => is⟩
  | slept lock rest =>
      rw [waiting] at taken
      have same : (Point.slept lock rest).SameChild rest :=
        ⟨fun _ is => is, fun _ is => is⟩
      rw [← waiting] at same
      dsimp only at taken
      split at taken
      · cases taken
        exact goes none rest _ rfl rfl same
      · obtain ⟨proc, kept⟩ := Quiet.acquire taken
        exact goes none rest _ kept proc same
  | _ =>
      rw [waiting] at parked
      exact parked.elim

theorem schedule
    (scheduled : WellScheduled awake k)
    (taken : k.schedule = some after) :
    TableStep k action after := by
  unfold Kernel.schedule at taken
  split at taken
  · rename_i inTable
    obtain ⟨next, acquired, taken⟩ := Option.bind_eq_some_iff.mp taken
    obtain ⟨proc, history⟩ := Quiet.acquire acquired
    split at taken
    · rename_i isReady
      rw [proc] at isReady
      have fits := (scheduled.fits ⟨k.scan, inTable⟩).status
      simp only [Proc.StatusFits, isReady] at fits
      refine resume ?_ fits.2 isReady ?_ ?_ taken
      · exact history
      · intro other differs
        simp [setStatus, setProc, differs, proc]
      · simp [setStatus, setProc, proc]
    · cases taken
      exact .quiet (.sameTable history proc)
  · cases taken
    exact .quiet (.sameTable rfl rfl)

theorem timer
    (scheduled : WellScheduled awake k)
    (taken : k.timer = some after) :
    TableStep k action after := by
  unfold Kernel.timer at taken
  split at taken
  · split at taken
    · cases taken
      exact .quiet (.sameTable rfl rfl)
    · rename_i slot running
      have live := scheduled.current_live running
      split at taken
      · rename_i isUser
        obtain ⟨stored, history⟩ := yield_frame taken
        refine gaveUp history stored (Or.inl ?_) live (Or.inl rfl) rfl
          (.of_none rfl rfl)
        exact scheduled.current_running running (by rw [isUser]; rfl)
      · split at taken
        · rename_i status
          obtain ⟨stored, history⟩ := yield_frame taken
          exact gaveUp history stored (Or.inl status) live (Or.inl rfl) rfl
            ⟨fun _ is => is, fun _ is => is⟩
        · cases taken
          exact .quiet (.sameTable rfl rfl)
  · cases taken

theorem handle
    (handler : Kernel → Kernel)
    (quiet : ∀ k, Quiet k (handler k))
    (taken : k.handle handler = some after) :
    TableStep k action after := by
  have handled : Quiet k (handler (k.setInterrupts false)) :=
    (Quiet.setInterrupts k false).trans (quiet _)
  unfold Kernel.handle at taken
  split at taken
  · dsimp only at taken
    split at taken
    · cases taken
      exact .quiet (handled.trans (.setInterrupts _ true))
    · split at taken <;> cases taken
      · exact .quiet (handled.trans (.setPoint (.of_none rfl rfl)))
      · exact .quiet (handled.trans (.setInterrupts _ true))
  · cases taken

theorem fork
    (status : (k.proc slot).status = .running)
    (inSyscall : (k.proc slot).point = .syscall)
    (page : Bool) :
    TableStep k action (k.fork slot page) := by
  cases found : k.freeSlot with
  | none =>
      simp only [Kernel.fork, allocproc, found]
      exact .quiet (.sameTable rfl rfl)
  | some np =>
      have isFree : (k.proc np).status = .free := by
        have holds := List.find?_some found
        simpa using holds
      have differs : slot ≠ np := by
        rintro rfl
        rw [status] at isFree
        cases isFree
      cases page with
      | false =>
          simp only [Kernel.fork, allocproc, found, Bool.false_eq_true,
            if_false]
          refine .allocates slot np .free rfl status isFree (Or.inr rfl)
            ?_ ?_ ?_ ?_ ?_
          · intro other notNp
            simp only [setProc, Function.update_of_ne notNp]
            exact .refl _
          · simp [setProc, Proc.core]
          · intro other _
            by_cases isNp : other = np
            · subst isNp
              simp only [setProc, Function.update_self]
              exact .refl _
            · simp only [setProc, Function.update_of_ne isNp]
              exact .refl _
          · intro c isChild
            simp only [setProc, Function.update_of_ne differs] at isChild
            exact absurd isChild (by
              change (k.proc slot).point.child ≠ some c
              rw [inSyscall]
              rintro ⟨⟩)
          · simp only [setProc, Function.update_of_ne differs]
            change (k.proc slot).point.adopted = none
            rw [inSyscall]
            rfl
      | true =>
          simp only [Kernel.fork, allocproc, found, if_true]
          refine .allocates slot np .allocated rfl status isFree (Or.inl rfl)
            ?_ ?_ ?_ ?_ ?_
          · intro other notNp
            by_cases isSlot : other = slot
            · subst isSlot
              refine Or.inl ?_
              simp [Kernel.setPoint, setProc, notNp, Proc.core, passLock,
                pushOff, popOff]
            · refine Or.inl ?_
              simp [Kernel.setPoint, setProc, notNp, isSlot, passLock,
                pushOff, popOff]
          · simp [Kernel.setPoint, setProc, differs.symm, Proc.core]
          · intro other isSlot
            by_cases isNp : other = np
            · subst isNp
              simp only [Kernel.setPoint, setProc, Function.update_self,
                Function.update_of_ne isSlot]
              exact .refl _
            · simp only [Kernel.setPoint, setProc,
                Function.update_of_ne isSlot, Function.update_of_ne isNp]
              exact .refl _
          · intro c isChild
            simp only [Kernel.setPoint, setProc, Function.update_self,
              Point.child, Option.some.injEq] at isChild
            exact isChild.symm
          · simp [Kernel.setPoint, setProc, Point.adopted]

theorem beginExit
    (status : (k.proc slot).status = .running)
    (xstate : BitVec 32) :
    TableStep k action (k.beginExit slot xstate) := by
  refine .exits slot xstate rfl status ?_ ?_ ?_
  · intro other differs
    refine Or.inl ?_
    simp [Kernel.beginExit, setProc, recordExit, differs]
  · simp [Kernel.beginExit, setProc, Proc.core]
  · intro other
    by_cases isSlot : other = slot
    · subst isSlot
      simp only [Kernel.beginExit, setProc, Function.update_self]
      exact .of_none rfl rfl
    · simp only [Kernel.beginExit, setProc, Function.update_of_ne isSlot]
      exact .refl _

theorem child_woken
    (status : (k.proc slot).status = .running)
    {np : Slot}
    (allocated : (k.proc np).status = .allocated)
    (middle : Kernel)
    {q : Proc}
    (point : Point)
    (stored : middle.proc = Function.update k.proc np q) :
    ((middle.setPoint slot point).proc np = q) ∧
      ((middle.setPoint slot point).proc slot =
        { k.proc slot with point := point }) ∧
      (∀ other, other ≠ np →
        (k.proc other).Woken ((middle.setPoint slot point).proc other)) ∧
      ∀ other, other ≠ slot → other ≠ np →
        (middle.setPoint slot point).proc other = k.proc other := by
  have differs : slot ≠ np := by
    rintro rfl
    rw [status] at allocated
    cases allocated
  refine ⟨?_, ?_, ?_, ?_⟩
  · simp [Kernel.setPoint, setProc, stored, differs.symm]
  · simp [Kernel.setPoint, setProc, stored, differs]
  · intro other notNp
    by_cases isSlot : other = slot
    · subst isSlot
      exact Or.inl (by simp [Kernel.setPoint, setProc, stored, notNp,
        Proc.core])
    · exact Or.inl (by simp [Kernel.setPoint, setProc, stored, notNp, isSlot])
  · intro other notSlot notNp
    simp [Kernel.setPoint, setProc, stored, notSlot, notNp]

theorem forkFails
    (status : (k.proc slot).status = .running)
    {np : Slot}
    (allocated : (k.proc np).status = .allocated) :
    TableStep k action ((k.passLock.setStatus np .free).setPoint slot .syscall) := by
  obtain ⟨isQ, self, woken, rest⟩ :=
    child_woken status allocated (k.passLock.setStatus np .free)
      (q := { k.proc np with status := .free }) .syscall rfl
  refine .frees np rfl allocated woken ?_ ?_
  · rw [isQ]
    rfl
  · intro other
    by_cases isSlot : other = slot
    · subst isSlot
      rw [self]
      exact .of_none rfl rfl
    · by_cases isNp : other = np
      · subst isNp
        rw [isQ]
        exact .refl _
      · rw [rest other isSlot isNp]
        exact .refl _

theorem forkParent
    (status : (k.proc slot).status = .running)
    {np : Slot}
    (atParent : (k.proc slot).point = .forkParent np)
    (allocated : (k.proc np).status = .allocated) :
    TableStep k action
      ((k.setProc np { k.proc np with parent := some slot }).setPoint slot
        (.forkCwd np)) := by
  obtain ⟨isQ, self, woken, rest⟩ :=
    child_woken status allocated
      (k.setProc np { k.proc np with parent := some slot })
      (q := { k.proc np with parent := some slot }) (.forkCwd np) rfl
  refine .adopts slot np rfl status allocated (by rw [atParent]; rfl) woken
    ?_ ?_ ?_
  · rw [isQ]
    rfl
  · intro other isSlot
    by_cases isNp : other = np
    · subst isNp
      rw [isQ]
      exact .refl _
    · rw [rest other isSlot isNp]
      exact .refl _
  · rw [self]
    rfl

theorem forkReady
    (status : (k.proc slot).status = .running)
    {np : Slot}
    (atReady : (k.proc slot).point = .forkReady np)
    (allocated : (k.proc np).status = .allocated) :
    TableStep k action
      (((k.passLock.recordForking slot np).setProc np
        { k.proc np with
          status := .ready
          point := .forkret }).setPoint slot .syscall) := by
  obtain ⟨isQ, self, woken, rest⟩ :=
    child_woken status allocated
      ((k.passLock.recordForking slot np).setProc np
        { k.proc np with
          status := .ready
          point := .forkret })
      (q := { k.proc np with
        status := .ready
        point := .forkret }) .syscall rfl
  refine .activates slot np rfl status allocated (by rw [atReady]; rfl)
    (by rw [atReady]; rfl) woken ?_ ?_ ?_ ?_
  · rw [isQ]
    rfl
  · intro other isNp
    by_cases isSlot : other = slot
    · subst isSlot
      rw [self]
      exact .of_none rfl rfl
    · rw [rest other isSlot isNp]
      exact .refl _
  · rw [self]
  · rw [isQ]

theorem forkFills
    (status : (k.proc slot).status = .running)
    {np : Slot}
    (allocated : (k.proc np).status = .allocated)
    {middle : Kernel}
    {q : Proc}
    {point : Point}
    (history : middle.history = k.history)
    (stored : middle.proc = Function.update k.proc np q)
    (core : q.core = (k.proc np).core)
    (qPoint : q.point = (k.proc np).point)
    (same : (k.proc slot).point.SameChild point) :
    TableStep k action (middle.setPoint slot point) := by
  obtain ⟨isQ, self, woken, rest⟩ :=
    child_woken status allocated middle point stored
  refine .quiet ⟨history, ?_, ?_⟩
  · intro other
    by_cases isNp : other = np
    · subst isNp
      rw [isQ]
      exact Or.inl core
    · exact woken other isNp
  · intro other
    by_cases isSlot : other = slot
    · subst isSlot
      rw [self]
      exact same
    · by_cases isNp : other = np
      · subst isNp
        rw [isQ, qPoint]
        exact .refl _
      · rw [rest other isSlot isNp]
        exact .refl _

theorem waitScan
    (scheduled : WellScheduled awake k)
    (running : k.cpu.proc = some slot)
    {copies copied : Bool}
    (atScan : (k.proc slot).point = .waitScan copies)
    (taken : k.waitScan slot copies copied = some after) :
    TableStep k (.advance copied) after := by
  have locks := scheduled.currentLocks running
  rw [atScan] at locks
  have status := scheduled.current_running running (by rw [atScan]; rfl)
  have finished :
      TableStep k (.advance copied) ((k.release (.process slot)).setPoint slot .syscall) := by
    have same :
        (k.proc slot).point.SameChild .syscall := .of_none rfl rfl
    exact .quiet ((Quiet.release k _).trans (.setPoint same))
  unfold Kernel.waitScan at taken
  dsimp only at taken
  split at taken
  · cases taken
  · rename_i son found
    split at taken
    · cases taken
      exact finished
    · cases taken
      obtain ⟨isSon, isZombie, notLocked⟩ :=
        WellScheduled.scanSons_zombie found
      have differs : slot ≠ son := by
        rintro rfl
        rw [status] at isZombie
        cases isZombie
      refine .reaps slot son copies copied rfl rfl running atScan ?_ found
        isZombie isSon differs.symm ?_ ?_ ?_
      · rename_i notLost
        intro copying
        simpa [copying] using notLost
      · intro other notSon
        by_cases isSlot : other = slot
        · subst isSlot
          exact Or.inl (by simp [Kernel.setPoint, setProc, Kernel.release,
            popOff, reap, recordReaping, Proc.core, notSon])
        · exact Or.inl (by simp [Kernel.setPoint, setProc, Kernel.release,
            popOff, reap, recordReaping, notSon, isSlot])
      · simp [Kernel.setPoint, setProc, Kernel.release, popOff, reap,
          recordReaping, Proc.core, differs.symm]
      · intro other
        by_cases isSlot : other = slot
        · subst isSlot
          simp only [Kernel.setPoint, setProc, Function.update_self]
          exact .of_none rfl rfl
        · by_cases isNp : other = son
          · subst isNp
            simp only [Kernel.setPoint, setProc, Kernel.release, popOff, reap,
              Function.update_self, Function.update_of_ne isSlot]
            exact .refl _
          · simp only [Kernel.setPoint, setProc, Kernel.release, popOff, reap,
              recordReaping, Function.update_of_ne isSlot,
              Function.update_of_ne isNp]
            exact .refl _
  · split at taken
    · cases taken
      exact finished
    · obtain ⟨stored, history⟩ := sleep_frame taken
      exact gaveUp history stored (Or.inl status)
        (scheduled.current_live running) (Or.inr rfl) rfl (.of_none rfl rfl)

theorem advance
    (scheduled : WellScheduled awake k)
    (running : k.cpu.proc = some slot)
    {succeeds : Bool}
    (taken : k.advance slot succeeds = some after) :
    TableStep k (.advance succeeds) after := by
  have live := scheduled.current_live running
  have status := scheduled.current_running running
  have child := scheduled.children slot
  cases at_ : (k.proc slot).point with
  | user =>
      simp [Kernel.advance, at_] at taken
  | syscall =>
      simp [Kernel.advance, at_] at taken
  | holding lock rest =>
      simp [Kernel.advance, at_] at taken
  | forkret =>
      simp [Kernel.advance, at_] at taken
  | yielded interrupts rest =>
      simp [Kernel.advance, at_] at taken
  | slept lock rest =>
      simp [Kernel.advance, at_] at taken
  | exited =>
      simp [Kernel.advance, at_] at taken
  | trapReturn =>
      simp only [Kernel.advance, at_] at taken
      split at taken <;> cases taken
      · exact beginExit (status (by rw [at_]; rfl)) _
      · exact .quiet ((Quiet.setPoint (.of_none rfl rfl)).trans
          (.setInterrupts _ true))
  | itrunc ip rest =>
      simp only [Kernel.advance, at_] at taken
      cases taken
      have same : (k.proc slot).point.SameChild rest := by
        rw [at_]
        exact ⟨fun _ is => is, fun _ is => is⟩
      exact .quiet ((Quiet.setInode k ip _).trans (.setPoint same))
  | closeFile f rest =>
      simp only [Kernel.advance, at_] at taken
      cases taken
      have same : (k.proc slot).point.SameChild rest := by
        rw [at_]
        exact ⟨fun _ is => is, fun _ is => is⟩
      exact .quiet ((Quiet.setFile k f _).trans (.setPoint same))
  | forkStack np =>
      simp only [Kernel.advance, at_] at taken
      split at taken <;> cases taken
      · refine .quiet (.setPoint ?_)
        rw [at_]
        exact ⟨fun _ is => is, fun _ is => is⟩
      · exact forkFails (status (by rw [at_]; rfl))
          (child np live (by rw [at_]; rfl)).1
  | forkPagetable np =>
      simp only [Kernel.advance, at_] at taken
      split at taken <;> cases taken
      · refine .quiet (.setPoint ?_)
        rw [at_]
        exact ⟨fun _ is => is, fun _ is => is⟩
      · exact forkFails (status (by rw [at_]; rfl))
          (child np live (by rw [at_]; rfl)).1
  | forkCopy np =>
      simp only [Kernel.advance, at_] at taken
      split at taken <;> cases taken
      · refine .quiet (.setPoint ?_)
        rw [at_]
        exact ⟨fun _ is => is, fun _ is => is⟩
      · exact .quiet (.setPoint (.of_none rfl rfl))
  | forkFile np fd =>
      simp only [Kernel.advance, at_] at taken
      have same :
          ∀ fd, (k.proc slot).point.SameChild (.forkFile np fd) := by
        intro fd
        rw [at_]
        exact ⟨fun _ is => is, fun _ is => is⟩
      split at taken
      · split at taken <;> cases taken
        · exact .quiet (.setPoint (same _))
        · exact forkFills (status (by rw [at_]; rfl))
            (child np live (by rw [at_]; rfl)).1 rfl rfl rfl rfl (same _)
      · cases taken
        refine .quiet (.setPoint ?_)
        rw [at_]
        exact ⟨fun _ is => is, fun _ is => is⟩
  | forkParent np =>
      simp only [Kernel.advance, at_] at taken
      cases taken
      exact forkParent (status (by rw [at_]; rfl)) at_
        (child np live (by rw [at_]; rfl)).1
  | forkCwd np =>
      simp only [Kernel.advance, at_] at taken
      have same : (k.proc slot).point.SameChild (.forkReady np) := by
        rw [at_]
        exact ⟨fun _ is => is, fun _ is => is⟩
      split at taken <;> cases taken
      · exact .quiet (.setPoint same)
      · exact forkFills (status (by rw [at_]; rfl))
          (child np live (by rw [at_]; rfl)).1 rfl rfl rfl rfl same
  | forkReady np =>
      simp only [Kernel.advance, at_] at taken
      cases taken
      exact forkReady (status (by rw [at_]; rfl)) at_
        (child np live (by rw [at_]; rfl)).1
  | waitScan copies =>
      simp only [Kernel.advance, at_] at taken
      exact waitScan scheduled running at_ taken
  | exitFile fd =>
      simp only [Kernel.advance, at_] at taken
      split at taken
      · split at taken
        · cases taken
          exact .quiet (.setPoint (.of_none rfl rfl))
        · exact .quiet (.fileclose (.of_none rfl rfl) taken)
      · cases taken
        exact .quiet (.setPoint (.of_none rfl rfl))
  | exitClear fd =>
      simp only [Kernel.advance, at_] at taken
      cases taken
      exact .quiet ((Quiet.setDescriptor k slot fd none).trans
        (.setPoint (.of_none rfl rfl)))
  | exitCwd =>
      simp only [Kernel.advance, at_] at taken
      split at taken <;> cases taken
      · exact .quiet (.setPoint (.of_none rfl rfl))
      · exact .quiet (.iput _ (.of_none rfl rfl))
  | exitCwdClear =>
      simp only [Kernel.advance, at_] at taken
      cases taken
      exact .quiet ((Quiet.setCwd k slot none).trans
        (.setPoint (.of_none rfl rfl)))
  | exitWakeup =>
      simp only [Kernel.advance, at_] at taken
      cases taken
      exact .quiet ((Quiet.wakeup _ _).trans (.setPoint (.of_none rfl rfl)))
  | exitSched =>
      simp only [Kernel.advance, at_] at taken
      obtain ⟨next, isNext, rfl⟩ := Option.map_eq_some_iff.mp taken
      obtain ⟨proc, history⟩ := Quiet.acquire isNext
      obtain ⟨stored, kept⟩ := schedAs_frame next slot
        { next.proc slot with point := .exited }
      have moved :
          ∀ final : Kernel,
            final.proc = Function.update k.proc slot
              { k.proc slot with point := .exited } →
            final.history = k.history → TableStep k (.advance succeeds) final := by
        intro final isFinal kept
        refine .quiet (.moves slot kept ?_ ?_ ?_)
        · intro other differs
          rw [isFinal, Function.update_of_ne differs]
        · rw [isFinal, Function.update_self]
          rfl
        · rw [isFinal, Function.update_self]
          exact .of_none rfl rfl
      rw [proc] at stored
      refine moved _ ?_ (kept.trans history)
      rw [proc]
      exact stored

theorem call
    (scheduled : WellScheduled awake k)
    (running : k.cpu.proc = some slot)
    (inSyscall : (k.proc slot).point = .syscall)
    {systemCall : SystemCall}
    (called : k.call slot systemCall = some after) :
    TableStep k action after := by
  have stays : (k.proc slot).point.SameChild .syscall := .of_none rfl rfl
  cases systemCall with
  | yield =>
      obtain ⟨stored, history⟩ := yield_frame called
      refine gaveUp history stored (Or.inl ?_)
        (scheduled.current_live running) (Or.inl rfl) rfl (.of_none rfl rfl)
      exact scheduled.current_running running (by rw [inSyscall]; rfl)
  | openFile contents =>
      simp only [Kernel.call] at called
      split at called
      · cases called
        exact .quiet ((Quiet.setFile k _ _).trans
          (.setDescriptor _ slot _ _))
      · cases called
  | dup fd newfd =>
      simp only [Kernel.call] at called
      split at called
      · split at called
        · cases called
          exact .quiet ((Quiet.setDescriptor k slot newfd _).trans
            (.setFile _ _ _))
        · cases called
      · cases called
  | close fd =>
      simp only [Kernel.call] at called
      split at called
      · exact .quiet ((Quiet.setDescriptor k slot fd none).trans
          (.fileclose (.of_none rfl rfl) called))
      · cases called
  | fileclose f =>
      exact .quiet (.fileclose stays called)
  | openPipe pipe =>
      cases called
      exact .quiet (.sameTable rfl rfl)
  | iget ip =>
      simp only [Kernel.call] at called
      split at called <;> cases called
      · exact .quiet (.sameTable rfl rfl)
      · exact .quiet (.sameTable rfl rfl)
  | idup ip =>
      cases called
      exact .quiet (.sameTable rfl rfl)
  | ilock ip nlink =>
      simp only [Kernel.call] at called
      split at called
      · cases called
      · cases called
        exact .quiet (.sameTable rfl rfl)
  | setLinks ip nlink =>
      cases called
      exact .quiet (.sameTable rfl rfl)
  | iput ip =>
      cases called
      exact .quiet (.iput ip stays)
  | setCwd ip =>
      cases called
      exact .quiet (.setProc rfl rfl)

theorem of_step
    (scheduled : WellScheduled awake k)
    (taken : Step k action after) :
    TableStep k action after := by
  unfold Step step? at taken
  split at taken
  · cases taken
  cases action with
  | schedule =>
      dsimp only at taken
      split at taken
      · exact schedule scheduled taken
      · cases taken
  | timer =>
      exact timer scheduled taken
  | deviceInterrupt chan =>
      exact handle _ (fun k => .wakeup k _) taken
  | interruptKey =>
      exact handle Kernel.interruptKey
        (fun k => (Quiet.interruptProcs k).trans (.wakeup _ _)) taken
  | ecall =>
      obtain ⟨slot, running, taken⟩ := Option.bind_eq_some_iff.mp taken
      split at taken <;> cases taken
      exact .quiet (.setPoint (.of_none rfl rfl))
  | fork page =>
      obtain ⟨slot, running, taken⟩ := Option.bind_eq_some_iff.mp taken
      dsimp only at taken
      split at taken <;> cases taken
      rename_i inSyscall
      exact fork (scheduled.current_running running
        (by rw [inSyscall]; rfl)) inSyscall page
  | exit status =>
      obtain ⟨slot, running, taken⟩ := Option.bind_eq_some_iff.mp taken
      dsimp only at taken
      split at taken <;> cases taken
      rename_i inSyscall
      exact beginExit (scheduled.current_running running
        (by rw [inSyscall]; rfl)) status
  | wait copies =>
      obtain ⟨slot, running, taken⟩ := Option.bind_eq_some_iff.mp taken
      dsimp only at taken
      split at taken
      · obtain ⟨next, isNext, rfl⟩ := Option.map_eq_some_iff.mp taken
        obtain ⟨proc, history⟩ := Quiet.acquire isNext
        exact .quiet ((Quiet.sameTable history proc).trans
          (.setPoint (.of_none rfl rfl)))
      · cases taken
  | advance succeeds =>
      obtain ⟨slot, running, taken⟩ := Option.bind_eq_some_iff.mp taken
      exact advance scheduled running taken
  | call systemCall =>
      obtain ⟨slot, running, taken⟩ := Option.bind_eq_some_iff.mp taken
      dsimp only at taken
      split at taken
      · rename_i inSyscall
        exact call scheduled running inSyscall taken
      · cases taken
  | sysReturn =>
      obtain ⟨slot, running, taken⟩ := Option.bind_eq_some_iff.mp taken
      dsimp only at taken
      split at taken <;> cases taken
      exact .quiet (.setPoint (.of_none rfl rfl))
  | lock lock =>
      obtain ⟨slot, running, taken⟩ := Option.bind_eq_some_iff.mp taken
      split at taken
      · obtain ⟨next, isNext, rfl⟩ := Option.map_eq_some_iff.mp taken
        obtain ⟨proc, history⟩ := Quiet.acquire isNext
        refine .quiet ((Quiet.sameTable history proc).trans (.setPoint ?_))
        rw [proc]
        exact ⟨fun _ is => is, fun _ is => is⟩
      · cases taken
  | sleep chan =>
      obtain ⟨slot, running, taken⟩ := Option.bind_eq_some_iff.mp taken
      dsimp only at taken
      split at taken
      · rename_i lock rest isHolding
        obtain ⟨stored, history⟩ := sleep_frame taken
        have active := (scheduled.current running).2
        rw [isHolding] at active
        refine gaveUp history stored ?_ (scheduled.current_live running)
          (Or.inr rfl) rfl ?_
        · rcases syscall_or_truncating_of_mayLock active.1 with
            isSyscall | truncating
          · refine Or.inl (scheduled.current_running running ?_)
            rw [isHolding, isSyscall]
            rfl
          · refine Or.inr ?_
            rw [isHolding]
            exact truncating
        · rw [isHolding]
          exact ⟨fun _ is => is, fun _ is => is⟩
      · cases taken
  | wake chan =>
      obtain ⟨slot, running, taken⟩ := Option.bind_eq_some_iff.mp taken
      dsimp only at taken
      split at taken <;> cases taken
      exact .quiet (.wakeup _ _)
  | unlock =>
      obtain ⟨slot, running, taken⟩ := Option.bind_eq_some_iff.mp taken
      dsimp only at taken
      split at taken <;> cases taken
      rename_i lock rest isHolding
      refine .quiet ((Quiet.release k lock).trans (.setPoint ?_))
      change (k.proc slot).point.SameChild rest
      rw [isHolding]
      exact ⟨fun _ is => is, fun _ is => is⟩

end TableStep

end Kernel

end MyOS
