import MyOS.ProcExit

namespace MyOS

/-!
# Parents and slot reuse

Parent pointers name slots.  They keep naming the process that forked as long
as `wait` does not free a slot that some process still has as its parent;
nothing gives the children of a reaped process another parent.
-/

theorem Point.child_of_adopted
    {point : Point}
    {np : Slot}
    (isAdopted : point.adopted = some np) :
    point.child = some np := by
  induction point with
  | forkCwd _ =>
      exact isAdopted
  | forkReady _ =>
      exact isAdopted
  | holding _ _ inductionHypothesis =>
      exact inductionHypothesis isAdopted
  | itrunc _ _ inductionHypothesis =>
      exact inductionHypothesis isAdopted
  | closeFile _ _ inductionHypothesis =>
      exact inductionHypothesis isAdopted
  | yielded _ _ inductionHypothesis =>
      exact inductionHypothesis isAdopted
  | slept _ _ inductionHypothesis =>
      exact inductionHypothesis isAdopted
  | _ =>
      cases isAdopted

namespace Kernel

/-- `wait` frees a zombie's slot that is some process's parent. -/
def freesParent (k : Kernel) : KernelAction → Bool
  | .advance succeeds =>
      k.cpu.proc.any fun slot =>
        match (k.proc slot).point, k.findSon slot with
        | .waitScan copies, .zombie son =>
            (!copies || succeeds) &&
              (List.finRange NPROC).any fun child =>
                decide ((k.proc child).status ≠ .free ∧
                  (k.proc child).parent = some son)
        | _, _ => false
  | _ => false

/--
`wait` frees the slot of a zombie only when no process has that slot as its
parent.
-/
def ReapsChildless (k : Kernel) (action : KernelAction) : Prop :=
  k.freesParent action = false

instance (k : Kernel) (action : KernelAction) :
    Decidable (ReapsChildless k action) :=
  inferInstanceAs (Decidable (_ = false))

/--
Every process that `fork` has made has as its parent pointer the slot of the
very process that forked it, and `wait` has returned only children of its
callers, each at most once, with their pids and exit states.
-/
structure ParenthoodKept (k : Kernel) : Prop where
  parent :
    ∀ slot, (k.proc slot).status ≠ .free →
      (k.proc slot).parent = none ∧
          ((k.proc slot).status = .allocated ∨
            (k.proc slot).forker = none) ∨
        ∃ forker,
          (k.proc slot).parent = some forker ∧
            (k.proc forker).live ∧
            (k.proc slot).forker = some (k.proc forker).birth
  distinct :
    ∀ slot other, (k.proc slot).status ≠ .free →
      (k.proc other).status ≠ .free →
        (k.proc slot).birth = (k.proc other).birth → slot = other
  reaped :
    ∀ reaping ∈ k.reaped,
      ⟨reaping.caller, reaping.child, reaping.pid⟩ ∈ k.forked ∧
        (reaping.child, reaping.xstate) ∈ k.exits
  once : (k.reaped.map (·.child)).Nodup

/-- The invariant behind `ParenthoodKept`. -/
structure Parented (k : Kernel) : Prop extends ParenthoodKept k where
  child :
    ∀ slot np, (k.proc slot).live → (k.proc slot).point.child = some np →
      (k.proc np).forker = some (k.proc slot).birth
  adopted :
    ∀ slot np, (k.proc slot).live → (k.proc slot).point.adopted = some np →
      (k.proc np).parent = some slot
  born :
    ∀ slot, (k.proc slot).status ≠ .free → (k.proc slot).birth < k.births
  recorded :
    ∀ slot forker, (k.proc slot).live →
      (k.proc slot).forker = some forker →
        ⟨forker, (k.proc slot).birth, (k.proc slot).pid⟩ ∈ k.forked
  exited :
    ∀ slot, (k.proc slot).status = .zombie →
      ((k.proc slot).birth, (k.proc slot).xstate) ∈ k.exits
  gone :
    ∀ reaping ∈ k.reaped,
      reaping.child < k.births ∧
        ∀ slot, (k.proc slot).status ≠ .free →
          (k.proc slot).birth ≠ reaping.child

/-- The fields that identify a process and its parent are kept. -/
structure Kept (before after : Proc) : Prop where
  pid : after.pid = before.pid
  parent : after.parent = before.parent
  birth : after.birth = before.birth
  forker : after.forker = before.forker
  free : after.status = .free ↔ before.status = .free
  allocated : after.status = .allocated ↔ before.status = .allocated

namespace Kept

variable {before after : Proc}

theorem live_iff (kept : Kept before after) : after.live ↔ before.live := by
  simp only [Proc.live, ne_eq, kept.free, kept.allocated]

theorem of_core
    {status : TaskStatus}
    (core : after.core = { before.core with status := status })
    (live : before.live)
    (stays : status ≠ .free ∧ status ≠ .allocated) :
    Kept before after := by
  have isStatus : after.status = status := congrArg (·.status) core
  exact {
    pid := congrArg (·.pid) core
    parent := congrArg (·.parent) core
    birth := congrArg (·.birth) core
    forker := congrArg (·.forker) core
    free := by simp [isStatus, stays.1, live.1]
    allocated := by simp [isStatus, stays.2, live.2]
  }

theorem of_woken
    (woken : before.Woken after) :
    Kept before after := by
  rcases woken with same | ⟨sleeping, is⟩
  · have status : after.status = before.status := congrArg (·.status) same
    exact {
      pid := congrArg (·.pid) same
      parent := congrArg (·.parent) same
      birth := congrArg (·.birth) same
      forker := congrArg (·.forker) same
      free := by rw [status]
      allocated := by rw [status]
    }
  · exact of_core is (by simp [Proc.live, sleeping]) (by simp)

end Kept

theorem zombie_of_woken
    {before after : Proc}
    (woken : before.Woken after)
    (isZombie : after.status = .zombie) :
    before.status = .zombie ∧ after.xstate = before.xstate := by
  rcases woken with same | ⟨_, is⟩
  · have status : after.status = before.status := congrArg (·.status) same
    exact ⟨status.symm.trans isZombie, congrArg (·.xstate) same⟩
  · have status : after.status = .ready := congrArg (·.status) is
    rw [isZombie] at status
    cases status

namespace Parented

variable {k after : Kernel}

theorem rebuild
    (parented : Parented k)
    (np : Slot)
    (others :
      ∀ slot, slot ≠ np → Kept (k.proc slot) (after.proc slot))
    (notParent :
      ∀ slot, (k.proc slot).status ≠ .free →
        (k.proc slot).parent = some np →
          (after.proc np).live ∧
            (after.proc np).birth = (k.proc np).birth)
    (npParent :
      (after.proc np).status ≠ .free →
        (after.proc np).parent = none ∧
            ((after.proc np).status = .allocated ∨
              (after.proc np).forker = none) ∨
          ∃ forker,
            (after.proc np).parent = some forker ∧
              (after.proc forker).live ∧
              (after.proc np).forker = some (after.proc forker).birth)
    (npDistinct :
      ∀ other, other ≠ np → (after.proc np).status ≠ .free →
        (k.proc other).status ≠ .free →
          (after.proc np).birth ≠ (k.proc other).birth)
    (npBorn :
      (after.proc np).status ≠ .free → (after.proc np).birth < after.births)
    (npRecorded :
      ∀ forker, (after.proc np).live →
        (after.proc np).forker = some forker →
          ⟨forker, (after.proc np).birth, (after.proc np).pid⟩ ∈
            after.forked)
    (exited :
      ∀ slot, (after.proc slot).status = .zombie →
        ((after.proc slot).birth, (after.proc slot).xstate) ∈ after.exits)
    (births : k.births ≤ after.births)
    (forked : ∀ entry ∈ k.forked, entry ∈ after.forked)
    (child :
      ∀ slot c, (after.proc slot).live →
        (after.proc slot).point.child = some c →
          (after.proc c).forker = some (after.proc slot).birth)
    (adopted :
      ∀ slot c, (after.proc slot).live →
        (after.proc slot).point.adopted = some c →
          (after.proc c).parent = some slot)
    (reaped :
      ∀ reaping ∈ after.reaped,
        ⟨reaping.caller, reaping.child, reaping.pid⟩ ∈ after.forked ∧
          (reaping.child, reaping.xstate) ∈ after.exits)
    (once : (after.reaped.map (·.child)).Nodup)
    (gone :
      ∀ reaping ∈ after.reaped,
        reaping.child < after.births ∧
          ∀ slot, (after.proc slot).status ≠ .free →
            (after.proc slot).birth ≠ reaping.child) :
    Parented after where
  parent := by
    intro slot notFree
    by_cases isNp : slot = np
    · subst isNp
      exact npParent notFree
    · have kept := others slot isNp
      have wasNotFree : (k.proc slot).status ≠ .free :=
        fun free => notFree (kept.free.mpr free)
      rcases parented.parent slot wasNotFree with
        ⟨noParent, whyNot⟩ | ⟨forker, isParent, live, isForker⟩
      · refine Or.inl ⟨kept.parent.trans noParent, ?_⟩
        rw [kept.allocated, kept.forker]
        exact whyNot
      · refine Or.inr ⟨forker, kept.parent.trans isParent, ?_⟩
        rw [kept.forker, isForker]
        by_cases forkerNp : forker = np
        · subst forkerNp
          obtain ⟨stillLive, sameBirth⟩ :=
            notParent slot wasNotFree isParent
          exact ⟨stillLive, by rw [sameBirth]⟩
        · have forkerKept := others forker forkerNp
          exact ⟨forkerKept.live_iff.mpr live, by rw [forkerKept.birth]⟩
  distinct := by
    intro slot other notFree otherNotFree same
    by_cases isNp : slot = np
    · subst isNp
      by_contra differs
      have kept := others other (Ne.symm differs)
      rw [kept.birth] at same
      exact npDistinct other (Ne.symm differs) notFree
        (fun free => otherNotFree (kept.free.mpr free)) same
    · have kept := others slot isNp
      have wasNotFree : (k.proc slot).status ≠ .free :=
        fun free => notFree (kept.free.mpr free)
      rw [kept.birth] at same
      by_cases otherNp : other = np
      · subst otherNp
        exact (npDistinct slot isNp otherNotFree wasNotFree same.symm).elim
      · have otherKept := others other otherNp
        rw [otherKept.birth] at same
        exact parented.distinct slot other wasNotFree
          (fun free => otherNotFree (otherKept.free.mpr free)) same
  reaped := reaped
  once := once
  child := child
  adopted := adopted
  born := by
    intro slot notFree
    by_cases isNp : slot = np
    · subst isNp
      exact npBorn notFree
    · have kept := others slot isNp
      rw [kept.birth]
      exact Nat.lt_of_lt_of_le
        (parented.born slot fun free => notFree (kept.free.mpr free)) births
  recorded := by
    intro slot forker live isForker
    by_cases isNp : slot = np
    · subst isNp
      exact npRecorded forker live isForker
    · have kept := others slot isNp
      rw [kept.forker] at isForker
      rw [kept.birth, kept.pid]
      exact forked _
        (parented.recorded slot forker (kept.live_iff.mp live) isForker)
  exited := exited
  gone := gone

theorem sameHistory
    {history : KernelHistory}
    (isHistory : after.history = history) :
    after.births = history.births ∧ after.forked = history.forked ∧
      after.exits = history.exits ∧ after.reaped = history.reaped :=
  ⟨congrArg (·.births) isHistory, congrArg (·.forked) isHistory,
    congrArg (·.exits) isHistory, congrArg (·.reaped) isHistory⟩

theorem kept
    (parented : Parented k)
    (all : ∀ slot, Kept (k.proc slot) (after.proc slot))
    (points :
      ∀ slot, (k.proc slot).point.SameChild (after.proc slot).point)
    (exited :
      ∀ slot, (after.proc slot).status = .zombie →
        ((after.proc slot).birth, (after.proc slot).xstate) ∈ after.exits)
    (births : after.births = k.births)
    (forked : after.forked = k.forked)
    (exits : ∀ entry ∈ k.exits, entry ∈ after.exits)
    (reaped : after.reaped = k.reaped) :
    Parented after := by
  have notFree :
      ∀ slot, (after.proc slot).status ≠ .free →
        (k.proc slot).status ≠ .free :=
    fun slot is was => is ((all slot).free.mpr was)
  have live := fun slot => (all slot).live_iff
  -- Every slot is kept, so any one may play the part of the changed slot.
  refine parented.rebuild 0 (fun slot _ => all slot) ?_ ?_ ?_ ?_ ?_ exited
    (by rw [births]) (by rw [forked]; exact fun _ is => is) ?_ ?_ ?_ ?_ ?_
  · intro slot wasNotFree isParent
    have whichParent := parented.parent slot wasNotFree
    rw [isParent] at whichParent
    rcases whichParent with ⟨impossible, _⟩ | ⟨forker, same, isLive, _⟩
    · cases impossible
    · cases same
      exact ⟨(live _).mpr isLive, (all _).birth⟩
  · intro is
    rw [(all 0).parent, (all 0).allocated, (all 0).forker]
    rcases parented.parent 0 (notFree 0 is) with
      without | ⟨forker, isParent, isLive, isForker⟩
    · exact Or.inl without
    · refine Or.inr ⟨forker, isParent, (live _).mpr isLive, ?_⟩
      rw [isForker, (all forker).birth]
  · intro other differs is otherIs same
    rw [(all 0).birth] at same
    exact differs (parented.distinct 0 other (notFree 0 is) otherIs
      same).symm
  · intro is
    rw [(all 0).birth, births]
    exact parented.born 0 (notFree 0 is)
  · intro forker isLive isForker
    rw [(all 0).forker] at isForker
    rw [(all 0).birth, (all 0).pid, forked]
    exact parented.recorded 0 forker ((live 0).mp isLive) isForker
  · intro slot c isLive isChild
    rw [(all c).forker, (all slot).birth]
    exact parented.child slot c ((live slot).mp isLive)
      ((points slot).child c isChild)
  · intro slot c isLive isAdopted
    rw [(all c).parent]
    exact parented.adopted slot c ((live slot).mp isLive)
      ((points slot).adopted c isAdopted)
  · rw [reaped, forked]
    intro reaping member
    obtain ⟨wasForked, hasExited⟩ := parented.reaped reaping member
    exact ⟨wasForked, exits _ hasExited⟩
  · rw [reaped]
    exact parented.once
  · rw [reaped, births]
    intro reaping member
    obtain ⟨below, notHere⟩ := parented.gone reaping member
    refine ⟨below, ?_⟩
    intro slot is
    rw [(all slot).birth]
    exact notHere slot (notFree slot is)

theorem quiet
    (parented : Parented k)
    (quiet : Quiet k after) :
    Parented after := by
  obtain ⟨births, forked, exits, reaped⟩ := sameHistory quiet.history
  refine parented.kept (fun slot => .of_woken (quiet.woken slot))
    quiet.points ?_ births forked (by rw [exits]; exact fun _ is => is) reaped
  intro slot isZombie
  obtain ⟨wasZombie, sameState⟩ :=
    zombie_of_woken (quiet.woken slot) isZombie
  rw [(Kept.of_woken (quiet.woken slot)).birth, sameState, exits]
  exact parented.exited slot wasZombie

theorem switches
    (parented : Parented k)
    {slot : Slot}
    {status : TaskStatus}
    (history : after.history = k.history)
    (live : (k.proc slot).live)
    (is : status = .ready ∨ status = .sleeping ∨ status = .running)
    (others :
      ∀ other, other ≠ slot → (k.proc other).Woken (after.proc other))
    (self :
      (after.proc slot).core = { (k.proc slot).core with status := status })
    (points :
      ∀ other, (k.proc other).point.SameChild (after.proc other).point) :
    Parented after := by
  obtain ⟨births, forked, exits, reaped⟩ := sameHistory history
  have all : ∀ other, Kept (k.proc other) (after.proc other) := by
    intro other
    by_cases isSlot : other = slot
    · subst isSlot
      refine .of_core self live ?_
      rcases is with rfl | rfl | rfl <;> simp
    · exact .of_woken (others other isSlot)
  refine parented.kept all points ?_ births forked
    (by rw [exits]; exact fun _ is => is) reaped
  intro other isZombie
  by_cases isSlot : other = slot
  · subst isSlot
    have isStatus : (after.proc other).status = status :=
      congrArg (·.status) self
    rw [isZombie] at isStatus
    rcases is with rfl | rfl | rfl <;> cases isStatus
  · obtain ⟨wasZombie, sameState⟩ :=
      zombie_of_woken (others other isSlot) isZombie
    rw [(all other).birth, sameState, exits]
    exact parented.exited other wasZombie

theorem exits
    (parented : Parented k)
    {slot : Slot}
    {xstate : BitVec 32}
    (history :
      after.history =
        { k.history with
          exits := k.exits ++ [((k.proc slot).birth, xstate)] })
    (was : (k.proc slot).status = .running)
    (others :
      ∀ other, other ≠ slot → (k.proc other).Woken (after.proc other))
    (self :
      (after.proc slot).core =
        { (k.proc slot).core with
          status := .zombie
          xstate := xstate })
    (points :
      ∀ other, (k.proc other).point.SameChild (after.proc other).point) :
    Parented after := by
  obtain ⟨births, forked, exits, reaped⟩ := sameHistory history
  have all : ∀ other, Kept (k.proc other) (after.proc other) := by
    intro other
    by_cases isSlot : other = slot
    · subst isSlot
      have status : (after.proc other).status = .zombie :=
        congrArg (·.status) self
      exact {
        pid := congrArg (·.pid) self
        parent := congrArg (·.parent) self
        birth := congrArg (·.birth) self
        forker := congrArg (·.forker) self
        free := by simp [status, was]
        allocated := by simp [status, was]
      }
    · exact .of_woken (others other isSlot)
  refine parented.kept all points ?_ births forked ?_ reaped
  · intro other isZombie
    rw [(all other).birth, exits]
    by_cases isSlot : other = slot
    · subst isSlot
      have state : (after.proc other).xstate = xstate :=
        congrArg (·.xstate) self
      rw [state]
      exact List.mem_append_right _ List.mem_cons_self
    · obtain ⟨wasZombie, sameState⟩ :=
        zombie_of_woken (others other isSlot) isZombie
      rw [sameState]
      exact List.mem_append_left _ (parented.exited other wasZombie)
  · rw [exits]
    exact fun entry member => List.mem_append_left _ member

theorem parent_live
    (parented : Parented k)
    {slot parent : Slot}
    (notFree : (k.proc slot).status ≠ .free)
    (isParent : (k.proc slot).parent = some parent) :
    (k.proc parent).live := by
  have whichParent := parented.parent slot notFree
  rw [isParent] at whichParent
  rcases whichParent with ⟨impossible, _⟩ | ⟨forker, same, isLive, _⟩
  · cases impossible
  · cases same
    exact isLive

theorem sameReaped
    (parented : Parented k)
    (reaped : after.reaped = k.reaped)
    (forked : ∀ entry ∈ k.forked, entry ∈ after.forked)
    (exits : after.exits = k.exits) :
    (∀ reaping ∈ after.reaped,
      ⟨reaping.caller, reaping.child, reaping.pid⟩ ∈ after.forked ∧
        (reaping.child, reaping.xstate) ∈ after.exits) ∧
      (after.reaped.map (·.child)).Nodup := by
  rw [reaped, exits]
  refine ⟨?_, parented.once⟩
  intro reaping member
  obtain ⟨wasForked, hasExited⟩ := parented.reaped reaping member
  exact ⟨forked _ wasForked, hasExited⟩

theorem sameExited
    (parented : Parented k)
    {np : Slot}
    (others :
      ∀ other, other ≠ np → (k.proc other).Woken (after.proc other))
    (notZombie : (after.proc np).status ≠ .zombie)
    (exits : after.exits = k.exits)
    (slot : Slot)
    (isZombie : (after.proc slot).status = .zombie) :
    ((after.proc slot).birth, (after.proc slot).xstate) ∈ after.exits := by
  have differs : slot ≠ np := by
    rintro rfl
    exact notZombie isZombie
  obtain ⟨wasZombie, sameState⟩ :=
    zombie_of_woken (others slot differs) isZombie
  rw [(Kept.of_woken (others slot differs)).birth, sameState, exits]
  exact parented.exited slot wasZombie

theorem allocates
    {awake : Prop}
    (parented : Parented k)
    (scheduled : WellScheduled awake k)
    {slot np : Slot}
    {status : TaskStatus}
    (history : after.history = { k.history with births := k.births + 1 })
    (current : (k.proc slot).status = .running)
    (wasFree : (k.proc np).status = .free)
    (is : status = .allocated ∨ status = .free)
    (others :
      ∀ other, other ≠ np → (k.proc other).Woken (after.proc other))
    (new :
      (after.proc np).core = {
        status := status
        pid := k.nextPid
        parent := none
        xstate := 0
        birth := k.births
        forker := some (k.proc slot).birth })
    (points :
      ∀ other, other ≠ slot →
        (k.proc other).point.SameChild (after.proc other).point)
    (point : ∀ c, (after.proc slot).point.child = some c → c = np)
    (notAdopted : (after.proc slot).point.adopted = none) :
    Parented after := by
  obtain ⟨births, forked, exits, reaped⟩ := sameHistory history
  have kept := fun other differs => Kept.of_woken (others other differs)
  have isStatus : (after.proc np).status = status :=
    congrArg (·.status) new
  have isBirth : (after.proc np).birth = k.births := congrArg (·.birth) new
  have notLive : ¬ (after.proc np).live := by
    rcases is with rfl | rfl <;> simp [Proc.live, isStatus]
  have differs : slot ≠ np := by
    rintro rfl
    rw [current] at wasFree
    cases wasFree
  have notChild :
      ∀ other, (k.proc other).live → ∀ c,
        (k.proc other).point.child = some c → c ≠ np := by
    rintro other live c isChild rfl
    have allocated := (scheduled.children other c live isChild).1
    rw [wasFree] at allocated
    cases allocated
  obtain ⟨sameReaped, once⟩ := parented.sameReaped reaped
    (by rw [forked]; exact fun _ is => is) exits
  refine parented.rebuild np kept ?_ ?_ ?_ ?_ ?_
    (parented.sameExited others ?_ exits)
    (by rw [births]; exact Nat.le_succ _)
    (by rw [forked]; exact fun _ is => is) ?_ ?_ sameReaped once ?_
  · intro other notFree isParent
    have live := parented.parent_live notFree isParent
    exact (live.1 wasFree).elim
  · intro notFree
    refine Or.inl ⟨congrArg (·.parent) new, Or.inl ?_⟩
    rw [isStatus] at notFree ⊢
    exact is.resolve_right notFree
  · intro other _ _ otherIs same
    rw [isBirth] at same
    exact Nat.lt_irrefl _ (same ▸ parented.born other otherIs)
  · intro _
    rw [isBirth, births]
    exact Nat.lt_succ_self _
  · exact fun _ live _ => (notLive live).elim
  · rw [isStatus]
    rcases is with rfl | rfl <;> simp
  · intro other c live isChild
    by_cases isSlot : other = slot
    · subst isSlot
      rw [point c isChild, (kept other differs).birth]
      exact congrArg (·.forker) new
    · have notNp : other ≠ np := by
        rintro rfl
        exact notLive live
      have wasLive := (kept other notNp).live_iff.mp live
      have wasChild := (points other isSlot).child c isChild
      rw [(kept c (notChild other wasLive c wasChild)).forker,
        (kept other notNp).birth]
      exact parented.child other c wasLive wasChild
  · intro other c live isAdopted
    by_cases isSlot : other = slot
    · subst isSlot
      rw [notAdopted] at isAdopted
      cases isAdopted
    · have notNp : other ≠ np := by
        rintro rfl
        exact notLive live
      have wasLive := (kept other notNp).live_iff.mp live
      have wasAdopted := (points other isSlot).adopted c isAdopted
      have wasChild := Point.child_of_adopted wasAdopted
      rw [(kept c (notChild other wasLive c wasChild)).parent]
      exact parented.adopted other c wasLive wasAdopted
  · rw [reaped, births]
    intro reaping member
    obtain ⟨below, notHere⟩ := parented.gone reaping member
    refine ⟨Nat.lt_succ_of_lt below, ?_⟩
    intro other notFree
    by_cases isNp : other = np
    · subst isNp
      rw [isBirth]
      exact Nat.ne_of_gt below
    · rw [(kept other isNp).birth]
      exact notHere other
        (fun free => notFree ((kept other isNp).free.mpr free))

theorem changesChild
    (parented : Parented k)
    {np : Slot}
    (was : (k.proc np).status = .allocated)
    (others :
      ∀ other, other ≠ np → (k.proc other).Woken (after.proc other))
    (birth : (after.proc np).birth = (k.proc np).birth)
    (forker : (after.proc np).forker = (k.proc np).forker)
    (notZombie : (after.proc np).status ≠ .zombie)
    (npParent :
      (after.proc np).status ≠ .free →
        (after.proc np).parent = none ∧
            ((after.proc np).status = .allocated ∨
              (after.proc np).forker = none) ∨
          ∃ forker,
            (after.proc np).parent = some forker ∧
              (after.proc forker).live ∧
              (after.proc np).forker = some (after.proc forker).birth)
    (npRecorded :
      ∀ forker, (after.proc np).live →
        (after.proc np).forker = some forker →
          ⟨forker, (after.proc np).birth, (after.proc np).pid⟩ ∈
            after.forked)
    (births : after.births = k.births)
    (forked : ∀ entry ∈ k.forked, entry ∈ after.forked)
    (exits : after.exits = k.exits)
    (reaped : after.reaped = k.reaped)
    (child :
      ∀ slot c, (after.proc slot).live →
        (after.proc slot).point.child = some c →
          (k.proc slot).live ∧ (k.proc slot).point.child = some c)
    (adopted :
      ∀ slot c, (after.proc slot).live →
        (after.proc slot).point.adopted = some c →
          (after.proc c).parent = some slot) :
    Parented after := by
  have kept := fun other differs => Kept.of_woken (others other differs)
  have sameBirth :
      ∀ slot, (after.proc slot).birth = (k.proc slot).birth := by
    intro slot
    by_cases isNp : slot = np
    · subst isNp
      exact birth
    · exact (kept slot isNp).birth
  have sameForker :
      ∀ slot, (after.proc slot).forker = (k.proc slot).forker := by
    intro slot
    by_cases isNp : slot = np
    · subst isNp
      exact forker
    · exact (kept slot isNp).forker
  have notFree :
      ∀ slot, (after.proc slot).status ≠ .free →
        (k.proc slot).status ≠ .free := by
    intro slot is
    by_cases isNp : slot = np
    · subst isNp
      rw [was]
      rintro ⟨⟩
    · exact fun free => is ((kept slot isNp).free.mpr free)
  obtain ⟨sameReaped, once⟩ := parented.sameReaped reaped forked exits
  refine parented.rebuild np kept ?_ npParent ?_ ?_ npRecorded
    (parented.sameExited others notZombie exits) (by rw [births]) forked ?_
    adopted sameReaped once ?_
  · intro other isNot isParent
    have live := parented.parent_live isNot isParent
    exact (live.2 was).elim
  · intro other differs _ otherIs same
    rw [birth] at same
    exact differs (parented.distinct np other (by rw [was]; rintro ⟨⟩)
      otherIs same).symm
  · intro _
    rw [birth, births]
    exact parented.born np (by rw [was]; rintro ⟨⟩)
  · intro slot c live isChild
    obtain ⟨wasLive, wasChild⟩ := child slot c live isChild
    rw [sameForker, sameBirth]
    exact parented.child slot c wasLive wasChild
  · rw [reaped, births]
    intro reaping member
    obtain ⟨below, notHere⟩ := parented.gone reaping member
    refine ⟨below, ?_⟩
    intro slot is
    rw [sameBirth]
    exact notHere slot (notFree slot is)

theorem frees
    (parented : Parented k)
    {np : Slot}
    (history : after.history = k.history)
    (was : (k.proc np).status = .allocated)
    (others :
      ∀ other, other ≠ np → (k.proc other).Woken (after.proc other))
    (changed :
      (after.proc np).core = { (k.proc np).core with status := .free })
    (points :
      ∀ other, (k.proc other).point.SameChild (after.proc other).point) :
    Parented after := by
  obtain ⟨births, forked, exits, reaped⟩ := sameHistory history
  have isFree : (after.proc np).status = .free := congrArg (·.status) changed
  have wasLive :
      ∀ slot, (after.proc slot).live → (k.proc slot).live := by
    intro slot live
    by_cases isNp : slot = np
    · subst isNp
      exact (live.1 isFree).elim
    · exact (Kept.of_woken (others slot isNp)).live_iff.mp live
  refine parented.changesChild was others (congrArg (·.birth) changed)
    (congrArg (·.forker) changed) (by rw [isFree]; rintro ⟨⟩)
    (fun notFree => (notFree isFree).elim)
    (fun _ live _ => (live.1 isFree).elim) births
    (by rw [forked]; exact fun _ is => is) exits reaped
    (fun slot c live isChild =>
      ⟨wasLive slot live, (points slot).child c isChild⟩) ?_
  intro slot c live isAdopted
  have parent := parented.adopted slot c (wasLive slot live)
    ((points slot).adopted c isAdopted)
  by_cases isNp : c = np
  · subst isNp
    exact (congrArg (·.parent) changed).trans parent
  · rw [(Kept.of_woken (others c isNp)).parent, parent]

theorem adopts
    {awake : Prop}
    (parented : Parented k)
    (scheduled : WellScheduled awake k)
    {slot np : Slot}
    (history : after.history = k.history)
    (current : (k.proc slot).status = .running)
    (was : (k.proc np).status = .allocated)
    (isChild : (k.proc slot).point.child = some np)
    (others :
      ∀ other, other ≠ np → (k.proc other).Woken (after.proc other))
    (changed :
      (after.proc np).core = { (k.proc np).core with parent := some slot })
    (points :
      ∀ other, other ≠ slot →
        (k.proc other).point.SameChild (after.proc other).point)
    (point : (after.proc slot).point.child = some np) :
    Parented after := by
  obtain ⟨births, forked, exits, reaped⟩ := sameHistory history
  have isAllocated : (after.proc np).status = .allocated :=
    (congrArg (·.status) changed).trans was
  have slotLive : (k.proc slot).live := by simp [Proc.live, current]
  have differs : slot ≠ np := by
    rintro rfl
    rw [current] at was
    cases was
  have kept := fun other differs => Kept.of_woken (others other differs)
  have wasLive :
      ∀ other, (after.proc other).live →
        other ≠ np ∧ (k.proc other).live := by
    intro other live
    have notNp : other ≠ np := by
      rintro rfl
      exact live.2 isAllocated
    exact ⟨notNp, (kept other notNp).live_iff.mp live⟩
  have isForker := parented.child slot np slotLive isChild
  refine parented.changesChild was others (congrArg (·.birth) changed)
    (congrArg (·.forker) changed) (by rw [isAllocated]; rintro ⟨⟩) ?_
    (fun _ live _ => (live.2 isAllocated).elim) births
    (by rw [forked]; exact fun _ is => is) exits reaped ?_ ?_
  · intro _
    refine Or.inr ⟨slot, congrArg (·.parent) changed,
      (kept slot differs).live_iff.mpr slotLive, ?_⟩
    rw [(kept slot differs).birth]
    exact (congrArg (·.forker) changed).trans isForker
  · intro other c live isC
    refine ⟨(wasLive other live).2, ?_⟩
    by_cases isSlot : other = slot
    · subst isSlot
      rw [point] at isC
      rw [isChild, isC]
    · exact (points other isSlot).child c isC
  · intro other c live isAdopted
    by_cases isSlot : other = slot
    · subst isSlot
      have isC := Point.child_of_adopted isAdopted
      rw [point] at isC
      cases isC
      exact congrArg (·.parent) changed
    · have wasAdopted := (points other isSlot).adopted c isAdopted
      have notNp : c ≠ np := by
        rintro rfl
        exact (scheduled.children slot c slotLive isChild).2 other isSlot
          (wasLive other live).2 (Point.child_of_adopted wasAdopted)
      rw [(kept c notNp).parent]
      exact parented.adopted other c (wasLive other live).2 wasAdopted

theorem activates
    (parented : Parented k)
    {slot np : Slot}
    (history :
      after.history =
        { k.history with
          forked := k.forked ++ [{
            parent := (k.proc slot).birth
            child := (k.proc np).birth
            pid := (k.proc np).pid }] })
    (current : (k.proc slot).status = .running)
    (was : (k.proc np).status = .allocated)
    (isChild : (k.proc slot).point.child = some np)
    (isAdopted : (k.proc slot).point.adopted = some np)
    (others :
      ∀ other, other ≠ np → (k.proc other).Woken (after.proc other))
    (changed :
      (after.proc np).core = { (k.proc np).core with status := .ready })
    (points :
      ∀ other, other ≠ np →
        (k.proc other).point.SameChild (after.proc other).point)
    (npPoint : (after.proc np).point = .forkret) :
    Parented after := by
  obtain ⟨births, forked, exits, reaped⟩ := sameHistory history
  have isReady : (after.proc np).status = .ready :=
    congrArg (·.status) changed
  have slotLive : (k.proc slot).live := by simp [Proc.live, current]
  have differs : slot ≠ np := by
    rintro rfl
    rw [current] at was
    cases was
  have kept := fun other differs => Kept.of_woken (others other differs)
  have isForker := (congrArg (·.forker) changed).trans
    (parented.child slot np slotLive isChild)
  have isParent := (congrArg (·.parent) changed).trans
    (parented.adopted slot np slotLive isAdopted)
  have isBirth : (after.proc np).birth = (k.proc np).birth :=
    congrArg (·.birth) changed
  have isPid : (after.proc np).pid = (k.proc np).pid :=
    congrArg (·.pid) changed
  refine parented.changesChild was others isBirth
    (congrArg (·.forker) changed) (by rw [isReady]; rintro ⟨⟩) ?_ ?_ births
    (by rw [forked]; exact fun _ is => List.mem_append_left _ is) exits reaped
    ?_ ?_
  · intro _
    refine Or.inr ⟨slot, isParent,
      (kept slot differs).live_iff.mpr slotLive, ?_⟩
    rw [(kept slot differs).birth]
    exact isForker
  · intro forker _ hasForker
    have same : forker = (k.proc slot).birth :=
      Option.some.inj (hasForker.symm.trans isForker)
    rw [same, isBirth, isPid, forked]
    exact List.mem_append_right _ List.mem_cons_self
  · intro other c live isC
    have notNp : other ≠ np := by
      rintro rfl
      rw [npPoint] at isC
      cases isC
    exact ⟨(kept other notNp).live_iff.mp live,
      (points other notNp).child c isC⟩
  · intro other c live hasAdopted
    have notNp : other ≠ np := by
      rintro rfl
      rw [npPoint] at hasAdopted
      cases hasAdopted
    have parent := parented.adopted other c
      ((kept other notNp).live_iff.mp live)
      ((points other notNp).adopted c hasAdopted)
    by_cases isNp : c = np
    · subst isNp
      exact (congrArg (·.parent) changed).trans parent
    · rw [(kept c isNp).parent, parent]

theorem reaps
    {awake : Prop}
    (parented : Parented k)
    (scheduled : WellScheduled awake k)
    {slot son : Slot}
    (history :
      after.history =
        { k.history with
          reaped := k.reaped ++ [{
            caller := (k.proc slot).birth
            child := (k.proc son).birth
            pid := (k.proc son).pid
            xstate := (k.proc son).xstate }] })
    (was : (k.proc son).status = .zombie)
    (isSon : (k.proc son).parent = some slot)
    (others :
      ∀ other, other ≠ son → (k.proc other).Woken (after.proc other))
    (changed :
      (after.proc son).core =
        { (k.proc son).core with
          status := .free
          pid := 0
          parent := none
          xstate := 0 })
    (points :
      ∀ other, (k.proc other).point.SameChild (after.proc other).point)
    (childless :
      ∀ child, (k.proc child).status ≠ .free →
        (k.proc child).parent ≠ some son) :
    Parented after := by
  obtain ⟨births, forked, exits, reaped⟩ := sameHistory history
  have isFree : (after.proc son).status = .free :=
    congrArg (·.status) changed
  have sonLive : (k.proc son).live := by simp [Proc.live, was]
  have kept := fun other differs => Kept.of_woken (others other differs)
  have wasLive :
      ∀ other, (after.proc other).live →
        other ≠ son ∧ (k.proc other).live := by
    intro other live
    have notSon : other ≠ son := by
      rintro rfl
      exact live.1 isFree
    exact ⟨notSon, (kept other notSon).live_iff.mp live⟩
  have notSon :
      ∀ other, (k.proc other).live → ∀ c,
        (k.proc other).point.child = some c → c ≠ son := by
    rintro other live c isChild rfl
    have allocated := (scheduled.children other c live isChild).1
    rw [was] at allocated
    cases allocated
  have isForker : (k.proc son).forker = some (k.proc slot).birth := by
    have whichParent := parented.parent son sonLive.1
    rw [isSon] at whichParent
    rcases whichParent with ⟨impossible, _⟩ | ⟨forker, same, _, isForker⟩
    · cases impossible
    · cases same
      exact isForker
  refine parented.rebuild son kept ?_ (fun notFree => (notFree isFree).elim)
    (fun _ _ notFree => (notFree isFree).elim)
    (fun notFree => (notFree isFree).elim)
    (fun _ live _ => (live.1 isFree).elim)
    (parented.sameExited others (by rw [isFree]; rintro ⟨⟩) exits)
    (by rw [births]; exact Nat.le_refl _)
    (by rw [forked]; exact fun _ is => is) ?_ ?_ ?_ ?_ ?_
  · intro other notFree isParent
    exact (childless other notFree isParent).elim
  · intro other c live isChild
    obtain ⟨differs, otherLive⟩ := wasLive other live
    have wasChild := (points other).child c isChild
    rw [(kept c (notSon other otherLive c wasChild)).forker,
      (kept other differs).birth]
    exact parented.child other c otherLive wasChild
  · intro other c live isAdopted
    obtain ⟨differs, otherLive⟩ := wasLive other live
    have wasAdopted := (points other).adopted c isAdopted
    have wasChild := Point.child_of_adopted wasAdopted
    rw [(kept c (notSon other otherLive c wasChild)).parent]
    exact parented.adopted other c otherLive wasAdopted
  · rw [reaped, forked, exits]
    intro reaping member
    rcases List.mem_append.mp member with old | new
    · exact parented.reaped reaping old
    · rw [List.mem_singleton] at new
      subst new
      exact ⟨parented.recorded son _ sonLive isForker,
        parented.exited son was⟩
  · rw [reaped]
    simp only [List.map_append, List.map_cons, List.map_nil]
    refine List.nodup_append.mpr ⟨parented.once, List.nodup_singleton _, ?_⟩
    intro old isOld new isNew same
    rw [List.mem_singleton] at isNew
    subst isNew
    obtain ⟨reaping, member, rfl⟩ := List.mem_map.mp isOld
    exact (parented.gone reaping member).2 son sonLive.1 same.symm
  · rw [reaped, births]
    have notFree :
        ∀ other, (after.proc other).status ≠ .free →
          other ≠ son ∧ (k.proc other).status ≠ .free := by
      intro other is
      have differs : other ≠ son := by
        rintro rfl
        exact is isFree
      exact ⟨differs, fun free => is ((kept other differs).free.mpr free)⟩
    intro reaping member
    rcases List.mem_append.mp member with old | new
    · obtain ⟨below, notHere⟩ := parented.gone reaping old
      refine ⟨below, ?_⟩
      intro other is
      obtain ⟨differs, wasNot⟩ := notFree other is
      rw [(kept other differs).birth]
      exact notHere other wasNot
    · rw [List.mem_singleton] at new
      subst new
      refine ⟨parented.born son sonLive.1, ?_⟩
      intro other is
      obtain ⟨differs, wasNot⟩ := notFree other is
      rw [(kept other differs).birth]
      exact fun same => differs
        (parented.distinct other son wasNot sonLive.1 same)

theorem step
    {awake : Prop}
    (parented : Parented k)
    (scheduled : WellScheduled awake k)
    {action : KernelAction}
    (childless : ReapsChildless k action)
    (taken : Step k action after) :
    Parented after := by
  cases TableStep.of_step scheduled taken with
  | quiet quiet =>
      exact parented.quiet quiet
  | switches slot status history _ live is others self points =>
      exact parented.switches history live is others self points
  | exits slot xstate history was others self points =>
      exact parented.exits history was others self points
  | allocates slot np status history current wasFree is others new points
      point notAdopted =>
      exact parented.allocates scheduled history current wasFree is others new
        points point notAdopted
  | frees np history was others changed points =>
      exact parented.frees history was others changed points
  | adopts slot np history current was isChild others changed points point =>
      exact parented.adopts scheduled history current was isChild others
        changed points point
  | activates slot np history current was isChild isAdopted others changed
      points _ npPoint =>
      exact parented.activates history current was isChild isAdopted others
        changed points npPoint
  | reaps slot son copies copied history isAdvance current atScan delivered
      found was isSon _ others changed points =>
      subst isAdvance
      have noneParent :
          ∀ child : Slot, (k.proc child).status ≠ .free →
            (k.proc child).parent ≠ some son := by
        intro child notFree isParent
        have copied : (!copies || copied) = true := by
          cases copies with
          | false =>
              rfl
          | true =>
              exact delivered rfl
        simp only [ReapsChildless, freesParent, current, atScan, found,
          Option.any_some, copied, Bool.true_and, List.any_eq_false]
          at childless
        exact childless child (List.mem_finRange child)
          (decide_eq_true ⟨notFree, isParent⟩)
      exact parented.reaps scheduled history was isSon others changed points
        noneParent

end Parented

theorem boot_parented : Parented boot := by
  have only :
      ∀ slot, (boot.proc slot).status ≠ .free → slot = 0 := by
    intro slot notFree
    by_contra notFirst
    exact notFree (by simp [boot, notFirst])
  exact {
    parent := by
      intro slot notFree
      rw [only slot notFree]
      exact Or.inl ⟨rfl, Or.inr rfl⟩
    distinct := by
      intro slot other notFree otherNotFree _
      rw [only slot notFree, only other otherNotFree]
    reaped := by simp [boot]
    once := List.nodup_nil
    child := by
      intro slot np _ isChild
      by_cases first : slot = 0 <;> simp [boot, first, Point.child] at isChild
    adopted := by
      intro slot np _ isAdopted
      by_cases first : slot = 0 <;>
        simp [boot, first, Point.adopted] at isAdopted
    born := by
      intro slot notFree
      rw [only slot notFree]
      exact Nat.zero_lt_one
    recorded := by
      intro slot forker live isForker
      rw [only slot live.1] at isForker
      cases isForker
    exited := by
      intro slot isZombie
      have notFree : (boot.proc slot).status ≠ .free := by
        rw [isZombie]
        rintro ⟨⟩
      rw [only slot notFree] at isZombie
      cases isZombie
    gone := by simp [boot]
  }

/--
In every run in which `wait` frees only slots that no process has as its
parent, parent pointers name the process that forked, and `wait` returns only
children of its callers, each at most once.
-/
theorem parenthoodKept_of_reapsChildless
    {trace : List (Kernel × KernelAction)}
    {final : Kernel}
    (run : Lib.Run Step boot trace final)
    (childless : Lib.Meets ReapsChildless trace) :
    ParenthoodKept final := by
  have parented : Parented final := by
    induction run with
    | start =>
        exact boot_parented
    | next earlier last inductionHypothesis =>
        rw [Lib.Meets.snoc_iff] at childless
        have scheduled := run_outcome False earlier False.elim
        rcases scheduled with ⟨scheduled, _⟩ | ⟨_, panicked⟩
        · exact (inductionHypothesis childless.1).step scheduled childless.2
            last
        · rw [Step.notPanicked last] at panicked
          cases panicked
  exact parented.toParenthoodKept

/-- A child exits while its parent waits, and the parent reaps it. -/
theorem parenthoodKept_of_reapsChildless_forkWait :
    ∃ trace final,
      Lib.Run Step boot trace final ∧
        Lib.Meets ReapsChildless trace ∧
        final.reaped ≠ [] ∧
        ParenthoodKept final := by
  let actions : List KernelAction :=
    forkChild ++ .wait true :: .advance true :: .schedule :: .ecall ::
      exitWithThreeFiles ++ List.replicate 64 .schedule ++ [.advance true]
  have reaches :
      (Lib.runActions (Lib.guarded ReapsChildless step?) boot actions).any
        (fun final => !final.reaped.isEmpty) = true := by
    decide +kernel
  obtain ⟨final, accepted, reaped⟩ := (Option.any_eq_true _ _).mp reaches
  obtain ⟨trace, run, childless⟩ := Lib.runActions_guarded accepted
  exact ⟨trace, final, run, childless, by simpa using reaped,
    parenthoodKept_of_reapsChildless run childless⟩

/-- `fork` in a process that is inside a system call. -/
def forkAgain : List KernelAction :=
  .fork true :: List.replicate 23 (.advance true)

/--
A child exits and is reaped before its own child: the next process in its slot
is returned a pid that it never forked.
-/
theorem wait_returns_stranger :
    ¬ ∀ (trace : List (Kernel × KernelAction)) (final : Kernel),
      Lib.Run Step boot trace final → ParenthoodKept final := by
  intro law
  let actions : List KernelAction :=
    forkChild ++ .wait false :: .advance true ::
      -- The child forks the grandchild, exits and is reaped.
      .schedule :: .ecall :: forkAgain ++ exitWithThreeFiles ++
      .schedule :: .timer :: List.replicate 63 .schedule ++
      .advance true ::
      -- A second child gets the slot of the first and waits.
      forkAgain ++ .wait false :: .advance true ::
      .schedule :: .ecall :: .wait false :: .advance true ::
      -- The grandchild exits, and the second child reaps it.
      .schedule :: .advance true :: .ecall :: exitWithThreeFiles ++
      List.replicate 64 .schedule ++ [.advance true]
  have strangers :
      (Lib.runActions step? boot actions).any (fun final =>
        final.reaped.any fun reaping =>
          final.forked.all fun forking =>
            decide (forking ≠
              ⟨reaping.caller, reaping.child, reaping.pid⟩)) = true := by
    decide +kernel
  obtain ⟨final, accepted, stranger⟩ :=
    (Option.any_eq_true _ _).mp strangers
  obtain ⟨trace, _, run⟩ := Lib.runActions_sound accepted
  obtain ⟨reaping, member, neverForked⟩ := List.any_eq_true.mp stranger
  have wasForked := ((law trace final run).reaped reaping member).1
  have notForked := List.all_eq_true.mp neverForked _ wasForked
  simp at notForked

end Kernel

end MyOS
