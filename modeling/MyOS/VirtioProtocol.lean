import MyOS.Lib.Run
import MyOS.VirtioSteps

namespace MyOS

/-!
# The protocol between callers, driver and device

Any number of processes call `virtio_disk_rw` on any buffers, the device serves
the requests in any order, and the interrupt may come at any time.  The driver
marks completion in the buffer and not in the request: the protocol holds as
long as the interrupt handler never clears the flag of a buffer that still has
a request which the device has not posted.
-/

/-- What happens next in the driver, whoever calls it. -/
inductive DriverAction where
  /-- A process calls `virtio_disk_rw`. -/
  | rw (process : Nat) (call : DiskCall)
  /-- A caller changes a buffer, but not the driver's flag in it. -/
  | touch (b : BufferIndex) (buffer : Buf)
  /-- A process goes on after a wait in `virtio_disk_rw`. -/
  | resume (process : Nat)
  /-- The device reads an entry of the available ring. -/
  | fetch
  /-- The device serves a request. -/
  | serve (head : DescIndex)
  /-- The interrupt of the device is handled. -/
  | interrupt

namespace DiskState

/-- One step of the callers, the driver or the device. -/
def driverStep? (s : DiskState) (action : DriverAction) : Option DiskState :=
  if s.panicked.isSome then
    none
  else
    match action with
    | .rw process call =>
        if s.point process = .client then
          some (s.diskRw process call)
        else
          none
    | .touch b buffer =>
        some (s.setBuf b { buffer with disk := (s.buf b).disk })
    | .resume process => s.resume process
    | .fetch => s.fetch
    | .serve head => s.serve head
    | .interrupt => some s.virtioDiskIntr

/-- The graph of `driverStep?`. -/
def DriverStep
    (s : DiskState)
    (action : DriverAction)
    (after : DiskState) : Prop :=
  s.driverStep? action = some after

/-- The driver after `virtio_disk_init`, over any buffers and any disk. -/
def virtioDiskInit
    (buf : BufferIndex → Buf)
    (image : Nat → Block) : DiskState where
  buf := buf
  lru := []
  free := fun _ => true
  desc := fun _ => ⟨.null, 0, 0, zeroDesc⟩
  req := fun _ => ⟨0, 0, 0⟩
  info := fun _ => ⟨none, 0⟩
  availRing := fun _ => zeroDesc
  availIdx := 0
  usedRing := fun _ => zeroDesc
  postedIdx := 0
  usedIdx := 0
  fetchedIdx := 0
  inFlight := []
  disk := image
  point := fun _ => .client
  asleep := fun _ => false
  refs := []
  content := image
  phase := fun _ => .completed
  panicked := none

/--
What a step may do to the requests: a call returns after the device has served
its own request, and then its chain is freed; no other descriptor is freed.
-/
structure ReturnsKept (s after : DiskState) : Prop where
  returns :
    ∀ process call idx, s.point process = .completion call idx →
      after.point process ≠ .completion call idx →
      s.phase idx.head ≠ .submitted ∧
        after.point process = .client ∧
        ∀ i ∈ idx.toList, after.free i = true
  freed :
    ∀ i, s.free i = false → after.free i = true →
      ∃ process call idx,
        s.point process = .completion call idx ∧
          after.point process = .client ∧ i ∈ idx.toList

/--
The descriptors are partitioned into free ones and the chains of the requests
in progress, every such request's `info` entry names its buffer, nothing has
panicked, and the next step keeps to `ReturnsKept`.
-/
structure ProtocolKept (s : DiskState) : Prop where
  partition :
    ∀ i, s.free i = true ∨
      ∃ process call idx,
        s.point process = .completion call idx ∧ i ∈ idx.toList
  chain :
    ∀ process call idx, s.point process = .completion call idx →
      idx.toList.Nodup ∧ ∀ i ∈ idx.toList, s.free i = false
  apart :
    ∀ process other call otherCall idx otherIdx,
      process ≠ other →
      s.point process = .completion call idx →
      s.point other = .completion otherCall otherIdx →
      idx.toList.Disjoint otherIdx.toList
  info :
    ∀ process call idx, s.point process = .completion call idx →
      (s.info idx.head).b = some call.b
  running : s.panicked = none
  next :
    ∀ action after, s.DriverStep action after →
      s.ReturnsKept after

/--
The interrupt handler is about to clear the flag of a buffer that has a posted
request and one that the device has not posted yet.
-/
def clearsShared (s : DiskState) : DriverAction → Bool
  | .interrupt =>
      (List.finRange NUM).any fun i =>
        (List.finRange NUM).any fun j =>
          decide (s.phase i = .served ∧ s.phase j = .submitted ∧
            (s.info i).b = (s.info j).b)
  | _ => false

/--
When the interrupt is handled, no buffer has both a posted request and one that
the device has not posted yet.
-/
def ClearsFinished (s : DiskState) (action : DriverAction) : Prop :=
  s.clearsShared action = false

instance (s : DiskState) (action : DriverAction) :
    Decidable (ClearsFinished s action) :=
  inferInstanceAs (Decidable (_ = false))

end DiskState

/-- The driver's invariant with the flags of the buffers. -/
structure FlagsFit (s : DiskState) : Prop where
  driver : DriverFits s
  alive : s.panicked = none
  flag :
    ∀ process call idx, s.point process = .completion call idx →
      s.phase idx.head ≠ .completed → (s.buf call.b).disk = true

/-- What the loop of the interrupt handler keeps. -/
structure LoopFits (s : DiskState) : Prop where
  driver : DriverFits s
  alive : s.panicked = none
  flag :
    ∀ process call idx, s.point process = .completion call idx →
      s.phase idx.head = .submitted → (s.buf call.b).disk = true
  separate :
    ∀ process other call otherCall idx otherIdx,
      s.point process = .completion call idx →
      s.point other = .completion otherCall otherIdx →
      s.phase idx.head = .served → s.phase otherIdx.head = .submitted →
      call.b ≠ otherCall.b

theorem DiskState.intrLoop_frame
    (s : DiskState)
    (rounds : Nat) :
    (intrLoop rounds s).point = s.point ∧
      (intrLoop rounds s).free = s.free := by
  induction rounds generalizing s with
  | zero =>
      exact ⟨rfl, rfl⟩
  | succ rounds inductionHypothesis =>
      unfold intrLoop
      dsimp only
      split
      · exact ⟨rfl, rfl⟩
      · split
        · exact ⟨rfl, rfl⟩
        · exact inductionHypothesis _

namespace LoopFits

variable {s : DiskState}

theorem intrLoop
    (fits : LoopFits s)
    {rounds : Nat}
    (count :
      (s.postedIdx + ringModulus - s.usedIdx) % ringModulus = rounds) :
    FlagsFit (DiskState.intrLoop rounds s) := by
  induction rounds generalizing s with
  | zero =>
      refine {
        driver := fits.driver
        alive := fits.alive
        flag := ?_
      }
      intro process call idx waits notCompleted
      refine fits.flag process call idx waits ?_
      have notServed := fits.driver.notServed_of_count count waits
      cases phase : s.phase idx.head with
      | submitted =>
          rfl
      | served =>
          exact (notServed phase).elim
      | completed =>
          exact (notCompleted phase).elim
  | succ rounds inductionHypothesis =>
      obtain ⟨notEmpty, fewer⟩ := fits.driver.intrRound_count count
      obtain ⟨process, call, idx, waits, isHead, phase, info, driver⟩ :=
        fits.driver.intrRound notEmpty
      unfold DiskState.intrLoop
      simp only [isHead, info, ne_eq, not_true_eq_false, if_false]
      refine inductionHypothesis ?_ fewer
      -- A request that is not completed after the round was so before it.
      have before :
          ∀ head next, next ≠ .completed →
            Function.update s.phase idx.head .completed head = next →
            s.phase head = next := by
        intro head next notCompleted isNext
        by_cases isOwn : head = idx.head
        · rw [isOwn, Function.update_self] at isNext
          exact (notCompleted isNext.symm).elim
        · rw [Function.update_of_ne isOwn] at isNext
          exact isNext
      refine {
        driver := driver _ _
        alive := fits.alive
        flag := ?_
        separate := ?_
      }
      · intro other otherCall otherIdx otherWaits submitted
        have wasSubmitted := before _ _ (by rintro ⟨⟩) submitted
        have differs :=
          fits.separate process other call otherCall idx otherIdx waits
            otherWaits phase wasSubmitted
        have raised :=
          fits.flag other otherCall otherIdx otherWaits wasSubmitted
        simp only [DiskState.setBuf, DiskState.wakeup,
          Function.update_of_ne differs.symm]
        exact raised
      · intro one other oneCall otherCall oneIdx otherIdx oneWaits otherWaits
          served submitted
        exact fits.separate one other oneCall otherCall oneIdx otherIdx
          oneWaits otherWaits (before _ _ (by rintro ⟨⟩) served)
          (before _ _ (by rintro ⟨⟩) submitted)

end LoopFits

theorem DiskState.ReturnsKept.of_same
    {s after : DiskState}
    (points :
      ∀ process call idx, s.point process = .completion call idx →
        after.point process = .completion call idx)
    (taken : ∀ i, s.free i = false → after.free i = false) :
    s.ReturnsKept after where
  returns := fun process call idx waits left =>
    (left (points process call idx waits)).elim
  freed := by
    intro i wasTaken isFree
    rw [taken i wasTaken] at isFree
    cases isFree

namespace FlagsFit

open DiskState

variable {s after : DiskState} {process : Nat} {call : DiskCall}
variable {idx : RequestChain}

theorem had_none
    (outside :
      s.point process = .client ∨ s.point process = .descriptors call)
    (other : DiskCall)
    (otherIdx : RequestChain) :
    s.point process ≠ .completion other otherIdx := by
  intro waits
  rcases outside with client | enters
  · rw [client] at waits
    cases waits
  · rw [enters] at waits
    cases waits

theorem diskRw
    (fits : FlagsFit s)
    (had : ∀ call idx, s.point process ≠ .completion call idx) :
    FlagsFit (s.diskRw process call) := by
  have driver : DriverFits (s.diskRw process call) :=
    fits.driver.diskRw had
  unfold DiskState.diskRw at driver ⊢
  split
  · refine {
      driver := ?_
      alive := fits.alive
      flag := ?_
    }
    · rename_i full
      simpa only [full] using driver
    · intro other otherCall otherIdx waits
      have isOther : other ≠ process := by
        rintro rfl
        simp [sleepAt] at waits
      simp only [sleepAt, Function.update_of_ne isOther] at waits
      exact fits.flag other otherCall otherIdx waits
  · rename_i idx free allocated
    have wereFree := (alloc3Desc_spec allocated).2.1
    have unowned :=
      fits.driver.notOwned_of_free (wereFree idx.head idx.head_mem)
    refine {
      driver := ?_
      alive := fits.alive
      flag := ?_
    }
    · simpa only [allocated] using driver
    · intro other otherCall otherIdx waits notCompleted
      have raises :
          ∀ c, (s.buf c).disk = true →
            ((s.submit call idx free).buf c).disk = true := by
        intro c raised
        by_cases isB : c = call.b
        · subst isB
          simp [submit]
        · simp [submit, isB, raised]
      by_cases isProcess : other = process
      · subst isProcess
        simp only [sleepAt, Function.update_self] at waits
        cases waits
        simp [sleepAt, submit]
      · simp only [sleepAt, submit, Function.update_of_ne isProcess]
          at waits
        have differs : otherIdx.head ≠ idx.head := fun same =>
          unowned ⟨other, otherCall, otherIdx, waits, same⟩
        simp only [sleepAt, submit, Function.update_of_ne differs]
          at notCompleted
        exact raises otherCall.b
          (fits.flag other otherCall otherIdx waits notCompleted)

theorem diskRw_returns
    (had : ∀ call idx, s.point process ≠ .completion call idx) :
    s.ReturnsKept (s.diskRw process call) := by
  have others :
      ∀ point other otherCall otherIdx,
        s.point other = .completion otherCall otherIdx →
        Function.update s.point process point other =
          .completion otherCall otherIdx := by
    intro point other otherCall otherIdx waits
    have isOther : other ≠ process := by
      rintro rfl
      exact had otherCall otherIdx waits
    rw [Function.update_of_ne isOther]
    exact waits
  unfold DiskState.diskRw
  split
  · exact .of_same (others _) fun _ taken => taken
  · rename_i idx free allocated
    obtain ⟨_, _, areTaken, same⟩ := alloc3Desc_spec allocated
    refine .of_same (others _) fun i taken => ?_
    by_cases isOwn : i ∈ idx.toList
    · exact areTaken i isOwn
    · exact (same i isOwn).trans taken

theorem leave
    (fits : FlagsFit s)
    (waits : s.point process = .completion call idx)
    (completed : s.phase idx.head = .completed)
    (entry : RequestInfo) :
    FlagsFit
        ((freeChain (NUM + 1)
          { s with info := Function.update s.info idx.head entry }
          idx.head).setPoint process .client) ∧
      s.ReturnsKept
        ((freeChain (NUM + 1)
          { s with info := Function.update s.info idx.head entry }
          idx.head).setPoint process .client) := by
  have driver := fits.driver.leave fits.alive waits completed entry
  obtain ⟨free, desc, asleep, isFinal, freed, frame⟩ :=
    fits.driver.freeChain fits.alive waits entry
  rw [isFinal] at driver ⊢
  have others :
      ∀ other, other ≠ process →
        Function.update s.point process .client other = s.point other :=
    fun other differs => Function.update_of_ne differs _ _
  refine ⟨⟨driver, fits.alive, ?_⟩, ?_, ?_⟩
  · intro other otherCall otherIdx otherWaits notCompleted
    have isOther : other ≠ process := by
      rintro rfl
      simp [setPoint] at otherWaits
    simp only [setPoint, others other isOther] at otherWaits
    exact fits.flag other otherCall otherIdx otherWaits notCompleted
  · intro other otherCall otherIdx otherWaits left
    have isProcess : other = process := by
      by_contra isOther
      exact left ((others other isOther).trans otherWaits)
    subst isProcess
    rw [waits] at otherWaits
    cases otherWaits
    refine ⟨?_, Function.update_self _ _ _, freed⟩
    rw [completed]
    rintro ⟨⟩
  · intro i taken isFree
    refine ⟨process, call, idx, waits, Function.update_self _ _ _, ?_⟩
    by_contra notOwn
    have wasFree := (frame i notOwn).1.symm.trans isFree
    rw [taken] at wasFree
    cases wasFree

theorem resume
    (fits : FlagsFit s)
    (resumed : s.resume process = some after) :
    FlagsFit after ∧ s.ReturnsKept after := by
  unfold DiskState.resume at resumed
  split at resumed
  · cases resumed
  · split at resumed
    · cases resumed
    · rename_i call enters
      cases resumed
      have had := had_none (Or.inr enters)
      exact ⟨fits.diskRw had, diskRw_returns had⟩
    · rename_i call idx waits
      split at resumed
      · cases resumed
        have same : s.sleepAt process (.completion call idx) =
            { s with asleep := Function.update s.asleep process true } := by
          simp [sleepAt, ← waits]
        rw [same]
        exact ⟨⟨⟨fits.driver.requests, fits.driver.queues⟩, fits.alive,
          fits.flag⟩, .of_same (fun _ _ _ stays => stays) fun _ taken => taken⟩
      · rename_i lowered
        cases resumed
        have completed : s.phase idx.head = .completed := by
          by_contra notCompleted
          exact lowered (fits.flag process call idx waits notCompleted)
        exact fits.leave waits completed _

theorem serve
    (fits : FlagsFit s)
    {head : DescIndex}
    (served : s.serve head = some after) :
    FlagsFit after ∧ s.ReturnsKept after := by
  have driver := fits.driver.serve served
  by_cases isInFlight : head ∈ s.inFlight
  · obtain ⟨⟨process, call, idx, waits, rfl⟩, phase⟩ :=
      fits.driver.owner_of_inFlight isInFlight
    rw [fits.driver.serve_eq waits isInFlight] at served
    cases served
    have flags :
        ∀ c, ((s.transfer (s.req idx.head) call.b).buf c).disk =
          (s.buf c).disk := by
      intro c
      unfold transfer
      dsimp only
      split
      · by_cases isB : c = call.b
        · subst isB
          simp [setBuf]
        · simp [setBuf, isB]
      · rfl
    have same :
        (s.transfer (s.req idx.head) call.b).point = s.point ∧
          (s.transfer (s.req idx.head) call.b).free = s.free ∧
          (s.transfer (s.req idx.head) call.b).panicked = s.panicked := by
      unfold transfer
      dsimp only
      split
      · exact ⟨rfl, rfl, rfl⟩
      · exact ⟨rfl, rfl, rfl⟩
    obtain ⟨samePoint, sameFree, samePanic⟩ := same
    refine ⟨⟨driver, samePanic.trans fits.alive, ?_⟩, ?_⟩
    · intro other otherCall otherIdx otherWaits notCompleted
      dsimp only at otherWaits notCompleted ⊢
      rw [samePoint] at otherWaits
      rw [flags]
      refine fits.flag other otherCall otherIdx otherWaits ?_
      intro completed
      have differs : otherIdx.head ≠ idx.head := by
        intro isHead
        rw [isHead, phase] at completed
        cases completed
      rw [Function.update_of_ne differs] at notCompleted
      exact notCompleted completed
    · refine .of_same ?_ ?_
      · intro other otherCall otherIdx otherWaits
        dsimp only
        rw [samePoint]
        exact otherWaits
      · intro i taken
        dsimp only
        rw [sameFree]
        exact taken
  · simp [DiskState.serve, isInFlight] at served

theorem interrupt
    (fits : FlagsFit s)
    (clears : ClearsFinished s .interrupt) :
    FlagsFit s.virtioDiskIntr := by
  have loop : LoopFits s := by
    refine {
      driver := fits.driver
      alive := fits.alive
      flag := ?_
      separate := ?_
    }
    · intro process call idx waits submitted
      refine fits.flag process call idx waits ?_
      rw [submitted]
      rintro ⟨⟩
    · intro process other call otherCall idx otherIdx waits otherWaits served
        submitted same
      have info := (fits.driver.requests.request process call idx waits).info
      have otherInfo :=
        (fits.driver.requests.request other otherCall otherIdx otherWaits).info
      have inner := List.any_eq_false.mp clears idx.head (List.mem_finRange _)
      have apart := List.any_eq_false.mp (Bool.not_eq_true _ ▸ inner)
        otherIdx.head (List.mem_finRange _)
      simp [served, submitted, info, otherInfo, same] at apart
  exact loop.intrLoop rfl

theorem interrupt_returns (s : DiskState) : s.ReturnsKept s.virtioDiskIntr := by
  have frame := s.intrLoop_frame
    ((s.postedIdx + ringModulus - s.usedIdx) % ringModulus)
  refine .of_same ?_ ?_
  · intro process call idx waits
    exact (congrFun frame.1 process).trans waits
  · intro i taken
    exact (congrFun frame.2 i).trans taken

theorem step
    (fits : FlagsFit s)
    {action : DriverAction}
    (taken : s.DriverStep action after) :
    s.ReturnsKept after ∧ (ClearsFinished s action → FlagsFit after) := by
  have running : ¬ s.panicked.isSome = true := by
    simp [fits.alive]
  unfold DriverStep driverStep? at taken
  rw [if_neg running] at taken
  cases action with
  | rw process call =>
      obtain ⟨client, isAfter⟩ := Option.ite_none_right_eq_some.mp taken
      cases isAfter
      have had : ∀ other idx, s.point process ≠ .completion other idx := by
        intro other idx waits
        rw [client] at waits
        cases waits
      exact ⟨diskRw_returns had, fun _ => fits.diskRw had⟩
  | touch b buffer =>
      cases taken
      have flags : ∀ c, (Function.update s.buf b
          { buffer with disk := (s.buf b).disk } c).disk = (s.buf c).disk := by
        intro c
        by_cases isB : c = b
        · subst isB
          simp
        · simp [isB]
      refine ⟨.of_same (fun _ _ _ stays => stays) fun _ taken => taken, ?_⟩
      intro _
      refine ⟨⟨fits.driver.requests, fits.driver.queues⟩, fits.alive, ?_⟩
      intro process call idx waits notCompleted
      exact (flags call.b).trans
        (fits.flag process call idx waits notCompleted)
  | resume process =>
      have resumed := fits.resume taken
      exact ⟨resumed.2, fun _ => resumed.1⟩
  | fetch =>
      have fetched : s.fetch = some after := taken
      have driver := fits.driver.fetch fetched
      unfold DiskState.fetch at fetched
      split at fetched
      · cases fetched
      · cases fetched
        exact ⟨.of_same (fun _ _ _ stays => stays) fun _ taken => taken,
          fun _ => ⟨driver, fits.alive, fits.flag⟩⟩
  | serve head =>
      have served := fits.serve taken
      exact ⟨served.2, fun _ => served.1⟩
  | interrupt =>
      cases taken
      exact ⟨interrupt_returns s, fits.interrupt⟩

theorem protocolKept
    (fits : FlagsFit s) :
    s.ProtocolKept where
  partition := by
    intro i
    cases free : s.free i with
    | true =>
        exact Or.inl rfl
    | false =>
        exact Or.inr (fits.driver.requests.owned i free)
  chain := by
    intro process call idx waits
    have request := fits.driver.requests.request process call idx waits
    exact ⟨request.nodup, request.taken⟩
  apart := fits.driver.requests.apart
  info := by
    intro process call idx waits
    rw [(fits.driver.requests.request process call idx waits).info]
  running := fits.alive
  next := fun _ _ taken => (fits.step taken).1

end FlagsFit

namespace DiskState

/--
The protocol is kept in every state of every run in which the interrupt handler
never clears the flag of a buffer with a request that the device has not
posted.
-/
theorem protocolKept_of_clearsFinished
    {buf : BufferIndex → Buf}
    {image : Nat → Block}
    {trace : List (DiskState × DriverAction)}
    {final : DiskState}
    (run : Lib.Run DriverStep (virtioDiskInit buf image) trace final)
    (clears : Lib.Meets ClearsFinished trace) :
    final.ProtocolKept := by
  have base : FlagsFit (virtioDiskInit buf image) := by
    refine {
      driver := .idle _ (fun _ => rfl) (fun _ => rfl) ⟨rfl, rfl⟩ ⟨rfl, rfl⟩ rfl
      alive := rfl
      flag := ?_
    }
    intro process call idx waits
    cases waits
  have fits : FlagsFit final := by
    refine run.invariant base ?_ clears
    intro current action next holds condition taken
    exact (holds.step taken).2 condition
  exact fits.protocolKept

/-- A buffer cache with nothing in it. -/
def emptyBuffers : BufferIndex → Buf := fun _ =>
  { valid := false
    disk := false
    dev := 0
    blockno := 0
    refcnt := 0
    data := fun _ => 0 }

/--
Two requests on one buffer that the device serves in the other order, both
before the interrupt, keep the protocol.
-/
theorem protocolKept_of_clearsFinished_sharedBuffer :
    ∃ trace final,
      Lib.Run DriverStep (virtioDiskInit emptyBuffers fun _ _ => 0) trace
          final ∧
        Lib.Meets ClearsFinished trace ∧
        final.usedIdx = 2 ∧
        final.ProtocolKept := by
  let actions : List DriverAction :=
    [.rw 0 ⟨firstBuffer, false⟩, .rw 1 ⟨firstBuffer, true⟩, .fetch, .fetch,
      .serve secondHead, .serve zeroDesc, .interrupt, .resume 1, .resume 0]
  have reaches :
      (Lib.runActions (Lib.guarded ClearsFinished driverStep?)
        (virtioDiskInit emptyBuffers fun _ _ => 0) actions).any
        (fun final => final.usedIdx == 2) = true := by
    decide +kernel
  obtain ⟨final, accepted, used⟩ := (Option.any_eq_true _ _).mp reaches
  obtain ⟨trace, run, clears⟩ := Lib.runActions_guarded accepted
  exact ⟨trace, final, run, clears, by simpa using used,
    protocolKept_of_clearsFinished run clears⟩

/--
Of two processes with a request on one buffer the second may return although
the device has served only the first one's request.
-/
theorem shared_buffer_returns_early :
    ¬ ∀ (buf : BufferIndex → Buf) (image : Nat → Block)
        (trace : List (DiskState × DriverAction)) (final : DiskState),
      Lib.Run DriverStep (virtioDiskInit buf image) trace final →
        final.ProtocolKept := by
  intro law
  let call : DiskCall := ⟨firstBuffer, true⟩
  let actions : List DriverAction :=
    [.rw 0 call, .rw 1 call, .fetch, .fetch, .serve zeroDesc, .interrupt]
  have reaches :
      (Lib.runActions driverStep? (virtioDiskInit emptyBuffers fun _ _ => 0)
        actions).any (fun final =>
          decide ((final.point 1).channel? = some (.buffer call.b)) &&
            decide ((final.point 1).unserved? final.phase = some call) &&
            (final.driverStep? (.resume 1)).any fun after =>
              decide ((after.point 1).call? = none)) = true := by
    decide +kernel
  obtain ⟨final, accepted, early⟩ := (Option.any_eq_true _ _).mp reaches
  obtain ⟨trace, _, run⟩ := Lib.runActions_sound accepted
  simp only [Bool.and_eq_true, decide_eq_true_eq] at early
  obtain ⟨⟨sleeps, unserved⟩, leaves⟩ := early
  obtain ⟨after, taken, left⟩ := (Option.any_eq_true _ _).mp leaves
  have returned : (after.point 1).call? = none := of_decide_eq_true left
  have kept := (law _ _ trace final run).next (.resume 1) after taken
  cases waits : final.point 1 with
  | client =>
      simp [waits, DiskPoint.unserved?] at unserved
  | descriptors waiting =>
      simp [waits, DiskPoint.channel?] at sleeps
  | completion waiting idx =>
      have submitted : final.phase idx.head = .submitted := by
        by_contra other
        simp [waits, DiskPoint.unserved?, other] at unserved
      have isAfter : after.point 1 ≠ .completion waiting idx := by
        intro same
        simp [same, DiskPoint.call?] at returned
      exact (kept.returns 1 waiting idx waits isAfter).1 submitted

end DiskState

end MyOS
