import MyOS.BufferCacheUse

namespace MyOS

/-!
# The cache's invariant inside the driver

The request that a process announces, the process that leaves, and the device
that moves a block and posts the request.
-/

namespace DataFits

variable {buf : BufferIndex → Buf} {refs : List BufferRef}
variable {unserved? : Nat → Option DiskCall} {content disk : Nat → Block}
variable {process : Nat} {b : BufferIndex}

theorem unserved_of_served
    {other : Nat}
    {call : DiskCall}
    (unserved : Function.update unserved? process none other = some call) :
    other ≠ process ∧ unserved? other = some call := by
  have isOther : other ≠ process := by
    rintro rfl
    rw [Function.update_self] at unserved
    cases unserved
  rw [Function.update_of_ne isOther] at unserved
  exact ⟨isOther, unserved⟩

theorem serveRead
    (data : DataFits buf refs unserved? content disk)
    (reads : unserved? process = some ⟨b, false⟩)
    (alone :
      ∀ other c, unserved? other = some ⟨c, true⟩ →
        (buf c).blockno = (buf b).blockno →
        ∃ ref ∈ refs, ref.process = other ∧ ref.b = b) :
    DataFits
      (Function.update buf b
        { buf b with data := disk (buf b).blockno })
      refs (Function.update unserved? process none) content disk := by
  have sameDev : ∀ c, (Function.update buf b
      { buf b with data := disk (buf b).blockno } c).dev = (buf c).dev :=
    update_component Buf.dev rfl
  have sameBlock : ∀ c, (Function.update buf b
      { buf b with data := disk (buf b).blockno } c).blockno =
        (buf c).blockno :=
    update_component Buf.blockno rfl
  have noWrite :
      ∀ other c, unserved? other = some ⟨c, true⟩ →
        (buf c).blockno ≠ (buf b).blockno := by
    intro other c writes same
    obtain ⟨ref, member, isOther, isB⟩ := alone other c writes same
    have isProcess := data.loader process b reads ref member isB
    rw [← isOther, isProcess, reads] at writes
    cases writes
  refine {
    loader := ?_
    cached := ?_
    stored := ?_
  }
  · intro other c unserved
    exact data.loader other c (unserved_of_served unserved).2
  · intro c isRoot notLoading
    rw [sameDev] at isRoot
    rw [sameBlock]
    by_cases isB : c = b
    · subst isB
      rw [Function.update_self]
      exact data.stored _ noWrite
    · rw [Function.update_of_ne isB]
      refine data.cached c isRoot fun ref member isC unserved => ?_
      refine notLoading ref member isC ?_
      have notProcess : ref.process ≠ process := by
        intro same
        rw [same, reads] at unserved
        cases unserved
        exact isB rfl
      rw [Function.update_of_ne notProcess]
      exact unserved
  · intro blockno othersWrite
    refine data.stored blockno fun other c unserved => ?_
    have notProcess : other ≠ process := by
      rintro rfl
      rw [reads] at unserved
      cases unserved
    rw [← sameBlock c]
    exact othersWrite other c
      (by rw [Function.update_of_ne notProcess]; exact unserved)

theorem serveWrite
    (data : DataFits buf refs unserved? content disk)
    (writes : unserved? process = some ⟨b, true⟩)
    (isRoot : (buf b).dev = ROOTDEV)
    (used : ∃ ref ∈ refs, ref.process = process ∧ ref.b = b) :
    DataFits buf refs (Function.update unserved? process none) content
      (Function.update disk (buf b).blockno (buf b).data) := by
  have reads :
      ∀ other c, unserved? other = some ⟨c, false⟩ →
        Function.update unserved? process none other = some ⟨c, false⟩ := by
    intro other c unserved
    have notProcess : other ≠ process := by
      rintro rfl
      rw [writes] at unserved
      cases unserved
    rw [Function.update_of_ne notProcess]
    exact unserved
  have notLoading :
      ∀ ref ∈ refs, ref.b = b → unserved? ref.process ≠ some ⟨b, false⟩ := by
    intro ref _ _ loads
    obtain ⟨own, member, isProcess, isB⟩ := used
    have same := data.loader ref.process b loads own member isB
    rw [← same, isProcess, writes] at loads
    cases loads
  refine {
    loader := ?_
    cached := ?_
    stored := ?_
  }
  · intro other c unserved
    exact data.loader other c (unserved_of_served unserved).2
  · intro c cRoot loaded
    refine data.cached c cRoot fun ref member isC unserved => ?_
    exact loaded ref member isC (reads ref.process c unserved)
  · intro blockno othersWrite
    by_cases isBlock : blockno = (buf b).blockno
    · subst isBlock
      rw [Function.update_self]
      exact data.cached b isRoot notLoading
    · rw [Function.update_of_ne isBlock]
      refine data.stored blockno fun other c unserved => ?_
      by_cases isProcess : other = process
      · subst isProcess
        rw [writes] at unserved
        cases unserved
        exact Ne.symm isBlock
      · exact othersWrite other c
          (by rw [Function.update_of_ne isProcess]; exact unserved)

end DataFits

theorem request_block
    (call : DiskCall)
    {blockno : Nat}
    (inDisk : blockno < FSSIZE) :
    (call.request blockno).sector / (BSIZE / 512) = blockno := by
  simp only [DiskCall.request, BSIZE, FSSIZE] at inDisk ⊢
  omega

namespace CacheFits

variable {s after : DiskState} {process : Nat}

theorem sameParts
    (fits : CacheFits s)
    (asleep : Nat → Bool)
    (panicked : Option DiskPanic) :
    CacheFits { s with asleep := asleep, panicked := panicked } :=
  ⟨fits.slots, fits.callers, ⟨fits.driver.requests, fits.driver.queues⟩,
    fits.sectors, fits.data⟩

theorem unserved_submit
    {point : Nat → DiskPoint}
    {phase : DescIndex → RequestPhase}
    {call : DiskCall}
    (enters : point process = .descriptors call)
    {idx : RequestChain}
    (unowned : ¬ OwnsHead point idx.head) :
    (fun other =>
        (Function.update point process (.completion call idx) other).unserved?
          (Function.update phase idx.head .submitted)) =
      fun other => (point other).unserved? phase := by
  funext other
  by_cases isProcess : other = process
  · subst isProcess
    rw [Function.update_self, enters]
    simp [DiskPoint.unserved?]
  · rw [Function.update_of_ne isProcess]
    cases waits : point other with
    | client =>
        rfl
    | descriptors otherCall =>
        rfl
    | completion otherCall otherIdx =>
        have differs : otherIdx.head ≠ idx.head := fun same =>
          unowned ⟨other, otherCall, otherIdx, waits, same⟩
        simp [DiskPoint.unserved?, differs]

theorem submit
    (fits : CacheFits s)
    {call : DiskCall}
    (enters : s.point process = .descriptors call)
    {idx : RequestChain}
    {free : DescIndex → Bool}
    (allocated : DiskState.alloc3Desc s.free = some (idx, free)) :
    CacheFits
      ((s.submit call idx free).sleepAt process (.completion call idx)) := by
  have wereFree := (DiskState.alloc3Desc_spec allocated).2.1
  have unowned :=
    fits.driver.notOwned_of_free (wereFree idx.head idx.head_mem)
  have same : ∀ c, (s.buf c).SameKey (Function.update s.buf call.b
      { s.buf call.b with disk := true } c) :=
    Buf.SameKey.update ⟨rfl, rfl, rfl⟩
  have sameCount : ∀ c, (Function.update s.buf call.b
      { s.buf call.b with disk := true } c).refcnt = (s.buf c).refcnt :=
    update_component Buf.refcnt rfl
  have had : ∀ call idx, s.point process ≠ .completion call idx := by
    intro otherCall otherIdx waits
    rw [enters] at waits
    cases waits
  have data := fits.data.sameBlocks same (update_component Buf.data rfl)
  rw [← unserved_submit enters unowned] at data
  refine {
    slots := fits.slots.changeUsers same fits.slots.listed
      (fun c => (sameCount c).trans (fits.slots.counted c))
      fits.slots.referenced
    callers := ?_
    driver := fits.driver.submit had allocated
    sectors := (fits.sectors.submit unowned).changeBlocks fun _ call _ =>
      (same call.b).blockno
    data := data
  }
  intro caller called inside
  by_cases isProcess : caller = process
  · subst isProcess
    simp only [DiskState.sleepAt, Function.update_self, DiskPoint.call?]
      at inside
    exact fits.callers caller called (by rw [enters]; exact inside)
  · simp only [DiskState.sleepAt, DiskState.submit,
      Function.update_of_ne isProcess] at inside
    exact fits.callers caller called inside

theorem diskRw
    (fits : CacheFits s)
    {call : DiskCall}
    (enters : s.point process = .descriptors call) :
    CacheFits (s.diskRw process call) := by
  unfold DiskState.diskRw
  split
  · have same : s.sleepAt process (.descriptors call) =
        { s with asleep := Function.update s.asleep process true } := by
      simp [DiskState.sleepAt, ← enters]
    rw [same]
    exact fits.sameParts _ s.panicked
  · rename_i idx free allocated
    exact fits.submit enters allocated

theorem diskRw_enter
    (s : DiskState)
    (process : Nat)
    (call : DiskCall) :
    (s.setPoint process (.descriptors call)).diskRw process call =
      s.diskRw process call := by
  unfold DiskState.diskRw DiskState.sleepAt DiskState.submit
  simp only [DiskState.setPoint, Function.update_idem]

theorem unserved_leave
    {point : Nat → DiskPoint}
    {phase : DescIndex → RequestPhase}
    {call : DiskCall}
    {idx : RequestChain}
    (waits : point process = .completion call idx)
    (completed : phase idx.head = .completed) :
    (fun other =>
        (Function.update point process .client other).unserved? phase) =
      fun other => (point other).unserved? phase := by
  funext other
  by_cases isProcess : other = process
  · subst isProcess
    simp [waits, DiskPoint.unserved?, completed]
  · rw [Function.update_of_ne isProcess]

theorem leave
    (fits : CacheFits s)
    (alive : s.panicked = none)
    {call : DiskCall}
    {idx : RequestChain}
    (waits : s.point process = .completion call idx)
    (completed : s.phase idx.head = .completed)
    (entry : RequestInfo) :
    CacheFits
      ((DiskState.freeChain (NUM + 1)
        { s with info := Function.update s.info idx.head entry }
        idx.head).setPoint process .client) := by
  have driver := fits.driver.leave alive waits completed entry
  obtain ⟨free, desc, asleep, isFinal, _⟩ :=
    fits.driver.freeChain alive waits entry
  rw [isFinal] at driver ⊢
  have gets : ∀ call idx, DiskPoint.client ≠ .completion call idx := by
    rintro otherCall otherIdx ⟨⟩
  have data := fits.data
  rw [← unserved_leave waits completed] at data
  refine {
    slots := fits.slots
    callers := ?_
    driver := driver
    sectors := fits.sectors.leave process gets
    data := data
  }
  intro caller called inside
  by_cases isProcess : caller = process
  · subst isProcess
    simp only [DiskState.setPoint, Function.update_self, DiskPoint.call?]
      at inside
    cases inside
  · simp only [DiskState.setPoint, Function.update_of_ne isProcess] at inside
    exact fits.callers caller called inside

theorem resume
    (fits : CacheFits s)
    (alive : s.panicked = none)
    (onTime : s.leavesEarly process = false)
    (resumed : s.resume process = some after) :
    CacheFits after := by
  unfold DiskState.resume at resumed
  split at resumed
  · cases resumed
  · split at resumed
    · cases resumed
    · rename_i call enters
      cases resumed
      exact fits.diskRw enters
    · rename_i call idx waits
      split at resumed
      · cases resumed
        have same : s.sleepAt process (.completion call idx) =
            { s with asleep := Function.update s.asleep process true } := by
          simp [DiskState.sleepAt, ← waits]
        rw [same]
        exact fits.sameParts _ s.panicked
      · rename_i isDone
        cases resumed
        have completed : s.phase idx.head = .completed := by
          simpa [DiskState.leavesEarly, waits, isDone] using onTime
        exact fits.leave alive waits completed _

theorem fetch
    (fits : CacheFits s)
    (fetched : s.fetch = some after) :
    CacheFits after := by
  have driver := fits.driver.fetch fetched
  unfold DiskState.fetch at fetched
  split at fetched
  · cases fetched
  · cases fetched
    exact {
      slots := fits.slots
      callers := fits.callers
      driver := driver
      sectors := fits.sectors
      data := fits.data
    }

theorem unserved_advance
    (fits : CacheFits s)
    {process : Nat}
    {call : DiskCall}
    {idx : RequestChain}
    (waits : s.point process = .completion call idx)
    {next : RequestPhase}
    (notSubmitted : next ≠ .submitted) :
    (fun other =>
        (s.point other).unserved? (Function.update s.phase idx.head next)) =
      Function.update (fun other => (s.point other).unserved? s.phase) process
        none := by
  funext other
  by_cases isProcess : other = process
  · subst isProcess
    simp [waits, DiskPoint.unserved?, notSubmitted]
  · rw [Function.update_of_ne isProcess]
    cases otherWaits : s.point other with
    | client =>
        rfl
    | descriptors otherCall =>
        rfl
    | completion otherCall otherIdx =>
        have differs :=
          fits.driver.requests.heads_differ isProcess otherWaits waits
        simp [DiskPoint.unserved?, differs]

theorem serve
    (fits : CacheFits s)
    {head : DescIndex}
    (served : s.serve head = some after) :
    CacheFits after := by
  have driver := fits.driver.serve served
  by_cases isInFlight : head ∈ s.inFlight
  · obtain ⟨⟨process, call, idx, waits, rfl⟩, phase⟩ :=
      fits.driver.owner_of_inFlight isInFlight
    rw [fits.driver.serve_eq waits isInFlight] at served
    cases served
    obtain ⟨ref, member, isProcess, isB⟩ :=
      fits.callers process call (by rw [waits]; rfl)
    have isRoot := (fits.slots.referenced ref member).1
    rw [isB] at isRoot
    have unserved :
        (s.point process).unserved? s.phase = some call := by
      rw [waits, DiskPoint.unserved?, if_pos phase]
    have block := request_block call (fits.slots.live call.b isRoot).2
    have notSubmitted : RequestPhase.served ≠ .submitted := by
      rintro ⟨⟩
    have newCalls := fits.unserved_advance waits notSubmitted
    obtain ⟨b, write⟩ := call
    have sector := fits.sectors process ⟨b, write⟩ idx waits
    unfold DiskState.transfer at driver ⊢
    rw [sector] at driver ⊢
    rw [block] at driver ⊢
    cases write with
    | false =>
        have same : ∀ c, (s.buf c).SameKey (Function.update s.buf b
            { s.buf b with data := s.disk (s.buf b).blockno } c) :=
          Buf.SameKey.update ⟨rfl, rfl, rfl⟩
        have sameCount : ∀ c, (Function.update s.buf b
            { s.buf b with data := s.disk (s.buf b).blockno } c).refcnt =
              (s.buf c).refcnt :=
          update_component Buf.refcnt rfl
        have alone :
            ∀ other c,
              (s.point other).unserved? s.phase = some ⟨c, true⟩ →
              (s.buf c).blockno = (s.buf b).blockno →
              ∃ ref ∈ s.refs, ref.process = other ∧ ref.b = b := by
          intro other c writes sameBlock
          obtain ⟨otherRef, isMember, isOther, isC⟩ :=
            fits.ref_of_unserved writes
          have otherRoot := (fits.slots.referenced otherRef isMember).1
          rw [isC] at otherRoot
          have isB := fits.slots.unique c b otherRoot isRoot sameBlock
          exact ⟨otherRef, isMember, isOther, isC.trans isB⟩
        have data := fits.data.serveRead unserved alone
        rw [← newCalls] at data
        exact {
          slots := fits.slots.changeUsers same fits.slots.listed
            (fun c => (sameCount c).trans (fits.slots.counted c))
            fits.slots.referenced
          callers := fits.callers
          driver := driver
          sectors := fits.sectors.changeBlocks fun _ call _ =>
            (same call.b).blockno
          data := data
        }
    | true =>
        have data :=
          fits.data.serveWrite unserved isRoot ⟨ref, member, isProcess, isB⟩
        rw [← newCalls] at data
        exact {
          slots := fits.slots
          callers := fits.callers
          driver := driver
          sectors := fits.sectors
          data := data
        }
  · simp [DiskState.serve, isInFlight] at served

theorem intrLoop
    (fits : CacheFits s)
    {rounds : Nat}
    (count :
      (s.postedIdx + ringModulus - s.usedIdx) % ringModulus = rounds) :
    CacheFits (DiskState.intrLoop rounds s) := by
  induction rounds generalizing s with
  | zero =>
      exact fits
  | succ rounds inductionHypothesis =>
      obtain ⟨notEmpty, fewer⟩ := fits.driver.intrRound_count count
      obtain ⟨process, call, idx, waits, isHead, phase, info, driver⟩ :=
        fits.driver.intrRound notEmpty
      unfold DiskState.intrLoop
      simp only [isHead, info, ne_eq, not_true_eq_false, if_false]
      refine inductionHypothesis ?_ fewer
      have same : ∀ c, (s.buf c).SameKey (Function.update s.buf call.b
          { s.buf call.b with disk := false } c) :=
        Buf.SameKey.update ⟨rfl, rfl, rfl⟩
      have sameCount : ∀ c, (Function.update s.buf call.b
          { s.buf call.b with disk := false } c).refcnt =
            (s.buf c).refcnt :=
        update_component Buf.refcnt rfl
      have notSubmitted : RequestPhase.completed ≠ .submitted := by
        rintro ⟨⟩
      have served : (s.point process).unserved? s.phase = none := by
        rw [waits, DiskPoint.unserved?, if_neg (by rw [phase]; rintro ⟨⟩)]
      have newCalls := fits.unserved_advance waits notSubmitted
      rw [← served, Function.update_eq_self] at newCalls
      have data := fits.data.sameBlocks same (update_component Buf.data rfl)
      rw [← newCalls] at data
      exact {
        slots := fits.slots.changeUsers same fits.slots.listed
          (fun c => (sameCount c).trans (fits.slots.counted c))
          fits.slots.referenced
        callers := fits.callers
        driver := driver _ _
        sectors := fits.sectors.changeBlocks fun _ call _ =>
          (same call.b).blockno
        data := data
      }

theorem interrupt
    (fits : CacheFits s) :
    CacheFits s.virtioDiskIntr :=
  fits.intrLoop rfl

end CacheFits

end MyOS
