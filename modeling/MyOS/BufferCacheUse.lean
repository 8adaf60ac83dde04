import MyOS.BufferCacheInvariant
import MyOS.VirtioSteps

namespace MyOS

/-!
# The cache's own functions keep the invariant

`bget`, `brelse` and the first halves of `bread` and `bwrite`.  A process that
enters `virtio_disk_rw` is first brought to the loop for its descriptors; what
it does there is the driver's part.
-/

/-- Both buffers are for the same block, and marked valid or not alike. -/
structure Buf.SameKey (before after : Buf) : Prop where
  dev : after.dev = before.dev
  blockno : after.blockno = before.blockno
  valid : after.valid = before.valid

namespace Buf.SameKey

theorem update
    {buf : BufferIndex → Buf}
    {b : BufferIndex}
    {buffer : Buf}
    (same : (buf b).SameKey buffer)
    (c : BufferIndex) :
    (buf c).SameKey (Function.update buf b buffer c) := by
  by_cases isB : c = b
  · subst isB
    rw [Function.update_self]
    exact same
  · rw [Function.update_of_ne isB]
    exact ⟨rfl, rfl, rfl⟩

end Buf.SameKey

theorem update_component
    {Component : Type}
    (component : Buf → Component)
    {buf : BufferIndex → Buf}
    {b : BufferIndex}
    {buffer : Buf}
    (same : component buffer = component (buf b))
    (c : BufferIndex) :
    component (Function.update buf b buffer c) = component (buf c) := by
  by_cases isB : c = b
  · subst isB
    rw [Function.update_self]
    exact same
  · rw [Function.update_of_ne isB]

namespace SlotsFit

variable {buf after : BufferIndex → Buf} {lru : List BufferIndex}
variable {refs : List BufferRef}

theorem changeUsers
    (slots : SlotsFit buf lru refs)
    (same : ∀ b, (buf b).SameKey (after b))
    {newLru : List BufferIndex}
    (listed : ∀ b, b ∈ newLru)
    {newRefs : List BufferRef}
    (counted : ∀ b, (after b).refcnt = newRefs.countP fun ref => ref.b == b)
    (referenced :
      ∀ ref ∈ newRefs,
        (buf ref.b).dev = ROOTDEV ∧ (buf ref.b).blockno = ref.blockno) :
    SlotsFit after newLru newRefs where
  listed := listed
  unique := by
    intro b c isRoot alsoRoot sameBlock
    rw [(same b).dev] at isRoot
    rw [(same c).dev] at alsoRoot
    rw [(same b).blockno, (same c).blockno] at sameBlock
    exact slots.unique b c isRoot alsoRoot sameBlock
  live := by
    intro b isRoot
    rw [(same b).dev] at isRoot
    rw [(same b).valid, (same b).blockno]
    exact slots.live b isRoot
  counted := counted
  referenced := by
    intro ref member
    rw [(same ref.b).dev, (same ref.b).blockno]
    exact referenced ref member

theorem recycle
    (slots : SlotsFit buf lru refs)
    {b : BufferIndex}
    {buffer : Buf}
    (missing :
      ∀ c, (buf c).dev = ROOTDEV → (buf c).blockno ≠ buffer.blockno)
    (unused : ∀ ref ∈ refs, ref.b ≠ b)
    (isRoot : buffer.dev = ROOTDEV)
    (inDisk : buffer.blockno < FSSIZE)
    (valid : buffer.valid = true)
    (single : buffer.refcnt = 1)
    {process : Nat} :
    SlotsFit (Function.update buf b buffer) lru
      (⟨process, b, buffer.blockno⟩ :: refs) where
  listed := slots.listed
  unique := by
    intro c d cRoot dRoot sameBlock
    by_cases cIsB : c = b
    · subst cIsB
      by_cases dIsC : d = c
      · exact dIsC.symm
      · rw [Function.update_of_ne dIsC] at dRoot sameBlock
        rw [Function.update_self] at sameBlock
        exact (missing d dRoot sameBlock.symm).elim
    · rw [Function.update_of_ne cIsB] at cRoot sameBlock
      by_cases dIsB : d = b
      · subst dIsB
        rw [Function.update_self] at sameBlock
        exact (missing c cRoot sameBlock).elim
      · rw [Function.update_of_ne dIsB] at dRoot sameBlock
        exact slots.unique c d cRoot dRoot sameBlock
  live := by
    intro c cRoot
    by_cases isB : c = b
    · subst isB
      rw [Function.update_self]
      exact ⟨valid, inDisk⟩
    · rw [Function.update_of_ne isB] at cRoot ⊢
      exact slots.live c cRoot
  counted := by
    intro c
    by_cases isB : c = b
    · subst isB
      have none : (refs.countP fun ref => ref.b == c) = 0 := by
        rw [List.countP_eq_zero]
        intro ref member
        simpa using unused ref member
      rw [Function.update_self, single, List.countP_cons, none]
      simp
    · rw [Function.update_of_ne isB, slots.counted c, List.countP_cons]
      simp [Ne.symm isB]
  referenced := by
    intro ref member
    rcases List.mem_cons.mp member with rfl | wasMember
    · rw [Function.update_self]
      exact ⟨isRoot, rfl⟩
    · rw [Function.update_of_ne (unused ref wasMember)]
      exact slots.referenced ref wasMember

end SlotsFit

namespace SectorsFit

variable {blockno newBlockno : BufferIndex → Nat}
variable {point : Nat → DiskPoint} {req : DescIndex → VirtioBlkReq}

theorem changeBlocks
    (sectors : SectorsFit blockno point req)
    (same :
      ∀ process call, (point process).call? = some call →
        newBlockno call.b = blockno call.b) :
    SectorsFit newBlockno point req := by
  intro process call idx waits
  rw [same process call (by rw [waits]; rfl)]
  exact sectors process call idx waits

theorem leave
    (sectors : SectorsFit blockno point req)
    (process : Nat)
    {newPoint : DiskPoint}
    (gets : ∀ call idx, newPoint ≠ .completion call idx) :
    SectorsFit blockno (Function.update point process newPoint) req := by
  intro other call idx waits
  by_cases isProcess : other = process
  · subst isProcess
    rw [Function.update_self] at waits
    exact (gets call idx waits).elim
  · rw [Function.update_of_ne isProcess] at waits
    exact sectors other call idx waits

theorem submit
    (sectors : SectorsFit blockno point req)
    {process : Nat}
    {call : DiskCall}
    {idx : RequestChain}
    (unowned : ¬ OwnsHead point idx.head) :
    SectorsFit blockno (Function.update point process (.completion call idx))
      (Function.update req idx.head (call.request (blockno call.b))) := by
  intro other otherCall otherIdx waits
  by_cases isProcess : other = process
  · subst isProcess
    rw [Function.update_self] at waits
    cases waits
    exact Function.update_self _ _ _
  · rw [Function.update_of_ne isProcess] at waits
    have differs : otherIdx.head ≠ idx.head := fun same =>
      unowned ⟨other, otherCall, otherIdx, waits, same⟩
    rw [Function.update_of_ne differs]
    exact sectors other otherCall otherIdx waits

end SectorsFit

theorem DriverFits.move
    {s : DiskState}
    (fits : DriverFits s)
    {process : Nat}
    (client : s.point process = .client)
    {newPoint : DiskPoint}
    (gets : ∀ call idx, newPoint ≠ .completion call idx) :
    DriverFits (s.setPoint process newPoint) := by
  have had : ∀ call idx, s.point process ≠ .completion call idx := by
    intro call idx waits
    rw [client] at waits
    cases waits
  have finished :
      ∀ call idx, s.point process = .completion call idx →
        s.phase idx.head = .completed :=
    fun call idx waits => (had call idx waits).elim
  obtain ⟨announced, posted, availHolds, usedHolds, queues⟩ := fits.queues
  exact {
    requests := fits.requests.move had gets
    queues := ⟨announced, posted, availHolds, usedHolds,
      queues.leave finished gets⟩
  }

theorem DriverFits.changeCache
    {s : DiskState}
    (fits : DriverFits s)
    (buf : BufferIndex → Buf)
    (lru : List BufferIndex)
    (refs : List BufferRef)
    (content : Nat → Block) :
    DriverFits
      { s with buf := buf, lru := lru, refs := refs, content := content } :=
  ⟨fits.requests, fits.queues⟩

theorem CallersRefer.enter
    {point : Nat → DiskPoint}
    {refs newRefs : List BufferRef}
    (callers : CallersRefer point refs)
    (kept : ∀ ref ∈ refs, ref ∈ newRefs)
    {call : DiskCall}
    (own : BufferRef)
    (member : own ∈ newRefs)
    (isBuffer : own.b = call.b) :
    CallersRefer (Function.update point own.process (.descriptors call))
      newRefs := by
  intro caller called inside
  by_cases isOwn : caller = own.process
  · subst isOwn
    rw [Function.update_self] at inside
    cases inside
    exact ⟨own, member, rfl, isBuffer⟩
  · rw [Function.update_of_ne isOwn] at inside
    obtain ⟨ref, wasMember, isCaller, ofCall⟩ :=
      callers caller called inside
    exact ⟨ref, kept ref wasMember, isCaller, ofCall⟩

namespace DataFits

variable {buf after : BufferIndex → Buf} {refs : List BufferRef}
variable {unserved? : Nat → Option DiskCall} {content disk : Nat → Block}

theorem sameBlocks
    (data : DataFits buf refs unserved? content disk)
    (same : ∀ b, (buf b).SameKey (after b))
    (sameData : ∀ b, (after b).data = (buf b).data) :
    DataFits after refs unserved? content disk where
  loader := data.loader
  cached := by
    intro b isRoot notLoading
    rw [(same b).dev] at isRoot
    rw [sameData, (same b).blockno]
    exact data.cached b isRoot notLoading
  stored := by
    intro blockno noWrite
    refine data.stored blockno fun process b unserved => ?_
    rw [← (same b).blockno]
    exact noWrite process b unserved

theorem changeRefs
    (data : DataFits buf refs unserved? content disk)
    {newRefs : List BufferRef}
    (old :
      ∀ ref ∈ newRefs, ref ∈ refs ∨
        ∀ process, unserved? process ≠ some ⟨ref.b, false⟩)
    (kept :
      ∀ ref ∈ refs, unserved? ref.process ≠ none → ref ∈ newRefs) :
    DataFits buf newRefs unserved? content disk where
  loader := by
    intro process b unserved ref member isB
    rcases old ref member with wasMember | notLoading
    · exact data.loader process b unserved ref wasMember isB
    · subst isB
      exact (notLoading process unserved).elim
  cached := by
    intro b isRoot notLoading
    refine data.cached b isRoot fun ref member isB unserved => ?_
    have isKept := kept ref member (by rw [unserved]; rintro ⟨⟩)
    exact notLoading ref isKept isB unserved
  stored := data.stored

theorem enterWrite
    (data : DataFits buf refs unserved? content disk)
    {process : Nat}
    (idle : unserved? process = none)
    {b : BufferIndex}
    (alone :
      ∀ c, (buf c).dev = ROOTDEV → (buf c).blockno = (buf b).blockno → c = b)
    (bytes : Block) :
    DataFits (Function.update buf b { buf b with data := bytes }) refs
      (Function.update unserved? process (some ⟨b, true⟩))
      (Function.update content (buf b).blockno bytes) disk := by
  have sameDev : ∀ c, (Function.update buf b
      { buf b with data := bytes } c).dev = (buf c).dev :=
    update_component Buf.dev rfl
  have sameBlock : ∀ c, (Function.update buf b
      { buf b with data := bytes } c).blockno = (buf c).blockno :=
    update_component Buf.blockno rfl
  have reads :
      ∀ other c,
        Function.update unserved? process (some ⟨b, true⟩) other =
            some ⟨c, false⟩ ↔
          unserved? other = some ⟨c, false⟩ := by
    intro other c
    by_cases isProcess : other = process
    · subst isProcess
      simp [idle]
    · rw [Function.update_of_ne isProcess]
  refine {
    loader := ?_
    cached := ?_
    stored := ?_
  }
  · intro other c unserved
    exact data.loader other c ((reads other c).mp unserved)
  · intro c isRoot notLoading
    rw [sameDev] at isRoot
    rw [sameBlock]
    by_cases isB : c = b
    · subst isB
      simp
    · have otherBlock : (buf c).blockno ≠ (buf b).blockno :=
        fun same => isB (alone c isRoot same)
      rw [Function.update_of_ne isB, Function.update_of_ne otherBlock]
      refine data.cached c isRoot fun ref member isC unserved => ?_
      exact notLoading ref member isC ((reads ref.process c).mpr unserved)
  · intro blockno noWrite
    have otherBlock : blockno ≠ (buf b).blockno := by
      intro same
      have own := noWrite process b (Function.update_self _ _ _)
      rw [sameBlock] at own
      exact own same.symm
    rw [Function.update_of_ne otherBlock]
    refine data.stored blockno fun other c unserved => ?_
    have notProcess : other ≠ process := by
      rintro rfl
      rw [idle] at unserved
      cases unserved
    rw [← sameBlock c]
    exact noWrite other c (by rw [Function.update_of_ne notProcess]; exact unserved)

theorem enterRead
    (data : DataFits buf refs unserved? content disk)
    {process : Nat}
    (idle : unserved? process = none)
    {b : BufferIndex}
    (unused : ∀ ref ∈ refs, ref.b ≠ b)
    (users :
      ∀ other call, unserved? other = some call →
        ∃ ref ∈ refs, ref.process = other ∧ ref.b = call.b)
    (buffer : Buf)
    (blockno : Nat) :
    DataFits (Function.update buf b buffer) (⟨process, b, blockno⟩ :: refs)
      (Function.update unserved? process (some ⟨b, false⟩)) content disk := by
  have notB :
      ∀ other call, unserved? other = some call → call.b ≠ b := by
    intro other call unserved isB
    obtain ⟨ref, member, _, isBuffer⟩ := users other call unserved
    exact unused ref member (isBuffer.trans isB)
  have kept :
      ∀ other call, unserved? other = some call →
        Function.update unserved? process (some ⟨b, false⟩) other =
          some call := by
    intro other call unserved
    have notProcess : other ≠ process := by
      rintro rfl
      rw [idle] at unserved
      cases unserved
    rw [Function.update_of_ne notProcess]
    exact unserved
  refine {
    loader := ?_
    cached := ?_
    stored := ?_
  }
  · intro other c unserved ref member isC
    by_cases isProcess : other = process
    · subst isProcess
      rw [Function.update_self] at unserved
      cases unserved
      rcases List.mem_cons.mp member with rfl | wasMember
      · rfl
      · exact (unused ref wasMember isC).elim
    · rw [Function.update_of_ne isProcess] at unserved
      rcases List.mem_cons.mp member with rfl | wasMember
      · exact (notB other _ unserved isC.symm).elim
      · exact data.loader other c unserved ref wasMember isC
  · intro c isRoot notLoading
    have notC : c ≠ b := by
      rintro rfl
      exact notLoading _ List.mem_cons_self rfl (Function.update_self _ _ _)
    rw [Function.update_of_ne notC] at isRoot ⊢
    refine data.cached c isRoot fun ref member isC unserved => ?_
    exact notLoading ref (List.mem_cons_of_mem _ member) isC
      (kept ref.process _ unserved)
  · intro n noWrite
    refine data.stored n fun other c unserved => ?_
    have ofBuffer := noWrite other c (kept other _ unserved)
    rw [Function.update_of_ne (notB other _ unserved)] at ofBuffer
    exact ofBuffer

end DataFits

namespace CacheFits

variable {s : DiskState} {process : Nat} {b : BufferIndex} {buffer : Buf}

theorem unserved_of_client
    (client : s.point process = .client) :
    (s.point process).unserved? s.phase = none := by
  rw [client]
  rfl

theorem hit
    (fits : CacheFits s)
    {blockno : Nat}
    (isRoot : (s.buf b).dev = ROOTDEV)
    (isBlock : (s.buf b).blockno = blockno)
    (loaded : s.isLoading b = false) :
    CacheFits
      { s.setBuf b { s.buf b with refcnt := (s.buf b).refcnt + 1 } with
        refs := ⟨process, b, blockno⟩ :: s.refs } := by
  have same : ∀ c, (s.buf c).SameKey (Function.update s.buf b
      { s.buf b with refcnt := (s.buf b).refcnt + 1 } c) :=
    Buf.SameKey.update ⟨rfl, rfl, rfl⟩
  have notLoading := (isLoading_iff b).mp loaded
  refine {
    slots := fits.slots.changeUsers same fits.slots.listed ?_ ?_
    callers := ?_
    driver := fits.driver.changeCache _ _ _ _
    sectors := fits.sectors.changeBlocks fun _ call _ =>
      (same call.b).blockno
    data :=
      (fits.data.sameBlocks same (update_component Buf.data rfl)).changeRefs
        ?_ ?_
  }
  · intro c
    by_cases isB : c = b
    · subst isB
      simp [fits.slots.counted c]
    · simp [isB, Ne.symm isB, fits.slots.counted c]
  · intro ref member
    rcases List.mem_cons.mp member with rfl | wasMember
    · exact ⟨isRoot, isBlock⟩
    · exact fits.slots.referenced ref wasMember
  · intro caller call inside
    obtain ⟨ref, member, isCaller, isBuffer⟩ :=
      fits.callers caller call inside
    exact ⟨ref, List.mem_cons_of_mem _ member, isCaller, isBuffer⟩
  · intro ref member
    rcases List.mem_cons.mp member with rfl | wasMember
    · right
      intro caller unserved
      obtain ⟨ref, member, isCaller, isBuffer⟩ :=
        fits.ref_of_unserved unserved
      exact notLoading ref member isBuffer (by rw [isCaller]; exact unserved)
    · exact Or.inl wasMember
  · intro ref member _
    exact List.mem_cons_of_mem _ member

theorem brelse
    (fits : CacheFits s)
    (client : s.point process = .client)
    (uses : s.refs.any (BufferRef.uses process b) = true) :
    CacheFits (s.brelse process b) := by
  have same : ∀ c, (s.buf c).SameKey (Function.update s.buf b
      { s.buf b with refcnt := (s.buf b).refcnt - 1 } c) :=
    Buf.SameKey.update ⟨rfl, rfl, rfl⟩
  have kept :
      ∀ ref ∈ s.refs, ref.process ≠ process →
        ref ∈ s.refs.eraseP (BufferRef.uses process b) := by
    intro ref member other
    refine (List.mem_eraseP_of_neg ?_).mpr member
    simp [BufferRef.uses, other]
  obtain ⟨someUse, someMember, someUses⟩ := List.any_eq_true.mp uses
  obtain ⟨used, first, rest, _, isUsed, split, erased⟩ :=
    List.exists_of_eraseP someMember someUses
  have usedB : used.b = b := by
    simp only [BufferRef.uses, Bool.and_eq_true, beq_iff_eq] at isUsed
    exact isUsed.2
  refine {
    slots := fits.slots.changeUsers same ?_ ?_ ?_
    callers := ?_
    driver := fits.driver.changeCache _ _ _ _
    sectors := fits.sectors.changeBlocks fun _ call _ =>
      (same call.b).blockno
    data :=
      (fits.data.sameBlocks same (update_component Buf.data rfl)).changeRefs
        ?_ ?_
  }
  · intro c
    have listed := fits.slots.listed c
    unfold DiskState.brelse
    dsimp only
    split
    · by_cases isB : c = b
      · rw [isB]
        exact List.mem_cons_self
      · exact List.mem_cons_of_mem _ ((List.mem_erase_of_ne isB).mpr listed)
    · exact listed
  · intro c
    unfold DiskState.brelse
    dsimp only
    have was := fits.slots.counted c
    rw [split, List.countP_append, List.countP_cons, usedB] at was
    rw [erased, List.countP_append]
    by_cases isB : c = b
    · subst isB
      simp only [Function.update_self, was]
      simp
    · simp [isB, was, Ne.symm isB]
  · intro ref member
    exact fits.slots.referenced ref (List.mem_of_mem_eraseP member)
  · intro caller call inside
    obtain ⟨ref, member, isCaller, isBuffer⟩ :=
      fits.callers caller call inside
    refine ⟨ref, kept ref member ?_, isCaller, isBuffer⟩
    intro isProcess
    have waits : (s.point process).call? = some call := by
      rw [← isProcess, isCaller]
      exact inside
    rw [client] at waits
    cases waits
  · intro ref member
    exact Or.inl (List.mem_of_mem_eraseP member)
  · intro ref member unserved
    refine kept ref member ?_
    rintro rfl
    exact unserved (unserved_of_client client)

theorem unserved_enter
    (s : DiskState)
    (process : Nat)
    (call : DiskCall) :
    (fun other =>
        (Function.update s.point process (.descriptors call) other).unserved?
          s.phase) =
      Function.update (fun other => (s.point other).unserved? s.phase) process
        (some call) := by
  funext other
  by_cases isProcess : other = process
  · subst isProcess
    simp [DiskPoint.unserved?]
  · simp [isProcess]

theorem store
    (fits : CacheFits s)
    (client : s.point process = .client)
    (uses : s.refs.any (BufferRef.uses process b) = true)
    (bytes : Block) :
    CacheFits
      ({ s.setBuf b { s.buf b with data := bytes } with
        content := Function.update s.content (s.buf b).blockno bytes }.setPoint
          process (.descriptors ⟨b, true⟩)) := by
  obtain ⟨own, member, isOwn⟩ := List.any_eq_true.mp uses
  simp only [BufferRef.uses, Bool.and_eq_true, beq_iff_eq] at isOwn
  obtain ⟨rfl, rfl⟩ := isOwn
  have isRoot := (fits.slots.referenced own member).1
  have same : ∀ c, (s.buf c).SameKey (Function.update s.buf own.b
      { s.buf own.b with data := bytes } c) :=
    Buf.SameKey.update ⟨rfl, rfl, rfl⟩
  have sameCount : ∀ c, (Function.update s.buf own.b
      { s.buf own.b with data := bytes } c).refcnt = (s.buf c).refcnt :=
    update_component Buf.refcnt rfl
  have noChain :
      ∀ call idx,
        DiskPoint.descriptors ⟨own.b, true⟩ ≠ .completion call idx := by
    rintro call idx ⟨⟩
  have alone :
      ∀ c, (s.buf c).dev = ROOTDEV →
        (s.buf c).blockno = (s.buf own.b).blockno → c = own.b :=
    fun c alsoRoot sameBlock =>
      fits.slots.unique c own.b alsoRoot isRoot sameBlock
  have data :=
    fits.data.enterWrite (unserved_of_client client) alone bytes
  rw [← unserved_enter] at data
  exact {
    slots := fits.slots.changeUsers same fits.slots.listed
      (fun c => (sameCount c).trans (fits.slots.counted c))
      fits.slots.referenced
    callers := fits.callers.enter (fun _ isMember => isMember) own member rfl
    driver :=
      (fits.driver.move client noChain).changeCache _ _ _ _
    sectors := (fits.sectors.changeBlocks fun _ call _ =>
      (same call.b).blockno).leave own.process noChain
    data := data
  }

theorem recycle
    (fits : CacheFits s)
    (client : s.point process = .client)
    (missing :
      ∀ c, (s.buf c).dev = ROOTDEV → (s.buf c).blockno ≠ buffer.blockno)
    (unused : (s.buf b).refcnt = 0)
    (isRoot : buffer.dev = ROOTDEV)
    (inDisk : buffer.blockno < FSSIZE)
    (valid : buffer.valid = true)
    (single : buffer.refcnt = 1) :
    CacheFits
      ({ s.setBuf b buffer with
        refs := ⟨process, b, buffer.blockno⟩ :: s.refs }.setPoint process
          (.descriptors ⟨b, false⟩)) := by
  have notUsed : ∀ ref ∈ s.refs, ref.b ≠ b := by
    intro ref member isB
    rw [fits.slots.counted b, List.countP_eq_zero] at unused
    exact unused ref member (by simpa using isB)
  have noChain :
      ∀ call idx, DiskPoint.descriptors ⟨b, false⟩ ≠ .completion call idx := by
    rintro call idx ⟨⟩
  have data :=
    fits.data.enterRead (unserved_of_client client) notUsed
      (fun _ _ unserved => fits.ref_of_unserved unserved) buffer
      buffer.blockno
  rw [← unserved_enter] at data
  have sameBlock :
      ∀ other call, (s.point other).call? = some call →
        (Function.update s.buf b buffer call.b).blockno =
          (s.buf call.b).blockno := by
    intro other call inside
    obtain ⟨ref, member, _, isBuffer⟩ := fits.callers other call inside
    rw [← isBuffer, Function.update_of_ne (notUsed ref member)]
  exact {
    slots := fits.slots.recycle missing notUsed isRoot inDisk valid single
    callers := fits.callers.enter
      (fun _ isMember => List.mem_cons_of_mem _ isMember)
      ⟨process, b, buffer.blockno⟩ List.mem_cons_self rfl
    driver :=
      (fits.driver.move client noChain).changeCache _ _ _ _
    sectors := (fits.sectors.changeBlocks sameBlock).leave process noChain
    data := data
  }

end CacheFits

end MyOS
