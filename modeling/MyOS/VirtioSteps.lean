import MyOS.VirtioInvariant

namespace MyOS

/-!
# The driver and the device keep the invariant

The request that `virtio_disk_rw` announces, the device that reads and serves
it, the interrupt handler, and the process that leaves with its chain freed.
-/

namespace DiskState

variable {free after : DescIndex → Bool}

theorem alloc3Desc_spec
    {idx : RequestChain}
    (taken : alloc3Desc free = some (idx, after)) :
    idx.toList.Nodup ∧
      (∀ i ∈ idx.toList, free i = true) ∧
      (∀ i ∈ idx.toList, after i = false) ∧
      ∀ i, i ∉ idx.toList → after i = free i := by
  simp only [alloc3Desc, allocDesc, Option.bind_eq_some_iff,
    Option.map_eq_some_iff, Prod.mk.injEq, Prod.exists] at taken
  obtain ⟨_, _, ⟨head, isHead, rfl, rfl⟩, _, _, ⟨data, isData, rfl, rfl⟩,
    _, _, ⟨status, isStatus, rfl, rfl⟩, rfl, rfl⟩ := taken
  have headFree := List.find?_some isHead
  have dataFree := List.find?_some isData
  have statusFree := List.find?_some isStatus
  have dataNotHead : data ≠ head := by
    rintro rfl
    simp at dataFree
  have statusNotData : status ≠ data := by
    rintro rfl
    simp at statusFree
  rw [Function.update_of_ne dataNotHead] at dataFree
  rw [Function.update_of_ne statusNotData] at statusFree
  have statusNotHead : status ≠ head := by
    rintro rfl
    simp at statusFree
  rw [Function.update_of_ne statusNotHead] at statusFree
  refine ⟨?_, ?_, ?_, ?_⟩
  · simp [RequestChain.toList, dataNotHead.symm, statusNotData.symm,
      statusNotHead.symm]
  · simp [RequestChain.toList, headFree, dataFree, statusFree]
  · simp [RequestChain.toList, Function.update_apply, dataNotHead.symm,
      statusNotData.symm]
  · intro i notMember
    simp only [RequestChain.toList, List.mem_cons, List.not_mem_nil, or_false,
      not_or] at notMember
    simp [notMember]

theorem freeDesc_eq
    {s : DiskState}
    {i : DescIndex}
    (taken : s.free i = false) :
    s.freeDesc i =
      { s with
        desc := Function.update s.desc i ⟨.null, 0, 0, zeroDesc⟩
        free := Function.update s.free i true }.wakeup .descriptors := by
  simp [freeDesc, taken]

theorem freeChain_next
    {s : DiskState}
    {i : DescIndex}
    (alive : s.panicked = none)
    (taken : s.free i = false)
    (continues : (s.desc i).flags &&& VRING_DESC_F_NEXT ≠ 0)
    (rounds : Nat) :
    freeChain (rounds + 1) s i =
      freeChain rounds (s.freeDesc i) (s.desc i).next := by
  have goesOn : (s.freeDesc i).panicked = none := by
    rw [freeDesc_eq taken]
    exact alive
  simp [freeChain, goesOn, continues]

theorem freeChain_last
    {s : DiskState}
    {i : DescIndex}
    (ends : (s.desc i).flags &&& VRING_DESC_F_NEXT = 0)
    (rounds : Nat) :
    freeChain (rounds + 1) s i = s.freeDesc i := by
  simp [freeChain, ends]

/-- Each descriptor of the list continues in the next, and the last ends. -/
def Linked (desc : DescIndex → VirtqDesc) : List DescIndex → Prop
  | [] => True
  | [i] => (desc i).flags &&& VRING_DESC_F_NEXT = 0
  | i :: next :: rest =>
      (desc i).flags &&& VRING_DESC_F_NEXT ≠ 0 ∧
        (desc i).next = next ∧ Linked desc (next :: rest)

theorem Linked.congr
    {desc other : DescIndex → VirtqDesc}
    {chain : List DescIndex}
    (linked : Linked desc chain)
    (same : ∀ i ∈ chain, other i = desc i) :
    Linked other chain := by
  induction chain with
  | nil =>
      exact True.intro
  | cons i rest inductionHypothesis =>
      have sameFirst := same i List.mem_cons_self
      have sameRest : ∀ j ∈ rest, other j = desc j :=
        fun j member => same j (List.mem_cons_of_mem _ member)
      cases rest with
      | nil =>
          simp only [Linked, sameFirst]
          exact linked
      | cons next rest =>
          simp only [Linked, sameFirst]
          exact ⟨linked.1, linked.2.1, inductionHypothesis linked.2.2 sameRest⟩

theorem freeChain_frame
    {s : DiskState}
    {first : DescIndex}
    {rest : List DescIndex}
    {rounds : Nat}
    (alive : s.panicked = none)
    (nodup : (first :: rest).Nodup)
    (taken : ∀ i ∈ first :: rest, s.free i = false)
    (linked : Linked s.desc (first :: rest))
    (enough : rest.length < rounds) :
    ∃ free desc asleep,
      freeChain rounds s first =
          { s with free := free, desc := desc, asleep := asleep } ∧
        (∀ i ∈ first :: rest, free i = true) ∧
        ∀ i, i ∉ first :: rest → free i = s.free i ∧ desc i = s.desc i := by
  obtain ⟨rounds, rfl⟩ := Nat.exists_eq_succ_of_ne_zero
    (Nat.ne_zero_of_lt enough)
  have firstTaken := taken first List.mem_cons_self
  have freed := freeDesc_eq firstTaken
  induction rest generalizing s first rounds with
  | nil =>
      refine ⟨_, _, _, (freeChain_last linked rounds).trans freed, ?_, ?_⟩
      · simp
      · intro i notFirst
        rw [List.mem_singleton] at notFirst
        simp [notFirst]
  | cons next rest inductionHypothesis =>
      obtain ⟨firstNotRest, restNodup⟩ := List.nodup_cons.mp nodup
      have apart : ∀ i ∈ next :: rest, i ≠ first := by
        rintro i member rfl
        exact firstNotRest member
      have restTaken :
          ∀ i ∈ next :: rest, (s.freeDesc first).free i = false := by
        intro i member
        simp only [freed, wakeup, Function.update_of_ne (apart i member)]
        exact taken i (List.mem_cons_of_mem _ member)
      have restLinked : Linked (s.freeDesc first).desc (next :: rest) := by
        refine linked.2.2.congr fun i member => ?_
        simp only [freed, wakeup, Function.update_of_ne (apart i member)]
      have goesOn : (s.freeDesc first).panicked = none := by
        rw [freed]
        exact alive
      obtain ⟨rounds, rfl⟩ := Nat.exists_eq_succ_of_ne_zero
        (Nat.ne_zero_of_lt (Nat.lt_of_succ_lt_succ enough))
      obtain ⟨free, desc, asleep, isFinal, restFreed, frame⟩ :=
        inductionHypothesis goesOn restNodup restTaken restLinked rounds
          (Nat.lt_of_succ_lt_succ enough) (restTaken next List.mem_cons_self)
          (freeDesc_eq (restTaken next List.mem_cons_self))
      refine ⟨free, desc, asleep, ?_, ?_, ?_⟩
      · rw [freeChain_next alive firstTaken linked.1, linked.2.1, isFinal,
          freed]
        rfl
      · intro i member
        rcases List.mem_cons.mp member with rfl | inRest
        · rw [(frame i firstNotRest).1, freed]
          exact Function.update_self _ _ _
        · exact restFreed i inRest
      · intro i notMember
        have notRest : i ∉ next :: rest :=
          fun member => notMember (List.mem_cons_of_mem _ member)
        have notFirst : i ≠ first := by
          rintro rfl
          exact notMember List.mem_cons_self
        have kept := frame i notRest
        simp only [freed, wakeup, Function.update_of_ne notFirst] at kept
        exact kept

end DiskState

theorem RequestFits.linked
    {free : DescIndex → Bool}
    {desc : DescIndex → VirtqDesc}
    {info : DescIndex → RequestInfo}
    {call : DiskCall}
    {idx : RequestChain}
    (request : RequestFits free desc info call idx) :
    DiskState.Linked desc idx.toList := by
  have ends : idx.statusDesc.flags &&& VRING_DESC_F_NEXT = 0 := by
    simp [RequestChain.statusDesc, VRING_DESC_F_NEXT, VRING_DESC_F_WRITE]
  have starts : idx.headDesc.flags &&& VRING_DESC_F_NEXT ≠ 0 := by
    simp [RequestChain.headDesc, VRING_DESC_F_NEXT]
  have continues : (idx.dataDesc call).flags &&& VRING_DESC_F_NEXT ≠ 0 := by
    cases write : call.write <;>
      simp [RequestChain.dataDesc, write, VRING_DESC_F_NEXT,
        VRING_DESC_F_WRITE]
  simp only [RequestChain.toList, DiskState.Linked, request.head,
    request.data, request.status]
  exact ⟨starts, rfl, continues, rfl, ends⟩

namespace DriverFits

variable {s after : DiskState} {process : Nat} {call : DiskCall}
variable {idx : RequestChain}

theorem notOwned_of_free
    (fits : DriverFits s)
    {head : DescIndex}
    (free : s.free head = true) :
    ¬ OwnsHead s.point head := by
  rintro ⟨other, call, idx, waits, rfl⟩
  have taken :=
    (fits.requests.request other call idx waits).taken idx.head idx.head_mem
  rw [free] at taken
  cases taken

theorem submit
    (fits : DriverFits s)
    (had : ∀ call idx, s.point process ≠ .completion call idx)
    {free : DescIndex → Bool}
    (allocated : DiskState.alloc3Desc s.free = some (idx, free)) :
    DriverFits
      ((s.submit call idx free).sleepAt process (.completion call idx)) := by
  obtain ⟨nodup, wereFree, areTaken, others⟩ :=
    DiskState.alloc3Desc_spec allocated
  have unowned := fits.notOwned_of_free (wereFree idx.head idx.head_mem)
  have apart :
      ∀ other otherCall otherIdx,
        s.point other = .completion otherCall otherIdx →
        idx.toList.Disjoint otherIdx.toList := by
    intro other otherCall otherIdx waits i member alsoMember
    have taken :=
      (fits.requests.request other otherCall otherIdx waits).taken i
        alsoMember
    rw [wereFree i member] at taken
    cases taken
  obtain ⟨announced, posted, availHolds, usedHolds, queues⟩ := fits.queues
  have announces := queues.announce had call idx unowned
  have room : announced.length < NUM := by
    have nodup := announces.nodup
    rw [List.append_assoc] at nodup
    have bound := descriptors_length nodup.of_append_left
    rw [List.length_append, List.length_singleton] at bound
    exact bound
  refine {
    requests := ?_
    queues := ⟨announced ++ [idx.head], posted,
      availHolds.push ring_divides room idx.head, usedHolds, announces⟩
  }
  refine fits.requests.change ?_ ?_ ?_
  · intro other otherCall otherIdx _ waits
    exact (fits.requests.request other otherCall otherIdx waits).besides
      (apart other otherCall otherIdx waits) others _ _
  · rintro _ _ ⟨⟩
    exact ⟨.written nodup areTaken, fun other otherCall otherIdx _ waits =>
      apart other otherCall otherIdx waits⟩
  · intro i taken
    by_cases isOwn : i ∈ idx.toList
    · exact Or.inl ⟨call, idx, rfl, isOwn⟩
    · have wasTaken : s.free i = false := (others i isOwn).symm.trans taken
      obtain ⟨other, otherCall, otherIdx, waits, member⟩ :=
        fits.requests.owned i wasTaken
      refine Or.inr ⟨other, otherCall, otherIdx, ?_, waits, member⟩
      rintro rfl
      exact had otherCall otherIdx waits

theorem diskRw
    (fits : DriverFits s)
    (had : ∀ call idx, s.point process ≠ .completion call idx) :
    DriverFits (s.diskRw process call) := by
  unfold DiskState.diskRw
  split
  · have gets : ∀ other idx,
        DiskPoint.descriptors call ≠ .completion other idx := by
      rintro other idx ⟨⟩
    obtain ⟨announced, posted, availHolds, usedHolds, queues⟩ := fits.queues
    have finished :
        ∀ call idx, s.point process = .completion call idx →
          s.phase idx.head = .completed :=
      fun call idx waits => (had call idx waits).elim
    exact {
      requests := fits.requests.move had gets
      queues := ⟨announced, posted, availHolds, usedHolds,
        queues.leave finished gets⟩
    }
  · rename_i idx free allocated
    exact fits.submit had allocated

theorem freeChain
    (fits : DriverFits s)
    (alive : s.panicked = none)
    (waits : s.point process = .completion call idx)
    (entry : RequestInfo) :
    ∃ free desc asleep,
      DiskState.freeChain (NUM + 1)
            { s with info := Function.update s.info idx.head entry }
            idx.head =
          { s with
            info := Function.update s.info idx.head entry
            free := free
            desc := desc
            asleep := asleep } ∧
        (∀ i ∈ idx.toList, free i = true) ∧
        ∀ i, i ∉ idx.toList → free i = s.free i ∧ desc i = s.desc i := by
  have request := fits.requests.request process call idx waits
  have enough : [idx.data, idx.status].length < NUM + 1 :=
    Nat.lt_of_sub_pos (Nat.zero_lt_succ 6)
  exact DiskState.freeChain_frame
    (s := { s with info := Function.update s.info idx.head entry })
    alive request.nodup request.taken request.linked enough

theorem leave
    (fits : DriverFits s)
    (alive : s.panicked = none)
    (waits : s.point process = .completion call idx)
    (completed : s.phase idx.head = .completed)
    (entry : RequestInfo) :
    DriverFits
      ((DiskState.freeChain (NUM + 1)
        { s with info := Function.update s.info idx.head entry }
        idx.head).setPoint process .client) := by
  obtain ⟨free, desc, asleep, isFinal, freed, frame⟩ :=
    fits.freeChain alive waits entry
  rw [isFinal]
  have gets : ∀ call idx, DiskPoint.client ≠ .completion call idx := by
    rintro otherCall otherIdx ⟨⟩
  have finished :
      ∀ otherCall otherIdx, s.point process = .completion otherCall otherIdx →
        s.phase otherIdx.head = .completed := by
    intro otherCall otherIdx otherWaits
    rw [waits] at otherWaits
    cases otherWaits
    exact completed
  obtain ⟨announced, posted, availHolds, usedHolds, queues⟩ := fits.queues
  refine {
    requests := ?_
    queues := ⟨announced, posted, availHolds, usedHolds,
      queues.leave finished gets⟩
  }
  refine fits.requests.change ?_ ?_ ?_
  · intro other otherCall otherIdx differs otherWaits
    have apart :=
      fits.requests.apart process other call otherCall idx otherIdx
        (Ne.symm differs) waits otherWaits
    have outside : ∀ i ∈ otherIdx.toList, i ∉ idx.toList :=
      fun i member isOwn => apart isOwn member
    have headDiffers :=
      fits.requests.heads_differ differs otherWaits waits
    exact (fits.requests.request other otherCall otherIdx otherWaits).frame
      (fun i member => (frame i (outside i member)).1)
      (fun i member => (frame i (outside i member)).2)
      (Function.update_of_ne headDiffers _ _)
  · intro otherCall otherIdx impossible
    exact (gets otherCall otherIdx impossible).elim
  · intro i taken
    have isTaken : free i = false := taken
    have notOwn : i ∉ idx.toList := by
      intro isOwn
      rw [freed i isOwn] at isTaken
      cases isTaken
    obtain ⟨other, otherCall, otherIdx, otherWaits, member⟩ :=
      fits.requests.owned i ((frame i notOwn).1.symm.trans isTaken)
    refine Or.inr ⟨other, otherCall, otherIdx, ?_, otherWaits, member⟩
    rintro rfl
    rw [waits] at otherWaits
    cases otherWaits
    exact notOwn member

theorem fetch
    (fits : DriverFits s)
    (fetched : s.fetch = some after) :
    DriverFits after := by
  unfold DiskState.fetch at fetched
  split at fetched
  · cases fetched
  · rename_i notEmpty
    cases fetched
    obtain ⟨announced, posted, availHolds, usedHolds, queues⟩ := fits.queues
    cases announced with
    | nil =>
        have short : ([] : List DescIndex).length < ringModulus := by
          decide
        exact (notEmpty ((availHolds.eq_nil_iff short).mpr rfl)).elim
    | cons head rest =>
        obtain ⟨isHead, restHolds⟩ := availHolds.pop ring_divides
        rw [isHead]
        exact {
          requests := fits.requests
          queues := ⟨rest, posted, restHolds, usedHolds, queues.fetch⟩
        }

theorem owner_of_inFlight
    (fits : DriverFits s)
    {head : DescIndex}
    (isInFlight : head ∈ s.inFlight) :
    OwnsHead s.point head ∧ s.phase head = .submitted := by
  obtain ⟨announced, posted, _, _, queues⟩ := fits.queues
  exact (queues.submitted head).mp
    (List.mem_append_right announced isInFlight)

theorem serve_eq
    (fits : DriverFits s)
    (waits : s.point process = .completion call idx)
    (isInFlight : idx.head ∈ s.inFlight) :
    s.serve idx.head =
      some
        { s.transfer (s.req idx.head) call.b with
          usedRing := Function.update s.usedRing (s.postedIdx % NUM) idx.head
          postedIdx := (s.postedIdx + 1) % ringModulus
          inFlight := s.inFlight.erase idx.head
          phase := Function.update s.phase idx.head .served } := by
  have request := fits.requests.request process call idx waits
  have sameInfo :
      Function.update s.info idx.head { s.info idx.head with status := 0 } =
        s.info := by
    rw [Function.update_eq_self_iff, request.info]
  unfold DiskState.serve
  simp only [isInFlight, if_true, request.head, RequestChain.headDesc,
    request.data, RequestChain.dataDesc, request.status,
    RequestChain.statusDesc]
  unfold DiskState.transfer
  split
  · simp [DiskState.setBuf, sameInfo]
  · simp [sameInfo]

theorem serve_queues
    (fits : DriverFits s)
    {head : DescIndex}
    (isInFlight : head ∈ s.inFlight) :
    ∃ announced posted,
      Lib.RingHolds NUM ringModulus s.availRing s.fetchedIdx s.availIdx
          announced ∧
        Lib.RingHolds NUM ringModulus
          (Function.update s.usedRing (s.postedIdx % NUM) head)
          s.usedIdx ((s.postedIdx + 1) % ringModulus) posted ∧
        QueuesFit s.point (Function.update s.phase head .served)
          (s.inFlight.erase head) announced posted := by
  obtain ⟨announced, posted, availHolds, usedHolds, queues⟩ := fits.queues
  have next := queues.serve isInFlight
  have room : posted.length < NUM := by
    have bound := descriptors_length next.nodup.of_append_right
    rw [List.length_append, List.length_singleton] at bound
    exact bound
  exact ⟨announced, posted ++ [head], availHolds,
    usedHolds.push ring_divides room head, next⟩

theorem serve
    (fits : DriverFits s)
    {head : DescIndex}
    (served : s.serve head = some after) :
    DriverFits after := by
  by_cases isInFlight : head ∈ s.inFlight
  · obtain ⟨⟨process, call, idx, waits, rfl⟩, _⟩ :=
      fits.owner_of_inFlight isInFlight
    rw [fits.serve_eq waits isInFlight] at served
    cases served
    have queues := fits.serve_queues isInFlight
    unfold DiskState.transfer
    dsimp only
    split
    · exact ⟨fits.requests, queues⟩
    · exact ⟨fits.requests, queues⟩
  · simp [DiskState.serve, isInFlight] at served

theorem intrRound
    (fits : DriverFits s)
    (notEmpty : s.usedIdx ≠ s.postedIdx) :
    ∃ process call idx,
      s.point process = .completion call idx ∧
        s.usedRing (s.usedIdx % NUM) = idx.head ∧
        s.phase idx.head = .served ∧
        s.info idx.head = ⟨some call.b, 0⟩ ∧
        ∀ buf asleep,
          DriverFits
            { s with
              buf := buf
              asleep := asleep
              usedIdx := (s.usedIdx + 1) % ringModulus
              phase := Function.update s.phase idx.head .completed } := by
  obtain ⟨announced, posted, availHolds, usedHolds, queues⟩ := fits.queues
  cases posted with
  | nil =>
      have short : ([] : List DescIndex).length < ringModulus := by
        decide
      exact (notEmpty ((usedHolds.eq_nil_iff short).mpr rfl)).elim
  | cons head rest =>
      obtain ⟨isHead, restHolds⟩ := usedHolds.pop ring_divides
      obtain ⟨⟨process, call, idx, waits, rfl⟩, phase⟩ :=
        (queues.served head).mp List.mem_cons_self
      have request := fits.requests.request process call idx waits
      exact ⟨process, call, idx, waits, isHead, phase, request.info,
        fun buf asleep => {
          requests := fits.requests
          queues := ⟨announced, rest, availHolds, restHolds,
            queues.complete⟩ }⟩

theorem intrRound_count
    (fits : DriverFits s)
    {rounds : Nat}
    (count :
      (s.postedIdx + ringModulus - s.usedIdx) % ringModulus = rounds + 1) :
    s.usedIdx ≠ s.postedIdx ∧
      (s.postedIdx + ringModulus - (s.usedIdx + 1) % ringModulus) %
          ringModulus = rounds := by
  obtain ⟨_, _, _, usedHolds, _⟩ := fits.queues
  have started := usedHolds.started
  have bounded : s.postedIdx < ringModulus := by
    rw [usedHolds.stopped]
    exact Nat.mod_lt _ (by decide)
  constructor
  · intro same
    rw [same, Nat.add_sub_cancel_left, Nat.mod_self] at count
    cases count
  · unfold ringModulus at *
    omega

theorem notServed_of_count
    (fits : DriverFits s)
    (count : (s.postedIdx + ringModulus - s.usedIdx) % ringModulus = 0)
    (waits : s.point process = .completion call idx) :
    s.phase idx.head ≠ .served := by
  obtain ⟨announced, posted, _, usedHolds, queues⟩ := fits.queues
  have short : posted.length < ringModulus := by
    have bound := descriptors_length queues.nodup.of_append_right
    exact Nat.lt_of_le_of_lt bound (by decide)
  rw [usedHolds.length_eq short, List.length_eq_zero_iff] at count
  subst count
  intro served
  have member :=
    (queues.served idx.head).mpr ⟨⟨process, call, idx, waits, rfl⟩, served⟩
  cases member

end DriverFits

end MyOS
