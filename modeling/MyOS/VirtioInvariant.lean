import MyOS.Lib.Ring
import MyOS.VirtioDisk

namespace MyOS

/-!
# What holds of the driver between waits

Every request in progress is made of three descriptors that no other request
uses, and stands in exactly one of the queues between `virtio_disk_rw` and the
interrupt handler.  Each part of the invariant names the components it is
about.
-/

/-- A process waits for the completion of the request with this head. -/
def OwnsHead (point : Nat → DiskPoint) (head : DescIndex) : Prop :=
  ∃ process call idx,
    point process = .completion call idx ∧ idx.head = head

/-- The descriptors of a request as `virtio_disk_rw` wrote them. -/
structure RequestFits
    (free : DescIndex → Bool)
    (desc : DescIndex → VirtqDesc)
    (info : DescIndex → RequestInfo)
    (call : DiskCall)
    (idx : RequestChain) : Prop where
  nodup : idx.toList.Nodup
  taken : ∀ i ∈ idx.toList, free i = false
  head : desc idx.head = idx.headDesc
  data : desc idx.data = idx.dataDesc call
  status : desc idx.status = idx.statusDesc
  info : info idx.head = ⟨some call.b, 0⟩

/-- The requests of all processes use different descriptors, and no others. -/
structure RequestsFit
    (point : Nat → DiskPoint)
    (free : DescIndex → Bool)
    (desc : DescIndex → VirtqDesc)
    (info : DescIndex → RequestInfo) : Prop where
  request :
    ∀ process call idx, point process = .completion call idx →
      RequestFits free desc info call idx
  apart :
    ∀ process other call otherCall idx otherIdx,
      process ≠ other →
      point process = .completion call idx →
      point other = .completion otherCall otherIdx →
      idx.toList.Disjoint otherIdx.toList
  owned :
    ∀ i, free i = false →
      ∃ process call idx,
        point process = .completion call idx ∧ i ∈ idx.toList

/-- Where the requests are that the interrupt handler has not seen. -/
structure QueuesFit
    (point : Nat → DiskPoint)
    (phase : DescIndex → RequestPhase)
    (inFlight announced posted : List DescIndex) : Prop where
  nodup : (announced ++ inFlight ++ posted).Nodup
  submitted :
    ∀ head, head ∈ announced ++ inFlight ↔
      OwnsHead point head ∧ phase head = .submitted
  served :
    ∀ head, head ∈ posted ↔ OwnsHead point head ∧ phase head = .served

/-- The invariant of the driver and the device. -/
structure DriverFits (s : DiskState) : Prop where
  requests : RequestsFit s.point s.free s.desc s.info
  queues :
    ∃ announced posted,
      Lib.RingHolds NUM ringModulus s.availRing s.fetchedIdx s.availIdx
          announced ∧
        Lib.RingHolds NUM ringModulus s.usedRing s.usedIdx s.postedIdx
          posted ∧
        QueuesFit s.point s.phase s.inFlight announced posted

theorem ring_divides : NUM ∣ ringModulus := by
  decide

theorem descriptors_length
    {list : List DescIndex}
    (nodup : list.Nodup) :
    list.length ≤ NUM := by
  have within : list ⊆ List.finRange NUM :=
    fun head _ => List.mem_finRange head
  have bound := (List.subperm_of_subset nodup within).length_le
  rw [List.length_finRange] at bound
  exact bound

theorem RequestChain.head_mem (idx : RequestChain) : idx.head ∈ idx.toList := by
  simp [RequestChain.toList]

namespace RequestFits

variable {free newFree : DescIndex → Bool}
variable {desc newDesc : DescIndex → VirtqDesc}
variable {info newInfo : DescIndex → RequestInfo}
variable {call : DiskCall} {idx : RequestChain}

theorem frame
    (request : RequestFits free desc info call idx)
    (sameFree : ∀ i ∈ idx.toList, newFree i = free i)
    (sameDesc : ∀ i ∈ idx.toList, newDesc i = desc i)
    (sameInfo : newInfo idx.head = info idx.head) :
    RequestFits newFree newDesc newInfo call idx where
  nodup := request.nodup
  taken := by
    intro i member
    rw [sameFree i member]
    exact request.taken i member
  head := by
    rw [sameDesc idx.head idx.head_mem]
    exact request.head
  data := by
    rw [sameDesc idx.data (by simp [RequestChain.toList])]
    exact request.data
  status := by
    rw [sameDesc idx.status (by simp [RequestChain.toList])]
    exact request.status
  info := by
    rw [sameInfo]
    exact request.info

theorem written
    (nodup : idx.toList.Nodup)
    (taken : ∀ i ∈ idx.toList, free i = false) :
    RequestFits free (idx.write call desc)
      (Function.update info idx.head ⟨some call.b, 0⟩) call idx := by
  have differ := nodup
  simp only [RequestChain.toList, List.nodup_cons, List.mem_cons,
    List.not_mem_nil, or_false, not_or, not_false_eq_true, List.nodup_nil,
    and_true] at differ
  obtain ⟨⟨headNotData, headNotStatus⟩, dataNotStatus⟩ := differ
  refine {
    nodup := nodup
    taken := taken
    head := ?_
    data := ?_
    status := Function.update_self _ _ _
    info := Function.update_self _ _ _
  }
  · rw [RequestChain.write, Function.update_of_ne headNotStatus,
      Function.update_of_ne headNotData, Function.update_self]
  · rw [RequestChain.write, Function.update_of_ne dataNotStatus,
      Function.update_self]

theorem besides
    (request : RequestFits free desc info call idx)
    {own : RequestChain}
    (apart : own.toList.Disjoint idx.toList)
    (sameFree : ∀ i, i ∉ own.toList → newFree i = free i)
    (ownCall : DiskCall)
    (entry : RequestInfo) :
    RequestFits newFree (own.write ownCall desc)
      (Function.update info own.head entry) call idx := by
  have notOwn : ∀ i ∈ idx.toList, i ∉ own.toList :=
    fun i member isOwn => apart isOwn member
  have differs :
      ∀ i ∈ idx.toList, i ≠ own.head ∧ i ≠ own.data ∧ i ≠ own.status := by
    intro i member
    simpa [RequestChain.toList] using notOwn i member
  refine request.frame (fun i member => sameFree i (notOwn i member)) ?_
    (Function.update_of_ne (differs idx.head idx.head_mem).1 _ _)
  intro i member
  obtain ⟨notHead, notData, notStatus⟩ := differs i member
  rw [RequestChain.write, Function.update_of_ne notStatus,
    Function.update_of_ne notData, Function.update_of_ne notHead]

end RequestFits

namespace RequestsFit

variable {point : Nat → DiskPoint} {free : DescIndex → Bool}
variable {desc : DescIndex → VirtqDesc} {info : DescIndex → RequestInfo}

theorem heads_differ
    (requests : RequestsFit point free desc info)
    {process other : Nat}
    {call otherCall : DiskCall}
    {idx otherIdx : RequestChain}
    (differ : process ≠ other)
    (waits : point process = .completion call idx)
    (otherWaits : point other = .completion otherCall otherIdx) :
    idx.head ≠ otherIdx.head := by
  have apart :=
    requests.apart process other call otherCall idx otherIdx differ waits
      otherWaits
  intro same
  refine apart idx.head_mem ?_
  rw [same]
  exact otherIdx.head_mem

theorem change
    (requests : RequestsFit point free desc info)
    {newFree : DescIndex → Bool}
    {newDesc : DescIndex → VirtqDesc}
    {newInfo : DescIndex → RequestInfo}
    {process : Nat}
    {newPoint : DiskPoint}
    (others :
      ∀ other call idx, other ≠ process →
        point other = .completion call idx →
        RequestFits newFree newDesc newInfo call idx)
    (own :
      ∀ call idx, newPoint = .completion call idx →
        RequestFits newFree newDesc newInfo call idx ∧
          ∀ other otherCall otherIdx, other ≠ process →
            point other = .completion otherCall otherIdx →
            idx.toList.Disjoint otherIdx.toList)
    (owned :
      ∀ i, newFree i = false →
        (∃ call idx, newPoint = .completion call idx ∧ i ∈ idx.toList) ∨
          ∃ other call idx, other ≠ process ∧
            point other = .completion call idx ∧ i ∈ idx.toList) :
    RequestsFit (Function.update point process newPoint) newFree newDesc
      newInfo where
  request := by
    intro other call idx waits
    by_cases isProcess : other = process
    · subst isProcess
      rw [Function.update_self] at waits
      exact (own call idx waits).1
    · rw [Function.update_of_ne isProcess] at waits
      exact others other call idx isProcess waits
  apart := by
    intro one other call otherCall idx otherIdx differ waits alsoWaits
    by_cases oneIsProcess : one = process
    · subst oneIsProcess
      rw [Function.update_self] at waits
      rw [Function.update_of_ne differ.symm] at alsoWaits
      exact (own call idx waits).2 other otherCall otherIdx differ.symm
        alsoWaits
    · rw [Function.update_of_ne oneIsProcess] at waits
      by_cases otherIsProcess : other = process
      · subst otherIsProcess
        rw [Function.update_self] at alsoWaits
        intro i member alsoMember
        exact (own otherCall otherIdx alsoWaits).2 one call idx differ waits
          alsoMember member
      · rw [Function.update_of_ne otherIsProcess] at alsoWaits
        exact requests.apart one other call otherCall idx otherIdx differ
          waits alsoWaits
  owned := by
    intro i taken
    rcases owned i taken with
      ⟨call, idx, isOwn, member⟩ | ⟨other, call, idx, differs, waits, member⟩
    · exact ⟨process, call, idx, by rw [Function.update_self, isOwn], member⟩
    · exact ⟨other, call, idx, by rw [Function.update_of_ne differs, waits],
        member⟩

theorem move
    (requests : RequestsFit point free desc info)
    {process : Nat}
    (had : ∀ call idx, point process ≠ .completion call idx)
    {newPoint : DiskPoint}
    (gets : ∀ call idx, newPoint ≠ .completion call idx) :
    RequestsFit (Function.update point process newPoint) free desc info := by
  refine requests.change ?_ ?_ ?_
  · intro other call idx _ waits
    exact requests.request other call idx waits
  · intro call idx waits
    exact (gets call idx waits).elim
  · intro i taken
    obtain ⟨other, call, idx, waits, member⟩ := requests.owned i taken
    refine Or.inr ⟨other, call, idx, ?_, waits, member⟩
    rintro rfl
    exact had call idx waits

end RequestsFit

namespace QueuesFit

variable {point : Nat → DiskPoint} {phase : DescIndex → RequestPhase}
variable {inFlight announced posted : List DescIndex} {head : DescIndex}

theorem leave
    (queues : QueuesFit point phase inFlight announced posted)
    {process : Nat}
    (finished :
      ∀ call idx, point process = .completion call idx →
        phase idx.head = .completed)
    {newPoint : DiskPoint}
    (gets : ∀ call idx, newPoint ≠ .completion call idx) :
    QueuesFit (Function.update point process newPoint) phase inFlight
      announced posted := by
  have owns :
      ∀ head, phase head ≠ .completed →
        (OwnsHead (Function.update point process newPoint) head ↔
          OwnsHead point head) := by
    intro head unfinished
    constructor
    · rintro ⟨other, call, idx, waits, isHead⟩
      by_cases isProcess : other = process
      · subst isProcess
        rw [Function.update_self] at waits
        exact (gets call idx waits).elim
      · rw [Function.update_of_ne isProcess] at waits
        exact ⟨other, call, idx, waits, isHead⟩
    · rintro ⟨other, call, idx, waits, isHead⟩
      have isOther : other ≠ process := by
        rintro rfl
        rw [← isHead] at unfinished
        exact unfinished (finished call idx waits)
      refine ⟨other, call, idx, ?_, isHead⟩
      rw [Function.update_of_ne isOther]
      exact waits
  refine {
    nodup := queues.nodup
    submitted := ?_
    served := ?_
  }
  · intro head
    rw [queues.submitted]
    refine and_congr_left fun isSubmitted => (owns head ?_).symm
    rw [isSubmitted]
    rintro ⟨⟩
  · intro head
    rw [queues.served]
    refine and_congr_left fun isServed => (owns head ?_).symm
    rw [isServed]
    rintro ⟨⟩

theorem announce
    (queues : QueuesFit point phase inFlight announced posted)
    {process : Nat}
    (had : ∀ call idx, point process ≠ .completion call idx)
    (call : DiskCall)
    (idx : RequestChain)
    (unowned : ¬ OwnsHead point idx.head) :
    QueuesFit (Function.update point process (.completion call idx))
      (Function.update phase idx.head .submitted) inFlight
      (announced ++ [idx.head]) posted := by
  have notAnnounced : idx.head ∉ announced ++ inFlight :=
    fun member => unowned ((queues.submitted _).mp member).1
  have notPosted : idx.head ∉ posted :=
    fun member => unowned ((queues.served _).mp member).1
  have owns :
      ∀ head, head ≠ idx.head →
        (OwnsHead (Function.update point process (.completion call idx))
            head ↔ OwnsHead point head) := by
    intro head differs
    constructor
    · rintro ⟨other, otherCall, otherIdx, waits, isHead⟩
      have isOther : other ≠ process := by
        rintro rfl
        rw [Function.update_self] at waits
        cases waits
        exact differs isHead.symm
      rw [Function.update_of_ne isOther] at waits
      exact ⟨other, otherCall, otherIdx, waits, isHead⟩
    · rintro ⟨other, otherCall, otherIdx, waits, isHead⟩
      have isOther : other ≠ process := by
        rintro rfl
        exact had otherCall otherIdx waits
      refine ⟨other, otherCall, otherIdx, ?_, isHead⟩
      rw [Function.update_of_ne isOther]
      exact waits
  refine {
    nodup := ?_
    submitted := ?_
    served := ?_
  }
  · have moved :
        (announced ++ [idx.head] ++ inFlight ++ posted).Perm
          (idx.head :: (announced ++ inFlight ++ posted)) := by
      simp only [List.append_assoc, List.singleton_append]
      exact List.perm_middle
    rw [moved.nodup_iff, List.nodup_cons]
    refine ⟨?_, queues.nodup⟩
    rw [List.mem_append, not_or]
    exact ⟨notAnnounced, notPosted⟩
  · intro head
    by_cases isNew : head = idx.head
    · subst isNew
      simp only [List.mem_append, List.mem_singleton, or_true, true_or,
        Function.update_self, and_true, true_iff]
      exact ⟨process, call, idx, Function.update_self _ _ _, rfl⟩
    · rw [Function.update_of_ne isNew, owns head isNew, ← queues.submitted]
      simp [isNew]
  · intro head
    by_cases isNew : head = idx.head
    · subst isNew
      simp [notPosted]
    · rw [Function.update_of_ne isNew, owns head isNew, ← queues.served]

theorem fetch
    (queues : QueuesFit point phase inFlight (head :: announced) posted) :
    QueuesFit point phase (inFlight ++ [head]) announced posted := by
  have moved :
      (announced ++ (inFlight ++ [head])).Perm
        (head :: announced ++ inFlight) := by
    rw [← List.append_assoc, List.cons_append]
    exact List.perm_append_singleton head _
  exact {
    nodup := (moved.append_right posted).nodup_iff.mpr queues.nodup
    submitted := fun other => moved.mem_iff.trans (queues.submitted other)
    served := queues.served
  }

theorem advance
    (queues : QueuesFit point phase inFlight announced posted)
    {next : RequestPhase}
    {newInFlight newPosted : List DescIndex}
    (notSubmitted : next ≠ .submitted)
    (owned : OwnsHead point head)
    (nodup : (announced ++ newInFlight ++ newPosted).Nodup)
    (left : head ∉ announced ++ newInFlight)
    (kept :
      ∀ other, other ≠ head →
        (other ∈ announced ++ newInFlight ↔ other ∈ announced ++ inFlight))
    (enters : head ∈ newPosted ↔ next = .served)
    (waits : ∀ other, other ≠ head → (other ∈ newPosted ↔ other ∈ posted)) :
    QueuesFit point (Function.update phase head next) newInFlight announced
      newPosted where
  nodup := nodup
  submitted := by
    intro other
    by_cases isHead : other = head
    · subst isHead
      simp [left, notSubmitted]
    · rw [Function.update_of_ne isHead, kept other isHead, queues.submitted]
  served := by
    intro other
    by_cases isHead : other = head
    · subst isHead
      simp [enters, owned]
    · rw [Function.update_of_ne isHead, waits other isHead, queues.served]

theorem serve
    (queues : QueuesFit point phase inFlight announced posted)
    (isInFlight : head ∈ inFlight) :
    QueuesFit point (Function.update phase head .served)
      (inFlight.erase head) announced (posted ++ [head]) := by
  have owned :=
    (queues.submitted head).mp (List.mem_append_right announced isInFlight)
  have moved :
      (announced ++ inFlight.erase head ++ (posted ++ [head])).Perm
        (announced ++ inFlight ++ posted) := by
    have found := (List.perm_cons_erase isInFlight).symm
    have last :
        (inFlight.erase head ++ (posted ++ [head])).Perm
          (head :: inFlight.erase head ++ posted) := by
      rw [← List.append_assoc, List.cons_append]
      exact List.perm_append_singleton head _
    simp only [List.append_assoc]
    exact (last.trans (found.append_right posted)).append_left announced
  have nodup := moved.nodup_iff.mpr queues.nodup
  have left : head ∉ announced ++ inFlight.erase head := by
    intro member
    have apart := List.disjoint_of_nodup_append nodup
    exact apart member (by simp)
  refine queues.advance (by rintro ⟨⟩) owned.1 nodup left ?_ ?_ ?_
  · intro other differs
    simp [List.mem_erase_of_ne differs]
  · simp
  · intro other differs
    simp [differs]

theorem complete
    (queues : QueuesFit point phase inFlight announced (head :: posted)) :
    QueuesFit point (Function.update phase head .completed) inFlight announced
      posted := by
  have owned := (queues.served head).mp List.mem_cons_self
  have moved :
      (announced ++ inFlight ++ head :: posted).Perm
        (head :: (announced ++ inFlight ++ posted)) :=
    List.perm_middle
  have apart := moved.nodup_iff.mp queues.nodup
  rw [List.nodup_cons, List.mem_append, not_or] at apart
  obtain ⟨⟨left, notPosted⟩, nodup⟩ := apart
  refine queues.advance (by rintro ⟨⟩) owned.1 nodup left ?_ ?_ ?_
  · intro other _
    rfl
  · simp [notPosted]
  · intro other differs
    simp [differs]

end QueuesFit

theorem DriverFits.idle
    (s : DiskState)
    (clients : ∀ process, s.point process = .client)
    (free : ∀ i, s.free i = true)
    (avail : s.fetchedIdx = 0 ∧ s.availIdx = 0)
    (used : s.usedIdx = 0 ∧ s.postedIdx = 0)
    (none : s.inFlight = []) :
    DriverFits s := by
  have nobody :
      ∀ process call idx, s.point process ≠ .completion call idx := by
    intro process call idx waits
    rw [clients process] at waits
    cases waits
  have unowned : ∀ head, ¬ OwnsHead s.point head := by
    rintro head ⟨process, call, idx, waits, _⟩
    exact nobody process call idx waits
  have started : 0 < ringModulus := by
    decide
  refine {
    requests := {
      request := fun process call idx waits =>
        (nobody process call idx waits).elim
      apart := fun process other call otherCall idx otherIdx _ waits =>
        (nobody process call idx waits).elim
      owned := fun i taken => by rw [free i] at taken; cases taken
    }
    queues := ⟨[], [], ?_, ?_, ?_⟩
  }
  · rw [avail.1, avail.2]
    exact .empty _ started
  · rw [used.1, used.2]
    exact .empty _ started
  · rw [none]
    exact {
      nodup := List.nodup_nil
      submitted := fun head => {
        mp := fun member => by cases member
        mpr := fun owns => (unowned head owns.1).elim
      }
      served := fun head => {
        mp := fun member => by cases member
        mpr := fun owns => (unowned head owns.1).elim
      }
    }

end MyOS
