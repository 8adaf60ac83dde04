import MyOS.BufferCache
import MyOS.VirtioInvariant

namespace MyOS

/-!
# What holds of the cache between waits

Over the invariant of the driver stand the slots and who uses them, the sectors
of the requests, and the data in the slots and on the disk.  Each part names
the components it is about.
-/

/-- The slots of the cache and the references to them. -/
structure SlotsFit
    (buf : BufferIndex → Buf)
    (lru : List BufferIndex)
    (refs : List BufferRef) : Prop where
  listed : ∀ b, b ∈ lru
  unique :
    ∀ b c, (buf b).dev = ROOTDEV → (buf c).dev = ROOTDEV →
      (buf b).blockno = (buf c).blockno → b = c
  live :
    ∀ b, (buf b).dev = ROOTDEV →
      (buf b).valid = true ∧ (buf b).blockno < FSSIZE
  counted :
    ∀ b, (buf b).refcnt = refs.countP fun ref => ref.b == b
  referenced :
    ∀ ref ∈ refs,
      (buf ref.b).dev = ROOTDEV ∧ (buf ref.b).blockno = ref.blockno

/-- A process inside `virtio_disk_rw` uses the buffer. -/
def CallersRefer (point : Nat → DiskPoint) (refs : List BufferRef) : Prop :=
  ∀ process call, (point process).call? = some call →
    ∃ ref ∈ refs, ref.process = process ∧ ref.b = call.b

/-- The requests in progress are for the blocks of their buffers. -/
def SectorsFit
    (blockno : BufferIndex → Nat)
    (point : Nat → DiskPoint)
    (req : DescIndex → VirtioBlkReq) : Prop :=
  ∀ process call idx, point process = .completion call idx →
    req idx.head = call.request (blockno call.b)

/-- The data in the slots and on the disk. -/
structure DataFits
    (buf : BufferIndex → Buf)
    (refs : List BufferRef)
    (unserved? : Nat → Option DiskCall)
    (content disk : Nat → Block) : Prop where
  loader :
    ∀ process b, unserved? process = some ⟨b, false⟩ →
      ∀ ref ∈ refs, ref.b = b → ref.process = process
  cached :
    ∀ b, (buf b).dev = ROOTDEV →
      (∀ ref ∈ refs, ref.b = b → unserved? ref.process ≠ some ⟨b, false⟩) →
      (buf b).data = content (buf b).blockno
  stored :
    ∀ blockno,
      (∀ process b, unserved? process = some ⟨b, true⟩ →
        (buf b).blockno ≠ blockno) →
      disk blockno = content blockno

/-- The invariant of the cache, the driver and the device. -/
structure CacheFits (s : DiskState) : Prop where
  slots : SlotsFit s.buf s.lru s.refs
  callers : CallersRefer s.point s.refs
  driver : DriverFits s
  sectors : SectorsFit (fun b => (s.buf b).blockno) s.point s.req
  data :
    DataFits s.buf s.refs (fun process => (s.point process).unserved? s.phase)
      s.content s.disk

namespace DiskPoint

variable {phase : DescIndex → RequestPhase} {point : DiskPoint}
variable {call : DiskCall}

theorem call_of_unserved
    (unserved : point.unserved? phase = some call) :
    point.call? = some call := by
  cases point with
  | client =>
      cases unserved
  | descriptors waiting =>
      exact unserved
  | completion waiting idx =>
      simp only [unserved?] at unserved
      split at unserved
      · exact unserved
      · cases unserved

end DiskPoint

namespace CacheFits

variable {s : DiskState}

theorem isLoading_iff (b : BufferIndex) :
    s.isLoading b = false ↔
      ∀ ref ∈ s.refs, ref.b = b →
        (s.point ref.process).unserved? s.phase ≠ some ⟨b, false⟩ := by
  simp only [DiskState.isLoading, List.any_eq_false, decide_eq_true_eq,
    not_and]
  exact Iff.rfl

theorem ref_of_unserved
    (fits : CacheFits s)
    {process : Nat}
    {call : DiskCall}
    (unserved : (s.point process).unserved? s.phase = some call) :
    ∃ ref ∈ s.refs, ref.process = process ∧ ref.b = call.b :=
  fits.callers process call (DiskPoint.call_of_unserved unserved)

theorem binit_listed (b : BufferIndex) : b ∈ DiskState.binit := by
  have reversed : DiskState.binit = (List.finRange NBUF).reverse := by
    simp [DiskState.binit]
  rw [reversed, List.mem_reverse]
  exact List.mem_finRange b

theorem boot (image : Nat → Block) : CacheFits (DiskState.boot image) where
  slots := {
    listed := binit_listed
    unique := fun b c isRoot => by cases isRoot
    live := fun b isRoot => by cases isRoot
    counted := fun b => rfl
    referenced := fun ref member => by cases member
  }
  callers := fun process call waits => by cases waits
  driver := .idle _ (fun _ => rfl) (fun _ => rfl) ⟨rfl, rfl⟩ ⟨rfl, rfl⟩ rfl
  sectors := fun process call idx waits => by cases waits
  data := {
    loader := fun process b unserved => by cases unserved
    cached := fun b isRoot => by cases isRoot
    stored := fun blockno _ => rfl
  }

end CacheFits

end MyOS
