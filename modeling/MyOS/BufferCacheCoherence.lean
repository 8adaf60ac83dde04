import MyOS.BufferCacheRequests

namespace MyOS

/-!
# Coherence of the buffer cache

Every run in which no `bread` finds its block in a slot that is still loading,
and no process leaves `virtio_disk_rw` before its own request has completed,
keeps the cache coherent.  The code prevents neither, and one `bread` during
another process's read of the same block already returns stale bytes.
-/

variable {s after : DiskState} {process blockno : Nat} {b : BufferIndex}

namespace DiskState

theorem bread_hit
    (found :
      (s.lru.find? fun b =>
        (s.buf b).dev == ROOTDEV && (s.buf b).blockno == blockno) = some b)
    (valid : (s.buf b).valid = true) :
    s.bread process blockno =
      { s.setBuf b { s.buf b with refcnt := (s.buf b).refcnt + 1 } with
        refs := ⟨process, b, blockno⟩ :: s.refs } := by
  unfold bread bget
  rw [found]
  have isValid :
      ((s.setBuf b { s.buf b with refcnt := (s.buf b).refcnt + 1 }).buf
        b).valid = true := by
    simp [setBuf, valid]
  exact if_pos isValid

theorem bread_miss
    (missing :
      (s.lru.find? fun b =>
        (s.buf b).dev == ROOTDEV && (s.buf b).blockno == blockno) = none)
    (free :
      (s.lru.reverse.find? fun b => (s.buf b).refcnt == 0) = some b) :
    s.bread process blockno =
      ({ s.setBuf b
          { s.buf b with
            dev := ROOTDEV
            blockno := blockno
            valid := true
            refcnt := 1 } with
        refs := ⟨process, b, blockno⟩ :: s.refs }.setPoint process
          (.descriptors ⟨b, false⟩)).diskRw process ⟨b, false⟩ := by
  rw [CacheFits.diskRw_enter]
  unfold bread bget
  rw [missing, free]
  simp [setBuf]

end DiskState

namespace CacheFits

open DiskState

theorem loaded_of_hit
    (waits : s.hitsLoading blockno = false)
    (isRoot : (s.buf b).dev = ROOTDEV)
    (isBlock : (s.buf b).blockno = blockno) :
    s.isLoading b = false := by
  have notHit := List.any_eq_false.mp waits b (List.mem_finRange b)
  simpa [isRoot, isBlock] using notHit

theorem bread
    (fits : CacheFits s)
    (client : s.point process = .client)
    (inDisk : blockno < FSSIZE)
    (waits : s.hitsLoading blockno = false) :
    CacheFits (s.bread process blockno) := by
  cases found : s.lru.find? fun b =>
      (s.buf b).dev == ROOTDEV && (s.buf b).blockno == blockno with
  | some b =>
      have isKey := List.find?_some found
      simp only [Bool.and_eq_true, beq_iff_eq] at isKey
      obtain ⟨isRoot, isBlock⟩ := isKey
      rw [bread_hit found (fits.slots.live b isRoot).1]
      exact fits.hit isRoot isBlock (loaded_of_hit waits isRoot isBlock)
  | none =>
      have missing :
          ∀ c, (s.buf c).dev = ROOTDEV → (s.buf c).blockno ≠ blockno := by
        intro c isRoot isBlock
        have differs := List.find?_eq_none.mp found c (fits.slots.listed c)
        simp [isRoot, isBlock] at differs
      cases free : s.lru.reverse.find? fun b => (s.buf b).refcnt == 0 with
      | none =>
          have panics : s.bread process blockno = s.panic .noBuffers := by
            simp [DiskState.bread, bget, found, free]
          rw [panics]
          exact fits.sameParts s.asleep (some .noBuffers)
      | some b =>
          have unused := List.find?_some free
          rw [beq_iff_eq] at unused
          rw [bread_miss found free]
          refine CacheFits.diskRw ?_ (Function.update_self _ _ _)
          exact fits.recycle client missing unused rfl inDisk rfl rfl

theorem bwrite
    (fits : CacheFits s)
    (client : s.point process = .client)
    (uses : s.refs.any (BufferRef.uses process b) = true)
    (bytes : Block) :
    CacheFits (s.bwrite process b bytes) := by
  have stored := fits.store client uses bytes
  unfold DiskState.bwrite
  rw [← diskRw_enter]
  exact CacheFits.diskRw stored (Function.update_self _ _ _)

theorem step
    (fits : CacheFits s)
    {action : DiskAction}
    (waits : WaitsForOwn s action)
    (taken : Step s action after) :
    CacheFits after := by
  unfold Step step? at taken
  split at taken
  · cases taken
  · rename_i running
    have alive : s.panicked = none := by
      simpa using running
    cases action with
    | bread process blockno =>
        obtain ⟨⟨client, inDisk⟩, isAfter⟩ :=
          Option.ite_none_right_eq_some.mp taken
        cases isAfter
        exact fits.bread client inDisk waits
    | bwrite process b bytes =>
        obtain ⟨⟨client, uses⟩, isAfter⟩ :=
          Option.ite_none_right_eq_some.mp taken
        cases isAfter
        exact fits.bwrite client uses bytes
    | brelse process b =>
        obtain ⟨⟨client, uses⟩, isAfter⟩ :=
          Option.ite_none_right_eq_some.mp taken
        cases isAfter
        exact fits.brelse client uses
    | resume process =>
        exact fits.resume alive waits taken
    | fetch =>
        exact fits.fetch taken
    | serve head =>
        exact fits.serve taken
    | interrupt =>
        cases taken
        exact fits.interrupt

end CacheFits

namespace DiskState

end DiskState

end MyOS
