import Mathlib.Data.Fintype.Card
import MyOS.BufferCacheInvariant
import MyOS.BufferPool

namespace MyOS

open MyOS.Lib

/-!
# The order of the buffer pool's list

The links of the pool form a ring of all buffers.  A buffer comes to its front
when its last user releases it, so that the ring is ordered by the times of
these moves, and for a buffer without users the time is that of its last
release.  The search from the end therefore meets the one released earliest.
-/

namespace BufferPool

variable {pool : BufferPool} {list : List BufferIndex}

theorem holdsBlock_iff
    {dev blockno : BitVec 32}
    {b : BufferIndex} :
    pool.holdsBlock dev blockno b = true ↔
      (pool.buf b).dev = dev ∧ (pool.buf b).blockno = blockno := by
  simp only [holdsBlock, Bool.and_eq_true, beq_iff_eq]

theorem unreferenced_iff {b : BufferIndex} :
    pool.unreferenced b = true ↔ (pool.buf b).refcnt = 0 := by
  simp only [unreferenced, beq_iff_eq]

@[simp]
theorem setBuf_links (b : BufferIndex) (buffer : PoolBuf) :
    (pool.setBuf b buffer).links = pool.links :=
  rfl

@[simp]
theorem setBuf_buf (b other : BufferIndex) (buffer : PoolBuf) :
    (pool.setBuf b buffer).buf other =
      if other = b then buffer else pool.buf other :=
  Function.update_apply _ _ _ _

theorem ring_length
    (ring : pool.links.Ring list) :
    list.length < NBUF + 1 := by
  have length := List.Nodup.length_le_card ring.nodup
  rw [Fintype.card_fin] at length
  exact Nat.lt_succ_of_le length

theorem bget_hit
    (ring : pool.links.Ring list)
    {dev blockno : BitVec 32}
    {b : BufferIndex}
    (hit : list.find? (pool.holdsBlock dev blockno) = some b) :
    pool.bget dev blockno = some (some (b, pool.retain b)) := by
  rw [bget, ring.search_next _ (ring_length ring), hit]
  rfl

theorem bget_miss
    (ring : pool.links.Ring list)
    {dev blockno : BitVec 32}
    (miss : list.find? (pool.holdsBlock dev blockno) = none) :
    pool.bget dev blockno =
      some ((list.reverse.find? pool.unreferenced).map fun b =>
        (b, pool.reassign dev blockno b)) := by
  rw [bget, ring.search_next _ (ring_length ring), miss]
  dsimp only [Option.bind_some]
  rw [ring.search_prev _ (ring_length ring)]
  rfl

theorem insertFront_all
    {links : Links BufferIndex}
    (ring : links.Ring list)
    {buffers : List BufferIndex}
    (nodup : buffers.Nodup)
    (fresh : ∀ b ∈ buffers, b ∉ list) :
    (buffers.foldl Links.insertFront links).Ring
      (buffers.foldl (fun list b => b :: list) list) := by
  induction buffers generalizing links list with
  | nil => exact ring
  | cons b rest inductionHypothesis =>
      rw [List.nodup_cons] at nodup
      have inserted := ring.insertFront (fresh b List.mem_cons_self)
      refine inductionHypothesis inserted nodup.2 ?_
      intro other member inside
      rcases List.mem_cons.mp inside with rfl | old
      · exact nodup.1 member
      · exact fresh other (List.mem_cons_of_mem _ member) old

theorem binit_ring (pool : BufferPool) :
    pool.binit.links.Ring DiskState.binit :=
  insertFront_all Links.clear_ring (List.nodup_finRange NBUF)
    (fun _ _ => List.not_mem_nil)

theorem brelse_links_used
    {b : BufferIndex}
    (used : (pool.buf b).refcnt - 1 ≠ 0) :
    (pool.brelse b).links = pool.links := by
  rw [brelse, if_neg used]
  rfl

theorem brelse_links_last
    {b : BufferIndex}
    (last : (pool.buf b).refcnt - 1 = 0) :
    (pool.brelse b).links = (pool.links.unlink b).insertFront b := by
  rw [brelse, if_pos last]
  rfl

theorem brelse_buf (b other : BufferIndex) :
    (pool.brelse b).buf other =
      if other = b then
        { pool.buf b with refcnt := (pool.buf b).refcnt - 1 }
      else
        pool.buf other := by
  by_cases last : (pool.buf b).refcnt - 1 = 0
  · rw [brelse, if_pos last]
    exact setBuf_buf _ _ _
  · rw [brelse, if_neg last]
    exact setBuf_buf _ _ _

end BufferPool

/-- The list of the pool and the times at which buffers came to its front. -/
structure PoolFits
    (s : PoolState)
    (list : List BufferIndex)
    (moved : BufferIndex → Nat) : Prop where
  ring : s.pool.links.Ring list
  listed : ∀ b, b ∈ list
  counted : ∀ b, (s.pool.buf b).refcnt = BitVec.ofNat 32 (s.held b)
  zeroed :
    ∀ b, s.assigned b = false →
      (s.pool.buf b).dev = 0 ∧ (s.pool.buf b).blockno = 0
  nonzero :
    ∀ b, s.assigned b = true →
      ¬ ((s.pool.buf b).dev = 0 ∧ (s.pool.buf b).blockno = 0)
  distinct :
    ∀ b c, s.assigned b = true → s.assigned c = true →
      (s.pool.buf b).dev = (s.pool.buf c).dev →
      (s.pool.buf b).blockno = (s.pool.buf c).blockno → b = c
  ordered : list.Pairwise fun b c => moved c ≤ moved b
  released : ∀ b, s.held b = 0 → s.lastRelease b = moved b
  past : ∀ b, moved b ≤ s.clock
  exhausted : s.panicked = true → ∀ b, 0 < s.held b

namespace PoolFits

variable {s : PoolState} {list : List BufferIndex} {moved : BufferIndex → Nat}

theorem boot (links : Links BufferIndex) :
    PoolFits (PoolState.boot links) DiskState.binit fun _ => 0 where
  ring := BufferPool.binit_ring _
  listed := CacheFits.binit_listed
  counted := fun _ => rfl
  zeroed := fun _ _ => ⟨rfl, rfl⟩
  nonzero := by
    intro b assigned
    cases assigned
  distinct := by
    intro b c assigned
    cases assigned
  ordered := List.pairwise_of_forall fun _ _ => Nat.le_refl 0
  released := fun _ _ => rfl
  past := fun _ => Nat.le_refl 0
  exhausted := by
    intro panicked
    cases panicked

theorem hit_assigned
    (fits : PoolFits s list moved)
    {dev blockno : BitVec 32}
    {b : BufferIndex}
    (requested : ¬ (dev = 0 ∧ blockno = 0))
    (holds : s.pool.holdsBlock dev blockno b = true) :
    s.assigned b = true := by
  cases assigned : s.assigned b with
  | true => rfl
  | false =>
      have zeroed := fits.zeroed b assigned
      rw [BufferPool.holdsBlock_iff] at holds
      rw [holds.1, holds.2] at zeroed
      exact absurd zeroed requested

theorem hit
    (fits : PoolFits s list moved)
    {b : BufferIndex}
    (assigned : s.assigned b = true) :
    PoolFits (s.take (b, s.pool.retain b)) list moved := by
  have sameAssigned : (s.take (b, s.pool.retain b)).assigned = s.assigned := by
    simp only [PoolState.take, ← assigned, Function.update_eq_self]
  have sameDev : ∀ c,
      ((s.pool.retain b).buf c).dev = (s.pool.buf c).dev := by
    intro c
    by_cases same : c = b
    · simp [BufferPool.retain, same]
    · simp [BufferPool.retain, same]
  have sameBlockno : ∀ c,
      ((s.pool.retain b).buf c).blockno = (s.pool.buf c).blockno := by
    intro c
    by_cases same : c = b
    · simp [BufferPool.retain, same]
    · simp [BufferPool.retain, same]
  exact {
    ring := fits.ring
    listed := fits.listed
    counted := by
      intro c
      by_cases same : c = b
      · subst same
        simp [PoolState.take, BufferPool.retain, fits.counted, BitVec.ofNat_add]
      · simp [PoolState.take, BufferPool.retain, same, fits.counted]
    zeroed := by
      intro c unassigned
      rw [sameAssigned] at unassigned
      exact ⟨(sameDev c).trans (fits.zeroed c unassigned).1,
        (sameBlockno c).trans (fits.zeroed c unassigned).2⟩
    nonzero := by
      intro c assigned zero
      rw [sameAssigned] at assigned
      exact fits.nonzero c assigned
        ⟨(sameDev c).symm.trans zero.1, (sameBlockno c).symm.trans zero.2⟩
    distinct := by
      intro c d cAssigned dAssigned dev blockno
      rw [sameAssigned] at cAssigned dAssigned
      exact fits.distinct c d cAssigned dAssigned
        ((sameDev c).symm.trans (dev.trans (sameDev d)))
        ((sameBlockno c).symm.trans (blockno.trans (sameBlockno d)))
    ordered := fits.ordered
    released := by
      intro c unheld
      by_cases same : c = b
      · simp [PoolState.take, same] at unheld
      · exact fits.released c (by simpa [PoolState.take, same] using unheld)
    past := fits.past
    exhausted := by
      intro panicked c
      have positive := fits.exhausted panicked c
      by_cases same : c = b
      · simp [PoolState.take, same]
      · simpa [PoolState.take, same] using positive }

theorem unreferenced_oldest
    (fits : PoolFits s list moved)
    {b : BufferIndex}
    (free : list.reverse.find? s.pool.unreferenced = some b) :
    (s.pool.buf b).refcnt = 0 ∧
      ∀ c, (s.pool.buf c).refcnt = 0 → moved b ≤ moved c := by
  obtain ⟨unreferenced, later, earlier, shape, skipped⟩ :=
    List.find?_eq_some_iff_append.mp free
  refine ⟨BufferPool.unreferenced_iff.mp unreferenced, ?_⟩
  intro c unused
  have ordered := List.pairwise_reverse.mpr fits.ordered
  have member := List.mem_reverse.mpr (fits.listed c)
  rw [shape] at ordered member
  rcases List.mem_append.mp member with inLater | inRest
  · have used := skipped c inLater
    rw [BufferPool.unreferenced_iff.mpr unused] at used
    cases used
  · rcases List.mem_cons.mp inRest with rfl | inEarlier
    · exact Nat.le_refl _
    · exact (List.pairwise_cons.mp (List.pairwise_append.mp ordered).2.1).1
        c inEarlier

theorem not_holds
    (fits : PoolFits s list moved)
    {dev blockno : BitVec 32}
    (miss : list.find? (s.pool.holdsBlock dev blockno) = none)
    (b : BufferIndex) :
    ¬ ((s.pool.buf b).dev = dev ∧ (s.pool.buf b).blockno = blockno) := by
  intro holds
  exact List.find?_eq_none.mp miss b (fits.listed b)
    (BufferPool.holdsBlock_iff.mpr holds)

theorem miss
    (fits : PoolFits s list moved)
    {dev blockno : BitVec 32}
    {b : BufferIndex}
    (running : s.panicked = false)
    (requested : ¬ (dev = 0 ∧ blockno = 0))
    (absent :
      ∀ c, ¬ ((s.pool.buf c).dev = dev ∧ (s.pool.buf c).blockno = blockno))
    (unreferenced : (s.pool.buf b).refcnt = 0) :
    PoolFits (s.take (b, s.pool.reassign dev blockno b)) list moved where
  ring := fits.ring
  listed := fits.listed
  counted := by
    intro c
    by_cases same : c = b
    · subst same
      have counted := fits.counted c
      rw [unreferenced] at counted
      simp [PoolState.take, BufferPool.reassign, BitVec.ofNat_add, ← counted]
    · simp [PoolState.take, BufferPool.reassign, same, fits.counted]
  zeroed := by
    intro c unassigned
    by_cases same : c = b
    · simp [PoolState.take, same] at unassigned
    · have before := fits.zeroed c
        (by simpa [PoolState.take, same] using unassigned)
      simpa [PoolState.take, BufferPool.reassign, same] using before
  nonzero := by
    intro c assigned
    by_cases same : c = b
    · simpa [PoolState.take, BufferPool.reassign, same] using requested
    · have before := fits.nonzero c
        (by simpa [PoolState.take, same] using assigned)
      simpa [PoolState.take, BufferPool.reassign, same] using before
  distinct := by
    intro c d cAssigned dAssigned sameDev sameBlockno
    by_cases cSame : c = b
    · by_cases dSame : d = b
      · rw [cSame, dSame]
      · subst cSame
        simp only [PoolState.take, BufferPool.reassign, BufferPool.setBuf_buf,
          if_true, if_neg dSame] at sameDev sameBlockno
        exact absurd ⟨sameDev.symm, sameBlockno.symm⟩ (absent d)
    · by_cases dSame : d = b
      · subst dSame
        simp only [PoolState.take, BufferPool.reassign, BufferPool.setBuf_buf,
          if_true, if_neg cSame] at sameDev sameBlockno
        exact absurd ⟨sameDev, sameBlockno⟩ (absent c)
      · simp only [PoolState.take, BufferPool.reassign, BufferPool.setBuf_buf,
          if_neg cSame, if_neg dSame] at sameDev sameBlockno
        refine fits.distinct c d ?_ ?_ sameDev sameBlockno
        · simpa [PoolState.take, cSame] using cAssigned
        · simpa [PoolState.take, dSame] using dAssigned
  ordered := fits.ordered
  released := by
    intro c unheld
    by_cases same : c = b
    · simp [PoolState.take, same] at unheld
    · exact fits.released c (by simpa [PoolState.take, same] using unheld)
  past := fits.past
  exhausted := by
    intro panicked
    have stopped : s.panicked = true := panicked
    rw [running] at stopped
    cases stopped

theorem noBuffers
    (fits : PoolFits s list moved)
    (full : list.reverse.find? s.pool.unreferenced = none) :
    PoolFits { s with panicked := true } list moved :=
  { fits with
    exhausted := by
      intro _ b
      refine Nat.pos_of_ne_zero fun unheld => ?_
      have member := List.mem_reverse.mpr (fits.listed b)
      have counted := fits.counted b
      have held : s.held b = 0 := unheld
      rw [held] at counted
      exact List.find?_eq_none.mp full b member
        (BufferPool.unreferenced_iff.mpr counted) }

theorem released_count
    (fits : PoolFits s list moved)
    {b : BufferIndex}
    (held : 0 < s.held b) :
    (s.pool.buf b).refcnt - 1 = BitVec.ofNat 32 (s.held b - 1) := by
  obtain ⟨others, more⟩ := Nat.exists_eq_succ_of_ne_zero held.ne'
  rw [fits.counted, more, Nat.succ_eq_add_one, BitVec.ofNat_add,
    Nat.add_sub_cancel]
  exact BitVec.add_sub_cancel _ _

theorem release_blocks (b c : BufferIndex) :
    ((s.release b).pool.buf c).dev = (s.pool.buf c).dev ∧
      ((s.release b).pool.buf c).blockno = (s.pool.buf c).blockno := by
  by_cases same : c = b
  · simp [PoolState.release, BufferPool.brelse_buf, same]
  · simp [PoolState.release, BufferPool.brelse_buf, same]

theorem release
    (fits : PoolFits s list moved)
    {b : BufferIndex}
    {after : List BufferIndex}
    {movedAfter : BufferIndex → Nat}
    (running : s.panicked = false)
    (held : 0 < s.held b)
    (ring : (s.release b).pool.links.Ring after)
    (listed : ∀ c, c ∈ after)
    (ordered : after.Pairwise fun b c => movedAfter c ≤ movedAfter b)
    (others : ∀ c, c ≠ b → movedAfter c = moved c)
    (last : s.held b = 1 → movedAfter b = s.clock + 1)
    (past : movedAfter b ≤ s.clock + 1) :
    PoolFits (s.release b) after movedAfter where
  ring := ring
  listed := listed
  counted := by
    intro c
    by_cases same : c = b
    · subst same
      have count := fits.released_count held
      simpa [PoolState.release, BufferPool.brelse_buf] using count
    · simp [PoolState.release, BufferPool.brelse_buf, same, fits.counted]
  zeroed := by
    intro c unassigned
    rw [(release_blocks b c).1, (release_blocks b c).2]
    exact fits.zeroed c unassigned
  nonzero := by
    intro c assigned
    rw [(release_blocks b c).1, (release_blocks b c).2]
    exact fits.nonzero c assigned
  distinct := by
    intro c d cAssigned dAssigned
    rw [(release_blocks b c).1, (release_blocks b c).2,
      (release_blocks b d).1, (release_blocks b d).2]
    exact fits.distinct c d cAssigned dAssigned
  ordered := ordered
  released := by
    intro c unheld
    by_cases same : c = b
    · subst same
      have once : s.held c = 1 := by
        simp [PoolState.release] at unheld
        omega
      simp [PoolState.release, last once]
    · have before := fits.released c
        (by simpa [PoolState.release, same] using unheld)
      simpa [PoolState.release, same, others c same] using before
  past := by
    intro c
    by_cases same : c = b
    · subst same
      exact past
    · rw [others c same]
      exact Nat.le_succ_of_le (fits.past c)
  exhausted := by
    intro panicked
    have stopped : s.panicked = true := panicked
    rw [running] at stopped
    cases stopped

theorem brelse
    (fits : PoolFits s list moved)
    {b : BufferIndex}
    (running : s.panicked = false)
    (held : 0 < s.held b) :
    ∃ after movedAfter, PoolFits (s.release b) after movedAfter := by
  by_cases last : (s.pool.buf b).refcnt - 1 = 0
  · refine ⟨b :: list.erase b, Function.update moved b (s.clock + 1),
      fits.release running held ?_ ?_ ?_ ?_ ?_ ?_⟩
    · have moves := fits.ring.moveFront (fits.listed b)
      rw [← BufferPool.brelse_links_last last] at moves
      exact moves
    · intro c
      by_cases same : c = b
      · exact List.mem_cons.mpr (Or.inl same)
      · exact List.mem_cons_of_mem _
          ((List.mem_erase_of_ne same).mpr (fits.listed c))
    · have inRest : ∀ c ∈ list.erase b, c ≠ b := by
        rintro c member rfl
        exact fits.ring.nodup.not_mem_erase member
      refine List.pairwise_cons.mpr ⟨?_, ?_⟩
      · intro c member
        have past := fits.past c
        simp only [Function.update_self,
          Function.update_of_ne (inRest c member)]
        omega
      · have rest := fits.ordered.sublist (List.erase_sublist (a := b))
        refine rest.imp_of_mem ?_
        intro c d cMember dMember order
        rw [Function.update_of_ne (inRest c cMember),
          Function.update_of_ne (inRest d dMember)]
        exact order
    · intro c different
      exact Function.update_of_ne different _ _
    · intro _
      exact Function.update_self _ _ _
    · exact (Function.update_self _ _ _).le
  · refine ⟨list, moved, fits.release running held ?_ fits.listed
      fits.ordered (fun _ _ => rfl) ?_ ?_⟩
    · have same := BufferPool.brelse_links_used last
      exact same.symm ▸ fits.ring
    · intro once
      rw [fits.released_count held, once] at last
      exact absurd rfl last
    · exact Nat.le_succ_of_le (fits.past b)

end PoolFits

end MyOS
