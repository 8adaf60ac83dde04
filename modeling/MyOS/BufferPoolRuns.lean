import MyOS.BufferPoolInvariant
import MyOS.Lib.Run

namespace MyOS

open MyOS.Lib

/-!
# Runs of the buffer pool

Every call that its users may make comes back and keeps the list, the counts
and the assignment of blocks to buffers.  The count of a buffer has 32 bits and
starts again at zero after 2³² results that nobody has released.
-/

namespace PoolState

/-- No buffer holds the block. -/
def Absent (s : PoolState) (dev blockno : BitVec 32) : Prop :=
  ∀ b, ¬ ((s.pool.buf b).dev = dev ∧ (s.pool.buf b).blockno = blockno)

/-- A running kernel may be asked for every block but (0, 0), and may be given
back what it has lent. -/
def Permits (s : PoolState) : PoolAction → Prop
  | .bget dev blockno => s.panicked = false ∧ ¬ (dev = 0 ∧ blockno = 0)
  | .brelse b => s.panicked = false ∧ 0 < s.held b

/-- What holds between two calls. -/
structure Sound (s : PoolState) : Prop where
  /-- The list is circular and meets each buffer once. -/
  circular : ∃ list, s.pool.links.Ring list ∧ ∀ b, b ∈ list
  /-- The count counts the outstanding results in 32 bits. -/
  counted : ∀ b, (s.pool.buf b).refcnt.toNat = s.held b % 4294967296
  /-- No two buffers that `bget` has assigned hold one block. -/
  distinct :
    ∀ b c, s.assigned b = true → s.assigned c = true →
      (s.pool.buf b).dev = (s.pool.buf c).dev →
      (s.pool.buf b).blockno = (s.pool.buf c).blockno → b = c
  /-- The panic comes when every buffer is held. -/
  exhausted : s.panicked = true → ∀ b, 0 < s.held b

/-- A buffer in use keeps its block. -/
def Keeps (s after : PoolState) : Prop :=
  ∀ b, (s.pool.buf b).refcnt ≠ 0 →
    (after.pool.buf b).dev = (s.pool.buf b).dev ∧
      (after.pool.buf b).blockno = (s.pool.buf b).blockno

/--
The call gives the block to one unreferenced buffer.  Where no buffer has 2³²
outstanding results, nobody holds it, and of all such buffers it is the one
that was released first.
-/
def Evicts
    (s : PoolState)
    (dev blockno : BitVec 32)
    (after : PoolState) : Prop :=
  ∃ b,
    (after.pool.buf b).dev = dev ∧
    (after.pool.buf b).blockno = blockno ∧
    (s.pool.buf b).refcnt = 0 ∧
    (∀ c, c ≠ b → after.pool.buf c = s.pool.buf c) ∧
    ((∀ c, s.held c < 4294967296) →
      s.held b = 0 ∧
        ∀ c, s.held c = 0 → s.lastRelease b ≤ s.lastRelease c)

/-- The invariant with some list and some times. -/
def Fits (s : PoolState) : Prop :=
  ∃ list moved, PoolFits s list moved

/-- What a call does to the buffers. -/
structure StepSound
    (s : PoolState)
    (action : PoolAction)
    (after : PoolState) : Prop where
  kept : s.Keeps after
  evicted :
    ∀ dev blockno, action = .bget dev blockno → after.panicked = false →
      s.Absent dev blockno → s.Evicts dev blockno after

end PoolState

namespace PoolFits

variable {s : PoolState} {list : List BufferIndex} {moved : BufferIndex → Nat}

theorem bget_returns
    (fits : PoolFits s list moved)
    (dev blockno : BitVec 32) :
    (∃ b, s.pool.holdsBlock dev blockno b = true ∧
        s.pool.bget dev blockno = some (some (b, s.pool.retain b))) ∨
      s.Absent dev blockno ∧
        ((∃ b, list.reverse.find? s.pool.unreferenced = some b ∧
            s.pool.bget dev blockno =
              some (some (b, s.pool.reassign dev blockno b))) ∨
          list.reverse.find? s.pool.unreferenced = none ∧
            s.pool.bget dev blockno = some none) := by
  cases found : list.find? (s.pool.holdsBlock dev blockno) with
  | some b =>
      exact Or.inl ⟨b, List.find?_some found,
        BufferPool.bget_hit fits.ring found⟩
  | none =>
      have returned := BufferPool.bget_miss fits.ring found
      refine Or.inr ⟨fits.not_holds found, ?_⟩
      cases free : list.reverse.find? s.pool.unreferenced with
      | some b =>
          rw [free] at returned
          exact Or.inl ⟨b, rfl, returned⟩
      | none =>
          rw [free] at returned
          exact Or.inr ⟨rfl, returned⟩

theorem step
    (fits : PoolFits s list moved)
    {action : PoolAction}
    {after : PoolState}
    (taken : s.Step action after) :
    after.Fits := by
  cases taken with
  | @bget dev blockno result running nonzero returned =>
      rcases fits.bget_returns dev blockno with
        ⟨b, holds, isHit⟩ |
          ⟨absent, ⟨b, free, isMiss⟩ | ⟨_, panics⟩⟩
      · rw [isHit] at returned
        obtain rfl := Option.some.inj (Option.some.inj returned)
        exact ⟨list, moved, fits.hit (fits.hit_assigned nonzero holds)⟩
      · rw [isMiss] at returned
        obtain rfl := Option.some.inj (Option.some.inj returned)
        have unreferenced := (fits.unreferenced_oldest free).1
        exact ⟨list, moved, fits.miss running nonzero absent unreferenced⟩
      · rw [panics] at returned
        cases returned
  | @noBuffers dev blockno running nonzero panics =>
      rcases fits.bget_returns dev blockno with
        ⟨b, _, isHit⟩ | ⟨_, ⟨b, _, isMiss⟩ | ⟨full, _⟩⟩
      · rw [isHit] at panics
        cases panics
      · rw [isMiss] at panics
        cases panics
      · exact ⟨list, moved, fits.noBuffers full⟩
  | brelse running held =>
      exact fits.brelse running held

theorem run
    {links : Links BufferIndex}
    {trace : List (PoolState × PoolAction)}
    (run : Run PoolState.Step (PoolState.boot links) trace s) :
    s.Fits := by
  have atBoot : (PoolState.boot links).Fits := ⟨_, _, boot links⟩
  refine run.invariant_all atBoot ?_
  rintro current action final ⟨list, moved, fits⟩ taken
  exact fits.step taken

theorem sound (fits : PoolFits s list moved) : s.Sound where
  circular := ⟨list, fits.ring, fits.listed⟩
  counted := by
    intro b
    rw [fits.counted, BitVec.toNat_ofNat]
  distinct := fits.distinct
  exhausted := fits.exhausted

theorem progress
    (fits : PoolFits s list moved)
    {action : PoolAction}
    (permitted : s.Permits action) :
    ∃ after, s.Step action after := by
  cases action with
  | bget dev blockno =>
      obtain ⟨running, nonzero⟩ := permitted
      rcases fits.bget_returns dev blockno with
        ⟨_, _, isHit⟩ | ⟨_, ⟨_, _, isMiss⟩ | ⟨_, panics⟩⟩
      · exact ⟨_, .bget running nonzero isHit⟩
      · exact ⟨_, .bget running nonzero isMiss⟩
      · exact ⟨_, .noBuffers running nonzero panics⟩
  | brelse b =>
      exact ⟨_, .brelse permitted.1 permitted.2⟩

theorem unheld
    (fits : PoolFits s list moved)
    {b : BufferIndex}
    (few : s.held b < 4294967296)
    (unreferenced : (s.pool.buf b).refcnt = 0) :
    s.held b = 0 := by
  have counted := fits.sound.counted b
  rw [unreferenced, Nat.mod_eq_of_lt few] at counted
  exact counted.symm

theorem evicts
    (fits : PoolFits s list moved)
    {b : BufferIndex}
    (free : list.reverse.find? s.pool.unreferenced = some b)
    (dev blockno : BitVec 32) :
    s.Evicts dev blockno (s.take (b, s.pool.reassign dev blockno b)) := by
  obtain ⟨unreferenced, oldest⟩ := fits.unreferenced_oldest free
  refine ⟨b, ?_, ?_, unreferenced, ?_, ?_⟩
  · simp [PoolState.take, BufferPool.reassign]
  · simp [PoolState.take, BufferPool.reassign]
  · intro c different
    simp [PoolState.take, BufferPool.reassign, different]
  · intro few
    have unheld := fits.unheld (few b) unreferenced
    refine ⟨unheld, ?_⟩
    intro c free
    have unused : (s.pool.buf c).refcnt = 0 := by
      rw [fits.counted, free]
      rfl
    rw [fits.released b unheld, fits.released c free]
    exact oldest c unused

theorem stepSound
    (fits : PoolFits s list moved)
    {action : PoolAction}
    {after : PoolState}
    (taken : s.Step action after) :
    s.StepSound action after := by
  cases taken with
  | @bget dev blockno result running nonzero returned =>
      rcases fits.bget_returns dev blockno with
        ⟨b, holds, isHit⟩ |
          ⟨absent, ⟨b, free, isMiss⟩ | ⟨_, panics⟩⟩
      · rw [isHit] at returned
        obtain rfl := Option.some.inj (Option.some.inj returned)
        refine ⟨?_, ?_⟩
        · intro c _
          by_cases same : c = b
          · simp [PoolState.take, BufferPool.retain, same]
          · simp [PoolState.take, BufferPool.retain, same]
        · intro dev blockno isCall _ absent
          obtain ⟨rfl, rfl⟩ := PoolAction.bget.inj isCall
          exact absurd (BufferPool.holdsBlock_iff.mp holds) (absent b)
      · rw [isMiss] at returned
        obtain rfl := Option.some.inj (Option.some.inj returned)
        have unreferenced := (fits.unreferenced_oldest free).1
        refine ⟨?_, ?_⟩
        · intro c used
          have different : c ≠ b := by
            rintro rfl
            exact used unreferenced
          simp [PoolState.take, BufferPool.reassign, different]
        · intro dev blockno isCall _ _
          obtain ⟨rfl, rfl⟩ := PoolAction.bget.inj isCall
          exact fits.evicts free _ _
      · rw [panics] at returned
        cases returned
  | noBuffers running nonzero panics =>
      refine ⟨fun _ _ => ⟨rfl, rfl⟩, ?_⟩
      intro dev blockno _ runsOn
      cases runsOn
  | @brelse b running held =>
      refine ⟨fun c _ => release_blocks b c, ?_⟩
      intro dev blockno isCall
      cases isCall

end PoolFits

/-- The links of a pool of which nothing is known. -/
def sentinelLinks : Links BufferIndex where
  next := fun _ => none
  prev := fun _ => none

theorem requests_of_one_block
    (links : Links BufferIndex)
    {count : Nat}
    (positive : 0 < count) :
    ∃ trace s b,
      Run PoolState.Step (PoolState.boot links) trace s ∧
        trace.map Prod.snd = List.replicate count (PoolAction.bget 1 1) ∧
        s.panicked = false ∧
        s.held b = count ∧
        s.pool.holdsBlock 1 1 b = true := by
  have nonzero : ¬ ((1 : BitVec 32) = 0 ∧ (1 : BitVec 32) = 0) := by decide
  induction count, positive using Nat.le_induction with
  | base =>
      have fits := PoolFits.boot links
      rcases fits.bget_returns 1 1 with
        ⟨b, holds, _⟩ | ⟨_, ⟨b, free, isMiss⟩ | ⟨full, _⟩⟩
      · cases fits.hit_assigned nonzero holds
      · refine ⟨_, _, b, .next .start (.bget rfl nonzero isMiss), rfl, rfl,
          ?_, ?_⟩
        · simp [PoolState.take, PoolState.boot]
        · simp [PoolState.take, BufferPool.reassign, BufferPool.holdsBlock_iff]
      · have member := List.mem_reverse.mpr (fits.listed firstBuffer)
        exact absurd rfl (List.find?_eq_none.mp full firstBuffer member)
  | succ count positive inductionHypothesis =>
      obtain ⟨trace, s, b, run, calls, running, held, holds⟩ :=
        inductionHypothesis
      obtain ⟨list, moved, fits⟩ := PoolFits.run run
      rcases fits.bget_returns 1 1 with
        ⟨c, alsoHolds, isHit⟩ | ⟨absent, _⟩
      · have block := BufferPool.holdsBlock_iff.mp holds
        have alsoBlock := BufferPool.holdsBlock_iff.mp alsoHolds
        have same : c = b := fits.distinct c b
          (fits.hit_assigned nonzero alsoHolds)
          (fits.hit_assigned nonzero holds)
          (alsoBlock.1.trans block.1.symm) (alsoBlock.2.trans block.2.symm)
        subst same
        refine ⟨_, _, c, run.next (.bget running nonzero isHit), ?_, running,
          ?_, ?_⟩
        · rw [List.map_append, calls, List.replicate_succ']
          rfl
        · simp [PoolState.take, held]
        · rw [BufferPool.holdsBlock_iff]
          simpa [PoolState.take, BufferPool.retain] using block
      · exact absurd (BufferPool.holdsBlock_iff.mp holds) (absent b)

/-- After 2³² calls for one block, the count of its buffer is zero. -/
theorem refcnt_wraps :
    ∃ trace s b,
      Run PoolState.Step (PoolState.boot sentinelLinks) trace s ∧
        trace.map Prod.snd =
          List.replicate 4294967296 (PoolAction.bget 1 1) ∧
        s.held b = 4294967296 ∧
        (s.pool.buf b).refcnt.toNat ≠ s.held b := by
  have positive : 0 < 4294967296 := by decide
  obtain ⟨trace, s, b, run, calls, _, held, _⟩ :=
    requests_of_one_block sentinelLinks positive
  refine ⟨trace, s, b, run, calls, held, ?_⟩
  rw [held]
  exact Nat.ne_of_lt (s.pool.buf b).refcnt.isLt

/--
In every run, the list, the counts and the assignment of blocks are sound,
every permitted call comes back or panics, and what it does to the buffers is
sound.
-/
theorem bufferPool_sound
    {links : Links BufferIndex}
    {trace : List (PoolState × PoolAction)}
    {s : PoolState}
    (run : Run PoolState.Step (PoolState.boot links) trace s) :
    s.Sound ∧
      (∀ action, s.Permits action → ∃ after, s.Step action after) ∧
      ∀ action after, s.Step action after → s.StepSound action after := by
  obtain ⟨list, moved, fits⟩ := PoolFits.run run
  exact ⟨fits.sound, fun _ permitted => fits.progress permitted,
    fun _ _ taken => fits.stepSound taken⟩

/-- Two calls for one block. -/
theorem bufferPool_sound_twice :
    ∃ trace s,
      Run PoolState.Step (PoolState.boot sentinelLinks) trace s ∧
        trace.map Prod.snd = [.bget 1 1, .bget 1 1] ∧
        s.Sound := by
  obtain ⟨trace, s, _, run, calls, _⟩ :=
    requests_of_one_block sentinelLinks Nat.two_pos
  exact ⟨trace, s, run, calls, (bufferPool_sound run).1⟩

end MyOS
