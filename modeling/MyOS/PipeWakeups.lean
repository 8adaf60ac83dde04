import MyOS.PipeChannel

namespace MyOS

/-!
# Nobody is left asleep at a pipe

A process sleeps on `nread` only while the pipe is empty and may still be
written to, and on `nwrite` only while it is full and may still be read from.
Every exit of the three functions keeps this except one: `piperead` returns
without waking the writers when it finds an absent page after it has taken
bytes.
-/

namespace PipeState

/-- A process is asleep on one of the pipe's channels. -/
def Sleeps (s : PipeState) (process : Slot) (chan : PipeChannel) : Prop :=
  s.asleep process = true ∧ (s.point process).channel? = some chan

/-- Sleeping readers have nothing to read, and something may still come. -/
def ReadersWait (s : PipeState) : Prop :=
  ∀ process, s.Sleeps process .nread →
    s.nwrite = s.nread ∧ s.writeopen = true

/-- Sleeping writers have no room, and somebody may still make some. -/
def WritersWait (s : PipeState) : Prop :=
  ∀ process, s.Sleeps process .nwrite →
    s.count = PIPESIZE ∧ s.readopen = true

variable {s : PipeState} {process : Slot}

theorem wakeup_awake
    (s : PipeState)
    (chan : PipeChannel)
    (other : Slot) :
    ¬ (s.wakeup chan).Sleeps other chan := by
  rintro ⟨asleep, channel⟩
  simp only [wakeup, Bool.and_eq_true, bne_iff_ne, ne_eq] at asleep channel
  exact asleep.2 channel

theorem Sleeps.of_wakeup
    {chan woken : PipeChannel}
    {other : Slot}
    (sleeps : (s.wakeup woken).Sleeps other chan) :
    s.Sleeps other chan := by
  obtain ⟨asleep, channel⟩ := sleeps
  simp only [wakeup, Bool.and_eq_true] at asleep
  exact ⟨asleep.1, channel⟩

theorem Sleeps.of_leave
    {chan : PipeChannel}
    {result : PipeReturn}
    {other : Slot}
    (sleeps : (s.leave process result).Sleeps other chan) :
    s.Sleeps other chan := by
  obtain ⟨asleep, channel⟩ := sleeps
  simp only [leave] at asleep channel
  by_cases same : other = process
  · subst same
    rw [Function.update_self] at channel
    cases channel
  · rw [Function.update_of_ne same] at channel
    exact ⟨asleep, channel⟩

theorem Sleeps.of_sleepAt
    {chan : PipeChannel}
    {point : PipePoint}
    {other : Slot}
    (sleeps : (s.sleepAt process point).Sleeps other chan) :
    point.channel? = some chan ∨ s.Sleeps other chan := by
  obtain ⟨asleep, channel⟩ := sleeps
  simp only [sleepAt] at asleep channel
  by_cases same : other = process
  · subst same
    rw [Function.update_self] at channel
    exact Or.inl channel
  · rw [Function.update_of_ne same] at asleep channel
    exact Or.inr ⟨asleep, channel⟩

theorem ReadersWait.leave
    (waits : s.ReadersWait)
    (process : Slot)
    (result : PipeReturn) :
    (s.leave process result).ReadersWait :=
  fun other sleeps => waits other sleeps.of_leave

theorem WritersWait.leave
    (waits : s.WritersWait)
    (process : Slot)
    (result : PipeReturn) :
    (s.leave process result).WritersWait :=
  fun other sleeps => waits other sleeps.of_leave

end PipeState

/-- The invariant of the sleepers. -/
structure SleepersFit (s : PipeState) : Prop where
  readers : s.ReadersWait
  writers : s.WritersWait

namespace SleepersFit

open PipeState

variable {s : PipeState} {process : Slot} {write : PipeWrite}
variable {read : PipeRead} {i : Nat}

theorem leave
    (fits : SleepersFit s)
    (process : Slot)
    (result : PipeReturn) :
    SleepersFit (s.leave process result) where
  readers := fits.readers.leave process result
  writers := fits.writers.leave process result

theorem pipewriteLoop
    {left : Nat}
    (writers : s.WritersWait)
    (readers :
      s.ReadersWait ∨ s.killed process = false ∧ s.readopen = true) :
    SleepersFit (PipeState.pipewriteLoop process write left i s) := by
  induction left generalizing s i with
  | zero =>
      refine {
        readers := ?_
        writers := ?_
      }
      · intro other sleeps
        exact absurd sleeps.of_leave (wakeup_awake s .nread other)
      · intro other sleeps
        exact writers other sleeps.of_leave.of_wakeup
  | succ left inductionHypothesis =>
      unfold PipeState.pipewriteLoop
      split
      · rename_i killed
        rcases readers with waiting | ⟨alive, _⟩
        · exact leave ⟨waiting, writers⟩ ..
        · rw [alive] at killed
          cases killed
      rename_i alive
      split
      · rename_i closed
        rcases readers with waiting | ⟨_, opened⟩
        · exact leave ⟨waiting, writers⟩ ..
        · rw [opened] at closed
          cases closed
      rename_i opened
      have isOpen : s.readopen = true := eq_true_of_ne_false opened
      split
      · rename_i full
        refine {
          readers := ?_
          writers := ?_
        }
        · intro other sleeps
          rcases sleeps.of_sleepAt with isWriter | before
          · cases isWriter
          · exact absurd before (wakeup_awake s .nread other)
        · intro other _
          exact ⟨full, isOpen⟩
      · rename_i room
        apply inductionHypothesis
        · intro other sleeps
          exact absurd (writers other sleeps).1 room
        · exact Or.inr ⟨eq_false_of_ne_true alive, isOpen⟩

theorem wakeWriters
    (readers : ∀ other, ¬ s.Sleeps other .nread)
    (process : Slot)
    (result : PipeReturn) :
    SleepersFit ((s.wakeup .nwrite).leave process result) where
  readers := by
    intro other sleeps
    exact absurd sleeps.of_leave.of_wakeup (readers other)
  writers := by
    intro other sleeps
    exact absurd sleeps.of_leave (wakeup_awake s .nwrite other)

theorem pipereadLoop
    {left : Nat}
    {held : List PipeByte}
    (holds : PipeHolds s.data s.nread s.nwrite s.put s.taken held)
    (readers : ∀ other, ¬ s.Sleeps other .nread)
    (exits :
      ∀ k, k < min left s.count → read.walk (i + k) = .absent →
        (∀ j, j < k → read.walk (i + j) = .present) →
        k = 0 ∧ s.WritersWait ∨ ∀ other, ¬ s.Sleeps other .nwrite)
    (free : (PipeState.pipereadLoop process read left i s).locked = false) :
    SleepersFit (PipeState.pipereadLoop process read left i s) := by
  induction left generalizing s i held with
  | zero =>
      exact wakeWriters readers ..
  | succ left inductionHypothesis =>
      unfold PipeState.pipereadLoop at free ⊢
      split
      · exact wakeWriters readers ..
      rename_i nonempty
      rw [if_neg nonempty] at free
      cases held with
      | nil =>
          exact absurd (holds.empty_iff.mpr rfl) nonempty
      | cons byte rest =>
          have later := holds.takeOut
          have before := holds.count_eq
          have after := later.count_eq
          rw [List.length_cons] at before
          cases found : read.walk i with
          | present =>
              simp only [found] at free ⊢
              apply inductionHypothesis later readers ?_ free
              intro k bound absent present
              have place (j : Nat) : i + 1 + j = i + (j + 1) := by
                omega
              rw [place] at absent
              have isExit := exits (k + 1) (by omega) absent
                (by
                  intro j earlier
                  cases j with
                  | zero =>
                      exact found
                  | succ j =>
                      rw [← place]
                      exact present j (by omega))
              rcases isExit with ⟨nothing, _⟩ | awake
              · cases nothing
              · exact Or.inr awake
          | absent =>
              have isExit := exits 0 (by omega) found
                (fun j earlier => absurd earlier (Nat.not_lt_zero j))
              refine {
                readers := ?_
                writers := ?_
              }
              · intro other sleeps
                exact absurd sleeps.of_leave (readers other)
              · rcases isExit with ⟨_, waiting⟩ | awake
                · exact waiting.leave process _
                · intro other sleeps
                  exact absurd sleeps.of_leave (awake other)
          | outOfRange =>
              simp only [found] at free
              cases free

theorem nobody_of_not_writerAsleep
    (awake : s.writerAsleep = false)
    (other : Slot) :
    ¬ s.Sleeps other .nwrite := by
  rintro ⟨asleep, channel⟩
  have nobody := List.any_eq_false.mp awake other (List.mem_finRange other)
  simp [asleep, channel, PipePoint.uses] at nobody

theorem piperead
    (fits : SleepersFit s)
    (holds : ∃ held, PipeHolds s.data s.nread s.nwrite s.put s.taken held)
    (remembers : (s.writerAsleep && s.stopsShort read) = false)
    (free : (s.piperead process read).locked = false) :
    SleepersFit (s.piperead process read) := by
  unfold PipeState.piperead at free ⊢
  split
  · rename_i empty
    split
    · exact fits.leave ..
    split
    · exact fits.leave ..
    · rename_i opened
      have isOpen : s.writeopen = true := eq_true_of_ne_false opened
      refine {
        readers := ?_
        writers := ?_
      }
      · intro other _
        exact ⟨empty, isOpen⟩
      · intro other sleeps
        rcases sleeps.of_sleepAt with isReader | before
        · cases isReader
        · exact absurd before (wakeup_awake s .nwrite other)
  · rename_i nonempty
    rw [if_neg nonempty] at free
    obtain ⟨held, ring⟩ := holds
    apply pipereadLoop ring ?_ ?_ free
    · intro other sleeps
      exact nonempty (fits.readers other sleeps).1
    · intro k bound absent present
      simp only [Nat.zero_add] at absent present
      cases awake : s.writerAsleep with
      | false =>
          exact Or.inr (nobody_of_not_writerAsleep awake)
      | true =>
          rw [awake, Bool.true_and] at remembers
          have goesOn := List.any_eq_false.mp remembers k
            (List.mem_range.mpr bound)
          have all :
              ((List.range k).all fun j =>
                decide (read.walk j = .present)) = true := by
            apply List.all_eq_true.mpr
            intro j member
            exact decide_eq_true (present j (List.mem_range.mp member))
          rw [all, absent] at goesOn
          have nothing : k = 0 := by
            simpa using goesOn
          exact Or.inl ⟨nothing, fits.writers⟩

theorem resume
    {after : PipeState}
    (fits : SleepersFit s)
    (holds : ∃ held, PipeHolds s.data s.nread s.nwrite s.put s.taken held)
    (remembers : s.RemembersWriter (.resume process))
    (resumed : s.resume process = some after)
    (free : after.locked = false) :
    SleepersFit after := by
  unfold PipeState.resume at resumed
  split at resumed
  · cases resumed
  unfold PipeState.RemembersWriter forgetsWriter at remembers
  cases waits : s.point process with
  | client =>
      simp only [waits] at resumed
      cases resumed
  | writing write i =>
      simp only [waits] at resumed
      split at resumed
      · cases resumed
        exact fits.leave ..
      · cases resumed
        exact pipewriteLoop fits.writers (Or.inl fits.readers)
  | reading read =>
      simp only [waits] at resumed remembers
      split at resumed
      · cases resumed
        exact fits.leave ..
      · rename_i alive
        cases resumed
        have isAlive : s.killed process = false := eq_false_of_ne_true alive
        rw [isAlive, Bool.not_false, Bool.and_true] at remembers
        exact fits.piperead holds remembers free

theorem pipeclose
    (fits : SleepersFit s)
    (writable : Bool) :
    SleepersFit (s.pipeclose writable) := by
  have closed : SleepersFit (s.closeEnd writable) := by
    cases writable with
    | true =>
        refine {
          readers := ?_
          writers := ?_
        }
        · intro other sleeps
          exact absurd sleeps
            (wakeup_awake { s with writeopen := false, returned := none }
              .nread other)
        · intro other sleeps
          have before :
              { s with writeopen := false, returned := none }.Sleeps other
                .nwrite :=
            sleeps.of_wakeup
          exact fits.writers other before
    | false =>
        refine {
          readers := ?_
          writers := ?_
        }
        · intro other sleeps
          have before :
              { s with readopen := false, returned := none }.Sleeps other
                .nread :=
            sleeps.of_wakeup
          exact fits.readers other before
        · intro other sleeps
          exact absurd sleeps
            (wakeup_awake { s with readopen := false, returned := none }
              .nwrite other)
  unfold PipeState.pipeclose PipeState.freeClosed
  split
  · exact ⟨closed.readers, closed.writers⟩
  · exact closed

theorem kill
    (fits : SleepersFit s)
    (process : Slot) :
    SleepersFit
      { s with
        killed := Function.update s.killed process true
        asleep := Function.update s.asleep process false
        returned := none } := by
  have before :
      ∀ other, Function.update s.asleep process false other = true →
        s.asleep other = true := by
    intro other asleep
    by_cases same : other = process
    · subst same
      rw [Function.update_self] at asleep
      cases asleep
    · rw [Function.update_of_ne same] at asleep
      exact asleep
  refine {
    readers := ?_
    writers := ?_
  }
  · rintro other ⟨asleep, channel⟩
    exact fits.readers other ⟨before other asleep, channel⟩
  · rintro other ⟨asleep, channel⟩
    exact fits.writers other ⟨before other asleep, channel⟩

theorem step
    {action : PipeAction}
    {after : PipeState}
    (fits : SleepersFit s)
    (holds : ∃ held, PipeHolds s.data s.nread s.nwrite s.put s.taken held)
    (remembers : s.RemembersWriter action)
    (taken : s.Step action after)
    (free : after.locked = false) :
    SleepersFit after := by
  unfold PipeState.Step PipeState.step? at taken
  split at taken
  · cases taken
  cases action with
  | pipewrite process kernelBuf n =>
      obtain ⟨_, isAfter⟩ := Option.ite_none_right_eq_some.mp taken
      cases isAfter
      exact pipewriteLoop fits.writers (Or.inl fits.readers)
  | piperead process read =>
      obtain ⟨_, isAfter⟩ := Option.ite_none_right_eq_some.mp taken
      cases isAfter
      exact fits.piperead holds remembers free
  | resume process =>
      exact fits.resume holds remembers taken free
  | pipeclose writable =>
      obtain ⟨_, isAfter⟩ := Option.ite_none_right_eq_some.mp taken
      cases isAfter
      exact fits.pipeclose writable
  | kill process =>
      cases taken
      exact fits.kill process
  | allocproc process =>
      obtain ⟨_, isAfter⟩ := Option.ite_none_right_eq_some.mp taken
      cases isAfter
      exact ⟨fits.readers, fits.writers⟩

end SleepersFit

/-- The invariant of a pipe and the processes asleep on it. -/
structure WakeupsFit (s : PipeState) : Prop where
  pipe : PipeFits s
  sleepers : s.locked = false → SleepersFit s

theorem WakeupsFit.create
    (data : Nat → UInt8) :
    WakeupsFit (PipeState.create data) where
  pipe := PipeFits.create data
  sleepers := by
    intro _
    refine {
      readers := ?_
      writers := ?_
    }
    · intro process sleeps
      cases sleeps.1
    · intro process sleeps
      cases sleeps.1

namespace PipeState

theorem Step.free
    {s after : PipeState}
    {action : PipeAction}
    (taken : s.Step action after) :
    s.locked = false := by
  unfold Step step? at taken
  split at taken
  · cases taken
  · rename_i free
    exact eq_false_of_ne_true free

/--
No wakeup is lost in any state of a run in which no read that has taken a byte
finds a page of its buffer absent while a writer sleeps.
-/
theorem noLostWakeup_of_remembersWriter
    {data : Nat → UInt8}
    {trace : List (PipeState × PipeAction)}
    {final : PipeState}
    (run : Lib.Run Step (create data) trace final)
    (remembers : Lib.Meets RemembersWriter trace) :
    final.NoLostWakeup := by
  have fits : WakeupsFit final := by
    refine run.invariant (WakeupsFit.create data) ?_ remembers
    intro current action next holds condition taken
    refine {
      pipe := holds.pipe.step taken
      sleepers := ?_
    }
    intro free
    have before := holds.sleepers taken.free
    exact before.step holds.pipe.holds condition taken free
  intro free process asleep
  have sleepers := fits.sleepers free
  exact ⟨fun channel => sleepers.readers process ⟨asleep, channel⟩,
    fun channel => sleepers.writers process ⟨asleep, channel⟩⟩

/-- A read whose buffer ends with the first page. -/
def readAcross : PipeRead where
  addr := PGSIZE - 1
  n := 2
  present := fun page => page == 0

/-- A writer of one byte more than the ring holds sleeps while it is full. -/
theorem noLostWakeup_of_remembersWriter_fullRing :
    ∃ trace final,
      Lib.Run Step (create fun _ => 0) trace final ∧
        Lib.Meets RemembersWriter trace ∧
        final.asleep firstCaller = true ∧
        final.NoLostWakeup := by
  have reaches :
      (Lib.runActions (Lib.guarded RemembersWriter step?) (create fun _ => 0)
        [.pipewrite firstCaller countingBytes 513]).any
        (fun final => final.asleep firstCaller) = true := by
    decide +kernel
  obtain ⟨final, accepted, asleep⟩ := (Option.any_eq_true _ _).mp reaches
  obtain ⟨trace, run, remembers⟩ := Lib.runActions_guarded accepted
  exact ⟨trace, final, run, remembers, asleep,
    noLostWakeup_of_remembersWriter run remembers⟩

/--
A read takes a byte from a full pipe, finds the next page of its buffer absent
and returns; the writer that waits for room sleeps on.
-/
theorem short_read_forgets_writer :
    ¬ ∀ (data : Nat → UInt8) (trace : List (PipeState × PipeAction))
        (final : PipeState),
      Lib.Run Step (create data) trace final → final.NoLostWakeup := by
  intro law
  have reaches :
      (Lib.runActions step? (create fun _ => 0)
        [.pipewrite firstCaller countingBytes 513,
          .piperead secondCaller readAcross]).any
        (fun final => !final.locked && final.asleep firstCaller &&
          (final.point firstCaller).uses true &&
          decide (final.count ≠ PIPESIZE)) = true := by
    decide +kernel
  obtain ⟨final, accepted, forgotten⟩ := (Option.any_eq_true _ _).mp reaches
  obtain ⟨trace, _, run⟩ := Lib.runActions_sound accepted
  simp only [Bool.and_eq_true, Bool.not_eq_true', decide_eq_true_eq]
    at forgotten
  obtain ⟨⟨⟨free, asleep⟩, isWriter⟩, room⟩ := forgotten
  have channel : (final.point firstCaller).channel? = some .nwrite := by
    simpa [PipePoint.uses] using isWriter
  exact room ((law _ trace final run free firstCaller asleep).2 channel).1

end PipeState

end MyOS
