import MyOS.PipeHistory

namespace MyOS

/-!
# A pipe is a first-in first-out channel

What a pipe has carried is kept by both loops, and from there by every step in
every order of the callers.
-/

/-- The writes that are running, with the number of bytes stored. -/
def PipeState.running
    (s : PipeState)
    (process : Slot) : Option (PipeWrite × Nat) :=
  (s.point process).write?

/-- What a call has returned agrees with what it has done to the pipe. -/
structure ReturnFits
    (returned : Option PipeReturn)
    (put : List PipeByte)
    (nread nwrite : Nat)
    (writeopen : Bool) : Prop where
  whole :
    ∀ process write result, returned = some (.write process write result) →
      0 ≤ result → HasStored put write result.toNat
  ends :
    ∀ process read, returned = some (.read process read 0) → 1 ≤ read.n →
      nwrite = nread ∧ writeopen = false

/-- The invariant of a pipe and its callers. -/
structure PipeFits (s : PipeState) : Prop where
  holds : ∃ held, PipeHolds s.data s.nread s.nwrite s.put s.taken held
  writes : WritesFit s.put s.writes s.running
  results : ReturnFits s.returned s.put s.nread s.nwrite s.writeopen

theorem ReturnFits.none
    (put : List PipeByte)
    (nread nwrite : Nat)
    (writeopen : Bool) :
    ReturnFits none put nread nwrite writeopen where
  whole := by
    intro process write result returns
    cases returns
  ends := by
    intro process read returns
    cases returns

theorem ReturnFits.failed_write
    (process : Slot)
    (write : PipeWrite)
    (put : List PipeByte)
    (nread nwrite : Nat)
    (writeopen : Bool) :
    ReturnFits (some (.write process write (-1))) put nread nwrite
      writeopen where
  whole := by
    intro other otherWrite result returns nonnegative
    cases returns
    omega
  ends := by
    intro other read returns
    cases returns

theorem ReturnFits.read_of_ne
    {result : Int}
    (nonzero : result ≠ 0)
    (process : Slot)
    (read : PipeRead)
    (put : List PipeByte)
    (nread nwrite : Nat)
    (writeopen : Bool) :
    ReturnFits (some (.read process read result)) put nread nwrite
      writeopen where
  whole := by
    intro other write otherResult returns
    cases returns
  ends := by
    intro other otherRead returns
    cases returns
    exact absurd rfl nonzero

namespace PipeFits

variable {s : PipeState} {process : Slot} {write : PipeWrite}
variable {read : PipeRead} {i : Nat}

theorem running_update
    (s : PipeState)
    (process : Slot)
    (point : PipePoint) :
    (fun other => (Function.update s.point process point other).write?) =
      Function.update s.running process point.write? := by
  funext other
  by_cases same : other = process
  · subst same
    simp
  · simp [Function.update_of_ne same, PipeState.running]

theorem leave_write
    {result : Int}
    (holds : ∃ held, PipeHolds s.data s.nread s.nwrite s.put s.taken held)
    (writes :
      WritesFit s.put s.writes
        (Function.update s.running process (some (write, i))))
    (isResult : result = i ∨ result = -1) :
    PipeFits (s.leave process (.write process write result)) := by
  have own := writes.running process write i (Function.update_self ..)
  have finished := writes.finish process
  rw [Function.update_idem] at finished
  refine {
    holds := holds
    writes := ?_
    results := ?_
  }
  · unfold PipeState.running
    simp only [PipeState.leave, running_update]
    exact finished
  · rcases isResult with stored | failed
    · refine {
        whole := ?_
        ends := ?_
      }
      · intro other otherWrite otherResult returns nonnegative
        cases returns
        rw [stored, Int.toNat_natCast]
        exact own.2
      · intro other otherRead returns
        cases returns
    · rw [failed]
      exact ReturnFits.failed_write process write ..

theorem pipewriteLoop
    {left : Nat}
    (holds : ∃ held, PipeHolds s.data s.nread s.nwrite s.put s.taken held)
    (writes :
      WritesFit s.put s.writes
        (Function.update s.running process (some (write, i)))) :
    PipeFits (PipeState.pipewriteLoop process write left i s) := by
  induction left generalizing s i with
  | zero =>
      exact leave_write (s := s.wakeup .nread) holds writes (Or.inl rfl)
  | succ left inductionHypothesis =>
      unfold PipeState.pipewriteLoop
      split
      · exact leave_write holds writes (Or.inr rfl)
      split
      · exact leave_write holds writes (Or.inr rfl)
      split
      · refine {
          holds := holds
          writes := ?_
          results := ReturnFits.none ..
        }
        unfold PipeState.running
        simp only [PipeState.sleepAt, PipeState.wakeup, running_update]
        exact writes
      · rename_i room
        obtain ⟨held, ring⟩ := holds
        apply inductionHypothesis
        · exact ⟨_, ring.store room ⟨write, i⟩⟩
        · exact writes.store

theorem leave_read
    {result : Int}
    (holds : ∃ held, PipeHolds s.data s.nread s.nwrite s.put s.taken held)
    (writes : WritesFit s.put s.writes s.running)
    (results :
      ReturnFits (some (.read process read result)) s.put s.nread s.nwrite
        s.writeopen) :
    PipeFits (s.leave process (.read process read result)) := by
  refine {
    holds := holds
    writes := ?_
    results := results
  }
  unfold PipeState.running
  simp only [PipeState.leave, running_update]
  exact writes.finish process

theorem pipereadLoop
    {left : Nat}
    (holds : ∃ held, PipeHolds s.data s.nread s.nwrite s.put s.taken held)
    (writes : WritesFit s.put s.writes s.running)
    (progress : i + left = read.n.toNat)
    (something : 0 < i ∨ s.nwrite ≠ s.nread) :
    PipeFits (PipeState.pipereadLoop process read left i s) := by
  induction left generalizing s i with
  | zero =>
      apply leave_read (s := s.wakeup .nwrite) holds writes
      refine {
        whole := ?_
        ends := ?_
      }
      · intro other write result returns
        cases returns
      · intro other otherRead returns asked
        simp only [Option.some.injEq, PipeReturn.read.injEq] at returns
        obtain ⟨_, isRead, nothing⟩ := returns
        subst isRead
        omega
  | succ left inductionHypothesis =>
      unfold PipeState.pipereadLoop
      split
      · rename_i empty
        have later : 0 < i := something.resolve_right fun some => some empty
        apply leave_read (s := s.wakeup .nwrite) holds writes
        apply ReturnFits.read_of_ne
        omega
      · rename_i nonempty
        cases read.walk i with
        | present =>
            obtain ⟨held, ring⟩ := holds
            apply inductionHypothesis
            · cases held with
              | nil =>
                  exact absurd (ring.empty_iff.mpr rfl) nonempty
              | cons byte rest =>
                  exact ⟨rest, ring.takeOut⟩
            · exact writes
            · omega
            · exact Or.inl (Nat.succ_pos i)
        | absent =>
            exact leave_read holds writes
              (ReturnFits.read_of_ne (by decide) ..)
        | outOfRange =>
            exact {
              holds := holds
              writes := writes
              results := ReturnFits.none ..
            }

theorem piperead
    (fits : PipeFits s) :
    PipeFits (s.piperead process read) := by
  unfold PipeState.piperead
  split
  · rename_i empty
    split
    · exact leave_read fits.holds fits.writes
        (ReturnFits.read_of_ne (by decide) ..)
    split
    · rename_i closed
      apply leave_read fits.holds fits.writes
      refine {
        whole := ?_
        ends := fun _ _ _ _ => ⟨empty, closed⟩
      }
      intro other write result returns
      cases returns
    · refine {
        holds := fits.holds
        writes := ?_
        results := ReturnFits.none ..
      }
      unfold PipeState.running
      simp only [PipeState.sleepAt, PipeState.wakeup, running_update]
      exact fits.writes.finish process
  · rename_i nonempty
    exact pipereadLoop fits.holds fits.writes (Nat.zero_add _)
      (Or.inr nonempty)

theorem writes_own
    (fits : PipeFits s)
    (waits : s.point process = .writing write i) :
    WritesFit s.put s.writes
      (Function.update s.running process (some (write, i))) := by
  have isOwn : s.running process = some (write, i) := by
    unfold PipeState.running
    rw [waits]
    rfl
  rw [← isOwn, Function.update_eq_self]
  exact fits.writes

theorem resume
    {after : PipeState}
    (fits : PipeFits s)
    (resumed : s.resume process = some after) :
    PipeFits after := by
  unfold PipeState.resume at resumed
  split at resumed
  · cases resumed
  cases waits : s.point process with
  | client =>
      simp only [waits] at resumed
      cases resumed
  | writing write i =>
      simp only [waits] at resumed
      have writes := fits.writes_own waits
      split at resumed
      · cases resumed
        exact leave_write fits.holds writes (Or.inr rfl)
      · cases resumed
        exact pipewriteLoop fits.holds writes
  | reading read =>
      simp only [waits] at resumed
      split at resumed
      · cases resumed
        exact leave_read fits.holds fits.writes
          (ReturnFits.read_of_ne (by decide) ..)
      · cases resumed
        exact fits.piperead

theorem freeClosed
    (fits : PipeFits s) :
    PipeFits s.freeClosed := by
  unfold PipeState.freeClosed
  split
  · exact {
      holds := fits.holds
      writes := fits.writes
      results := fits.results
    }
  · exact fits

theorem pipeclose
    (fits : PipeFits s)
    (writable : Bool) :
    PipeFits (s.pipeclose writable) := by
  apply freeClosed
  unfold PipeState.closeEnd
  split
  all_goals
    exact {
      holds := fits.holds
      writes := fits.writes
      results := ReturnFits.none ..
    }

theorem step
    {action : PipeAction}
    {after : PipeState}
    (fits : PipeFits s)
    (taken : s.Step action after) :
    PipeFits after := by
  unfold PipeState.Step PipeState.step? at taken
  split at taken
  · cases taken
  cases action with
  | pipewrite process kernelBuf n =>
      obtain ⟨_, isAfter⟩ := Option.ite_none_right_eq_some.mp taken
      cases isAfter
      exact pipewriteLoop fits.holds (fits.writes.begin process kernelBuf n)
  | piperead process read =>
      obtain ⟨_, isAfter⟩ := Option.ite_none_right_eq_some.mp taken
      cases isAfter
      exact fits.piperead
  | resume process =>
      exact fits.resume taken
  | pipeclose writable =>
      obtain ⟨_, isAfter⟩ := Option.ite_none_right_eq_some.mp taken
      cases isAfter
      exact fits.pipeclose writable
  | kill process =>
      cases taken
      exact {
        holds := fits.holds
        writes := fits.writes
        results := ReturnFits.none ..
      }
  | allocproc process =>
      obtain ⟨_, isAfter⟩ := Option.ite_none_right_eq_some.mp taken
      cases isAfter
      exact {
        holds := fits.holds
        writes := fits.writes
        results := ReturnFits.none ..
      }

theorem create
    (data : Nat → UInt8) :
    PipeFits (PipeState.create data) where
  holds := by
    have started : 0 < counterModulus := by
      decide
    refine ⟨[], ?_⟩
    exact {
      ring := .empty data started
      room := Nat.zero_le _
      history := ⟨[], rfl, rfl⟩
    }
  writes := by
    refine {
      fresh := ?_
      running := ?_
      apart := ?_
      order := ?_
    }
    · intro byte member
      cases member
    · intro process write i runs
      cases runs
    · intro process other write otherWrite i j _ runs
      cases runs
    · intro call
      exact ⟨⟨call, fun _ => 0, 0⟩, 0, rfl, rfl⟩
  results := ReturnFits.none ..

theorem fifoChannel
    (fits : PipeFits s) :
    s.FifoChannel 1 := by
  obtain ⟨held, ring⟩ := fits.holds
  refine {
    fifo := ?_
    order := ?_
    whole := fits.results.whole
    bounded := ?_
    ends := fits.results.ends
  }
  · obtain ⟨past, stored, taken⟩ := ring.history
    rw [stored, taken, List.map_append]
    exact List.prefix_append _ _
  · intro call
    obtain ⟨write, stored, isCall, inOrder⟩ := fits.writes.order call
    refine ⟨write, stored, isCall, ?_⟩
    unfold HasStored at inOrder
    rw [isCall] at inOrder
    exact inOrder
  · rw [ring.count_eq]
    exact ring.room

end PipeFits

namespace PipeState

/--
In every state of every run the pipe is a bounded first-in first-out channel,
and a read of at least one byte returns 0 only when the pipe is empty and its
write end is closed.
-/
theorem fifoChannel_of_run
    {data : Nat → UInt8}
    {trace : List (PipeState × PipeAction)}
    {final : PipeState}
    (run : Lib.Run Step (create data) trace final) :
    final.FifoChannel 1 := by
  have fits : PipeFits final :=
    run.invariant_all (PipeFits.create data) fun holds taken =>
      holds.step taken
  exact fits.fifoChannel

/-- The processes of the following runs. -/
def firstCaller : Slot := 0

/-- The second of them. -/
def secondCaller : Slot := 1

/-- The bytes 0, 1, 2 and so on. -/
def countingBytes (i : Nat) : UInt8 := UInt8.ofNat i

/-- A read into memory that is all there. -/
def readPresent (n : Int) : PipeRead where
  addr := 0
  n := n
  present := fun _ => true

/--
A reader sleeps on the empty pipe, is woken by a write of three bytes and takes
two of them.
-/
theorem fifoChannel_of_run_wokenReader :
    ∃ trace final,
      Lib.Run Step (create fun _ => 0) trace final ∧
        final.taken.length = 2 ∧
        final.FifoChannel 1 := by
  have reaches :
      (Lib.runActions step? (create fun _ => 0)
        [.piperead secondCaller (readPresent 2),
          .pipewrite firstCaller countingBytes 3,
          .resume secondCaller]).any
        (fun final => final.taken.length == 2) = true := by
    decide +kernel
  obtain ⟨final, accepted, two⟩ := (Option.any_eq_true _ _).mp reaches
  obtain ⟨trace, _, run⟩ := Lib.runActions_sound accepted
  exact ⟨trace, final, run, by simpa using two, fifoChannel_of_run run⟩

/-- A read of at least `least` bytes has returned 0. -/
def saysEnd (least : Int) : PipeReturn → Bool
  | .write _ _ _ => false
  | .read _ read result => decide (result = 0 ∧ least ≤ read.n)

/-- A read of no bytes returns 0 although there is something in the pipe. -/
theorem read_of_nothing_returns_zero :
    ¬ ∀ (data : Nat → UInt8) (trace : List (PipeState × PipeAction))
        (final : PipeState),
      Lib.Run Step (create data) trace final → final.FifoChannel 0 := by
  intro law
  have reaches :
      (Lib.runActions step? (create fun _ => 0)
        [.pipewrite firstCaller countingBytes 1,
          .piperead secondCaller (readPresent 0)]).any
        (fun final => final.returned.any (saysEnd 0) &&
          decide (final.nwrite ≠ final.nread)) = true := by
    decide +kernel
  obtain ⟨final, accepted, holds⟩ := (Option.any_eq_true _ _).mp reaches
  obtain ⟨trace, _, run⟩ := Lib.runActions_sound accepted
  simp only [Bool.and_eq_true, decide_eq_true_eq] at holds
  obtain ⟨returns, nonempty⟩ := holds
  obtain ⟨result, isReturn, isEnd⟩ := (Option.any_eq_true _ _).mp returns
  cases result with
  | write process write result =>
      cases isEnd
  | read process read result =>
      simp only [saysEnd, decide_eq_true_eq] at isEnd
      obtain ⟨isZero, asked⟩ := isEnd
      subst isZero
      exact nonempty ((law _ trace final run).ends process read isReturn
        asked).1

end PipeState

end MyOS
