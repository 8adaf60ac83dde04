import MyOS.PipeWakeups

namespace MyOS

/-!
# What a read takes out of a pipe

`piperead` copies byte by byte, and its buffer may end in an absent page after
any number of them.  A state is any pair of 32-bit counters over any ring, so
the results do not depend on how the pipe came to be in it.
-/

namespace PipeState

/-- `nread` and `nwrite` are `uint` fields. -/
structure CountersFit (s : PipeState) : Prop where
  nread : s.nread < counterModulus
  nwrite : s.nwrite < counterModulus

/-- The bytes from `nread` up to `nwrite`, oldest first. -/
def content (s : PipeState) : List UInt8 :=
  (List.range s.count).map fun i => s.data ((s.nread + i) % PIPESIZE)

/-- The step belongs to a call of `piperead`: its first one or a later one. -/
def Calls
    (s : PipeState)
    (process : Slot)
    (read : PipeRead)
    (action : PipeAction) : Prop :=
  action = .piperead process read ∨
    (action = .resume process ∧ s.point process = .reading read)

/-- The call finds an absent page after it has taken a byte. -/
def failsLate (s : PipeState) : PipeAction → Bool
  | .piperead _ read => s.stopsShort read
  | .resume process =>
      match s.point process with
      | .reading read => !s.killed process && s.stopsShort read
      | _ => false
  | _ => false

/-- The counters and the bytes between them are the same. -/
structure SameContent (s after : PipeState) : Prop where
  nread : after.nread = s.nread
  nwrite : after.nwrite = s.nwrite
  content : after.content = s.content
  taken : after.taken = s.taken

/--
A step of a read takes out what the call returns: nothing while it sleeps or
where it fails, and exactly `k` bytes, the oldest ones, where it returns `k`.
-/
structure TakesReturned
    (s after : PipeState)
    (process : Slot)
    (read : PipeRead) : Prop where
  sleeps :
    after.returned = none → after.locked = false → s.SameContent after
  fails :
    after.returned = some (.read process read (-1)) → s.SameContent after
  returns :
    ∀ k : Nat, after.returned = some (.read process read k) →
      after.nwrite = s.nwrite ∧
        after.nread = (s.nread + k) % counterModulus ∧
        k ≤ s.content.length ∧
        after.content = s.content.drop k ∧
        after.taken = s.taken ++ s.content.take k

@[simp] theorem length_content
    (s : PipeState) :
    s.content.length = s.count := by
  simp [content]

theorem count_eq_zero_iff
    {s : PipeState}
    (fits : s.CountersFit) :
    s.count = 0 ↔ s.nwrite = s.nread := by
  have read := fits.nread
  have write := fits.nwrite
  unfold count
  simp only [counterModulus] at read write ⊢
  omega

theorem content_eq_cons
    {s : PipeState}
    (fits : s.CountersFit)
    (something : s.nwrite ≠ s.nread) :
    s.content = s.data (s.nread % PIPESIZE) :: s.takeOut.content := by
  have read := fits.nread
  have write := fits.nwrite
  have one : s.count = s.takeOut.count + 1 := by
    unfold count takeOut
    simp only [counterModulus] at read write ⊢
    omega
  unfold content
  rw [one, List.range_succ_eq_map, List.map_cons, List.map_map]
  congr 1
  apply List.map_congr_left
  intro i _
  have place :
      ((s.nread + 1) % counterModulus + i) % PIPESIZE =
        (s.nread + (i + 1)) % PIPESIZE := by
    simp only [counterModulus, PIPESIZE]
    omega
  simp only [Function.comp_apply, takeOut]
  rw [place]

theorem CountersFit.takeOut
    {s : PipeState}
    (fits : s.CountersFit) :
    s.takeOut.CountersFit where
  nread := Nat.mod_lt _ (by decide)
  nwrite := fits.nwrite

/-- Some bytes have been taken out, the oldest first. -/
structure TakenOut (s after : PipeState) (k : Nat) : Prop where
  nwrite : after.nwrite = s.nwrite
  nread : after.nread = (s.nread + k) % counterModulus
  enough : k ≤ s.content.length
  content : after.content = s.content.drop k
  taken : after.taken = s.taken ++ s.content.take k

theorem TakenOut.refl
    {s : PipeState}
    (fits : s.CountersFit) :
    s.TakenOut s 0 where
  nwrite := rfl
  nread := (Nat.mod_eq_of_lt fits.nread).symm
  enough := Nat.zero_le _
  content := rfl
  taken := by simp

theorem TakenOut.next
    {s after : PipeState}
    {k : Nat}
    (fits : s.CountersFit)
    (something : s.nwrite ≠ s.nread)
    (rest : s.takeOut.TakenOut after k) :
    s.TakenOut after (k + 1) := by
  have front := content_eq_cons fits something
  refine {
    nwrite := rest.nwrite
    nread := ?_
    enough := ?_
    content := ?_
    taken := ?_
  }
  · rw [rest.nread]
    simp only [PipeState.takeOut, counterModulus]
    omega
  · rw [front, List.length_cons]
    exact Nat.succ_le_succ rest.enough
  · rw [front, List.drop_succ_cons]
    exact rest.content
  · rw [front, List.take_succ_cons, rest.taken]
    simp [PipeState.takeOut]

theorem TakenOut.of_same
    {s after other : PipeState}
    {k : Nat}
    (takenOut : s.TakenOut after k)
    (data : other.data = after.data)
    (nread : other.nread = after.nread)
    (nwrite : other.nwrite = after.nwrite)
    (taken : other.taken = after.taken) :
    s.TakenOut other k := by
  refine {
    nwrite := nwrite.trans takenOut.nwrite
    nread := nread.trans takenOut.nread
    enough := takenOut.enough
    content := ?_
    taken := taken.trans takenOut.taken
  }
  rw [← takenOut.content]
  simp only [PipeState.content, PipeState.count, data, nread, nwrite]

/-- How the second loop of `piperead` ends, after `k` bytes. -/
inductive LoopEnds
    (s : PipeState)
    (process : Slot)
    (read : PipeRead)
    (left i : Nat)
    (after : PipeState)
    (k : Nat) : Prop where
  | returns
      (all : k = min left s.count)
      (result :
        after.returned = some (.read process read ((i + k : Nat) : Int)))
  | fails
      (early : k < min left s.count)
      (absent : read.walk (i + k) = .absent)
      (result : after.returned = some (.read process read (-1)))
  | panics
      (early : k < min left s.count)
      (outOfRange : read.walk (i + k) = .outOfRange)
      (result : after.returned = none)
      (locked : after.locked = true)

theorem pipereadLoop_spec
    (process : Slot)
    (read : PipeRead)
    (left i : Nat)
    {s : PipeState}
    (fits : s.CountersFit) :
    ∃ k,
      (∀ j, j < k → read.walk (i + j) = .present) ∧
        s.TakenOut (pipereadLoop process read left i s) k ∧
        s.LoopEnds process read left i (pipereadLoop process read left i s)
          k := by
  induction left generalizing i s with
  | zero =>
      refine ⟨0, fun _ before => absurd before (Nat.not_lt_zero _), ?_, ?_⟩
      · exact (TakenOut.refl fits).of_same rfl rfl rfl rfl
      · exact .returns (by simp) rfl
  | succ left inductionHypothesis =>
      unfold pipereadLoop
      split
      · next empty =>
          have none := (count_eq_zero_iff fits).mpr empty
          refine ⟨0, fun _ before => absurd before (Nat.not_lt_zero _), ?_, ?_⟩
          · exact (TakenOut.refl fits).of_same rfl rfl rfl rfl
          · exact .returns (by omega) rfl
      · next something =>
          have length : s.count = s.takeOut.count + 1 := by
            rw [← length_content, content_eq_cons fits something,
              List.length_cons, length_content]
          split
          · next present =>
              obtain ⟨k, before, takenOut, ends⟩ :=
                inductionHypothesis (i + 1) fits.takeOut
              refine ⟨k + 1, ?_, takenOut.next fits something, ?_⟩
              · intro j early
                rcases j with _ | j
                · exact present
                · have step := before j (Nat.lt_of_succ_lt_succ early)
                  rwa [Nat.add_right_comm] at step
              · have index : i + 1 + k = i + (k + 1) := by omega
                cases ends with
                | returns all result =>
                    rw [index] at result
                    exact .returns (by omega) result
                | fails early absent result =>
                    rw [index] at absent
                    exact .fails (by omega) absent result
                | panics early outOfRange result locked =>
                    rw [index] at outOfRange
                    exact .panics (by omega) outOfRange result locked
          · next absent =>
              refine
                ⟨0, fun _ before => absurd before (Nat.not_lt_zero _), ?_, ?_⟩
              · exact (TakenOut.refl fits).of_same rfl rfl rfl rfl
              · exact .fails (by omega) absent rfl
          · next outOfRange =>
              refine
                ⟨0, fun _ before => absurd before (Nat.not_lt_zero _), ?_, ?_⟩
              · exact (TakenOut.refl fits).of_same rfl rfl rfl rfl
              · exact .panics (by omega) outOfRange rfl rfl

theorem stopsShort_iff
    (s : PipeState)
    (read : PipeRead) :
    s.stopsShort read = true ↔
      ∃ k, 0 < k ∧ k < min read.n.toNat s.count ∧
        read.walk k = .absent ∧ ∀ j, j < k → read.walk j = .present := by
  simp only [stopsShort, List.any_eq_true, List.mem_range, Bool.and_eq_true,
    decide_eq_true_eq, List.all_eq_true]
  constructor
  · rintro ⟨k, early, ⟨positive, absent⟩, before⟩
    exact ⟨k, positive, early, absent, before⟩
  · rintro ⟨k, positive, early, absent, before⟩
    exact ⟨k, early, ⟨positive, absent⟩, before⟩

theorem SameContent.of_same
    {s after : PipeState}
    (data : after.data = s.data)
    (nread : after.nread = s.nread)
    (nwrite : after.nwrite = s.nwrite)
    (taken : after.taken = s.taken) :
    s.SameContent after where
  nread := nread
  nwrite := nwrite
  content := by
    simp only [PipeState.content, PipeState.count, data, nread, nwrite]
  taken := taken

theorem TakesReturned.of_same
    {s after : PipeState}
    {process : Slot}
    {read : PipeRead}
    (fits : s.CountersFit)
    (same : s.SameContent after)
    (nothing :
      ∀ k : Nat, after.returned = some (.read process read k) → k = 0) :
    s.TakesReturned after process read where
  sleeps := fun _ _ => same
  fails := fun _ => same
  returns := by
    intro k returned
    have zero := nothing k returned
    subst zero
    exact ⟨same.nwrite, same.nread.trans (Nat.mod_eq_of_lt fits.nread).symm,
      Nat.zero_le _, same.content, by simp [same.taken]⟩

theorem TakesReturned.leave
    {s : PipeState}
    {process : Slot}
    {read : PipeRead}
    {result : Int}
    (fits : s.CountersFit)
    (nothing : result ≤ 0) :
    s.TakesReturned (s.leave process (.read process read result)) process
      read := by
  refine TakesReturned.of_same fits ?_ ?_
  · exact .of_same rfl rfl rfl rfl
  · intro k returned
    simp only [PipeState.leave, Option.some.injEq, PipeReturn.read.injEq,
      true_and] at returned
    omega

theorem TakesReturned.of_returns
    {s after : PipeState}
    {process : Slot}
    {read : PipeRead}
    {k : Nat}
    (takenOut : s.TakenOut after k)
    (result : after.returned = some (.read process read (k : Int))) :
    s.TakesReturned after process read where
  sleeps := by
    intro returned
    rw [result] at returned
    cases returned
  fails := by
    intro returned
    rw [result] at returned
    simp only [Option.some.injEq, PipeReturn.read.injEq, true_and] at returned
    omega
  returns := by
    intro count returned
    rw [result] at returned
    simp only [Option.some.injEq, PipeReturn.read.injEq, true_and,
      Int.natCast_inj] at returned
    subst returned
    exact ⟨takenOut.nwrite, takenOut.nread, takenOut.enough, takenOut.content,
      takenOut.taken⟩

theorem TakesReturned.of_panics
    {s after : PipeState}
    {process : Slot}
    {read : PipeRead}
    (result : after.returned = none)
    (locked : after.locked = true) :
    s.TakesReturned after process read where
  sleeps := by
    intro _ free
    rw [locked] at free
    cases free
  fails := by
    intro returned
    rw [result] at returned
    cases returned
  returns := by
    intro _ returned
    rw [result] at returned
    cases returned

theorem TakenOut.sameContent
    {s after : PipeState}
    (fits : s.CountersFit)
    (takenOut : s.TakenOut after 0) :
    s.SameContent after where
  nread := by
    rw [takenOut.nread, Nat.add_zero]
    exact Nat.mod_eq_of_lt fits.nread
  nwrite := takenOut.nwrite
  content := takenOut.content
  taken := by
    rw [takenOut.taken, List.take_zero, List.append_nil]

theorem TakenOut.nread_ne
    {s after : PipeState}
    {k : Nat}
    (fits : s.CountersFit)
    (takenOut : s.TakenOut after k)
    (positive : 0 < k) :
    after.nread ≠ s.nread := by
  have enough := takenOut.enough
  have bound : s.count < counterModulus := Nat.mod_lt _ (by decide)
  have start := fits.nread
  rw [length_content] at enough
  rw [takenOut.nread]
  simp only [counterModulus] at bound start ⊢
  omega

theorem stopsShort_iff_of_stop
    {s : PipeState}
    {read : PipeRead}
    {k : Nat}
    (before : ∀ j, j < k → read.walk j = .present)
    (early : k < min read.n.toNat s.count)
    (stops : read.walk k ≠ .present) :
    s.stopsShort read = true ↔ 0 < k ∧ read.walk k = .absent := by
  rw [stopsShort_iff]
  constructor
  · rintro ⟨other, positive, _, absent, present⟩
    rcases Nat.lt_trichotomy other k with below | equal | above
    · rw [before other below] at absent
      cases absent
    · rw [← equal]
      exact ⟨positive, absent⟩
    · exact absurd (present k above) stops
  · rintro ⟨positive, absent⟩
    exact ⟨k, positive, early, absent, before⟩

theorem stopsShort_of_all
    {s : PipeState}
    {read : PipeRead}
    (before :
      ∀ j, j < min read.n.toNat s.count → read.walk j = .present) :
    s.stopsShort read = false := by
  rw [← Bool.not_eq_true, stopsShort_iff]
  rintro ⟨k, _, early, absent, _⟩
  rw [before k early] at absent
  cases absent

theorem piperead_takesReturned_iff
    {s : PipeState}
    (fits : s.CountersFit)
    (process : Slot)
    (read : PipeRead) :
    s.TakesReturned (s.piperead process read) process read ↔
      s.stopsShort read = false := by
  unfold piperead
  split
  · next empty =>
      have none := (count_eq_zero_iff fits).mpr empty
      have early : s.stopsShort read = false :=
        stopsShort_of_all fun j below => by omega
      refine iff_of_true ?_ early
      split
      · exact TakesReturned.leave fits (by omega)
      · split
        · exact TakesReturned.leave fits (by omega)
        · refine TakesReturned.of_same fits ?_ ?_
          · exact .of_same rfl rfl rfl rfl
          · intro k returned
            simp [sleepAt] at returned
  · obtain ⟨k, before, takenOut, ends⟩ :=
      pipereadLoop_spec process read read.n.toNat 0 fits
    simp only [Nat.zero_add] at before
    generalize pipereadLoop process read read.n.toNat 0 s = after
      at takenOut ends
    cases ends with
    | returns all result =>
        rw [Nat.zero_add] at result
        subst all
        exact iff_of_true (.of_returns takenOut result)
          (stopsShort_of_all before)
    | fails early absent result =>
        rw [Nat.zero_add] at absent
        have late := stopsShort_iff_of_stop before early (by simp [absent])
        rw [← Bool.not_eq_true, late]
        constructor
        · rintro takes ⟨positive, _⟩
          exact takenOut.nread_ne fits positive (takes.fails result).nread
        · intro notLate
          have first : k = 0 := by
            rcases Nat.eq_zero_or_pos k with zero | positive
            · exact zero
            · exact absurd ⟨positive, absent⟩ notLate
          subst first
          apply TakesReturned.of_same fits (takenOut.sameContent fits)
          intro count returned
          rw [result] at returned
          simp only [Option.some.injEq, PipeReturn.read.injEq] at returned
          omega
    | panics early outOfRange result locked =>
        rw [Nat.zero_add] at outOfRange
        have late := stopsShort_iff_of_stop before early (by simp [outOfRange])
        refine iff_of_true (.of_panics result locked) ?_
        rw [← Bool.not_eq_true, late, outOfRange]
        rintro ⟨_, absent⟩
        cases absent

/--
In every state of a pipe, a step of a read takes out exactly what the call
returns if and only if it does not find an absent page after its first byte.
-/
theorem takesReturned_iff_failsLate
    {s after : PipeState}
    {process : Slot}
    {read : PipeRead}
    {action : PipeAction}
    (fits : s.CountersFit)
    (calls : s.Calls process read action)
    (step : s.Step action after) :
    s.TakesReturned after process read ↔ s.failsLate action = false := by
  unfold Step step? at step
  split at step
  · cases step
  rcases calls with isFirst | ⟨isLater, reading⟩
  · subst isFirst
    simp only at step
    split at step
    · cases step
      exact piperead_takesReturned_iff fits process read
    · cases step
  · subst isLater
    simp only [PipeState.resume, reading] at step
    simp only [failsLate, reading]
    split at step
    · cases step
    · split at step
      · next killed =>
          cases step
          refine iff_of_true ?_ (by simp [killed])
          exact TakesReturned.leave fits (by omega)
      · next alive =>
          cases step
          rw [piperead_takesReturned_iff fits process read]
          simp [alive]

/-- A pipe with two bytes. -/
def twoBytes : PipeState :=
  (create fun _ => 0).pipewrite firstCaller ⟨0, countingBytes, 2⟩ 0

/-- A read of one of two bytes takes it. -/
theorem takesReturned_iff_failsLate_oneByte :
    ∃ after, twoBytes.Step (.piperead firstCaller { readAcross with n := 1 })
      after ∧
        twoBytes.TakesReturned after firstCaller { readAcross with n := 1 } :=
  ⟨twoBytes.piperead firstCaller { readAcross with n := 1 }, by rfl,
    (takesReturned_iff_failsLate ⟨by decide, by decide⟩ (Or.inl rfl)
      (by rfl)).mpr (by decide)⟩

/--
A read of two bytes finds its second page absent and returns -1, and the byte
that it has taken is lost.
-/
theorem failed_read_takes_byte :
    ∃ after,
      twoBytes.CountersFit ∧
        twoBytes.Step (.piperead firstCaller readAcross) after ∧
        after.returned = some (.read firstCaller readAcross (-1)) ∧
        twoBytes.content.length = 2 ∧ after.content.length = 1 ∧
        ¬ twoBytes.TakesReturned after firstCaller readAcross := by
  refine ⟨twoBytes.piperead firstCaller readAcross, ⟨by decide, by decide⟩,
    by rfl, by rfl, by decide, by decide, ?_⟩
  intro takes
  have same := (takes.fails rfl).nread
  exact absurd same (by decide)

end PipeState

end MyOS
