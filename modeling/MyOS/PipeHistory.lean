import MyOS.Lib.Ring
import MyOS.PipeMachine

namespace MyOS

/-!
# What a pipe has carried

The bytes in the ring are the ones that were stored and have not been taken
out, and the bytes of one call of `pipewrite` were stored in the order of its
buffer.  Every step of the pipe keeps both.
-/

/-- The ring holds the bytes that were stored and not yet taken out. -/
structure PipeHolds
    (data : Nat → UInt8)
    (nread nwrite : Nat)
    (put : List PipeByte)
    (taken : List UInt8)
    (held : List PipeByte) : Prop where
  ring :
    Lib.RingHolds PIPESIZE counterModulus data nread nwrite
      (held.map PipeByte.value)
  room : held.length ≤ PIPESIZE
  history : ∃ past, put = past ++ held ∧ taken = past.map PipeByte.value

namespace PipeHolds

variable {s : PipeState} {held : List PipeByte}

theorem size_divides : PIPESIZE ∣ counterModulus := by
  decide

theorem count_eq
    (holds : PipeHolds s.data s.nread s.nwrite s.put s.taken held) :
    s.count = held.length := by
  have room := holds.room
  have fits : (held.map PipeByte.value).length < counterModulus := by
    rw [List.length_map]
    exact Nat.lt_of_le_of_lt room (by decide)
  have difference := holds.ring.length_eq fits
  rw [List.length_map] at difference
  exact difference

theorem empty_iff
    (holds : PipeHolds s.data s.nread s.nwrite s.put s.taken held) :
    s.nwrite = s.nread ↔ held = [] := by
  have room := holds.room
  have fits : (held.map PipeByte.value).length < counterModulus := by
    rw [List.length_map]
    exact Nat.lt_of_le_of_lt room (by decide)
  have agree := holds.ring.eq_nil_iff fits
  rw [List.map_eq_nil_iff] at agree
  rw [← agree]
  exact eq_comm

theorem store
    (holds : PipeHolds s.data s.nread s.nwrite s.put s.taken held)
    (room : s.count ≠ PIPESIZE)
    (byte : PipeByte) :
    PipeHolds (s.store byte).data (s.store byte).nread (s.store byte).nwrite
      (s.store byte).put (s.store byte).taken (held ++ [byte]) := by
  have short : held.length < PIPESIZE := by
    have most := holds.room
    rw [holds.count_eq] at room
    omega
  obtain ⟨past, stored, taken⟩ := holds.history
  refine {
    ring := ?_
    room := ?_
    history := ⟨past, ?_, taken⟩
  }
  · rw [List.map_append]
    apply holds.ring.push size_divides
    rw [List.length_map]
    exact short
  · rw [List.length_append, List.length_singleton]
    exact short
  · simp [PipeState.store, stored]

theorem takeOut
    {byte : PipeByte}
    {rest : List PipeByte}
    (holds :
      PipeHolds s.data s.nread s.nwrite s.put s.taken (byte :: rest)) :
    PipeHolds s.takeOut.data s.takeOut.nread s.takeOut.nwrite s.takeOut.put
      s.takeOut.taken rest := by
  obtain ⟨oldest, ring⟩ := holds.ring.pop size_divides
  obtain ⟨past, stored, taken⟩ := holds.history
  have room := holds.room
  refine {
    ring := ring
    room := ?_
    history := ⟨past ++ [byte], ?_, ?_⟩
  }
  · rw [List.length_cons] at room
    omega
  · simp [PipeState.takeOut, stored]
  · simp only [PipeState.takeOut, taken, oldest, List.map_append,
      List.map_singleton]

end PipeHolds

/-- The bytes of one call, oldest first. -/
def enteredOf (put : List PipeByte) (call : Nat) : List PipeByte :=
  put.filter fun byte => byte.write.call == call

/-- A call of `pipewrite` has stored its first `stored` bytes in their order. -/
def HasStored
    (put : List PipeByte)
    (write : PipeWrite)
    (stored : Nat) : Prop :=
  enteredOf put write.call = (List.range stored).map (PipeByte.mk write)

/-- Every call has stored its bytes in order; `current` gives the running ones. -/
structure WritesFit
    (put : List PipeByte)
    (writes : Nat)
    (current : Slot → Option (PipeWrite × Nat)) : Prop where
  fresh : ∀ byte ∈ put, byte.write.call < writes
  running :
    ∀ process write i, current process = some (write, i) →
      write.call < writes ∧ HasStored put write i
  apart :
    ∀ process other write otherWrite i j, process ≠ other →
      current process = some (write, i) →
      current other = some (otherWrite, j) →
      write.call ≠ otherWrite.call
  order :
    ∀ call, ∃ write stored, write.call = call ∧ HasStored put write stored

theorem enteredOf_own
    (put : List PipeByte)
    (byte : PipeByte) :
    enteredOf (put ++ [byte]) byte.write.call =
      enteredOf put byte.write.call ++ [byte] := by
  simp [enteredOf, List.filter_append]

theorem enteredOf_other
    {byte : PipeByte}
    {call : Nat}
    (other : byte.write.call ≠ call)
    (put : List PipeByte) :
    enteredOf (put ++ [byte]) call = enteredOf put call := by
  simp [enteredOf, List.filter_append, other]

theorem HasStored.next
    {put : List PipeByte}
    {write : PipeWrite}
    {i : Nat}
    (stored : HasStored put write i) :
    HasStored (put ++ [⟨write, i⟩]) write (i + 1) := by
  unfold HasStored at stored ⊢
  have own := enteredOf_own put ⟨write, i⟩
  simp only at own
  rw [own, stored, List.range_succ, List.map_append, List.map_singleton]

namespace WritesFit

variable {put : List PipeByte} {writes : Nat}
variable {current : Slot → Option (PipeWrite × Nat)}
variable {process : Slot} {write : PipeWrite} {i : Nat}

theorem store
    (fits :
      WritesFit put writes
        (Function.update current process (some (write, i)))) :
    WritesFit (put ++ [⟨write, i⟩]) writes
      (Function.update current process (some (write, i + 1))) := by
  have own := fits.running process write i (Function.update_self ..)
  refine {
    fresh := ?_
    running := ?_
    apart := ?_
    order := ?_
  }
  · intro byte member
    rcases List.mem_append.mp member with isOld | isNew
    · exact fits.fresh byte isOld
    · rw [List.mem_singleton.mp isNew]
      exact own.1
  · intro other otherWrite j runs
    by_cases same : other = process
    · subst same
      rw [Function.update_self] at runs
      cases runs
      exact ⟨own.1, own.2.next⟩
    · rw [Function.update_of_ne same] at runs
      have before :
          Function.update current process (some (write, i)) other =
            some (otherWrite, j) := by
        rw [Function.update_of_ne same]
        exact runs
      have different : write.call ≠ otherWrite.call :=
        fits.apart process other write otherWrite i j (Ne.symm same)
          (Function.update_self ..) before
      have stored := fits.running other otherWrite j before
      refine ⟨stored.1, ?_⟩
      unfold HasStored
      rw [enteredOf_other different]
      exact stored.2
  · intro first second firstWrite secondWrite j k different runs alsoRuns
    by_cases isFirst : first = process
    · subst isFirst
      rw [Function.update_self] at runs
      cases runs
      apply fits.apart first second write secondWrite i k different
      · exact Function.update_self ..
      · rw [Function.update_of_ne (Ne.symm different)] at alsoRuns ⊢
        exact alsoRuns
    · rw [Function.update_of_ne isFirst] at runs
      by_cases isSecond : second = process
      · subst isSecond
        rw [Function.update_self] at alsoRuns
        cases alsoRuns
        apply fits.apart first second firstWrite write j i different
        · rw [Function.update_of_ne isFirst]
          exact runs
        · exact Function.update_self ..
      · rw [Function.update_of_ne isSecond] at alsoRuns
        apply fits.apart first second firstWrite secondWrite j k different
        · rw [Function.update_of_ne isFirst]
          exact runs
        · rw [Function.update_of_ne isSecond]
          exact alsoRuns
  · intro call
    by_cases isOwn : write.call = call
    · exact ⟨write, i + 1, isOwn, own.2.next⟩
    · obtain ⟨past, stored, isCall, before⟩ := fits.order call
      refine ⟨past, stored, isCall, ?_⟩
      unfold HasStored at before ⊢
      rw [isCall] at before ⊢
      rw [enteredOf_other isOwn]
      exact before

theorem finish
    (fits : WritesFit put writes current)
    (process : Slot) :
    WritesFit put writes (Function.update current process none) := by
  have before :
      ∀ other entry,
        Function.update current process none other = some entry →
          current other = some entry := by
    intro other entry runs
    by_cases same : other = process
    · subst same
      rw [Function.update_self] at runs
      cases runs
    · rw [Function.update_of_ne same] at runs
      exact runs
  refine {
    fresh := fits.fresh
    running := ?_
    apart := ?_
    order := fits.order
  }
  · intro other otherWrite j runs
    exact fits.running other otherWrite j (before _ _ runs)
  · intro first second firstWrite secondWrite j k different runs alsoRuns
    exact fits.apart first second firstWrite secondWrite j k different
      (before _ _ runs) (before _ _ alsoRuns)

theorem begin
    (fits : WritesFit put writes current)
    (process : Slot)
    (kernelBuf : Nat → UInt8)
    (n : Int) :
    WritesFit put (writes + 1)
      (Function.update current process (some (⟨writes, kernelBuf, n⟩, 0))) := by
  have nothing : enteredOf put writes = [] := by
    apply List.filter_eq_nil_iff.mpr
    intro byte member isCall
    have earlier := fits.fresh byte member
    rw [beq_iff_eq] at isCall
    omega
  refine {
    fresh := ?_
    running := ?_
    apart := ?_
    order := fits.order
  }
  · intro byte member
    exact Nat.lt_succ_of_lt (fits.fresh byte member)
  · intro other otherWrite j runs
    by_cases same : other = process
    · subst same
      rw [Function.update_self] at runs
      cases runs
      exact ⟨Nat.lt_succ_self writes, nothing⟩
    · rw [Function.update_of_ne same] at runs
      have stored := fits.running other otherWrite j runs
      exact ⟨Nat.lt_succ_of_lt stored.1, stored.2⟩
  · intro first second firstWrite secondWrite j k different runs alsoRuns
    by_cases isFirst : first = process
    · subst isFirst
      rw [Function.update_self] at runs
      rw [Function.update_of_ne (Ne.symm different)] at alsoRuns
      cases runs
      exact Nat.ne_of_gt (fits.running second secondWrite k alsoRuns).1
    · rw [Function.update_of_ne isFirst] at runs
      by_cases isSecond : second = process
      · subst isSecond
        rw [Function.update_self] at alsoRuns
        cases alsoRuns
        exact Nat.ne_of_lt (fits.running first firstWrite j runs).1
      · rw [Function.update_of_ne isSecond] at alsoRuns
        exact fits.apart first second firstWrite secondWrite j k different
          runs alsoRuns

end WritesFit

end MyOS
