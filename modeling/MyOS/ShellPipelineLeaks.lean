import MyOS.ShellPipeline

namespace MyOS

/-!
# What a pipeline leaves behind

Up to the first call that fails, the shell holds the read end of the last pipe
and nothing else.  A failed `fork` then returns without the waits, and a failed
`pipe` goes unnoticed.
-/

namespace Descriptors

theorem fdalloc_mem
    {ofile : Descriptors}
    {fd : Nat}
    (found : ofile.fdalloc = some fd) :
    fd ∈ ofile.freeSlots := by
  have inside := List.mem_range.mp (List.mem_of_find?_eq_some found)
  have free := List.find?_some found
  rw [freeSlots, Finset.mem_filter, Finset.mem_range]
  exact ⟨inside, of_decide_eq_true free⟩

theorem fdalloc_isSome
    (ofile : Descriptors)
    (room : 0 < ofile.freeSlots.card) :
    ∃ fd, ofile.fdalloc = some fd := by
  obtain ⟨fd, isFree⟩ := Finset.card_pos.mp room
  rw [freeSlots, Finset.mem_filter, Finset.mem_range] at isFree
  rw [← Option.isSome_iff_exists, fdalloc, List.find?_isSome]
  exact ⟨fd, List.mem_range.mpr isFree.1, decide_eq_true isFree.2⟩

theorem fdalloc_eq_none
    (ofile : Descriptors)
    (full : ofile.freeSlots.card = 0) :
    ofile.fdalloc = none := by
  rcases found : ofile.fdalloc with _ | fd
  · rfl
  · have member := fdalloc_mem found
    rw [Finset.card_eq_zero.mp full] at member
    exact absurd member (Finset.notMem_empty fd)

theorem freeSlots_update
    (ofile : Descriptors)
    (fd : Nat)
    (f : ShellFile) :
    freeSlots (Function.update ofile fd (some f)) =
      ofile.freeSlots.erase fd := by
  ext other
  simp only [freeSlots, Finset.mem_filter, Finset.mem_range,
    Finset.mem_erase]
  by_cases same : other = fd
  · subst same
    simp
  · rw [Function.update_of_ne same]
    simp [same]

theorem card_freeSlots_update
    {ofile : Descriptors}
    {fd : Nat}
    (isFree : fd ∈ ofile.freeSlots)
    (f : ShellFile) :
    (freeSlots (Function.update ofile fd (some f))).card + 1 =
      ofile.freeSlots.card := by
  rw [freeSlots_update]
  exact Finset.card_erase_add_one isFree

theorem fdalloc_zero
    {ofile : Descriptors}
    (free : ofile 0 = none) :
    ofile.fdalloc = some 0 := by
  simp [fdalloc, NOFILE, List.range_succ_eq_map, free]

theorem fdalloc_one
    {ofile : Descriptors}
    (used : ofile 0 ≠ none)
    (free : ofile 1 = none) :
    ofile.fdalloc = some 1 := by
  simp [fdalloc, NOFILE, List.range_succ_eq_map, free, used]

theorem sysClose_eq
    (ofile : Descriptors)
    (fd : Nat)
    (inside : fd < NOFILE) :
    ofile.sysClose fd = Function.update ofile fd none := by
  have bounds : (0 : Int) ≤ fd ∧ (fd : Int) < NOFILE := by omega
  rw [sysClose, if_pos bounds, Int.toNat_natCast]

theorem closeIfOpen_eq
    (ofile : Descriptors)
    {fd : Nat}
    (inside : fd < NOFILE) :
    ofile.closeIfOpen fd = Function.update ofile fd none := by
  rw [closeIfOpen, if_pos (Int.natCast_nonneg fd), sysClose_eq ofile fd inside]

@[simp] theorem closeIfOpen_neg
    (ofile : Descriptors) :
    ofile.closeIfOpen (-1) = ofile := by
  rw [closeIfOpen, if_neg (by decide)]

@[simp] theorem sysDup_neg
    (ofile : Descriptors) :
    ofile.sysDup (-1) = ofile := by
  rw [sysDup, if_neg (by decide)]

theorem sysDup_eq
    {ofile : Descriptors}
    {fd newfd : Nat}
    {f : ShellFile}
    (inside : fd < NOFILE)
    (isOpen : ofile fd = some f)
    (found : ofile.fdalloc = some newfd) :
    ofile.sysDup fd = Function.update ofile newfd (some f) := by
  have bounds : (0 : Int) ≤ fd ∧ (fd : Int) < NOFILE := by omega
  simp only [sysDup, if_pos bounds, Int.toNat_natCast, isOpen, found]

end Descriptors

theorem not_unsigned_neg (value : UInt64) : ¬ value < 0 := by
  rw [UInt64.lt_iff_toNat_lt]
  exact Nat.not_lt_zero _

/-- The two descriptors that `sys_pipe` hands out. -/
structure MakesPipe
    (stage : Nat)
    (ofile : Descriptors)
    (call : PipeAnswer)
    (fd0 fd1 : Nat) : Prop where
  reading : fd0 ∈ ofile.freeSlots
  writing : fd1 ∈ ofile.freeSlots
  apart : fd1 ≠ fd0
  fds0 : call.fds0 = fd0
  fds1 : call.fds1 = fd1
  ofile :
    call.ofile =
      Function.update (Function.update ofile fd0 (some (.pipeRead stage))) fd1
        (some (.pipeWrite stage))

/-- Nothing has been handed out. -/
structure FailsPipe (ofile : Descriptors) (call : PipeAnswer) : Prop where
  fds0 : call.fds0 = -1
  fds1 : call.fds1 = -1
  ofile : call.ofile = ofile

theorem sysPipe_makes
    {works : Bool}
    {ofile : Descriptors}
    (can : works = true)
    (room : 2 ≤ ofile.freeSlots.card)
    (stage : Nat) :
    ∃ fd0 fd1, MakesPipe stage ofile (sysPipe works stage ofile) fd0 fd1 := by
  obtain ⟨fd0, found⟩ := ofile.fdalloc_isSome (Nat.lt_of_lt_of_le
    (by decide) room)
  have isFree := Descriptors.fdalloc_mem found
  have rest := Descriptors.card_freeSlots_update isFree (.pipeRead stage)
  obtain ⟨fd1, alsoFound⟩ := Descriptors.fdalloc_isSome
    (Function.update ofile fd0 (some (.pipeRead stage))) (by omega)
  have alsoFree := Descriptors.fdalloc_mem alsoFound
  rw [Descriptors.freeSlots_update, Finset.mem_erase] at alsoFree
  refine ⟨fd0, fd1, isFree, alsoFree.2, alsoFree.1, ?_, ?_, ?_⟩ <;>
    simp only [sysPipe, can, if_true, found, alsoFound]

theorem sysPipe_fails
    {works : Bool}
    {ofile : Descriptors}
    (cannot : works = true → ofile.freeSlots.card < 2)
    (stage : Nat) :
    FailsPipe ofile (sysPipe works stage ofile) := by
  unfold sysPipe
  split
  · next can =>
      have full := cannot can
      split
      · exact ⟨rfl, rfl, rfl⟩
      · next fd0 found =>
          have isFree := Descriptors.fdalloc_mem found
          have rest :=
            Descriptors.card_freeSlots_update isFree (.pipeRead stage)
          have none := Descriptors.fdalloc_eq_none
            (Function.update ofile fd0 (some (.pipeRead stage))) (by omega)
          simp only [none]
          exact ⟨rfl, rfl, rfl⟩
  · exact ⟨rfl, rfl, rfl⟩

/-- The shell holds the read end of the pipe before stage `i`, if any. -/
inductive Holding
    (shell : Descriptors)
    (i : Nat)
    (ofile : Descriptors)
    (prevRead : Int) : Prop where
  | nothing
      (first : i = 0)
      (table : ofile = shell)
      (none : prevRead = -1)
  | reading
      (fd : Nat)
      (later : i ≠ 0)
      (isFree : fd ∈ shell.freeSlots)
      (table :
        ofile = Function.update shell fd (some (.pipeRead (i - 1))))
      (holds : prevRead = fd)

theorem ShellProcess.Ready.le_of_free
    {process : ShellProcess}
    {fd : Nat}
    (ready : process.Ready)
    (isFree : fd ∈ process.ofile.freeSlots) :
    2 ≤ fd ∧ fd < NOFILE ∧ process.ofile fd = none := by
  rw [Descriptors.freeSlots, Finset.mem_filter, Finset.mem_range] at isFree
  refine ⟨?_, isFree.1, isFree.2⟩
  rcases fd with _ | _ | fd
  · exact absurd isFree.2 ready.input
  · exact absurd isFree.2 ready.output
  · omega

namespace Holding

variable {process : ShellProcess} {i : Nat} {ofile : Descriptors}
variable {prevRead : Int}

theorem free_of_free
    (holding : Holding process.ofile i ofile prevRead)
    {fd : Nat}
    (isFree : fd ∈ ofile.freeSlots) :
    fd ∈ process.ofile.freeSlots := by
  cases holding with
  | nothing first table none =>
      rw [← table]
      exact isFree
  | reading held later heldFree table holds =>
      rw [table, Descriptors.freeSlots_update, Finset.mem_erase] at isFree
      exact isFree.2

theorem card_freeSlots
    (holding : Holding process.ofile i ofile prevRead) :
    ofile.freeSlots.card + (if i = 0 then 0 else 1) =
      process.ofile.freeSlots.card := by
  cases holding with
  | nothing first table none =>
      rw [if_pos first, table, Nat.add_zero]
  | reading held later heldFree table holds =>
      rw [if_neg later, table]
      exact Descriptors.card_freeSlots_update heldFree _

theorem childInput
    (holding : Holding process.ofile i ofile prevRead)
    (ready : process.Ready)
    {table : Descriptors}
    (agrees :
      ∀ fd, fd ∉ ofile.freeSlots → fd < NOFILE → table fd = ofile fd) :
    (if 0 ≤ prevRead then (table.sysClose 0).sysDup prevRead else table) =
      if i = 0 then
        table
      else
        Function.update table 0 (some (.pipeRead (i - 1))) := by
  cases holding with
  | nothing first same none =>
      rw [if_pos first, none, if_neg (by decide)]
  | reading held later heldFree same holds =>
      obtain ⟨above, inside, _⟩ := ready.le_of_free heldFree
      have here : table held = some (.pipeRead (i - 1)) := by
        rw [agrees held _ inside, same, Function.update_self]
        rw [same, Descriptors.freeSlots_update]
        exact Finset.notMem_erase held _
      have closed :
          table.sysClose 0 = Function.update table 0 none :=
        table.sysClose_eq 0 (by decide)
      rw [if_neg later, holds, if_pos (Int.natCast_nonneg held), closed,
        Descriptors.sysDup_eq inside
          (by rw [Function.update_of_ne (by omega)]; exact here)
          (Descriptors.fdalloc_zero (Function.update_self ..)),
        Function.update_idem]

theorem MakesPipe.agrees
    {stage fd0 fd1 : Nat}
    {made : PipeAnswer}
    (makes : MakesPipe stage ofile made fd0 fd1)
    {fd : Nat}
    (used : fd ∉ ofile.freeSlots) :
    made.ofile fd = ofile fd := by
  have notReading : fd ≠ fd0 := by
    rintro rfl
    exact used makes.reading
  have notWriting : fd ≠ fd1 := by
    rintro rfl
    exact used makes.writing
  rw [makes.ofile, Function.update_of_ne notWriting,
    Function.update_of_ne notReading]

theorem table_of_lt
    (holding : Holding process.ofile i ofile prevRead)
    (ready : process.Ready)
    {fd : Nat}
    (below : fd < 2) :
    ofile fd = process.ofile fd := by
  cases holding with
  | nothing first table none =>
      rw [table]
  | reading held later heldFree table holds =>
      have above := (ready.le_of_free heldFree).1
      rw [table, Function.update_of_ne (by omega)]

theorem closePrevious_of_lt
    (holding : Holding process.ofile i ofile prevRead)
    (ready : process.Ready)
    (table : Descriptors)
    {fd : Nat}
    (other : fd < 2 ∨ fd ∈ ofile.freeSlots) :
    table.closeIfOpen prevRead fd = table fd := by
  cases holding with
  | nothing first same none =>
      rw [none, Descriptors.closeIfOpen_neg]
  | reading held later heldFree same holds =>
      obtain ⟨above, inside, _⟩ := ready.le_of_free heldFree
      have apart : fd ≠ held := by
        rcases other with low | isFree
        · omega
        · rw [same, Descriptors.freeSlots_update, Finset.mem_erase] at isFree
          exact isFree.1
      rw [holds, Descriptors.closeIfOpen_eq _ inside,
        Function.update_of_ne apart]

theorem closePrevious
    (holding : Holding process.ofile i ofile prevRead)
    (ready : process.Ready)
    {table : Descriptors}
    {fd : Nat}
    (same : table fd = ofile fd) :
    table.closeIfOpen prevRead fd = process.ofile fd := by
  cases holding with
  | nothing first isShell none =>
      rw [none, Descriptors.closeIfOpen_neg, same, isShell]
  | reading held later heldFree isShell holds =>
      obtain ⟨above, inside, isFree⟩ := ready.le_of_free heldFree
      rw [holds, Descriptors.closeIfOpen_eq _ inside]
      by_cases here : fd = held
      · rw [here, Function.update_self, isFree]
      · rw [Function.update_of_ne here, same, isShell,
          Function.update_of_ne here]

theorem connected_last
    (holding : Holding process.ofile i ofile prevRead)
    (ready : process.Ready)
    {stageCount : Nat}
    (last : ¬ i + 1 < stageCount) :
    Connected stageCount process.ofile
      ⟨i, childTable stageCount i prevRead (-1) (-1) ofile⟩ := by
  have input := holding.childInput ready (fun fd _ _ => rfl)
  have zero := holding.table_of_lt ready (by decide : 0 < 2)
  have one := holding.table_of_lt ready (by decide : 1 < 2)
  unfold childTable
  simp only [input, if_neg last, Descriptors.closeIfOpen_neg]
  refine ⟨?_, ?_, ?_⟩
  · simp only
    rw [holding.closePrevious_of_lt ready _ (Or.inl (by decide))]
    split
    · exact zero
    · exact Function.update_self ..
  · simp only
    rw [holding.closePrevious_of_lt ready _ (Or.inl (by decide)), if_neg last]
    split
    · exact one
    · rw [Function.update_of_ne (by decide)]
      exact one
  · intro fd high
    apply holding.closePrevious ready
    split
    · rfl
    · exact Function.update_of_ne (by omega) ..

theorem connected
    (holding : Holding process.ofile i ofile prevRead)
    (ready : process.Ready)
    {stageCount fd0 fd1 : Nat}
    {made : PipeAnswer}
    (more : i + 1 < stageCount)
    (makes : MakesPipe i ofile made fd0 fd1) :
    Connected stageCount process.ofile
      ⟨i, childTable stageCount i prevRead made.fds0 made.fds1
        made.ofile⟩ := by
  obtain ⟨above0, inside0, free0⟩ :=
    ready.le_of_free (holding.free_of_free makes.reading)
  obtain ⟨above1, inside1, free1⟩ :=
    ready.le_of_free (holding.free_of_free makes.writing)
  have input :=
    holding.childInput ready (fun fd used _ => MakesPipe.agrees makes used)
  have zero := holding.table_of_lt ready (by decide : 0 < 2)
  have one := holding.table_of_lt ready (by decide : 1 < 2)
  -- The table after the input has been connected, by its descriptors.
  have atZero :
      (if i = 0 then made.ofile
        else Function.update made.ofile 0 (some (.pipeRead (i - 1)))) 0 =
        if i = 0 then process.ofile 0 else some (.pipeRead (i - 1)) := by
    split
    · rw [makes.ofile, Function.update_of_ne (by omega),
        Function.update_of_ne (by omega), zero]
    · rw [Function.update_self]
  have elsewhere :
      ∀ fd, fd ≠ 0 →
        (if i = 0 then made.ofile
          else Function.update made.ofile 0 (some (.pipeRead (i - 1)))) fd =
          made.ofile fd := by
    intro fd positive
    split
    · rfl
    · exact Function.update_of_ne positive ..
  unfold childTable
  simp only [input, if_pos more, makes.fds0, makes.fds1]
  generalize (if i = 0 then made.ofile
    else Function.update made.ofile 0 (some (.pipeRead (i - 1)))) = table
    at atZero elsewhere
  have used : table 0 ≠ none := by
    rw [atZero]
    split
    · exact ready.input
    · exact Option.some_ne_none _
  have writing : table fd1 = some (.pipeWrite i) := by
    rw [elsewhere fd1 (by omega), makes.ofile, Function.update_self]
  have output :
      (table.sysClose 1).sysDup fd1 =
        Function.update table 1 (some (.pipeWrite i)) := by
    have closed : table.sysClose 1 = Function.update table 1 none :=
      table.sysClose_eq 1 (by decide)
    rw [closed,
      Descriptors.sysDup_eq inside1
        (by rw [Function.update_of_ne (by omega)]; exact writing)
        (Descriptors.fdalloc_one
          (by rw [Function.update_of_ne (by decide)]; exact used)
          (Function.update_self ..)),
      Function.update_idem]
  rw [output, Descriptors.closeIfOpen_eq _ inside0,
    Descriptors.closeIfOpen_eq _ inside1]
  refine ⟨?_, ?_, ?_⟩
  · simp only
    rw [Function.update_of_ne (by omega), Function.update_of_ne (by omega),
      holding.closePrevious_of_lt ready _ (Or.inl (by decide)),
      Function.update_of_ne (by decide), atZero]
  · simp only
    rw [Function.update_of_ne (by omega), Function.update_of_ne (by omega),
      holding.closePrevious_of_lt ready _ (Or.inl (by decide)),
      Function.update_self, if_pos more]
  · intro fd high
    simp only
    by_cases isWriting : fd = fd1
    · rw [isWriting, Function.update_self, free1]
    rw [Function.update_of_ne isWriting]
    by_cases isReading : fd = fd0
    · rw [isReading, Function.update_self, free0]
    rw [Function.update_of_ne isReading]
    apply holding.closePrevious ready
    rw [Function.update_of_ne (by omega), elsewhere fd (by omega),
      makes.ofile, Function.update_of_ne isWriting,
      Function.update_of_ne isReading]

theorem next
    (holding : Holding process.ofile i ofile prevRead)
    (ready : process.Ready)
    {fd0 fd1 : Nat}
    {made : PipeAnswer}
    (makes : MakesPipe i ofile made fd0 fd1) :
    Holding process.ofile (i + 1)
      ((made.ofile.closeIfOpen prevRead).closeIfOpen made.fds1)
      made.fds0 := by
  have isFree0 := holding.free_of_free makes.reading
  have isFree1 := holding.free_of_free makes.writing
  obtain ⟨above1, inside1, free1⟩ := ready.le_of_free isFree1
  refine .reading fd0 (Nat.succ_ne_zero i) isFree0 ?_ makes.fds0
  rw [makes.fds1, Descriptors.closeIfOpen_eq _ inside1]
  funext fd
  by_cases isWriting : fd = fd1
  · rw [isWriting, Function.update_self, Function.update_of_ne makes.apart,
      free1]
  rw [Function.update_of_ne isWriting]
  by_cases isReading : fd = fd0
  · rw [isReading,
      holding.closePrevious_of_lt ready _ (Or.inr makes.reading),
      makes.ofile, Function.update_of_ne (Ne.symm makes.apart),
      Function.update_self, Function.update_self, Nat.add_sub_cancel]
  · rw [Function.update_of_ne isReading]
    apply holding.closePrevious ready
    rw [makes.ofile, Function.update_of_ne isWriting,
      Function.update_of_ne isReading]

end Holding

theorem waitLoop_children
    (world : PipelineWorld)
    (lastPid : Int)
    (count : Nat)
    (status : Int)
    (children : List Nat)
    (enough : children.length ≤ count) :
    (waitLoop world lastPid count status children).2 = [] := by
  induction count generalizing status children with
  | zero =>
      exact List.length_eq_zero_iff.mp (Nat.le_zero.mp enough)
  | succ count inductionHypothesis =>
      unfold waitLoop waitForChild
      dsimp only
      by_cases some : 0 < children.length
      · have inside : world.waits children % children.length <
            children.length := Nat.mod_lt _ some
        rw [List.getElem?_eq_getElem inside]
        apply inductionHypothesis
        rw [List.length_eraseIdx_of_lt inside]
        omega
      · have none : children = [] :=
          List.length_eq_zero_iff.mp (by omega)
        subst none
        apply inductionHypothesis
        exact Nat.zero_le count

/-- `fork` and, before the last stage, `pipe` succeed for a stage. -/
def Works
    (world : PipelineWorld)
    (stageCount : Nat)
    (process : ShellProcess)
    (i : Nat) : Prop :=
  world.forks i ≠ none ∧
    (i + 1 < stageCount →
      world.pipes i = true ∧
        (if i = 0 then 2 else 3) ≤ process.ofile.freeSlots.card)

/-- Stages 0 up to `i` have been started, and all of them are connected. -/
structure Running
    (stageCount : Nat)
    (process : ShellProcess)
    (i : Nat)
    (s : PipelineState) : Prop where
  holding : Holding process.ofile i s.process.ofile s.prevRead
  children : s.process.children.length = i
  childCount : s.childCount = i
  stages : ∀ started ∈ s.started,
    Connected stageCount process.ofile started

section Stages

variable {world : PipelineWorld} {stageCount i left : Nat}
variable {process : ShellProcess} {s : PipelineState}

theorem pipeForStage_makes
    (holding : Holding process.ofile i s.process.ofile s.prevRead)
    (works : Works world stageCount process i)
    (more : i + 1 < stageCount) :
    ∃ fd0 fd1,
      MakesPipe i s.process.ofile
        (pipeForStage world stageCount i s.process.ofile) fd0 fd1 := by
  obtain ⟨can, room⟩ := works.2 more
  have free := holding.card_freeSlots
  unfold pipeForStage
  rw [if_pos more]
  apply sysPipe_makes can
  by_cases first : i = 0
  · rw [if_pos first] at room free
    omega
  · rw [if_neg first] at room free
    omega

theorem pipeForStage_fails
    (holding : Holding process.ofile i s.process.ofile s.prevRead)
    (fails :
      ¬ (world.pipes i = true ∧
        (if i = 0 then 2 else 3) ≤ process.ofile.freeSlots.card))
    (more : i + 1 < stageCount) :
    FailsPipe s.process.ofile
      (pipeForStage world stageCount i s.process.ofile) := by
  have free := holding.card_freeSlots
  unfold pipeForStage
  rw [if_pos more]
  apply sysPipe_fails
  intro can
  have short :
      ¬ (if i = 0 then 2 else 3) ≤ process.ofile.freeSlots.card :=
    fun room => fails ⟨can, room⟩
  by_cases first : i = 0
  · rw [if_pos first] at short free
    omega
  · rw [if_neg first] at short free
    omega

theorem mem_started
    {started : StartedStage}
    (member : started ∈ s.started) :
    started ∈ (pipelineLoop world stageCount left i s).started := by
  induction left generalizing i s with
  | zero =>
      exact member
  | succ left inductionHypothesis =>
      unfold pipelineLoop
      dsimp only
      split
      · exact member
      · split
        · exact member
        · apply inductionHypothesis
          exact List.mem_append_left _ member

theorem not_connected
    (holding : Holding process.ofile i s.process.ofile s.prevRead)
    (ready : process.Ready)
    (more : i + 1 < stageCount) :
    ¬ Connected stageCount process.ofile
      ⟨i, childTable stageCount i s.prevRead (-1) (-1) s.process.ofile⟩ := by
  intro connected
  have output := connected.output
  unfold childTable at output
  simp only [if_pos more, Descriptors.sysDup_neg,
    Descriptors.closeIfOpen_neg] at output
  have closed :
      ∀ table : Descriptors,
        table.sysClose 1 = Function.update table 1 none :=
    fun table => table.sysClose_eq 1 (by decide)
  rw [holding.closePrevious_of_lt ready _ (Or.inl (by decide)), closed,
    Function.update_self] at output
  cases output

/-- The state after a stage has been started. -/
def afterStage
    (stageCount i pid : Nat)
    (made : PipeAnswer)
    (s : PipelineState) : PipelineState where
  process := {
    ofile := (made.ofile.closeIfOpen s.prevRead).closeIfOpen made.fds1
    children := s.process.children ++ [pid]
  }
  prevRead := made.fds0
  childCount := s.childCount + 1
  lastPid := pid
  started :=
    s.started ++
      [⟨i, childTable stageCount i s.prevRead made.fds0 made.fds1
        made.ofile⟩]

theorem pipelineLoop_started
    {pid : Nat}
    (forked : world.forks i = some pid) :
    pipelineLoop world stageCount (left + 1) i s =
      pipelineLoop world stageCount left (i + 1)
        (afterStage stageCount i pid
          (pipeForStage world stageCount i s.process.ofile) s) := by
  conv_lhs => unfold pipelineLoop
  dsimp only
  rw [if_neg (fun both => not_unsigned_neg _ both.2), forked]
  rfl

theorem pipelineLoop_refused
    (refused : world.forks i = none) :
    pipelineLoop world stageCount (left + 1) i s =
      { process := {
          ofile :=
            ((pipeForStage world stageCount i
              s.process.ofile).ofile.closeIfOpen
                (pipeForStage world stageCount i
                  s.process.ofile).fds0).closeIfOpen
              (pipeForStage world stageCount i s.process.ofile).fds1
          children := s.process.children
        }
        started := s.started
        status := -1 } := by
  conv_lhs => unfold pipelineLoop
  dsimp only
  rw [if_neg (fun both => not_unsigned_neg _ both.2), refused]

theorem Running.next
    {pid : Nat}
    (running : Running stageCount process i s)
    (ready : process.Ready)
    (works : Works world stageCount process i)
    (more : i + 1 < stageCount) :
    Running stageCount process (i + 1)
      (afterStage stageCount i pid
        (pipeForStage world stageCount i s.process.ofile) s) := by
  obtain ⟨fd0, fd1, makes⟩ := pipeForStage_makes running.holding works more
  refine {
    holding := running.holding.next ready makes
    children := ?_
    childCount := ?_
    stages := ?_
  }
  · simp only [afterStage, List.length_append, List.length_singleton,
      running.children]
  · simp only [afterStage, running.childCount]
  · intro started member
    rcases List.mem_append.mp member with earlier | isLast
    · exact running.stages started earlier
    · rw [List.mem_singleton.mp isLast]
      exact running.holding.connected ready more makes

theorem Running.last
    {pid : Nat}
    (running : Running stageCount process i s)
    (ready : process.Ready)
    (isLast : ¬ i + 1 < stageCount) :
    LeaksNothing stageCount process
      (finishPipeline world
        (afterStage stageCount i pid
          (pipeForStage world stageCount i s.process.ofile) s)) := by
  have made :
      pipeForStage world stageCount i s.process.ofile =
        ⟨0, s.process.ofile, -1, -1⟩ := if_neg isLast
  rw [made]
  refine {
    descriptors := ?_
    children := ?_
    stages := ?_
  }
  · simp only [finishPipeline, afterStage, Descriptors.closeIfOpen_neg]
    funext fd
    exact running.holding.closePrevious ready rfl
  · have enough :
        (s.process.children ++ [pid]).length ≤ s.childCount + 1 := by
      rw [List.length_append, List.length_singleton, running.children,
        running.childCount]
    rw [ready.children]
    exact
      waitLoop_children world pid (s.childCount + 1) (-1)
        (s.process.children ++ [pid]) enough
  · intro started member
    rcases List.mem_append.mp member with earlier | isNew
    · exact running.stages started earlier
    · rw [List.mem_singleton.mp isNew]
      exact running.holding.connected_last ready isLast

theorem Running.leaksNothing_iff
    (running : Running stageCount process i s)
    (ready : process.Ready)
    (rest : i + (left + 1) = stageCount)
    (forked : i = 0 → world.forks 0 ≠ none) :
    LeaksNothing stageCount process
        (pipelineLoop world stageCount (left + 1) i s) ↔
      ∀ j, i ≤ j → j < stageCount → Works world stageCount process j := by
  induction left generalizing i s with
  | zero =>
      have isLast : ¬ i + 1 < stageCount := by omega
      rcases refused : world.forks i with _ | pid
      · rw [pipelineLoop_refused refused]
        have later : i ≠ 0 := by
          rintro rfl
          exact forked rfl refused
        constructor
        · intro leaks
          have none : s.process.children = [] :=
            leaks.children.trans ready.children
          have children := running.children
          rw [none, List.length_nil] at children
          exact absurd children.symm later
        · intro works
          exact absurd refused (works i (Nat.le_refl i) (by omega)).1
      · rw [pipelineLoop_started refused]
        refine iff_of_true (running.last ready isLast) ?_
        intro j above below
        have same : j = i := by omega
        subst same
        refine ⟨by rw [refused]; exact Option.some_ne_none _, ?_⟩
        intro more
        exact absurd more isLast
  | succ left inductionHypothesis =>
      have more : i + 1 < stageCount := by omega
      rcases refused : world.forks i with _ | pid
      · rw [pipelineLoop_refused refused]
        have later : i ≠ 0 := by
          rintro rfl
          exact forked rfl refused
        constructor
        · intro leaks
          have none : s.process.children = [] :=
            leaks.children.trans ready.children
          have children := running.children
          rw [none, List.length_nil] at children
          exact absurd children.symm later
        · intro works
          exact absurd refused (works i (Nat.le_refl i) (by omega)).1
      · rw [pipelineLoop_started refused]
        by_cases works : Works world stageCount process i
        · rw [inductionHypothesis (running.next ready works more) (by omega)
            (fun zero => absurd zero (Nat.succ_ne_zero i))]
          constructor
          · intro later j above below
            by_cases here : j = i
            · rw [here]
              exact works
            · exact later j (by omega) below
          · intro all j above below
            exact all j (by omega) below
        · refine iff_of_false ?_ (fun all =>
            works (all i (Nat.le_refl i) (by omega)))
          intro leaks
          have fails :
              ¬ (world.pipes i = true ∧
                (if i = 0 then 2 else 3) ≤
                  process.ofile.freeSlots.card) := by
            intro pipe
            exact works ⟨by rw [refused]; exact Option.some_ne_none _,
              fun _ => pipe⟩
          have made := pipeForStage_fails running.holding fails more
          apply not_connected running.holding ready more
          apply leaks.stages
          apply mem_started
          simp only [afterStage, made.fds0, made.fds1, made.ofile]
          exact List.mem_append_right _ (List.mem_singleton.mpr rfl)

theorem leaksNothing_of_refused
    (ready : process.Ready)
    (refused : world.forks 0 = none) :
    LeaksNothing stageCount process
      (pipelineLoop world stageCount (left + 1) 0
        ⟨process, -1, 0, -1, []⟩) := by
  rw [pipelineLoop_refused refused]
  refine {
    descriptors := ?_
    children := rfl
    stages := by
      intro started member
      cases member
  }
  simp only
  by_cases more : 0 + 1 < stageCount
  · by_cases makes :
        ∃ fd0 fd1,
          MakesPipe 0 process.ofile
            (pipeForStage world stageCount 0 process.ofile) fd0 fd1
    · obtain ⟨fd0, fd1, makes⟩ := makes
      obtain ⟨_, inside0, free0⟩ := ready.le_of_free makes.reading
      obtain ⟨_, inside1, free1⟩ := ready.le_of_free makes.writing
      rw [makes.fds0, makes.fds1, makes.ofile,
        Descriptors.closeIfOpen_eq _ inside0,
        Descriptors.closeIfOpen_eq _ inside1]
      funext fd
      by_cases isWriting : fd = fd1
      · rw [isWriting, Function.update_self, free1]
      rw [Function.update_of_ne isWriting]
      by_cases isReading : fd = fd0
      · rw [isReading, Function.update_self, free0]
      · rw [Function.update_of_ne isReading, Function.update_of_ne isWriting,
          Function.update_of_ne isReading]
    · have fails :
          FailsPipe process.ofile
            (pipeForStage world stageCount 0 process.ofile) := by
        unfold pipeForStage at makes ⊢
        rw [if_pos more] at makes ⊢
        apply sysPipe_fails
        intro can
        by_contra room
        exact makes (sysPipe_makes can (Nat.le_of_not_lt room) 0)
      rw [fails.fds0, fails.fds1, fails.ofile,
        Descriptors.closeIfOpen_neg, Descriptors.closeIfOpen_neg]
  · have made :
        pipeForStage world stageCount 0 process.ofile =
          ⟨0, process.ofile, -1, -1⟩ := if_neg more
    rw [made]
    simp only [Descriptors.closeIfOpen_neg]

end Stages

/--
`run_pipeline` leaks nothing exactly if no `fork` and no `pipe` fails, or the
first `fork` does.
-/
theorem runPipeline_leaksNothing_iff
    (world : PipelineWorld)
    (stageCount : Nat)
    {process : ShellProcess}
    (ready : process.Ready) :
    LeaksNothing stageCount process (runPipeline world stageCount process) ↔
      StartsAll world stageCount process ∨ world.forks 0 = none := by
  have start : Running stageCount process 0 ⟨process, -1, 0, -1, []⟩ := {
    holding := .nothing rfl rfl rfl
    children := by rw [ready.children, List.length_nil]
    childCount := rfl
    stages := by
      intro started member
      cases member
  }
  unfold runPipeline
  rcases stageCount with _ | left
  · refine iff_of_true ?_ (Or.inl (fun i below => absurd below
      (Nat.not_lt_zero i)))
    refine ⟨?_, rfl, ?_⟩
    · exact Descriptors.closeIfOpen_neg _
    · intro started member
      cases member
  · by_cases refused : world.forks 0 = none
    · exact iff_of_true (leaksNothing_of_refused ready refused)
        (Or.inr refused)
    · rw [start.leaksNothing_iff ready (Nat.zero_add _) (fun _ => refused)]
      constructor
      · intro works
        exact Or.inl (fun j below => works j (Nat.zero_le j) below)
      · rintro (all | first)
        · exact fun j _ below => all j below
        · exact absurd first refused

/-- The shell's process as the kernel starts it. -/
def consoleShell : ShellProcess where
  ofile := fun fd => if fd < 3 then some (.file fd) else none
  children := []

theorem consoleShell_ready : consoleShell.Ready where
  input := by decide
  output := by decide
  children := rfl

/-- A kernel in which every call succeeds. -/
def generousWorld : PipelineWorld where
  pipes := fun _ => true
  forks := fun i => some (i + 2)
  waits := fun _ => 0
  statuses := fun _ => 0

/-- A pipeline of three stages leaves nothing behind. -/
theorem runPipeline_leaksNothing_iff_three :
    LeaksNothing 3 consoleShell (runPipeline generousWorld 3 consoleShell) := by
  rw [runPipeline_leaksNothing_iff generousWorld 3 consoleShell_ready]
  refine Or.inl ?_
  intro i _
  refine ⟨Option.some_ne_none _, fun _ => ⟨rfl, ?_⟩⟩
  have room : 3 ≤ consoleShell.ofile.freeSlots.card := by
    decide
  split
  · exact Nat.le_of_succ_le room
  · exact room

/-- A kernel in which only the first `fork` succeeds. -/
def oneFork : PipelineWorld :=
  { generousWorld with forks := fun i => if i = 0 then some 2 else none }

/--
Where the second `fork` of two stages fails, the first pipe's read end stays
open and the first child is not waited for.
-/
theorem failed_fork_leaks :
    (runPipeline oneFork 2 consoleShell).process.ofile 3 =
        some (.pipeRead 0) ∧
      (runPipeline oneFork 2 consoleShell).process.children = [2] ∧
      ¬ LeaksNothing 2 consoleShell (runPipeline oneFork 2 consoleShell) := by
  refine ⟨by decide, by decide, ?_⟩
  intro leaks
  have none := congrArg List.length leaks.children
  exact absurd none (by decide)

end MyOS
