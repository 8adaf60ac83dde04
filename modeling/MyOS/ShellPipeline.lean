import Mathlib.Data.Finset.Card
import Mathlib.Data.Finset.Range
import MyOS.Param

namespace MyOS

/-!
# The shell's pipelines

`run_pipeline` of the shell, with the descriptor table of its process and the
calls `pipe`, `fork`, `close`, `dup` and `wait` on it.  Which calls fail, and
which child a `wait` finds, is up to the kernel.
-/

/-- What a descriptor refers to: a file, or an end of a stage's pipe. -/
inductive ShellFile where
  | file (number : Nat)
  | pipeRead (stage : Nat)
  | pipeWrite (stage : Nat)
  deriving Repr, DecidableEq

/-- `p->ofile` -/
abbrev Descriptors : Type := Nat → Option ShellFile

namespace Descriptors

/-- The lowest free descriptor, as `fdalloc` finds it. -/
def fdalloc (ofile : Descriptors) : Option Nat :=
  (List.range NOFILE).find? fun fd => ofile fd = none

/-- `sys_close(fd)` -/
def sysClose (ofile : Descriptors) (fd : Int) : Descriptors :=
  if 0 ≤ fd ∧ fd < NOFILE then
    Function.update ofile fd.toNat none
  else
    ofile

/-- `sys_dup(oldfd)`; where it fails, the table stays. -/
def sysDup (ofile : Descriptors) (oldfd : Int) : Descriptors :=
  if 0 ≤ oldfd ∧ oldfd < NOFILE then
    match ofile oldfd.toNat, ofile.fdalloc with
    | some f, some newfd => Function.update ofile newfd (some f)
    | _, _ => ofile
  else
    ofile

/-- `if (fd >= 0) syscall(SYS_close, fd, 0, 0);` -/
def closeIfOpen (ofile : Descriptors) (fd : Int) : Descriptors :=
  if 0 ≤ fd then ofile.sysClose fd else ofile

/-- The descriptors that `fdalloc` can hand out. -/
def freeSlots (ofile : Descriptors) : Finset Nat :=
  (Finset.range NOFILE).filter fun fd => ofile fd = none

end Descriptors

/-- What `syscall(SYS_pipe, fds)` returns, with the table and `fds` after it. -/
structure PipeAnswer where
  value : UInt64
  ofile : Descriptors
  fds0 : Int
  fds1 : Int

/-- -1 as a system call returns it. -/
def failure : UInt64 := 0xffffffffffffffff

/-- `sys_pipe(fds)` with `fds` set to -1: it fails if the kernel lacks memory
or file slots, or if the table has no two free descriptors. -/
def sysPipe (works : Bool) (stage : Nat) (ofile : Descriptors) : PipeAnswer :=
  if works then
    match ofile.fdalloc with
    | none => ⟨failure, ofile, -1, -1⟩
    | some fd0 =>
        let reading : Descriptors :=
          Function.update ofile fd0 (some (.pipeRead stage))
        match reading.fdalloc with
        | none => ⟨failure, ofile, -1, -1⟩
        | some fd1 =>
            ⟨0, Function.update reading fd1 (some (.pipeWrite stage)), fd0,
              fd1⟩
  else
    ⟨failure, ofile, -1, -1⟩

/-- What the kernel answers. -/
structure PipelineWorld where
  /-- A stage's `pipe` finds a page and two file slots. -/
  pipes : Nat → Bool
  /-- The child of a stage, if its `fork` succeeds. -/
  forks : Nat → Option Nat
  /-- The place of the child that a `wait` finds, among those that are left. -/
  waits : List Nat → Nat
  /-- What a child exits with. -/
  statuses : Nat → Int

/-- The shell's process: its table, and the children it has not waited for. -/
structure ShellProcess where
  ofile : Descriptors
  children : List Nat

/-- A stage that was started, with the table it applies its redirections in. -/
structure StartedStage where
  stage : Nat
  ofile : Descriptors

/-- The local variables of `run_pipeline`. -/
structure PipelineState where
  process : ShellProcess
  prevRead : Int
  childCount : Nat
  lastPid : Int
  started : List StartedStage

/-- How `run_pipeline` ends. -/
structure PipelineResult where
  process : ShellProcess
  started : List StartedStage
  status : Int

/-- `syscall(SYS_pipe, ...)` where there is a next stage. -/
def pipeForStage
    (world : PipelineWorld)
    (stageCount i : Nat)
    (ofile : Descriptors) : PipeAnswer :=
  if i + 1 < stageCount then
    sysPipe (world.pipes i) i ofile
  else
    ⟨0, ofile, -1, -1⟩

/-- What the child of a stage does before it applies its redirections. -/
def childTable
    (stageCount i : Nat)
    (prevRead fds0 fds1 : Int)
    (ofile : Descriptors) : Descriptors :=
  let input :=
    if 0 ≤ prevRead then (ofile.sysClose 0).sysDup prevRead else ofile
  let output :=
    if i + 1 < stageCount then (input.sysClose 1).sysDup fds1 else input
  ((output.closeIfOpen prevRead).closeIfOpen fds0).closeIfOpen fds1

/-- `wait_for_child(&status)`: a child that is left, or -1. -/
def waitForChild
    (world : PipelineWorld)
    (children : List Nat) : Int × Int × List Nat :=
  let place := world.waits children % children.length
  match children[place]? with
  | some pid => (pid, world.statuses pid, children.eraseIdx place)
  | none => (-1, -1, children)

/-- The last loop of `run_pipeline`. -/
def waitLoop
    (world : PipelineWorld)
    (lastPid : Int) :
    Nat → Int → List Nat → Int × List Nat
  | 0, lastPipeStatus, children => (lastPipeStatus, children)
  | left + 1, lastPipeStatus, children =>
      let (pid, status, rest) := waitForChild world children
      waitLoop world lastPid left
        (if pid = lastPid then status else lastPipeStatus) rest

/-- `run_pipeline` behind its first loop. -/
def finishPipeline
    (world : PipelineWorld)
    (s : PipelineState) : PipelineResult :=
  let (status, children) :=
    waitLoop world s.lastPid s.childCount (-1) s.process.children
  { process :=
      { ofile := s.process.ofile.closeIfOpen s.prevRead
        children := children }
    started := s.started
    status := status }

/-- The first loop of `run_pipeline` from stage `i`, with `left` more stages. -/
def pipelineLoop
    (world : PipelineWorld)
    (stageCount : Nat) :
    Nat → Nat → PipelineState → PipelineResult
  | 0, _, s => finishPipeline world s
  | left + 1, i, s =>
      let made := pipeForStage world stageCount i s.process.ofile
      -- The result of the call is unsigned, so that the test is never true.
      if i + 1 < stageCount ∧ made.value < 0 then
        { process := { s.process with ofile := made.ofile }
          started := s.started
          status := -1 }
      else
        match world.forks i with
        | none =>
            { process :=
                { s.process with
                  ofile :=
                    (made.ofile.closeIfOpen made.fds0).closeIfOpen made.fds1 }
              started := s.started
              status := -1 }
        | some pid =>
            pipelineLoop world stageCount left (i + 1)
              { process :=
                  { ofile :=
                      (made.ofile.closeIfOpen s.prevRead).closeIfOpen
                        made.fds1
                    children := s.process.children ++ [pid] }
                prevRead := made.fds0
                childCount := s.childCount + 1
                lastPid := pid
                started :=
                  s.started ++
                    [⟨i, childTable stageCount i s.prevRead made.fds0
                      made.fds1 made.ofile⟩] }

/-- `run_pipeline(stages, stage_count)` -/
def runPipeline
    (world : PipelineWorld)
    (stageCount : Nat)
    (process : ShellProcess) : PipelineResult :=
  pipelineLoop world stageCount stageCount 0
    { process := process
      prevRead := -1
      childCount := 0
      lastPid := -1
      started := [] }

/-- A started stage is connected to its neighbours and to no other pipe. -/
structure Connected
    (stageCount : Nat)
    (shell : Descriptors)
    (started : StartedStage) : Prop where
  input :
    started.ofile 0 =
      if started.stage = 0 then
        shell 0
      else
        some (.pipeRead (started.stage - 1))
  output :
    started.ofile 1 =
      if started.stage + 1 < stageCount then
        some (.pipeWrite started.stage)
      else
        shell 1
  others : ∀ fd, 2 ≤ fd → started.ofile fd = shell fd

/--
The shell has closed what it got from `pipe` and waited for its children, and
the stages that were started are connected.
-/
structure LeaksNothing
    (stageCount : Nat)
    (process : ShellProcess)
    (result : PipelineResult) : Prop where
  descriptors : result.process.ofile = process.ofile
  children : result.process.children = process.children
  stages : ∀ started ∈ result.started,
    Connected stageCount process.ofile started

/-- The shell between two commands: its input and output are open, and it has
waited for every child. -/
structure ShellProcess.Ready (process : ShellProcess) : Prop where
  input : process.ofile 0 ≠ none
  output : process.ofile 1 ≠ none
  children : process.children = []

/-- No `fork` and no `pipe` fails: there are also two free descriptors, beside
the one of the pipe before. -/
def StartsAll
    (world : PipelineWorld)
    (stageCount : Nat)
    (process : ShellProcess) : Prop :=
  ∀ i, i < stageCount →
    world.forks i ≠ none ∧
      (i + 1 < stageCount →
        world.pipes i = true ∧
          (if i = 0 then 2 else 3) ≤ process.ofile.freeSlots.card)

end MyOS
