import Mathlib.Data.Fintype.Card
import Mathlib.Logic.Function.Basic
import Mathlib.Logic.Relation
import MyOS.BuildFile

namespace MyOS

/-!
# The walk of the build tool

`build_target` walks over the targets that a target depends on before it looks
at the target itself.  A target is marked while it is visited and when it is
done; what the files and the recipes answer is left open.
-/

/-- What the files and the recipes answer; `W` is the world they live in. -/
structure BuildAnswers (W : Type) where
  /-- `file_exists(path)` -/
  fileExists : BuildText → W → Bool × W
  /-- `target_current(targets, count, target)` -/
  targetCurrent : Target → W → Bool × W
  /-- `run_recipe(targets, count, target)` -/
  runRecipe : Target → W → Int × W

/-- What the tool prints, and the recipes that it runs. -/
inductive BuildEvent (count : Nat) where
  /-- `dependency cycle at` the target. -/
  | cycle (target : Fin count)
  /-- `missing dependency for` the target. -/
  | missingFile (target : Fin count) (path : BuildText)
  /-- `missing target dependency for` the target. -/
  | missingTarget (target : Fin count) (dep : BuildText)
  /-- `dependency name too long for` the target. -/
  | tooLong (target : Fin count)
  /-- `run_recipe` returns for the target; this is not printed. -/
  | recipe (target : Fin count) (status : Int)
  /-- `BUILD_SKIP` -/
  | skip (target : Fin count)
  /-- `BUILD_PASS` -/
  | pass (target : Fin count)
  /-- `BUILD_FAIL` -/
  | fail (target : Fin count)
  deriving DecidableEq

namespace BuildEvent

variable {count : Nat}

/-- The target that is completed. -/
def completes? : BuildEvent count → Option (Fin count)
  | .skip target => some target
  | .pass target => some target
  | _ => none

/-- The target whose recipe is run or that is found current. -/
def attempts? : BuildEvent count → Option (Fin count)
  | .skip target => some target
  | .recipe target _ => some target
  | _ => none

end BuildEvent

/-- The marks of the targets, and what has happened. -/
structure BuildState (W : Type) (count : Nat) where
  world : W
  visiting : Fin count → Bool
  done : Fin count → Bool
  log : List (BuildEvent count)

namespace BuildState

variable {W : Type} {count : Nat}

/-- No target is marked: the table of `parse_build_file`. -/
def start (world : W) : BuildState W count where
  world := world
  visiting := fun _ => false
  done := fun _ => false
  log := []

/-- Something happens in the world. -/
def withWorld (state : BuildState W count) (world : W) : BuildState W count :=
  { state with world := world }

/-- An event is logged. -/
def print
    (state : BuildState W count)
    (event : BuildEvent count) : BuildState W count :=
  { state with log := state.log ++ [event] }

/-- `target->visiting = 1` -/
def visit
    (state : BuildState W count)
    (i : Fin count) : BuildState W count :=
  { state with visiting := Function.update state.visiting i true }

/-- `target->visiting = 0` -/
def leave
    (state : BuildState W count)
    (i : Fin count) : BuildState W count :=
  { state with visiting := Function.update state.visiting i false }

/-- `target->visiting = 0` and `target->done = 1` -/
def finish
    (state : BuildState W count)
    (i : Fin count) : BuildState W count :=
  { state with
    visiting := Function.update state.visiting i false
    done := Function.update state.done i true }

/-- The targets completed so far, in order. -/
def completed (state : BuildState W count) : List (Fin count) :=
  state.log.filterMap BuildEvent.completes?

/-- The targets whose recipe was run or that were found current, in order. -/
def attempted (state : BuildState W count) : List (Fin count) :=
  state.log.filterMap BuildEvent.attempts?

end BuildState

section Walk

variable {W : Type} (answers : BuildAnswers W) (targets : List Target)

/-- A walk over a target: its status and the state behind it, unless the fuel
is used up. -/
abbrev BuildCall (W : Type) (count : Nat) : Type :=
  Fin count → BuildState W count → Option (Int × BuildState W count)

/-- `check_dependency(targets, count, target, dep)` -/
def checkDependency
    (build : BuildCall W targets.length)
    (i : Fin targets.length)
    (dep : BuildText)
    (state : BuildState W targets.length) :
    Option (Int × BuildState W targets.length) :=
  match dependencyOf targets dep with
  | .file path =>
      let (found, world) := answers.fileExists path state.world
      if found then
        some (0, state.withWorld world)
      else
        some (-1, (state.withWorld world).print (.missingFile i path))
  | .missing => some (-1, state.print (.missingTarget i dep))
  | .target j => build j state

/-- `check_dependency_range(targets, count, target, start, len)` -/
def checkDependencyRange
    (build : BuildCall W targets.length)
    (i : Fin targets.length)
    (dep : BuildText)
    (state : BuildState W targets.length) :
    Option (Int × BuildState W targets.length) :=
  if dep = [] then
    some (0, state)
  else if DEP_CAP ≤ dep.length then
    some (-1, state.print (.tooLong i))
  else
    checkDependency answers targets build i dep state

/-- The loop of `check_dependencies`. -/
def checkLoop
    (build : BuildCall W targets.length)
    (i : Fin targets.length) :
    List BuildText → BuildState W targets.length →
      Option (Int × BuildState W targets.length)
  | [], state => some (0, state)
  | dep :: deps, state =>
      match checkDependencyRange answers targets build i dep state with
      | none => none
      | some (status, state) =>
          if status < 0 then
            some (-1, state)
          else
            checkLoop build i deps state

/-- `check_dependencies(targets, target_count, target)` -/
def checkDependencies
    (build : BuildCall W targets.length)
    (i : Fin targets.length)
    (state : BuildState W targets.length) :
    Option (Int × BuildState W targets.length) :=
  if targets[i].deps = NO_DEPS then
    some (0, state)
  else
    match checkLoop answers targets build i targets[i].depNames state with
    | none => none
    | some (status, state) =>
        if status < 0 then
          some (-1, state)
        else
          some (if targets[i].depNames = [] then -1 else 0, state)

/-- `build_target` behind its dependencies. -/
def buildItself
    (i : Fin targets.length)
    (state : BuildState W targets.length) :
    Int × BuildState W targets.length :=
  let (current, world) := answers.targetCurrent targets[i] state.world
  let state := state.withWorld world
  if current then
    (0, (state.print (.skip i)).finish i)
  else
    let (status, world) := answers.runRecipe targets[i] state.world
    let state := (state.withWorld world).print (.recipe i status)
    if status = 0 then
      (0, (state.print (.pass i)).finish i)
    else
      (-1, (state.print (.fail i)).leave i)

/-- `build_target(targets, count, target)` -/
def buildTarget : Nat → BuildCall W targets.length
  | 0, _, _ => none
  | fuel + 1, i, state =>
      if state.done i then
        some (0, state)
      else if state.visiting i then
        some (-1, state.print (.cycle i))
      else
        match
          checkDependencies answers targets (buildTarget fuel) i
            (state.visit i) with
        | none => none
        | some (status, state) =>
            if status < 0 then
              some (-1, (state.print (.fail i)).leave i)
            else
              some (buildItself answers targets i state)

/-- The loop of `build_group` over the targets; `built` and `failed` count. -/
def groupLoop
    (fuel : Nat)
    (group : BuildText) :
    List (Fin targets.length) → Nat → Nat → BuildState W targets.length →
      Option (Int × BuildState W targets.length)
  | [], built, failed, state =>
      some (if built = 0 then -1 else if failed = 0 then 0 else -1, state)
  | i :: rest, built, failed, state =>
      if targets[i].group ≠ group then
        groupLoop fuel group rest built failed state
      else
        match buildTarget answers targets fuel i state with
        | none => none
        | some (status, state) =>
            groupLoop fuel group rest (built + 1)
              (if status < 0 then failed + 1 else failed) state

/-- `build_group(targets, count, group)` -/
def buildGroup
    (fuel : Nat)
    (group : BuildText)
    (state : BuildState W targets.length) :
    Option (Int × BuildState W targets.length) :=
  groupLoop answers targets fuel group (List.finRange targets.length) 0 0 state

/-- A target depends on another through a name with `@`. -/
def Needs (i j : Fin targets.length) : Prop :=
  targets[i].deps ≠ NO_DEPS ∧
    ∃ dep ∈ targets[i].depNames, dependencyOf targets dep = .target j

/-- The states between the calls of `build_target` in a run of the tool. -/
inductive BuildReached (world : W) : BuildState W targets.length → Prop where
  | start : BuildReached world (BuildState.start world)
  | call {fuel : Nat} {i : Fin targets.length}
      {state state' : BuildState W targets.length} {status : Int}
      (before : BuildReached world state)
      (returns : buildTarget answers targets fuel i state =
        some (status, state')) :
      BuildReached world state'

end Walk

end MyOS
