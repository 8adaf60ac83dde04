import Mathlib.Data.List.TakeWhile
import MyOS.Param

namespace MyOS

/-!
# The build file

`build` reads a table of targets from lines of fields.  The last field of a
line names the target's dependencies with commas between them; one that begins
with `@` is another target of the table.
-/

/-- A string of the build tool, up to its null byte. -/
abbrev BuildText : Type := List UInt8

/-- Targets that fit into the table. -/
def MAX_TARGETS : Nat := 32

/-- `NO_DEPS` -/
def NO_DEPS : BuildText := [45]

/-- `RECIPE_CC` -/
def RECIPE_CC : BuildText := [99, 99]

/-- `RECIPE_COPY` -/
def RECIPE_COPY : BuildText := [99, 111, 112, 121]

/-- `RECIPE_PHONY` -/
def RECIPE_PHONY : BuildText := [112, 104, 111, 110, 121]

/-- Bytes of the buffer for a dependency's name. -/
def DEP_CAP : Nat := 128

/-- `is_space(c)` of the build tool. -/
def isBlank (c : UInt8) : Bool :=
  c = 32 || c = 9 || c = 13 || c = 10

/-- A target of the table, without the marks of a walk. -/
structure Target where
  name : BuildText
  recipe : BuildText
  source : BuildText
  output : BuildText
  group : BuildText
  deps : BuildText
  deriving Repr, DecidableEq

/-- `next_field(cursor)`: the field, if there is one, and the new cursor. -/
def nextField (cursor : BuildText) : Option BuildText × BuildText :=
  match cursor.dropWhile fun c => c = 32 || c = 9 || c = 13 with
  | [] => (none, [])
  | c :: rest =>
      if c = 35 then
        (none, c :: rest)
      else
        (some ((c :: rest).takeWhile fun d => !isBlank d),
          ((c :: rest).dropWhile fun d => !isBlank d).tail)

/-- The fields of a line, of which at most `count` are asked for. -/
def lineFields : Nat → BuildText → List BuildText
  | 0, _ => []
  | count + 1, cursor =>
      match nextField cursor with
      | (none, _) => []
      | (some field, rest) => field :: lineFields count rest

/-- The target of a line with these fields; none is a bad line. -/
def targetOfFields : List BuildText → Option Target
  | [name, second, third, fourth] =>
      some {
        name := name
        recipe := RECIPE_CC
        source := second
        output := third
        group := fourth
        deps := second
      }
  | [name, second, third, fourth, fifth] =>
      some {
        name := name
        recipe := second
        source := third
        output := fourth
        group := fifth
        deps := third
      }
  | [name, second, third, fourth, fifth, sixth] =>
      some {
        name := name
        recipe := second
        source := third
        output := fourth
        group := fifth
        deps := sixth
      }
  | _ => none

/-- The line has neither a field nor anything but a comment. -/
def isBlankLine (line : BuildText) : Bool :=
  match line.dropWhile fun c => c = 32 || c = 9 || c = 13 with
  | [] => true
  | c :: _ => c = 35

/-- The loop of `parse_build_file` from `p` on. -/
def parseBuildLoop
    (maxTargets : Nat) :
    Nat → BuildText → List Target → Option (List Target)
  | 0, _, targets => some targets
  | fuel + 1, p, targets =>
      match p with
      | [] => some targets
      | c :: rest =>
          let line := (c :: rest).takeWhile fun d => d ≠ 10
          let behind := ((c :: rest).dropWhile fun d => d ≠ 10).tail
          if isBlankLine line then
            parseBuildLoop maxTargets fuel behind targets
          else
            match targetOfFields (lineFields 7 line) with
            | none => none
            | some target =>
                if maxTargets ≤ targets.length then
                  none
                else
                  parseBuildLoop maxTargets fuel behind (targets ++ [target])

/-- `parse_build_file(buf, targets, max_targets)`; none is -1. -/
def parseBuildFile (buf : BuildText) (maxTargets : Nat) : Option (List Target) :=
  let text := buf.takeWhile fun c => c ≠ 0
  parseBuildLoop maxTargets text.length text []

/-- `find_target(targets, count, name)` -/
def findTarget
    (targets : List Target)
    (name : BuildText) : Option (Fin targets.length) :=
  targets.findFinIdx? fun target => target.name = name

/-- The loops over the names between the commas. -/
def splitDeps : Nat → BuildText → List BuildText
  | 0, _ => []
  | fuel + 1, p =>
      match p with
      | [] => []
      | c :: rest =>
          let start := (c :: rest).dropWhile fun d => d = 44
          let name := start.takeWhile fun d => d ≠ 44
          let behind := (start.dropWhile fun d => d ≠ 44).tail
          if name = [] then
            splitDeps fuel behind
          else
            name :: splitDeps fuel behind

/-- The names of a target's dependencies. -/
def Target.depNames (target : Target) : List BuildText :=
  splitDeps target.deps.length target.deps

/-- What a name among the dependencies stands for. -/
inductive Dependency (count : Nat) where
  /-- A file. -/
  | file (path : BuildText)
  /-- Another target of the table. -/
  | target (index : Fin count)
  /-- An `@` with the name of no target. -/
  | missing
  deriving DecidableEq

/-- How a name among the dependencies is read. -/
def dependencyOf
    (targets : List Target)
    (dep : BuildText) : Dependency targets.length :=
  match dep with
  | 64 :: name =>
      match findTarget targets name with
      | some index => .target index
      | none => .missing
  | path => .file path

end MyOS
