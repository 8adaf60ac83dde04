import MyOS.BuildSignature
import MyOS.Lib.Framing

namespace MyOS

/-!
# What a signature tells of the inputs

The contents of the inputs are hashed with one byte in front of each
dependency and nothing in front of the source.  As the contents may have that
byte too, the hashed stream tells them exactly if all inputs are one file.
-/

section Inputs

variable {F : Type}

/-- What is read where paths lead to files with contents. -/
def readWith
    (resolve : BuildText → Option F)
    (contents : F → List UInt8) : FileReader :=
  fun path => (resolve path).map contents

/-- The files of the dependencies, if all of them are files. -/
def dependencyFiles
    (resolve : BuildText → Option F)
    (targets : List Target) :
    List BuildText → Option (List F)
  | [] => some []
  | dep :: deps =>
      if DEP_CAP ≤ dep.length then
        none
      else
        match (dependencyPath targets dep).bind resolve with
        | none => none
        | some file => (dependencyFiles resolve targets deps).map (file :: ·)

/-- The file of the source, if there is a source. -/
def sourceFiles
    (resolve : BuildText → Option F)
    (target : Target) : Option (List F) :=
  if target.source ≠ NO_DEPS then
    (resolve target.source).map fun file => [file]
  else
    some []

/-- The source and dependency files, if all of them are files. -/
def inputFiles
    (resolve : BuildText → Option F)
    (targets : List Target)
    (target : Target) : Option (List F) :=
  match
    sourceFiles resolve target,
    if target.deps = NO_DEPS then
      some []
    else
      dependencyFiles resolve targets target.depNames with
  | some source, some deps => some (source ++ deps)
  | _, _ => none

/-- The hashed stream tells the contents of the source and dependency files. -/
def SignatureIdentifies
    (resolve : BuildText → Option F)
    (targets : List Target)
    (target : Target) : Prop :=
  ∀ contents others stream files,
    inputFiles resolve targets target = some files →
    signatureStream (readWith resolve contents) targets target = some stream →
    signatureStream (readWith resolve others) targets target = some stream →
    ∀ file ∈ files, contents file = others file

variable {resolve : BuildText → Option F}
variable {targets : List Target} {target : Target}

theorem dependenciesBytes_eq
    (contents : F → List UInt8)
    (deps : List BuildText) :
    dependenciesBytes (readWith resolve contents) targets deps =
      (dependencyFiles resolve targets deps).map fun files =>
        Framing.render contents (files.map (Prod.mk [255])) := by
  induction deps with
  | nil =>
      rfl
  | cons dep deps inductionHypothesis =>
      unfold dependenciesBytes dependencyFiles dependencyBytes
      split
      · rfl
      · have bound :
            (dependencyPath targets dep).bind (readWith resolve contents) =
              ((dependencyPath targets dep).bind resolve).map contents := by
          cases dependencyPath targets dep <;> rfl
        rw [bound]
        cases (dependencyPath targets dep).bind resolve with
        | none =>
            rfl
        | some file =>
            simp only [Option.map_some, Option.bind_eq_bind,
              Option.bind_some, inductionHypothesis]
            cases dependencyFiles resolve targets deps with
            | none =>
                rfl
            | some files =>
                simp only [Option.map_some, Option.bind_some, List.map_cons,
                  Framing.render_cons]
                rfl

theorem sourceBytes_eq
    (contents : F → List UInt8) :
    sourceBytes (readWith resolve contents) target =
      (sourceFiles resolve target).map fun files =>
        Framing.render contents (files.map (Prod.mk [])) := by
  unfold sourceBytes sourceFiles readWith
  split
  · cases resolve target.source with
    | none => rfl
    | some file => simp [Framing.render]
  · rfl

theorem signatureStream_render
    {files : List F}
    (found : inputFiles resolve targets target = some files) :
    ∃ parts : List (List UInt8 × F),
      parts.map Prod.snd = files ∧
        (∀ part ∈ parts, ∀ c ∈ part.1, c = 255) ∧
        ∀ contents,
          signatureStream (readWith resolve contents) targets target =
            some (fieldBytes target ++ Framing.render contents parts) := by
  unfold inputFiles at found
  split at found
  · next source deps isSource areDeps =>
      cases found
      refine ⟨source.map (Prod.mk []) ++ deps.map (Prod.mk [255]), ?_, ?_, ?_⟩
      · simp [Function.comp_def]
      · intro part member c isFrame
        rcases List.mem_append.mp member with isSource | isDep
        · obtain ⟨file, _, rfl⟩ := List.mem_map.mp isSource
          cases isFrame
        · obtain ⟨file, _, rfl⟩ := List.mem_map.mp isDep
          exact List.mem_singleton.mp isFrame
      · intro contents
        have inputs :
            inputBytes (readWith resolve contents) targets target =
              some (Framing.render contents (deps.map (Prod.mk [255]))) := by
          unfold inputBytes
          split at areDeps
          · next isNone =>
              cases areDeps
              rw [if_pos isNone]
              rfl
          · next isSome =>
              rw [if_neg isSome, dependenciesBytes_eq, areDeps]
              rfl
        rw [signatureStream_eq, signatureBytes, sourceBytes_eq, isSource,
          inputs, Framing.render_append]
        rfl
  · cases found

theorem identifies_of_one_file
    (one :
      ∀ files, inputFiles resolve targets target = some files →
        ∀ first ∈ files, ∀ second ∈ files, first = second) :
    SignatureIdentifies resolve targets target := by
  intro contents others stream files found stored again file member
  obtain ⟨parts, same, frames, streams⟩ := signatureStream_render found
  subst same
  rw [streams contents] at stored
  rw [streams others, ← stored, Option.some_inj,
    List.append_cancel_left_eq] at again
  obtain ⟨part, inParts, rfl⟩ := List.mem_map.mp member
  refine Framing.eq_of_render_eq ?_ (List.ne_nil_of_mem inParts) again.symm
  intro tested isPart
  exact one _ found _ (List.mem_map_of_mem isPart) _ member

theorem one_file_of_identifies
    (identifies : SignatureIdentifies resolve targets target)
    {files : List F}
    (found : inputFiles resolve targets target = some files) :
    ∀ first ∈ files, ∀ second ∈ files, first = second := by
  classical
  intro first isFirst second isSecond
  obtain ⟨parts, same, frames, streams⟩ := signatureStream_render found
  subst same
  obtain ⟨part, inParts, rfl⟩ := List.mem_map.mp isFirst
  obtain ⟨other, otherIn, rfl⟩ := List.mem_map.mp isSecond
  refine (Framing.render_tells_iff frames).mp ?_ part inParts other otherIn
  intro contents others written tested isPart
  refine identifies contents others _ _ found (streams contents) ?_ _
    (List.mem_map_of_mem isPart)
  rw [streams others, written]

end Inputs

/-- The hashed stream tells the inputs exactly if they are one file. -/
theorem signatureIdentifies_iff
    {F : Type}
    (resolve : BuildText → Option F)
    (targets : List Target)
    (target : Target) :
    SignatureIdentifies resolve targets target ↔
      ∀ files, inputFiles resolve targets target = some files →
        ∀ first ∈ files, ∀ second ∈ files, first = second :=
  ⟨fun identifies _ found => one_file_of_identifies identifies found,
    identifies_of_one_file⟩

/-- The target of the line `prog copy a p tools b`. -/
def copyTarget : Target where
  name := [112, 114, 111, 103]
  recipe := RECIPE_COPY
  source := [97]
  output := [112]
  group := [116, 111, 111, 108, 115]
  deps := [98]

/-- A byte 255 at the end of `a` is hashed like one in `b`. -/
theorem copyTarget_not_identified :
    ¬ SignatureIdentifies (F := BuildText) some [copyTarget] copyTarget := by
  intro identifies
  have same :=
    identifies
      (fun file => if file = [97] then [255] else [])
      (fun file => if file = [98] then [255] else [])
      (fieldBytes copyTarget ++ [255, 255]) [[97], [98]]
      (by decide) (by decide) (by decide) [97] (by decide)
  exact absurd same (by decide)

end MyOS
