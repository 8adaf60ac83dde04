import Mathlib.Data.List.Basic
import MyOS.BuildFile

namespace MyOS

/-!
# Signatures of targets

A target's signature is a hash of its fields and of the contents of its source
and its dependencies.  The functions take what they do with a byte as a
parameter, so that the stream of bytes that is hashed is an instance as well.
-/

/-- Bytes that are read at a time. -/
def COPY_CAP : Nat := 512

/-- The bytes of the file that a path leads to, if it can be opened and read. -/
abbrev FileReader : Type := BuildText → Option (List UInt8)

section Hashing

variable {H : Type} (hashByte : H → UInt8 → H)

/-- `hash_bytes(hash, buf, n)` -/
def hashBytes (hash : H) (buf : List UInt8) : H :=
  buf.foldl hashByte hash

/-- `hash_cstr(hash, s)` -/
def hashCstr (hash : H) (s : BuildText) : H :=
  hashBytes hashByte hash s

/-- The loop of `hash_file` over what is left of the file. -/
def hashChunks : Nat → H → List UInt8 → H
  | 0, hash, _ => hash
  | fuel + 1, hash, rest =>
      if rest.take COPY_CAP = [] then
        hash
      else
        hashChunks fuel (hashBytes hashByte hash (rest.take COPY_CAP))
          (rest.drop COPY_CAP)

/-- `hash_file(path, hash)` -/
def hashFile (read : FileReader) (path : BuildText) (hash : H) : Option H :=
  match read path with
  | none => none
  | some bytes => some (hashChunks hashByte (bytes.length + 1) hash bytes)

/-- `hash_dependency(targets, count, hash, dep)` -/
def hashDependency
    (read : FileReader)
    (targets : List Target)
    (hash : H)
    (dep : BuildText) : Option H :=
  match dependencyOf targets dep with
  | .missing => none
  | .target index =>
      hashFile hashByte read (targets.get index).output (hashByte hash 255)
  | .file path => hashFile hashByte read path (hashByte hash 255)

/-- The loop of `compute_signature` over the dependencies. -/
def hashDependencies
    (read : FileReader)
    (targets : List Target) :
    H → List BuildText → Option H
  | hash, [] => some hash
  | hash, dep :: deps =>
      if DEP_CAP ≤ dep.length then
        none
      else
        match hashDependency hashByte read targets hash dep with
        | none => none
        | some hash => hashDependencies read targets hash deps

/-- The fields that `compute_signature` hashes first. -/
def hashFields (hash : H) (target : Target) : H :=
  let hash := hashByte (hashCstr hashByte hash target.name) 255
  let hash := hashByte (hashCstr hashByte hash target.recipe) 255
  let hash :=
    if target.output ≠ NO_DEPS then
      hashCstr hashByte hash target.output
    else
      hash
  hashByte hash 255

/-- The source that `compute_signature` hashes next, if there is one. -/
def hashSource
    (read : FileReader)
    (hash : H)
    (target : Target) : Option H :=
  if target.source ≠ NO_DEPS then
    hashFile hashByte read target.source hash
  else
    some hash

/-- `compute_signature(targets, count, target, sig)` from a hash that has just
begun. -/
def computeSignatureFrom
    (hashInit : H)
    (read : FileReader)
    (targets : List Target)
    (target : Target) : Option H :=
  match hashSource hashByte read (hashFields hashByte hashInit target) target with
  | none => none
  | some hash =>
      if target.deps = NO_DEPS then
        some hash
      else
        hashDependencies hashByte read targets hash target.depNames

end Hashing

/-- `FNV_OFFSET` -/
def FNV_OFFSET : UInt64 := 14695981039346656037

/-- `FNV_PRIME` -/
def FNV_PRIME : UInt64 := 1099511628211

/-- `hash_byte(hash, c)` -/
def hashByte (hash : UInt64) (c : UInt8) : UInt64 :=
  (hash ^^^ c.toUInt64) * FNV_PRIME

/-- `compute_signature(targets, count, target, sig)`; none is -1. -/
def computeSignature
    (read : FileReader)
    (targets : List Target)
    (target : Target) : Option UInt64 :=
  computeSignatureFrom hashByte FNV_OFFSET read targets target

/-- The bytes that `compute_signature` hashes, one behind the other. -/
def signatureStream
    (read : FileReader)
    (targets : List Target)
    (target : Target) : Option (List UInt8) :=
  computeSignatureFrom (fun stream c => stream ++ [c]) [] read targets target

section Stream

variable {H : Type} {hashByte : H → UInt8 → H}
variable {read : FileReader} {targets : List Target} {target : Target}

theorem hashBytes_append
    (stream bytes : List UInt8) :
    hashBytes (fun before c => before ++ [c]) stream bytes = stream ++ bytes := by
  induction bytes generalizing stream with
  | nil =>
      rw [List.append_nil]
      rfl
  | cons c bytes inductionHypothesis =>
      have goesOn := inductionHypothesis (stream ++ [c])
      rw [List.append_assoc] at goesOn
      exact goesOn

theorem hashChunks_eq
    {fuel : Nat}
    {rest : List UInt8}
    (enough : rest.length < fuel)
    (hash : H) :
    hashChunks hashByte fuel hash rest = hashBytes hashByte hash rest := by
  induction fuel generalizing hash rest with
  | zero =>
      exact absurd enough (Nat.not_lt_zero _)
  | succ fuel inductionHypothesis =>
      unfold hashChunks
      by_cases ends : rest.take COPY_CAP = []
      · rw [if_pos ends]
        rcases List.take_eq_nil_iff.mp ends with zero | isNil
        · exact absurd zero (by decide)
        · rw [isNil]
          rfl
      · rw [if_neg ends, inductionHypothesis]
        · rw [hashBytes, hashBytes, hashBytes, ← List.foldl_append,
            List.take_append_drop]
        · have some : rest.length ≠ 0 := by
            intro zero
            rw [List.length_eq_zero_iff.mp zero] at ends
            exact ends List.take_nil
          rw [List.length_drop, COPY_CAP]
          omega

theorem hashFile_eq
    (path : BuildText)
    (hash : H) :
    hashFile hashByte read path hash =
      (read path).map (hashBytes hashByte hash) := by
  unfold hashFile
  cases read path with
  | none => rfl
  | some bytes =>
      exact congrArg some (hashChunks_eq (Nat.lt_succ_self _) hash)

/-- The path whose file a name among the dependencies adds to the hash. -/
def dependencyPath
    (targets : List Target)
    (dep : BuildText) : Option BuildText :=
  match dependencyOf targets dep with
  | .missing => none
  | .target index => some (targets.get index).output
  | .file path => some path

theorem hashDependency_eq
    (hash : H)
    (dep : BuildText) :
    hashDependency hashByte read targets hash dep =
      ((dependencyPath targets dep).bind read).map fun bytes =>
        hashBytes hashByte hash (255 :: bytes) := by
  unfold hashDependency dependencyPath
  cases dependencyOf targets dep with
  | missing => rfl
  | target index => exact hashFile_eq _ _
  | file path => exact hashFile_eq _ _

/-- The bytes of a dependency, if it is a file that can be read. -/
def dependencyBytes
    (read : FileReader)
    (targets : List Target)
    (dep : BuildText) : Option (List UInt8) :=
  if DEP_CAP ≤ dep.length then
    none
  else
    ((dependencyPath targets dep).bind read).map fun bytes => 255 :: bytes

/-- The bytes of all dependencies. -/
def dependenciesBytes
    (read : FileReader)
    (targets : List Target) :
    List BuildText → Option (List UInt8)
  | [] => some []
  | dep :: deps => do
      let bytes ← dependencyBytes read targets dep
      let rest ← dependenciesBytes read targets deps
      pure (bytes ++ rest)

theorem hashDependencies_eq
    (hash : H)
    (deps : List BuildText) :
    hashDependencies hashByte read targets hash deps =
      (dependenciesBytes read targets deps).map
        (hashBytes hashByte hash) := by
  induction deps generalizing hash with
  | nil =>
      rfl
  | cons dep deps inductionHypothesis =>
      unfold hashDependencies dependenciesBytes dependencyBytes
      split
      · rfl
      · rw [hashDependency_eq]
        cases (dependencyPath targets dep).bind read with
        | none =>
            rfl
        | some bytes =>
            simp only [Option.map_some, inductionHypothesis]
            cases dependenciesBytes read targets deps with
            | none =>
                rfl
            | some rest =>
                simp only [Option.map_some, Option.bind_eq_bind,
                  Option.bind_some, hashBytes, ← List.foldl_append]
                rfl

/-- The bytes of the fields, each with a byte behind it. -/
def fieldBytes (target : Target) : List UInt8 :=
  target.name ++ 255 :: (target.recipe ++ 255 ::
    ((if target.output ≠ NO_DEPS then target.output else []) ++ [255]))

theorem hashFields_eq
    (hash : H)
    (target : Target) :
    hashFields hashByte hash target =
      hashBytes hashByte hash (fieldBytes target) := by
  unfold hashFields fieldBytes hashCstr hashBytes
  split <;> simp [List.foldl_append]

/-- The bytes of the source, if there is one. -/
def sourceBytes
    (read : FileReader)
    (target : Target) : Option (List UInt8) :=
  if target.source ≠ NO_DEPS then read target.source else some []

theorem hashSource_eq
    (hash : H) :
    hashSource hashByte read hash target =
      (sourceBytes read target).map (hashBytes hashByte hash) := by
  unfold hashSource sourceBytes
  split
  · exact hashFile_eq _ _
  · rfl

/-- The bytes of the dependencies, if there are some. -/
def inputBytes
    (read : FileReader)
    (targets : List Target)
    (target : Target) : Option (List UInt8) :=
  if target.deps = NO_DEPS then
    some []
  else
    dependenciesBytes read targets target.depNames

/-- The bytes that a signature is computed of. -/
def signatureBytes
    (read : FileReader)
    (targets : List Target)
    (target : Target) : Option (List UInt8) := do
  let source ← sourceBytes read target
  let inputs ← inputBytes read targets target
  pure (fieldBytes target ++ (source ++ inputs))

theorem computeSignatureFrom_eq
    (hashInit : H) :
    computeSignatureFrom hashByte hashInit read targets target =
      (signatureBytes read targets target).map
        (hashBytes hashByte hashInit) := by
  unfold computeSignatureFrom signatureBytes
  rw [hashFields_eq, hashSource_eq]
  cases sourceBytes read target with
  | none =>
      rfl
  | some source =>
      have behind :
          hashBytes hashByte (hashBytes hashByte hashInit (fieldBytes target))
              source =
            hashBytes hashByte hashInit (fieldBytes target ++ source) :=
        (List.foldl_append).symm
      simp only [Option.map_some, Option.bind_eq_bind, Option.bind_some, behind]
      unfold inputBytes
      split
      · rw [Option.bind_some, List.append_nil]
        rfl
      · rw [hashDependencies_eq]
        cases dependenciesBytes read targets target.depNames with
        | none =>
            rfl
        | some inputs =>
            rw [Option.map_some, Option.bind_some, ← List.append_assoc]
            exact congrArg some (List.foldl_append).symm

theorem signatureStream_eq :
    signatureStream read targets target =
      signatureBytes read targets target := by
  rw [signatureStream, computeSignatureFrom_eq]
  cases signatureBytes read targets target with
  | none => rfl
  | some bytes => rw [Option.map_some, hashBytes_append, List.nil_append]

end Stream

end MyOS
