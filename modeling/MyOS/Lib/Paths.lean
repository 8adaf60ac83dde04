import Mathlib.Data.List.TakeWhile

namespace MyOS.Lib

/-!
# Paths

Texts are cut into components at a separator, and a list of names is walked
through a graph of directories.  In a graph in which one name leads to the
directory itself and another one to its parent, a walk ends where the normal
form of its names says.
-/

section Components

variable {Char : Type} [BEq Char]

/-- The components of a text; separators next to each other are one. -/
def components (sep : Char) (text : List Char) : List (List Char) :=
  (text.splitOn sep).filter fun component => !component.isEmpty

variable {sep : Char} {text first second component : List Char}

@[simp]
theorem components_nil : components sep [] = [] := by
  unfold components
  rw [List.splitOn_nil]
  rfl

theorem length_splitOn_le :
    (text.splitOn sep).length ≤ text.length + 1 := by
  induction text with
  | nil =>
      rw [List.splitOn_nil]
      exact Nat.le_refl 1
  | cons head tail inductionHypothesis =>
      rw [List.splitOn_cons_eq_if_modifyHead]
      split
      · exact Nat.succ_le_succ inductionHypothesis
      · rw [List.length_modifyHead]
        exact Nat.le_succ_of_le inductionHypothesis

theorem length_components_le :
    (components sep text).length ≤ text.length + 1 :=
  Nat.le_trans (List.length_filter_le _ _) length_splitOn_le

variable [LawfulBEq Char]

theorem components_append :
    components sep (first ++ sep :: second) =
      components sep first ++ components sep second := by
  unfold components
  rw [List.splitOn_append_cons_self, List.filter_append]

theorem components_single
    (noSep : sep ∉ component)
    (nonempty : component ≠ []) :
    components sep component = [component] := by
  unfold components
  rw [List.splitOn_eq_singleton noSep]
  exact List.filter_cons_of_pos (by simpa using nonempty)

theorem components_cons_sep :
    components sep (sep :: text) = components sep text := by
  have split :
      components sep ([] ++ sep :: text) =
        components sep [] ++ components sep text :=
    components_append
  rw [components_nil] at split
  exact split

theorem components_dropWhile :
    components sep (text.dropWhile (· == sep)) = components sep text := by
  induction text with
  | nil =>
      rfl
  | cons head tail inductionHypothesis =>
      by_cases isSep : head = sep
      · rw [isSep, components_cons_sep, ← inductionHypothesis]
        rw [List.dropWhile_cons_of_pos (by simp)]
      · rw [List.dropWhile_cons_of_neg (by simpa using isSep)]

theorem sep_notMem_takeWhile :
    sep ∉ text.takeWhile (· != sep) := by
  intro member
  have isOther := List.mem_takeWhile_imp member
  simp at isOther

theorem components_takeWhile
    (nonempty : text.takeWhile (· != sep) ≠ []) :
    components sep text =
      text.takeWhile (· != sep) ::
        components sep (text.dropWhile (· != sep)) := by
  have noSep : sep ∉ text.takeWhile (· != sep) := sep_notMem_takeWhile
  cases rest : text.dropWhile (· != sep) with
  | nil =>
      have whole : text.takeWhile (· != sep) = text := by
        have joined := List.takeWhile_append_dropWhile
          (p := (· != sep)) (l := text)
        rw [rest, List.append_nil] at joined
        exact joined
      rw [components_nil, whole]
      rw [whole] at noSep nonempty
      exact components_single noSep nonempty
  | cons head tail =>
      have isSep : head = sep := by
        have stops := List.head?_dropWhile_not (p := (· != sep)) (l := text)
        rw [rest] at stops
        simpa using stops
      have joined := List.takeWhile_append_dropWhile
        (p := (· != sep)) (l := text)
      rw [rest, isSep] at joined
      rw [isSep, components_cons_sep]
      calc
        components sep text
            = components sep (text.takeWhile (· != sep) ++ sep :: tail) := by
              rw [joined]
        _ = components sep (text.takeWhile (· != sep)) ++
              components sep tail := components_append
        _ = text.takeWhile (· != sep) :: components sep tail := by
              rw [components_single noSep nonempty]
              rfl

theorem sep_notMem_splitOn
    (member : component ∈ text.splitOn sep) :
    sep ∉ component := by
  induction text generalizing component with
  | nil =>
      rw [List.splitOn_nil, List.mem_singleton] at member
      rw [member]
      exact List.not_mem_nil
  | cons head tail inductionHypothesis =>
      rw [List.splitOn_cons_eq_if_modifyHead] at member
      by_cases isSep : head = sep
      · rw [if_pos (by simpa using isSep), List.mem_cons] at member
        rcases member with isEmpty | member
        · rw [isEmpty]
          exact List.not_mem_nil
        · exact inductionHypothesis member
      · rw [if_neg (by simpa using isSep)] at member
        obtain ⟨first, rest, split⟩ :=
          List.exists_cons_of_ne_nil (List.splitOn_ne_nil sep tail)
        rw [split] at inductionHypothesis
        rw [split, List.modifyHead_cons, List.mem_cons] at member
        rcases member with isFirst | member
        · rw [isFirst, List.mem_cons, not_or]
          exact ⟨Ne.symm isSep, inductionHypothesis List.mem_cons_self⟩
        · exact inductionHypothesis (List.mem_cons_of_mem first member)

theorem mem_of_mem_splitOn
    {char : Char}
    (member : component ∈ text.splitOn sep)
    (isChar : char ∈ component) :
    char ∈ text := by
  induction text generalizing component with
  | nil =>
      rw [List.splitOn_nil, List.mem_singleton] at member
      rw [member] at isChar
      cases isChar
  | cons head tail inductionHypothesis =>
      rw [List.splitOn_cons_eq_if_modifyHead] at member
      by_cases isSep : head = sep
      · rw [if_pos (by simpa using isSep), List.mem_cons] at member
        rcases member with isEmpty | member
        · rw [isEmpty] at isChar
          cases isChar
        · exact List.mem_cons_of_mem head (inductionHypothesis member isChar)
      · rw [if_neg (by simpa using isSep)] at member
        obtain ⟨first, rest, split⟩ :=
          List.exists_cons_of_ne_nil (List.splitOn_ne_nil sep tail)
        rw [split] at inductionHypothesis
        rw [split, List.modifyHead_cons, List.mem_cons] at member
        rcases member with isFirst | member
        · rw [isFirst, List.mem_cons] at isChar
          rcases isChar with isHead | inFirst
          · rw [isHead]
            exact List.mem_cons_self
          · exact List.mem_cons_of_mem head
              (inductionHypothesis List.mem_cons_self inFirst)
        · exact List.mem_cons_of_mem head
            (inductionHypothesis (List.mem_cons_of_mem first member) isChar)

theorem mem_of_mem_components
    {char : Char}
    (member : component ∈ components sep text)
    (isChar : char ∈ component) :
    char ∈ text :=
  mem_of_mem_splitOn (List.mem_filter.mp member).1 isChar

theorem mem_components
    (member : component ∈ components sep text) :
    component ≠ [] ∧ sep ∉ component := by
  obtain ⟨member, nonempty⟩ := List.mem_filter.mp member
  exact ⟨by simpa using nonempty, sep_notMem_splitOn member⟩

end Components

section Walks

variable {Node Name : Type} {child : Node → Name → Option Node}

/-- Follow names one after the other. -/
def walk (child : Node → Name → Option Node) (start : Node) :
    List Name → Option Node
  | [] => some start
  | name :: names => (child start name).bind fun next => walk child next names

variable {start : Node} {first second : List Name}

theorem walk_append :
    walk child start (first ++ second) =
      (walk child start first).bind fun middle =>
        walk child middle second := by
  induction first generalizing start with
  | nil =>
      rfl
  | cons name names inductionHypothesis =>
      simp only [List.cons_append, walk]
      cases child start name with
      | none =>
          rfl
      | some next =>
          exact inductionHypothesis

theorem walk_singleton (name : Name) :
    walk child start [name] = child start name := by
  simp only [walk]
  cases child start name with
  | none =>
      rfl
  | some next =>
      rfl

end Walks

section Trees

variable {Node Name : Type}
variable {child : Node → Name → Option Node} {IsDir : Node → Prop}
variable {root : Node} {dot dotDot : Name}

/-- A name that leads downwards. -/
def IsProper (dot dotDot name : Name) : Prop :=
  name ≠ dot ∧ name ≠ dotDot

/-- A directory stands below the root at the end of a path. -/
inductive Located
    (child : Node → Name → Option Node)
    (IsDir : Node → Prop)
    (root : Node)
    (dot dotDot : Name) : List Name → Node → Prop where
  | root :
      Located child IsDir root dot dotDot [] root
  | down
      {path : List Name}
      {parent node : Node}
      {name : Name}
      (above : Located child IsDir root dot dotDot path parent)
      (proper : IsProper dot dotDot name)
      (isChild : child parent name = some node)
      (isDir : IsDir node) :
      Located child IsDir root dot dotDot (path ++ [name]) node

/-- The names of a directory itself and of its parent mean what they should. -/
structure Climbs
    (child : Node → Name → Option Node)
    (IsDir : Node → Prop)
    (root : Node)
    (dot dotDot : Name) : Prop where
  distinct : dot ≠ dotDot
  isRoot : IsDir root
  leaf : ∀ {node name next}, child node name = some next → IsDir node
  here :
    ∀ {path node}, Located child IsDir root dot dotDot path node →
      child node dot = some node
  top : child root dotDot = some root
  up :
    ∀ {path parent name node},
      Located child IsDir root dot dotDot path parent →
        IsProper dot dotDot name → child parent name = some node →
          IsDir node → child node dotDot = some parent
  rootless :
    ∀ {path parent name},
      Located child IsDir root dot dotDot path parent →
        IsProper dot dotDot name → child parent name ≠ some root

theorem Located.nil
    {node : Node}
    (located : Located child IsDir root dot dotDot [] node) :
    node = root := by
  generalize isPath : ([] : List Name) = path at located
  cases located with
  | root =>
      rfl
  | down above proper isChild isDir =>
      exact absurd isPath.symm (List.append_ne_nil_of_right_ne_nil _ (by simp))

theorem Located.snoc
    {path : List Name}
    {name : Name}
    {node : Node}
    (located : Located child IsDir root dot dotDot (path ++ [name]) node) :
    ∃ parent, Located child IsDir root dot dotDot path parent ∧
      IsProper dot dotDot name ∧ child parent name = some node ∧
        IsDir node := by
  generalize isPath : path ++ [name] = whole at located
  cases located with
  | root =>
      exact absurd isPath (List.append_ne_nil_of_right_ne_nil _ (by simp))
  | @down path' parent node name' above proper isChild isDir =>
      obtain ⟨samePath, sameName⟩ := List.append_inj' isPath rfl
      have sameName : name = name' := List.head_eq_of_cons_eq sameName
      subst samePath
      subst sameName
      exact ⟨parent, above, proper, isChild, isDir⟩

theorem Located.isDir
    (climbs : Climbs child IsDir root dot dotDot)
    {path : List Name}
    {node : Node}
    (located : Located child IsDir root dot dotDot path node) :
    IsDir node := by
  cases located with
  | root =>
      exact climbs.isRoot
  | down above proper isChild isDir =>
      exact isDir

theorem Located.walk
    {path : List Name}
    {node : Node}
    (located : Located child IsDir root dot dotDot path node) :
    walk child root path = some node := by
  induction located with
  | root =>
      rfl
  | down above proper isChild isDir inductionHypothesis =>
      rw [walk_append, inductionHypothesis, Option.bind_some, walk_singleton]
      exact isChild

theorem Located.unique
    {path : List Name}
    {first second : Node}
    (isFirst : Located child IsDir root dot dotDot path first)
    (isSecond : Located child IsDir root dot dotDot path second) :
    first = second := by
  have same := isFirst.walk
  rw [isSecond.walk] at same
  exact (Option.some.inj same).symm

/-!
## Normal forms
-/

variable [DecidableEq Name]

instance (name : Name) : Decidable (IsProper dot dotDot name) :=
  inferInstanceAs (Decidable (_ ∧ _))

/-- The normal form of a path, name by name. -/
def follow (dot dotDot : Name) (path : List Name) (name : Name) : List Name :=
  if name = dot then
    path
  else if name = dotDot then
    path.dropLast
  else
    path ++ [name]

/-- The normal form of the names behind a path that has it. -/
def normalForm (dot dotDot : Name) (path names : List Name) : List Name :=
  names.foldl (follow dot dotDot) path

theorem Climbs.follow
    (climbs : Climbs child IsDir root dot dotDot)
    {path : List Name}
    {name : Name}
    {node next : Node}
    (located : Located child IsDir root dot dotDot path node)
    (isChild : child node name = some next)
    (isDir : IsDir next) :
    Located child IsDir root dot dotDot (follow dot dotDot path name) next := by
  unfold Lib.follow
  by_cases isDot : name = dot
  · rw [if_pos isDot]
    rw [isDot, climbs.here located] at isChild
    cases isChild
    exact located
  · rw [if_neg isDot]
    by_cases isDotDot : name = dotDot
    · rw [if_pos isDotDot]
      rw [isDotDot] at isChild
      rcases List.eq_nil_or_concat path with isNil | ⟨above, last, isSnoc⟩
      · rw [isNil] at located ⊢
        rw [located.nil, climbs.top] at isChild
        cases isChild
        exact .root
      · rw [isSnoc, List.concat_eq_append] at located ⊢
        obtain ⟨parent, isAbove, proper, isHere, isNode⟩ := located.snoc
        rw [climbs.up isAbove proper isHere isNode] at isChild
        cases isChild
        rw [List.dropLast_concat]
        exact isAbove
    · rw [if_neg isDotDot]
      exact .down located ⟨isDot, isDotDot⟩ isChild isDir

theorem Climbs.walk
    (climbs : Climbs child IsDir root dot dotDot)
    {path names : List Name}
    {node final : Node}
    (located : Located child IsDir root dot dotDot path node)
    (walks : walk child node names = some final)
    (isDir : IsDir final) :
    Located child IsDir root dot dotDot (normalForm dot dotDot path names)
      final := by
  induction names generalizing path node with
  | nil =>
      cases walks
      exact located
  | cons name names inductionHypothesis =>
      obtain ⟨next, isChild, rest⟩ := Option.bind_eq_some_iff.mp walks
      have isNext : IsDir next := by
        cases names with
        | nil =>
            cases rest
            exact isDir
        | cons second names =>
            obtain ⟨_, isSecond, _⟩ := Option.bind_eq_some_iff.mp rest
            exact climbs.leaf isSecond
      exact inductionHypothesis (climbs.follow located isChild isNext) rest

theorem Climbs.child_stays
    {later : Node → Name → Option Node}
    {IsDirLater : Node → Prop}
    (climbs : Climbs child IsDir root dot dotDot)
    (climbsLater : Climbs later IsDirLater root dot dotDot)
    (stays :
      ∀ {path node}, Located child IsDir root dot dotDot path node →
        Located later IsDirLater root dot dotDot path node)
    {path : List Name}
    {name : Name}
    {node next : Node}
    (located : Located child IsDir root dot dotDot path node)
    (isChild : child node name = some next)
    (isDir : IsDir next) :
    later node name = some next := by
  by_cases isDot : name = dot
  · rw [isDot, climbs.here located] at isChild
    cases isChild
    rw [isDot]
    exact climbsLater.here (stays located)
  · by_cases isDotDot : name = dotDot
    · rw [isDotDot] at isChild ⊢
      rcases List.eq_nil_or_concat path with isNil | ⟨above, last, isSnoc⟩
      · rw [isNil] at located
        rw [located.nil, climbs.top] at isChild
        cases isChild
        rw [located.nil]
        exact climbsLater.top
      · rw [isSnoc, List.concat_eq_append] at located
        obtain ⟨parent, isAbove, proper, isHere, isNode⟩ := located.snoc
        rw [climbs.up isAbove proper isHere isNode] at isChild
        cases isChild
        obtain ⟨parentLater, isAboveLater, proper, isHere, isNode⟩ :=
          (stays located).snoc
        rw [climbsLater.up isAboveLater proper isHere isNode,
          isAboveLater.unique (stays isAbove)]
    · have below := stays (.down located ⟨isDot, isDotDot⟩ isChild isDir)
      obtain ⟨parent, isAbove, _, isHere, _⟩ := below.snoc
      rw [isAbove.unique (stays located)] at isHere
      exact isHere

theorem Climbs.walk_stays
    {later : Node → Name → Option Node}
    {IsDirLater : Node → Prop}
    (climbs : Climbs child IsDir root dot dotDot)
    (climbsLater : Climbs later IsDirLater root dot dotDot)
    (stays :
      ∀ {path node}, Located child IsDir root dot dotDot path node →
        Located later IsDirLater root dot dotDot path node)
    {path names : List Name}
    {node final : Node}
    (located : Located child IsDir root dot dotDot path node)
    (walks : Lib.walk child node names = some final)
    (isDir : IsDir final) :
    Lib.walk later node names = some final := by
  induction names generalizing path node with
  | nil =>
      exact walks
  | cons name names inductionHypothesis =>
      obtain ⟨next, isChild, rest⟩ := Option.bind_eq_some_iff.mp walks
      have isNext : IsDir next := by
        cases names with
        | nil =>
            cases rest
            exact isDir
        | cons second names =>
            obtain ⟨_, isSecond, _⟩ := Option.bind_eq_some_iff.mp rest
            exact climbs.leaf isSecond
      have here := climbs.follow located isChild isNext
      have isLater :=
        climbs.child_stays climbsLater stays located isChild isNext
      unfold Lib.walk
      rw [isLater]
      exact inductionHypothesis here rest

end Trees

end MyOS.Lib
