import MyOS.DiskImage
import MyOS.WorkingDirectory
import MyOS.Lib.Run

namespace MyOS

open Lib
open Routine

/-!
# The shell's directory

`cd` and the text that the shell keeps of its directory, beside the directory
that the kernel keeps for it.
-/

/-- `while (i > 0 && cwd_path[i] != '/') i--;` -/
def lastSlashFrom (text : List UInt8) : Nat → Nat
  | 0 => 0
  | i + 1 =>
      if text.getD (i + 1) 0 ≠ slash then lastSlashFrom text i else i + 1

/-- `update_cwd_display` for `..`. -/
def displayParent (cwdPath : List UInt8) : List UInt8 :=
  if cwdPath.length ≤ 1 then
    cwdPath
  else
    let i := lastSlashFrom cwdPath (cwdPath.length - 1)
    if i = 0 then cwdPath.take 1 else cwdPath.take i

/-- The text with a slash behind it, where another name is put. -/
def displaySlash (cwdPath : List UInt8) : List UInt8 :=
  if 1 < cwdPath.length ∧ cwdPath.getLast? ≠ some slash then
    cwdPath ++ [slash]
  else
    cwdPath

/-- `update_cwd_display` -/
def updateCwdDisplay (cwdPath target : List UInt8) : List UInt8 :=
  if target.head? = some slash then
    target.take (LINE_SIZE - 1)
  else if target = dotName then
    cwdPath
  else if target = dotDotName then
    displayParent cwdPath
  else
    displaySlash cwdPath ++
      target.take (LINE_SIZE - 1 - (displaySlash cwdPath).length)

/-- The shell with its process's directory, in the file system. -/
structure Shell where
  fs : FileSystem
  process : WorkingDirectory
  cwdPath : List UInt8

/-- What the shell is told, and what others do to the file system. -/
inductive ShellAction where
  | cd (target : CString)
  | other (later : FileSystem)

namespace Shell

/-- One step; a `cd` is not interrupted, and none if it panics. -/
def step? (shell : Shell) : ShellAction → Option Shell
  | .cd target =>
      match
        (FileSystem.sysChdir shell.process target.bytes).run shell.fs with
      | .ok (later, (result, process)) =>
          some {
            fs := later
            process := process
            cwdPath :=
              if result = 0 then
                updateCwdDisplay shell.cwdPath target.bytes
              else
                shell.cwdPath
          }
      | .error _ => none
  | .other later =>
      some { shell with fs := later }

/-- The steps of the shell and of others. -/
def Step (shell : Shell) (action : ShellAction) (next : Shell) : Prop :=
  shell.step? action = some next

/-- What `pwd` prints leads from the root to the process's directory. -/
def PwdNamesCwd (shell : Shell) : Prop :=
  shell.process.cwd ≠ none ∧
    (FileSystem.namei none shell.cwdPath shell.fs).Ends
      FileSystem.Exhausted
      fun found _ => found = shell.process.cwd

/-- The shell starts in the root directory of a sound tree. -/
def Starts (shell : Shell) : Prop :=
  ∃ vol root,
    shell.fs.Represents vol none ∧ vol.Sound ∧ vol.Tree ∧
      shell.process = { cwd := some root, path := [slash] } ∧
      vol.Refers root ROOTINO ∧ shell.cwdPath = [slash]

/-- Others leave the directories, and the shell's reference, in place. -/
def LeavesDirectories (shell : Shell) (later : FileSystem) : Prop :=
  ∀ vol, shell.fs.Represents vol none → vol.Sound → vol.Tree →
    ∃ after, later.Represents after none ∧ after.Sound ∧ after.Tree ∧
      (∀ path inum, vol.At path inum → after.At path inum) ∧
      ∀ ip inum, shell.process.cwd = some ip →
        vol.Refers ip inum → after.Refers ip inum

/-- No directory is removed in a step. -/
def Undisturbed (shell : Shell) : ShellAction → Prop
  | .cd _ => True
  | .other later => shell.LeavesDirectories later

/-- The texts of a step fit the shell's buffers. -/
def Roomy (shell : Shell) : ShellAction → Prop
  | .cd target =>
      if target.bytes.head? = some slash ∨ target.bytes = dotName ∨
          target.bytes = dotDotName then
        target.bytes.length < LINE_SIZE
      else
        (displaySlash shell.cwdPath).length + target.bytes.length < LINE_SIZE
  | .other _ => True

/-- The part of a text behind its last slash. -/
def lastPart (text : List UInt8) : List UInt8 :=
  (text.reverse.takeWhile (· != slash)).reverse

/-- The part of a text before its last slash. -/
def beforeLast (text : List UInt8) : List UInt8 :=
  ((text.reverse.dropWhile (· != slash)).drop 1).reverse

/--
Where `..` is asked for, the last part of the text is a name that leads
downwards, or what stands before it is the root.
-/
def PopsName (shell : Shell) : ShellAction → Prop
  | .cd target =>
      target.bytes = dotDotName →
        (lastPart shell.cwdPath ≠ [] ∧
            IsProper dotName dotDotName (lastPart shell.cwdPath)) ∨
          normalForm dotName dotDotName []
            (pathNames (beforeLast shell.cwdPath)) = []
  | .other _ => True

/-!
## Texts
-/

variable {text before last target : List UInt8}

theorem beforeLast_append_lastPart
    (hasSlash : slash ∈ text) :
    text = beforeLast text ++ slash :: lastPart text ∧
      slash ∉ lastPart text := by
  have whole := List.takeWhile_append_dropWhile
    (p := (· != slash)) (l := text.reverse)
  cases rest : text.reverse.dropWhile (· != slash) with
  | nil =>
      rw [rest, List.append_nil] at whole
      have member : slash ∈ text.reverse := List.mem_reverse.mpr hasSlash
      rw [← whole] at member
      exact absurd member sep_notMem_takeWhile
  | cons head tail =>
      have isSlash : head = slash := by
        have stops := List.head?_dropWhile_not (· != slash) text.reverse
        rw [rest] at stops
        simpa using stops
      rw [rest, isSlash] at whole
      constructor
      · unfold beforeLast lastPart
        rw [rest, List.drop_one, List.tail_cons]
        have turned := congrArg List.reverse whole
        rw [List.reverse_append, List.reverse_reverse, List.reverse_cons,
          List.append_assoc, List.singleton_append] at turned
        exact turned.symm
      · unfold lastPart
        rw [List.mem_reverse]
        exact sep_notMem_takeWhile

theorem lastSlashFrom_append
    (noSlash : slash ∉ last)
    (count : Nat)
    (inside : count ≤ last.length) :
    lastSlashFrom (before ++ slash :: last) (before.length + count) =
      before.length := by
  induction count with
  | zero =>
      rw [Nat.add_zero]
      cases isLength : before.length with
      | zero =>
          rfl
      | succ length =>
          unfold lastSlashFrom
          rw [if_neg, ← isLength]
          rw [not_not, ← isLength, List.getD_eq_getElem?_getD,
            List.getElem?_append_right (Nat.le_refl _), Nat.sub_self]
          rfl
  | succ count inductionHypothesis =>
      have within : count < last.length := inside
      have place :
          (before ++ slash :: last).getD (before.length + count + 1) 0 =
            last[count] := by
        rw [List.getD_eq_getElem?_getD, List.getElem?_append_right (by omega)]
        have behind : before.length + count + 1 - before.length = count + 1 := by
          omega
        rw [behind, List.getElem?_cons_succ, List.getElem?_eq_getElem within]
        rfl
      rw [← Nat.add_assoc]
      unfold lastSlashFrom
      rw [place, if_pos]
      · exact inductionHypothesis (Nat.le_of_succ_le inside)
      · intro isSlash
        apply noSlash
        rw [← isSlash]
        exact List.getElem_mem within

theorem displayParent_append
    (noSlash : slash ∉ last) :
    displayParent (before ++ slash :: last) =
      if before = [] then [slash] else before := by
  have isLength :
      (before ++ slash :: last).length = before.length + last.length + 1 := by
    rw [List.length_append, List.length_cons]
    omega
  unfold displayParent
  rw [isLength]
  split
  next short =>
    have noBefore : before = [] := List.length_eq_zero_iff.mp (by omega)
    have noLast : last = [] := List.length_eq_zero_iff.mp (by omega)
    rw [if_pos noBefore, noBefore, noLast]
    rfl
  next long =>
    dsimp only
    rw [Nat.add_sub_cancel,
      lastSlashFrom_append noSlash last.length (Nat.le_refl _)]
    by_cases noBefore : before = []
    · rw [if_pos noBefore, noBefore]
      rfl
    · have positive := List.length_pos_iff.mpr noBefore
      rw [if_neg (by omega), if_neg noBefore, List.take_left]

theorem pathNames_append_slash :
    pathNames (before ++ slash :: last) =
      pathNames before ++ pathNames last := by
  unfold pathNames
  rw [components_append, List.map_append]

theorem pathNames_slash : pathNames [slash] = [] := by
  unfold pathNames
  rw [components_cons_sep, components_nil]
  rfl

theorem pathNames_single
    (noSlash : slash ∉ last)
    (nonempty : last ≠ []) :
    pathNames last = [last.take DIRSIZ] := by
  unfold pathNames
  rw [components_single noSlash nonempty]
  rfl

theorem pathNames_displaySlash
    (absolute : text.head? = some slash) :
    pathNames (displaySlash text ++ target) =
      pathNames text ++ pathNames target := by
  have isCons : ∃ rest, text = slash :: rest := by
    cases text with
    | nil =>
        cases absolute
    | cons head rest =>
        exact ⟨rest, congrArg (· :: rest) (Option.some.inj absolute)⟩
  unfold displaySlash
  split
  · rw [List.append_assoc, List.singleton_append, pathNames_append_slash]
  next ends =>
    have endsWithSlash : text.getLast? = some slash := by
      by_contra other
      have short : ¬ 1 < text.length := fun long => ends ⟨long, other⟩
      obtain ⟨rest, isText⟩ := isCons
      rw [isText, List.length_cons] at short
      have noRest : rest = [] := List.length_eq_zero_iff.mp (by omega)
      rw [isText, noRest] at other
      exact other rfl
    obtain ⟨front, isText⟩ := List.getLast?_eq_some_iff.mp endsWithSlash
    rw [isText, List.append_assoc, List.singleton_append,
      pathNames_append_slash, pathNames_append_slash]
    unfold pathNames
    rw [components_nil, List.map_nil, List.append_nil]

theorem isProper_take
    (proper : IsProper dotName dotDotName last) :
    IsProper dotName dotDotName (last.take DIRSIZ) := by
  have whole :
      ∀ name : List UInt8, name.length < DIRSIZ →
        last.take DIRSIZ = name → last = name := by
    intro name short same
    have isLength := congrArg List.length same
    rw [List.length_take] at isLength
    rw [List.take_of_length_le (by omega)] at same
    exact same
  exact ⟨fun isDot => proper.1 (whole dotName (by decide) isDot),
    fun isDotDot => proper.2 (whole dotDotName (by decide) isDotDot)⟩

/-!
## Where texts lead
-/

variable {vol : Volume} {inum node : Nat}

theorem walk_beforeLast
    (tree : vol.Tree)
    (hasSlash : slash ∈ text)
    (leads : walk vol.child ROOTINO (pathNames text) = some inum)
    (isDir : vol.IsDir inum)
    (isParent : vol.child inum dotDotName = some node)
    (popsName :
      (lastPart text ≠ [] ∧ IsProper dotName dotDotName (lastPart text)) ∨
        normalForm dotName dotDotName [] (pathNames (beforeLast text)) = []) :
    walk vol.child ROOTINO (pathNames (beforeLast text)) = some node := by
  obtain ⟨isText, noSlash⟩ := beforeLast_append_lastPart hasSlash
  generalize beforeLast text = before at *
  generalize lastPart text = last at *
  rw [isText, pathNames_append_slash, walk_append] at leads
  obtain ⟨middle, reaches, rest⟩ := Option.bind_eq_some_iff.mp leads
  have isMiddle : vol.IsDir middle := by
    by_cases nothing : last = []
    · rw [nothing] at rest
      have same : middle = inum := Option.some.inj rest
      rw [same]
      exact isDir
    · rw [pathNames_single noSlash nothing, walk_singleton] at rest
      exact tree.leaf rest
  have located := Climbs.walk tree .root reaches isMiddle
  by_cases proper : last ≠ [] ∧ IsProper dotName dotDotName last
  · rw [pathNames_single noSlash proper.1, walk_singleton] at rest
    have up := tree.up located (isProper_take proper.2) rest isDir
    rw [isParent] at up
    rw [reaches, up]
  · have atRoot := popsName.resolve_left proper
    rw [atRoot] at located
    have isRoot : middle = ROOTINO := located.nil
    rw [isRoot] at reaches rest
    have stays : inum = ROOTINO := by
      by_cases nothing : last = []
      · rw [nothing] at rest
        exact (Option.some.inj rest).symm
      · rw [pathNames_single noSlash nothing, walk_singleton] at rest
        by_cases isDot : last = dotName
        · rw [isDot] at rest
          have here := tree.here .root
          exact Option.some.inj (rest.symm.trans here)
        · have isDotDot : last = dotDotName := by
            by_contra other
            exact proper ⟨nothing, isDot, other⟩
          rw [isDotDot] at rest
          exact Option.some.inj (rest.symm.trans tree.top)
    rw [stays] at isParent
    rw [reaches]
    exact tree.top.symm.trans isParent

theorem walk_updateCwdDisplay
    {cwdPath : List UInt8}
    (tree : vol.Tree)
    (absolute : cwdPath.head? = some slash)
    (leads : walk vol.child ROOTINO (pathNames cwdPath) = some inum)
    (isDir : vol.IsDir inum)
    (located : ∃ path, vol.At path inum)
    (walks :
      walk vol.child (FileSystem.startOf inum target) (pathNames target) =
        some node)
    (roomy :
      if target.head? = some slash ∨ target = dotName ∨
          target = dotDotName then
        target.length < LINE_SIZE
      else
        (displaySlash cwdPath).length + target.length < LINE_SIZE)
    (popsName :
      target = dotDotName →
        (lastPart cwdPath ≠ [] ∧
            IsProper dotName dotDotName (lastPart cwdPath)) ∨
          normalForm dotName dotDotName []
            (pathNames (beforeLast cwdPath)) = []) :
    walk vol.child ROOTINO (pathNames (updateCwdDisplay cwdPath target)) =
      some node := by
  unfold FileSystem.startOf at walks
  unfold updateCwdDisplay
  by_cases isAbsolute : target.head? = some slash
  · rw [if_pos (Or.inl isAbsolute)] at roomy
    rw [if_pos isAbsolute] at walks ⊢
    rw [List.take_of_length_le (Nat.le_sub_one_of_lt roomy)]
    exact walks
  · rw [if_neg isAbsolute] at walks ⊢
    by_cases isDot : target = dotName
    · have isNames : pathNames target = [dotName] := by
        rw [isDot]
        decide
      obtain ⟨path, isAt⟩ := located
      rw [isNames, walk_singleton, tree.here isAt] at walks
      rw [if_pos isDot, leads]
      exact walks
    · rw [if_neg isDot]
      by_cases isDotDot : target = dotDotName
      · have isNames : pathNames target = [dotDotName] := by
          rw [isDotDot]
          decide
        rw [isNames, walk_singleton] at walks
        have hasSlash : slash ∈ cwdPath := List.mem_of_mem_head? absolute
        have up :=
          walk_beforeLast tree hasSlash leads isDir walks (popsName isDotDot)
        obtain ⟨isText, noSlash⟩ := beforeLast_append_lastPart hasSlash
        rw [if_pos isDotDot]
        generalize beforeLast cwdPath = before at *
        rw [isText, displayParent_append noSlash]
        by_cases noBefore : before = []
        · rw [noBefore] at up
          rw [if_pos noBefore, pathNames_slash]
          exact up
        · rw [if_neg noBefore]
          exact up
      · rw [if_neg] at roomy
        · rw [if_neg isDotDot, List.take_of_length_le (by omega),
            pathNames_displaySlash absolute, walk_append, leads]
          exact walks
        · rintro (isSlash | dot | dotDot)
          · exact isAbsolute isSlash
          · exact isDot dot
          · exact isDotDot dotDot

theorem head?_updateCwdDisplay
    {cwdPath : List UInt8}
    (absolute : cwdPath.head? = some slash) :
    (updateCwdDisplay cwdPath target).head? = some slash := by
  have nonempty : cwdPath ≠ [] := by
    intro empty
    rw [empty] at absolute
    cases absolute
  unfold updateCwdDisplay
  split
  next isAbsolute =>
    rw [List.head?_take]
    exact isAbsolute
  · split
    · exact absolute
    · split
      · have hasSlash : slash ∈ cwdPath := List.mem_of_mem_head? absolute
        obtain ⟨isText, noSlash⟩ := beforeLast_append_lastPart hasSlash
        generalize beforeLast cwdPath = before at *
        rw [isText] at absolute ⊢
        rw [displayParent_append noSlash]
        split
        · rfl
        next some =>
          rw [List.head?_append_of_ne_nil _ some] at absolute
          exact absolute
      · rw [List.head?_append_of_ne_nil]
        · unfold displaySlash
          split
          · rw [List.head?_append_of_ne_nil _ nonempty]
            exact absolute
          · exact absolute
        · unfold displaySlash
          split
          · exact List.append_ne_nil_of_left_ne_nil nonempty _
          · exact nonempty

theorem noNul_updateCwdDisplay
    {cwdPath : List UInt8}
    (absolute : cwdPath.head? = some slash)
    (noNul : 0 ∉ cwdPath)
    (noNulTarget : 0 ∉ target) :
    0 ∉ updateCwdDisplay cwdPath target := by
  unfold updateCwdDisplay
  split
  · exact fun member => noNulTarget (List.mem_of_mem_take member)
  · split
    · exact noNul
    · split
      · have hasSlash : slash ∈ cwdPath := List.mem_of_mem_head? absolute
        obtain ⟨isText, noSlash⟩ := beforeLast_append_lastPart hasSlash
        generalize beforeLast cwdPath = before at *
        rw [isText] at noNul ⊢
        rw [displayParent_append noSlash]
        split
        · decide
        · exact fun member => noNul (List.mem_append_left _ member)
      · intro member
        rcases List.mem_append.mp member with inText | inTarget
        · unfold displaySlash at inText
          split at inText
          · rcases List.mem_append.mp inText with inText | isLast
            · exact noNul inText
            · rw [List.mem_singleton] at isLast
              cases isLast
          · exact noNul inText
        · exact noNulTarget (List.mem_of_mem_take inTarget)

/-!
## Runs
-/

/-- The text that the shell keeps leads to the process's directory. -/
structure Agrees
    (shell : Shell)
    (vol : Volume)
    (old : InodeIndex)
    (inum : Nat)
    (path : List (List UInt8)) : Prop where
  represents : shell.fs.Represents vol none
  sound : vol.Sound
  tree : vol.Tree
  inDirectory : FileSystem.InDirectory vol shell.process old inum path
  absolute : shell.cwdPath.head? = some slash
  noNul : 0 ∉ shell.cwdPath
  leads : walk vol.child ROOTINO (pathNames shell.cwdPath) = some inum

/-- The text and the directory agree in some volume. -/
def Agreeing (shell : Shell) : Prop :=
  ∃ vol old inum path, shell.Agrees vol old inum path

variable {shell next : Shell} {action : ShellAction}
variable {old : InodeIndex} {path : List (List UInt8)}

theorem Starts.agreeing
    (starts : shell.Starts) :
    shell.Agreeing := by
  obtain ⟨vol, root, represents, sound, tree, isProcess, refers, isText⟩ :=
    starts
  refine ⟨vol, root, ROOTINO, [], ?_⟩
  exact {
    represents := represents
    sound := sound
    tree := tree
    inDirectory := {
      cwd := by
        rw [isProcess]
      refers := refers
      usable := sound.root.1
      isAt := .root
      text := by
        rw [isProcess]
        rfl
      plain := by
        intro name member
        cases member
      fits := by decide
    }
    absolute := by
      rw [isText]
      rfl
    noNul := by
      rw [isText]
      decide
    leads := by
      rw [isText, pathNames_slash]
      rfl
  }

theorem Agrees.cd
    {target : CString}
    (agrees : shell.Agrees vol old inum path)
    (roomy : shell.Roomy (.cd target))
    (popsName : shell.PopsName (.cd target))
    (taken : Step shell (.cd target) next) :
    next.Agreeing := by
  have isDir : vol.IsDir inum :=
    Located.isDir agrees.tree agrees.inDirectory.isAt
  have ends :=
    FileSystem.sysChdir_ends agrees.represents agrees.sound agrees.tree
      (agrees.inDirectory.refers.borrows agrees.represents.nonneg)
      agrees.inDirectory target.noNul
  unfold Step step? at taken
  dsimp only at taken
  split at taken
  next later result process finished =>
    obtain ⟨after, represents, same, failed | changed⟩ := ends.ok finished
    · obtain ⟨isResult, borrows⟩ := failed
      have isMinusOne : result = -1 := (Prod.ext_iff.mp isResult).1
      have notZero : result ≠ 0 := by
        rw [isMinusOne]
        decide
      have isProcess : process = shell.process := (Prod.ext_iff.mp isResult).2
      rw [if_neg notZero, isProcess] at taken
      cases taken
      have isAt : after.At path inum := by
        unfold Volume.At
        rw [Volume.child_of_node same, Volume.isDir_of_node same]
        exact agrees.inDirectory.isAt
      have sound := agrees.sound.of_node after same
      refine ⟨after, old, inum, path, ?_⟩
      exact {
        represents := represents
        sound := sound
        tree := by
          unfold Volume.Tree
          rw [Volume.child_of_node same, Volume.isDir_of_node same]
          exact agrees.tree
        inDirectory :=
          agrees.inDirectory.stays sound isAt
            (borrows.refers agrees.inDirectory.refers)
        absolute := agrees.absolute
        noNul := agrees.noNul
        leads := by
          rw [Volume.child_of_node same]
          exact agrees.leads
      }
    · obtain ⟨process', ip, node, path', isResult, _, inDirectory, walks⟩ :=
        changed
      have isZero : result = 0 := (Prod.ext_iff.mp isResult).1
      have isProcess : process = process' := (Prod.ext_iff.mp isResult).2
      rw [if_pos isZero, isProcess] at taken
      cases taken
      refine ⟨after, ip, node, path', ?_⟩
      exact {
        represents := represents
        sound := agrees.sound.of_node after same
        tree := by
          unfold Volume.Tree
          rw [Volume.child_of_node same, Volume.isDir_of_node same]
          exact agrees.tree
        inDirectory := inDirectory
        absolute := head?_updateCwdDisplay agrees.absolute
        noNul :=
          noNul_updateCwdDisplay agrees.absolute agrees.noNul target.noNul
        leads := by
          rw [Volume.child_of_node same]
          exact walk_updateCwdDisplay agrees.tree agrees.absolute agrees.leads
            isDir ⟨path, agrees.inDirectory.isAt⟩ walks roomy popsName
      }
  · cases taken

theorem Agrees.other
    {later : FileSystem}
    (agrees : shell.Agrees vol old inum path)
    (leaves : shell.LeavesDirectories later)
    (taken : Step shell (.other later) next) :
    next.Agreeing := by
  cases taken
  obtain ⟨after, represents, sound, tree, stays, keeps⟩ :=
    leaves vol agrees.represents agrees.sound agrees.tree
  have isDir : vol.IsDir inum :=
    Located.isDir agrees.tree agrees.inDirectory.isAt
  have refers :=
    keeps old inum agrees.inDirectory.cwd agrees.inDirectory.refers
  refine ⟨after, old, inum, path, ?_⟩
  exact {
    represents := represents
    sound := sound
    tree := tree
    inDirectory :=
      agrees.inDirectory.stays sound
        (stays path inum agrees.inDirectory.isAt) refers
    absolute := agrees.absolute
    noNul := agrees.noNul
    leads :=
      Climbs.walk_stays agrees.tree tree
        (fun located => stays _ _ located) .root agrees.leads isDir
  }

theorem Agreeing.pwdNamesCwd
    (agreeing : shell.Agreeing) :
    shell.PwdNamesCwd := by
  obtain ⟨vol, old, inum, path, agrees⟩ := agreeing
  have isCwd := agrees.inDirectory.cwd
  constructor
  · rw [isCwd]
    exact Option.some_ne_none old
  · have stands : FileSystem.Stands vol none ROOTINO := {
      nowhere := fun _ => rfl
      refers := by
        intro ip impossible
        cases impossible
      usable := agrees.sound.root.1
    }
    apply Outcome.Ends.mono
    · exact FileSystem.namei_ends agrees.represents agrees.sound
        (.refl agrees.represents.nonneg) stands agrees.noNul
    · rintro found later ⟨after, represents, same, missing | arrived⟩
      · obtain ⟨nowhere, _⟩ := missing
        unfold FileSystem.startOf at nowhere
        rw [if_pos agrees.absolute, agrees.leads] at nowhere
        cases nowhere
      · obtain ⟨ip, node, isNode, isFound, borrows, refers, _⟩ := arrived
        unfold FileSystem.startOf at isNode
        rw [if_pos agrees.absolute, agrees.leads] at isNode
        cases isNode
        have refersOld := borrows.refers agrees.inDirectory.refers
        rw [isFound, isCwd, represents.refers_unique refers refersOld]

/--
In every run in which no directory is removed, the texts fit, and `..` is asked
for only behind a name that leads downwards or at the root, `pwd` prints a path
to the process's directory.
-/
theorem pwdNamesCwd_of_popsName
    {trace : List (Shell × ShellAction)}
    {final : Shell}
    (starts : shell.Starts)
    (run : Run Step shell trace final)
    (undisturbed : Meets Undisturbed trace)
    (roomy : Meets Roomy trace)
    (popsName : Meets PopsName trace) :
    final.PwdNamesCwd := by
  have meets :
      Meets
        (fun shell action =>
          shell.Undisturbed action ∧ shell.Roomy action ∧
            shell.PopsName action)
        trace :=
    fun entry member =>
      ⟨undisturbed entry member, roomy entry member, popsName entry member⟩
  apply Agreeing.pwdNamesCwd
  apply run.invariant starts.agreeing _ meets
  rintro current action final ⟨vol, old, inum, path, agrees⟩
    ⟨leaves, roomy, popsName⟩ taken
  cases action with
  | cd target =>
      exact agrees.cd roomy popsName taken
  | other later =>
      exact agrees.other leaves taken

/-- The shell with an empty directory `a` in the root. -/
def onSmallTree : Shell where
  fs := Image.fileSystem Image.smallTree
  process := {
    cwd := some Image.rootSlot
    path := [slash]
  }
  cwdPath := [slash]

theorem onSmallTree_starts : onSmallTree.Starts :=
  ⟨Image.volume Image.smallTree, Image.rootSlot,
    Image.represents Image.smallTree_fits, Image.smallTree_sound,
    Image.smallTree_tree, rfl, ⟨rfl, by decide⟩, rfl⟩

/-- Nobody but the shell does anything. -/
def OwnStep : ShellAction → Prop
  | .cd _ => True
  | .other _ => False

instance (action : ShellAction) : Decidable (OwnStep action) :=
  match action with
  | .cd _ => .isTrue True.intro
  | .other _ => .isFalse False.elim

instance (shell : Shell) (action : ShellAction) :
    Decidable (shell.Roomy action) :=
  match action with
  | .cd _ => inferInstanceAs (Decidable (ite _ _ _))
  | .other _ => .isTrue True.intro

instance (shell : Shell) (action : ShellAction) :
    Decidable (shell.PopsName action) :=
  match action with
  | .cd _ => inferInstanceAs (Decidable (_ → _))
  | .other _ => .isTrue True.intro

theorem OwnStep.undisturbed
    (ownStep : OwnStep action) :
    shell.Undisturbed action := by
  cases action with
  | cd target =>
      exact True.intro
  | other later =>
      cases ownStep

/-- `pwd` prints a path to another directory. -/
def namesOther (shell : Shell) : Bool :=
  match (FileSystem.namei none shell.cwdPath).run shell.fs with
  | .ok (_, found) => found != shell.process.cwd
  | .error _ => false

theorem not_pwdNamesCwd_of_namesOther
    (other : shell.namesOther = true) :
    ¬ shell.PwdNamesCwd := by
  rintro ⟨_, ends⟩
  unfold namesOther at other
  split at other
  next later found finished =>
    rw [ends.ok finished] at other
    simp at other
  · cases other

/-- Arguments of `cd`. -/
def cdA : ShellAction :=
  .cd { bytes := [97], noNul := by decide }

def cdASlash : ShellAction :=
  .cd { bytes := [97, 47], noNul := by decide }

def cdAround : ShellAction :=
  .cd { bytes := [97, 47, 46, 46, 47, 97], noNul := by decide }

def cdUp : ShellAction :=
  .cd { bytes := dotDotName, noNul := by decide }

/-- The shell goes to `a` and up, and to `a/../a`, up and to `a`. -/
theorem pwdNamesCwd_of_popsName_onSmallTree :
    ∃ trace final,
      Run Step onSmallTree trace final ∧
        final.cwdPath = [47, 97, 47, 46, 46, 47, 97] ∧
        final.process.path = [47, 97] ∧ final.PwdNamesCwd := by
  have reaches :
      (runActions
          (guarded
            (fun shell action =>
              OwnStep action ∧ shell.Roomy action ∧ shell.PopsName action)
            step?)
          onSmallTree [cdA, cdUp, cdAround, cdUp, cdA]).any
        (fun final =>
          decide (final.cwdPath = [47, 97, 47, 46, 46, 47, 97] ∧
            final.process.path = [47, 97])) = true := by
    decide +kernel
  obtain ⟨final, accepted, texts⟩ := (Option.any_eq_true _ _).mp reaches
  obtain ⟨trace, run, meets⟩ := runActions_guarded accepted
  obtain ⟨isText, isPath⟩ := of_decide_eq_true texts
  refine ⟨trace, final, run, isText, isPath, ?_⟩
  exact pwdNamesCwd_of_popsName onSmallTree_starts run
    (meets.mono fun _ _ all => all.1.undisturbed)
    (meets.mono fun _ _ all => all.2.1)
    (meets.mono fun _ _ all => all.2.2)

/-- After `cd a/` and `cd ..`, `pwd` prints `/a` in the root directory. -/
theorem not_pwdNamesCwd :
    ¬ ∀ (shell : Shell) (trace : List (Shell × ShellAction)) (final : Shell),
      shell.Starts → Run Step shell trace final →
        Meets Undisturbed trace → Meets Roomy trace → final.PwdNamesCwd := by
  intro law
  have reaches :
      (runActions
          (guarded
            (fun shell action => OwnStep action ∧ shell.Roomy action) step?)
          onSmallTree [cdASlash, cdUp]).any namesOther = true := by
    decide +kernel
  obtain ⟨final, accepted, other⟩ := (Option.any_eq_true _ _).mp reaches
  obtain ⟨trace, run, meets⟩ := runActions_guarded accepted
  apply not_pwdNamesCwd_of_namesOther other
  exact law onSmallTree trace final onSmallTree_starts run
    (meets.mono fun _ _ all => all.1.undisturbed)
    (meets.mono fun _ _ all => all.2)

end Shell

end MyOS
