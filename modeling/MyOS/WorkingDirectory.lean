import MyOS.DirectoryVolume

namespace MyOS

open Lib
open Routine

/-!
# The working directory

`sys_chdir` and `sys_getcwd` with the text that the kernel keeps beside a
process's directory.  A text is a C string without its NUL.
-/

/-- A C string without its NUL. -/
structure CString where
  bytes : List UInt8
  noNul : 0 ∉ bytes

/-- `safestrcpy` of a string into a buffer of `n` bytes. -/
def copyText (text : List UInt8) (n : Nat) : List UInt8 :=
  text.take (n - 1)

/-- `append_path_component`; none where it returns -1. -/
def appendPathComponent (dst : List UInt8) (cap : Nat) (name : List UInt8) :
    Option (List UInt8) :=
  if name = [] ∨ name = dotName then
    some dst
  else if dst = [slash] then
    if cap ≤ name.length + 1 then
      none
    else
      some (dst ++ copyText name (cap - 1))
  else if cap ≤ dst.length + 1 + name.length then
    none
  else
    some (dst ++ slash :: copyText name (cap - (dst.length + 1)))

/-- `while (len > 1 && stop(path[len - 1])) len--;` -/
def shorten (path : List UInt8) (stop : UInt8 → Bool) : Nat → Nat
  | 0 => 0
  | len + 1 =>
      if 1 < len + 1 ∧ stop (path.getD len 0) then
        shorten path stop len
      else
        len + 1

/-- `pop_path_component` -/
def popPathComponent (path : List UInt8) : List UInt8 :=
  if path.length ≤ 1 then
    [slash]
  else
    let len := shorten path (· == slash) path.length
    let len := shorten path (· != slash) len
    if len ≤ 1 then [slash] else path.take (len - 1)

/-- The loop of `normalize_cwd_path` at the rest `s` of the input. -/
def normalizeFrom : Nat → List UInt8 → List UInt8 → Option (List UInt8)
  | 0, _, out => some out
  | fuel + 1, s, out =>
      let start := s.dropWhile (· == slash)
      let component := start.takeWhile (· != slash)
      let rest := start.dropWhile (· != slash)
      if start = [] then
        some out
      else if DIRSIZ < component.length then
        none
      else if component = dotName then
        normalizeFrom fuel rest out
      else if component = dotDotName then
        normalizeFrom fuel rest (popPathComponent out)
      else
        (appendPathComponent (copyText out MAXPATH) MAXPATH component).bind
          fun tmp => normalizeFrom fuel rest (copyText tmp MAXPATH)

/-- `p->cwd_path[0] ? p->cwd_path : "/"` -/
def orRoot (path : List UInt8) : List UInt8 :=
  if path = [] then [slash] else path

/-- `normalize_cwd_path`; none where it returns -1. -/
def normalizeCwdPath (cwdPath input : List UInt8) : Option (List UInt8) :=
  let out :=
    if input.head? = some slash then
      copyText [slash] MAXPATH
    else
      copyText (orRoot cwdPath) MAXPATH
  normalizeFrom (input.length + 1) input out

/-- `p->cwd` and `p->cwd_path` -/
structure WorkingDirectory where
  cwd : Option InodeIndex
  path : List UInt8

/-- `argstr` of a string that user space has in its memory. -/
def argstr (text : List UInt8) (max : Nat) : Option (List UInt8) :=
  if text.length < max then some text else none

/-- `sys_chdir`; what it returns, with the process's directory then. -/
def FileSystem.sysChdir (p : WorkingDirectory) (text : List UInt8) :
    FsRoutine (Int × WorkingDirectory) := do
  match argstr text MAXPATH with
  | none => return (-1, p)
  | some path =>
      match ← FileSystem.namei p.cwd path with
      | none => return (-1, p)
      | some ip =>
          ilock ip
          let inode ← inodeAt ip
          if inode.type ≠ T_DIR then
            iunlockput ip
            return (-1, p)
          else
            iunlock ip
            match normalizeCwdPath p.path path with
            | none =>
                iput ip
                return (-1, p)
            | some nextPath =>
                match p.cwd with
                | none => Routine.fault .nullInode
                | some old =>
                    iput old
                    return (0, {
                      cwd := some ip
                      path := copyText nextPath MAXPATH
                    })

/-- The string that `sys_getcwd` copies out into a buffer of `size` bytes. -/
def sysGetcwd (p : WorkingDirectory) (size : Int) : Option (List UInt8) :=
  if size ≤ 0 ∨ size < (orRoot p.path).length + 1 then
    none
  else
    some (orRoot p.path)

/-!
## Texts of paths
-/

/-- The text of an absolute path. -/
def pathText (path : List (List UInt8)) : List UInt8 :=
  if path = [] then [slash] else path.flatMap fun name => slash :: name

/-- A name that can stand between slashes. -/
structure Plain (name : List UInt8) : Prop where
  nonempty : name ≠ []
  noSlash : slash ∉ name

variable {path : List (List UInt8)} {name : List UInt8}

theorem pathText_snoc (path : List (List UInt8)) (name : List UInt8) :
    pathText (path ++ [name]) =
      (path.flatMap fun name => slash :: name) ++ slash :: name := by
  unfold pathText
  rw [if_neg (by simp), List.flatMap_append]
  simp

theorem pathText_of_ne
    (nonempty : path ≠ []) :
    pathText path = path.flatMap fun name => slash :: name :=
  if_neg nonempty

theorem pathText_ne_nil : pathText path ≠ [] := by
  cases path with
  | nil =>
      exact List.cons_ne_nil _ _
  | cons name path =>
      rw [pathText_of_ne (List.cons_ne_nil _ _)]
      exact List.cons_ne_nil _ _

theorem components_pathText
    (plain : ∀ name ∈ path, Plain name) :
    components slash (pathText path) = path := by
  induction path using List.reverseRecOn with
  | nil =>
      unfold pathText
      rw [if_pos rfl, components_cons_sep, components_nil]
  | append_singleton path name inductionHypothesis =>
      have isPlain : Plain name := plain name (by simp)
      have before :
          components slash (path.flatMap fun name => slash :: name) =
            path := by
        by_cases nonempty : path = []
        · rw [nonempty]
          exact components_nil
        · rw [← pathText_of_ne nonempty]
          apply inductionHypothesis
          intro other member
          exact plain other (List.mem_append_left [name] member)
      rw [pathText_snoc, components_append, before,
        components_single isPlain.noSlash isPlain.nonempty]

theorem pathText_eq_slash
    (plain : ∀ name ∈ path, Plain name) :
    pathText path = [slash] ↔ path = [] := by
  constructor
  · intro isSlash
    have same := components_pathText plain
    rw [isSlash, components_cons_sep, components_nil] at same
    exact same.symm
  · intro isRoot
    rw [isRoot]
    rfl

theorem shorten_stop
    {text : List UInt8}
    {stop : UInt8 → Bool}
    {len : Nat}
    (stops : stop (text.getD (len - 1) 0) = false) :
    shorten text stop len = len := by
  cases len with
  | zero =>
      rfl
  | succ len =>
      unfold shorten
      rw [if_neg]
      rintro ⟨_, goesOn⟩
      rw [Nat.add_sub_cancel] at stops
      rw [stops] at goesOn
      cases goesOn

theorem shorten_name
    {before : List UInt8}
    (noSlash : slash ∉ name)
    (count : Nat)
    (inside : count ≤ name.length) :
    shorten (before ++ slash :: name) (· != slash)
        (before.length + 1 + count) =
      before.length + 1 := by
  induction count with
  | zero =>
      apply shorten_stop
      simp
  | succ count inductionHypothesis =>
      have next : before.length + 1 + (count + 1) =
          (before.length + 1 + count) + 1 := rfl
      rw [next]
      unfold shorten
      rw [if_pos]
      · exact inductionHypothesis (Nat.le_of_succ_le inside)
      · refine ⟨by omega, ?_⟩
        have within : count < name.length := inside
        have place :
            (before ++ slash :: name).getD (before.length + 1 + count) 0 =
              name[count] := by
          rw [List.getD_eq_getElem?_getD, List.getElem?_append_right (by omega)]
          have behind :
              before.length + 1 + count - before.length = count + 1 := by
            omega
          rw [behind, List.getElem?_cons_succ,
            List.getElem?_eq_getElem within]
          rfl
        rw [place, bne_iff_ne]
        intro isSlash
        apply noSlash
        rw [← isSlash]
        exact List.getElem_mem within

theorem popPathComponent_append
    (before : List UInt8)
    (isPlain : Plain name) :
    popPathComponent (before ++ slash :: name) =
      if before = [] then [slash] else before := by
  have positive : 0 < name.length :=
    List.length_pos_iff.mpr isPlain.nonempty
  have isLength :
      (before ++ slash :: name).length = before.length + 1 + name.length := by
    rw [List.length_append, List.length_cons]
    omega
  have lastStays :
      shorten (before ++ slash :: name) (· == slash)
          (before.length + 1 + name.length) =
        before.length + 1 + name.length := by
    apply shorten_stop
    have place : before.length + 1 + name.length - 1 =
        before.length + (name.length - 1 + 1) := by
      omega
    have within : name.length - 1 < name.length := by
      omega
    rw [place, List.getD_eq_getElem?_getD,
      List.getElem?_append_right (Nat.le_add_right _ _),
      Nat.add_sub_cancel_left, List.getElem?_cons_succ,
      List.getElem?_eq_getElem within]
    apply beq_eq_false_iff_ne.mpr
    intro isSlash
    apply isPlain.noSlash
    rw [← isSlash]
    exact List.getElem_mem within
  unfold popPathComponent
  rw [isLength, if_neg (by omega)]
  dsimp only
  rw [lastStays,
    shorten_name isPlain.noSlash name.length (Nat.le_refl _)]
  by_cases isRoot : before = []
  · rw [isRoot]
    rfl
  · have nonempty := List.length_pos_iff.mpr isRoot
    rw [if_neg (by omega), if_neg isRoot, Nat.add_sub_cancel,
      List.take_left]

theorem popPathComponent_snoc
    (isPlain : Plain name) :
    popPathComponent (pathText (path ++ [name])) = pathText path := by
  rw [pathText_snoc, popPathComponent_append _ isPlain]
  unfold pathText
  by_cases isRoot : path = []
  · rw [if_pos isRoot, isRoot]
    rfl
  · rw [if_neg isRoot, if_neg]
    rw [← pathText_of_ne isRoot]
    exact pathText_ne_nil

theorem copyText_of_lt
    {text : List UInt8}
    {n : Nat}
    (fits : text.length < n) :
    copyText text n = text :=
  List.take_of_length_le (by omega)

theorem appendPathComponent_pathText
    {cap : Nat}
    {next : List UInt8}
    (plain : ∀ name ∈ path, Plain name)
    (isPlain : Plain name)
    (notDot : name ≠ dotName)
    (appended : appendPathComponent (pathText path) cap name = some next) :
    next = pathText (path ++ [name]) ∧ next.length < cap := by
  unfold appendPathComponent at appended
  rw [if_neg (not_or.mpr ⟨isPlain.nonempty, notDot⟩)] at appended
  by_cases isRoot : path = []
  · rw [if_pos ((pathText_eq_slash plain).mpr isRoot)] at appended
    split at appended
    · cases appended
    next room =>
      cases appended
      rw [copyText_of_lt (by omega), isRoot]
      refine ⟨by simp [pathText], ?_⟩
      simp only [pathText, if_pos, List.cons_append, List.nil_append,
        List.length_cons]
      omega
  · rw [if_neg (mt (pathText_eq_slash plain).mp isRoot)] at appended
    split at appended
    · cases appended
    next room =>
      cases appended
      rw [copyText_of_lt (by omega), pathText_snoc, ← pathText_of_ne isRoot]
      refine ⟨rfl, ?_⟩
      rw [List.length_append, List.length_cons]
      omega

theorem popPathComponent_pathText
    (plain : ∀ name ∈ path, Plain name) :
    popPathComponent (pathText path) = pathText path.dropLast := by
  rcases List.eq_nil_or_concat path with isRoot | ⟨above, last, isSnoc⟩
  · rw [isRoot]
    rfl
  · rw [isSnoc, List.concat_eq_append] at plain ⊢
    rw [List.dropLast_concat]
    exact popPathComponent_snoc (plain last (by simp))

theorem length_pathText_dropLast :
    (pathText path.dropLast).length ≤ (pathText path).length := by
  rcases List.eq_nil_or_concat path with isRoot | ⟨above, last, isSnoc⟩
  · rw [isRoot]
    exact Nat.le_refl _
  · rw [isSnoc, List.concat_eq_append, List.dropLast_concat, pathText_snoc,
      List.length_append, List.length_cons]
    unfold pathText
    split
    · exact Nat.le_add_left _ _
    · exact Nat.le_add_right _ _

/-- The normal form of a text, and what its names are like. -/
structure Normalized
    (path : List (List UInt8))
    (s next : List UInt8) : Prop where
  text :
    next =
      pathText (normalForm dotName dotDotName path (components slash s))
  plain :
    ∀ name ∈ normalForm dotName dotDotName path (components slash s),
      Plain name
  fits : next.length < MAXPATH
  short : ∀ name ∈ components slash s, name.length ≤ DIRSIZ

theorem Normalized.finish
    {s : List UInt8}
    (plain : ∀ name ∈ path, Plain name)
    (fits : (pathText path).length < MAXPATH)
    (noNames : components slash s = []) :
    Normalized path s (pathText path) where
  text := by
    rw [noNames]
    rfl
  plain := by
    rw [noNames]
    exact plain
  fits := fits
  short := by
    rw [noNames]
    intro name member
    cases member

theorem Normalized.step
    {s rest next : List UInt8}
    (isFirst : components slash s = name :: components slash rest)
    (short : name.length ≤ DIRSIZ)
    (normalized :
      Normalized (follow dotName dotDotName path name) rest next) :
    Normalized path s next where
  text := by
    rw [isFirst]
    exact normalized.text
  plain := by
    rw [isFirst]
    exact normalized.plain
  fits := normalized.fits
  short := by
    rw [isFirst]
    intro other member
    rcases List.mem_cons.mp member with isName | member
    · rw [isName]
      exact short
    · exact normalized.short other member

theorem pathNames_of_short
    {text : List UInt8}
    (short : ∀ name ∈ components slash text, name.length ≤ DIRSIZ) :
    pathNames text = components slash text := by
  unfold pathNames
  refine (List.map_congr_left ?_).trans (List.map_id _)
  intro name member
  exact List.take_of_length_le (short name member)

theorem normalizeFrom_pathText
    {s next : List UInt8}
    (fuel : Nat)
    (plain : ∀ name ∈ path, Plain name)
    (fits : (pathText path).length < MAXPATH)
    (enough : (components slash s).length ≤ fuel)
    (normalized : normalizeFrom fuel s (pathText path) = some next) :
    Normalized path s next := by
  induction fuel generalizing s path with
  | zero =>
      have noNames : components slash s = [] :=
        List.length_eq_zero_iff.mp (Nat.le_zero.mp enough)
      cases normalized
      exact .finish plain fits noNames
  | succ fuel inductionHypothesis =>
      unfold normalizeFrom at normalized
      dsimp only at normalized
      split at normalized
      next isEnd =>
        have noNames : components slash s = [] := by
          rw [← components_dropWhile, isEnd, components_nil]
        cases normalized
        exact .finish plain fits noNames
      next goesOn =>
        generalize isStart : s.dropWhile (· == slash) = start at *
        generalize isName : start.takeWhile (· != slash) = name at *
        generalize isRest : start.dropWhile (· != slash) = rest at *
        have nonempty : name ≠ [] := by
          obtain ⟨head, tail, isCons⟩ := List.exists_cons_of_ne_nil goesOn
          have notSlash : head ≠ slash := by
            have stops := List.head?_dropWhile_not (· == slash) s
            rw [isStart, isCons] at stops
            simpa using stops
          rw [← isName, isCons,
            List.takeWhile_cons_of_pos (by simpa using notSlash)]
          exact List.cons_ne_nil _ _
        have isFirst : components slash s = name :: components slash rest := by
          have isFound : start.takeWhile (· != slash) ≠ [] := by
            rw [isName]
            exact nonempty
          have split := components_takeWhile isFound
          rw [isName, isRest, ← isStart, components_dropWhile] at split
          exact split
        have isPlain : Plain name :=
          have parts := mem_components (by rw [isFirst]; exact List.mem_cons_self)
          ⟨parts.1, parts.2⟩
        have enough : (components slash rest).length ≤ fuel := by
          rw [isFirst] at enough
          exact Nat.le_of_succ_le_succ enough
        split at normalized
        · cases normalized
        next short =>
          apply Normalized.step isFirst (Nat.le_of_not_lt short)
          unfold follow
          split at normalized
          next isDot =>
            rw [if_pos isDot]
            exact inductionHypothesis plain fits enough normalized
          next notDot =>
            rw [if_neg notDot]
            split at normalized
            next isDotDot =>
              rw [if_pos isDotDot]
              rw [popPathComponent_pathText plain] at normalized
              apply inductionHypothesis _ _ enough normalized
              · intro other member
                exact plain other (List.mem_of_mem_dropLast member)
              · exact Nat.lt_of_le_of_lt length_pathText_dropLast fits
            next notDotDot =>
              rw [if_neg notDotDot]
              obtain ⟨tmp, appended, normalized⟩ :=
                Option.bind_eq_some_iff.mp normalized
              rw [copyText_of_lt fits] at appended
              obtain ⟨isText, room⟩ :=
                appendPathComponent_pathText plain isPlain notDot appended
              rw [copyText_of_lt room, isText] at normalized
              rw [isText] at room
              apply inductionHypothesis _ room enough normalized
              intro other member
              rcases List.mem_append.mp member with before | last
              · exact plain other before
              · rw [List.mem_singleton.mp last]
                exact isPlain

/-- Where the text of a path starts. -/
def textStart (path : List (List UInt8)) (input : List UInt8) :
    List (List UInt8) :=
  if input.head? = some slash then [] else path

theorem normalizeCwdPath_pathText
    {input next : List UInt8}
    (plain : ∀ name ∈ path, Plain name)
    (fits : (pathText path).length < MAXPATH)
    (normalized : normalizeCwdPath (pathText path) input = some next) :
    Normalized (textStart path input) input next := by
  have isStart :
      (if input.head? = some slash then copyText [slash] MAXPATH
        else copyText (orRoot (pathText path)) MAXPATH) =
        pathText (textStart path input) := by
    unfold textStart
    split
    · rfl
    · unfold orRoot
      rw [if_neg pathText_ne_nil, copyText_of_lt fits]
  unfold normalizeCwdPath at normalized
  rw [isStart] at normalized
  apply normalizeFrom_pathText _ _ _ length_components_le normalized
  · intro name member
    unfold textStart at member
    split at member
    · cases member
    · exact plain name member
  · unfold textStart
    split
    · decide
    · exact fits

/-!
## Changing the directory
-/

namespace FileSystem

variable {fs : FileSystem} {base vol : Volume} {extra : InodeIndex → Nat}
variable {p : WorkingDirectory} {old : InodeIndex} {inum : Nat}

/-- The process's directory and its text. -/
structure InDirectory
    (vol : Volume)
    (p : WorkingDirectory)
    (old : InodeIndex)
    (inum : Nat)
    (path : List (List UInt8)) : Prop where
  cwd : p.cwd = some old
  refers : vol.Refers old inum
  usable : vol.Usable inum
  isAt : vol.At path inum
  text : p.path = pathText path
  plain : ∀ name ∈ path, Plain name
  fits : (pathText path).length < MAXPATH

theorem InDirectory.isStart
    (inDirectory : InDirectory vol p old inum path)
    (text : List UInt8) :
    vol.At (textStart path text) (startOf inum text) := by
  unfold textStart startOf
  split
  · exact .root
  · exact inDirectory.isAt

theorem InDirectory.stays
    {after : Volume}
    (inDirectory : InDirectory vol p old inum path)
    (sound : after.Sound)
    (isAt : after.At path inum)
    (refers : after.Refers old inum) :
    InDirectory after p old inum path where
  cwd := inDirectory.cwd
  refers := refers
  usable := sound.usable_at isAt
  isAt := isAt
  text := inDirectory.text
  plain := inDirectory.plain
  fits := inDirectory.fits

/-- What `sys_chdir` has come to. -/
def ChangesDirectory
    (base vol : Volume)
    (extra : InodeIndex → Nat)
    (p : WorkingDirectory)
    (inum : Nat)
    (text : List UInt8)
    (result : Int × WorkingDirectory)
    (later : FileSystem) : Prop :=
  ∃ after, later.Represents after none ∧ after.node = vol.node ∧
    ((result = (-1, p) ∧ Volume.Borrows vol after 0) ∨
      ∃ next ip node path, result = (0, next) ∧
        Volume.Borrows base after (extra + Volume.one ip) ∧
        InDirectory after next ip node path ∧
        walk vol.child (startOf inum text) (pathNames text) = some node)

theorem sysChdir_ends
    (represents : fs.Represents vol none)
    (sound : vol.Sound)
    (tree : vol.Tree)
    (borrows : Volume.Borrows base vol (extra + Volume.one old))
    (inDirectory : InDirectory vol p old inum path)
    {text : List UInt8}
    (noNul : 0 ∉ text) :
    (sysChdir p text fs).Ends Exhausted
      (ChangesDirectory base vol extra p inum text) := by
  unfold sysChdir
  cases isPath : argstr text MAXPATH with
  | none =>
      exact ⟨vol, represents, rfl, Or.inl ⟨rfl, .refl represents.nonneg⟩⟩
  | some copied =>
      have isText : copied = text := by
        unfold argstr at isPath
        split at isPath
        · exact (Option.some.inj isPath).symm
        · cases isPath
      rw [isText]
      have stands : Stands vol p.cwd inum := {
        nowhere := by
          intro isNone
          rw [inDirectory.cwd] at isNone
          cases isNone
        refers := by
          intro ip isCwd
          rw [inDirectory.cwd] at isCwd
          cases isCwd
          exact inDirectory.refers
        usable := inDirectory.usable
      }
      apply ends_bind
        (namei_ends represents sound (.refl represents.nonneg) stands noNul)
      rintro found later ⟨after, represents, same, missing | arrived⟩
      · obtain ⟨_, isNone, walked⟩ := missing
        rw [isNone]
        exact ⟨after, represents, same, Or.inl ⟨rfl, walked⟩⟩
      · obtain ⟨ip, node, walks, isFound, walked, refers, usable⟩ := arrived
        rw [isFound]
        have usableNow := usable.of_node same
        apply ends_bind (ilock_represents represents refers usableNow.inUse)
        intro _ fs represents
        have holds := refers.load
        have walked := walked.load ip
        apply ends_inodeAt
        rw [(represents.inode holds).2.2.1]
        split
        next notDir =>
          apply ends_bind
            (iunlockput_borrowed represents walked holds.refers
              usableNow.linked)
          rintro _ later ⟨represents, sameNow, walked⟩
          exact ⟨_, represents, sameNow.trans same, Or.inl ⟨rfl, walked⟩⟩
        next isDir =>
          have isDir : vol.IsDir node := by
            have isType := not_not.mp isDir
            rw [Volume.setHandle_node, same] at isType
            exact isType
          apply ends_bind (iunlock_represents represents holds.refers)
          intro _ later isLater
          rw [isLater]
          cases normalized : normalizeCwdPath p.path text with
          | none =>
              apply ends_bind
                (iput_borrowed represents walked holds.refers
                  usableNow.linked)
              rintro _ later ⟨represents, sameNow, walked⟩
              exact ⟨_, represents, sameNow.trans same,
                Or.inl ⟨rfl, walked⟩⟩
          | some nextPath =>
              rw [inDirectory.text] at normalized
              have next :=
                normalizeCwdPath_pathText inDirectory.plain inDirectory.fits
                  normalized
              rw [inDirectory.cwd]
              dsimp only
              have borrows := borrows.trans walked
              rw [zero_add, add_right_comm] at borrows
              have oldLinked := (inDirectory.usable.of_node same).linked
              apply ends_bind
                (iput_borrowed represents borrows
                  (walked.refers inDirectory.refers) oldLinked)
              rintro _ later ⟨represents, sameNow, borrows⟩
              have same := sameNow.trans same
              refine ⟨_, represents, same,
                Or.inr ⟨_, ip, node,
                  normalForm dotName dotDotName (textStart path text)
                    (components slash text),
                  rfl, borrows, ?_, walks⟩⟩
              exact {
                cwd := rfl
                refers := holds.refers.of_put borrows
                usable := usable.of_node same
                isAt := by
                  unfold Volume.At
                  rw [Volume.child_of_node same, Volume.isDir_of_node same]
                  rw [pathNames_of_short next.short] at walks
                  exact tree.walk (inDirectory.isStart text) walks isDir
                text := by
                  rw [copyText_of_lt next.fits]
                  exact next.text
                plain := next.plain
                fits := by
                  rw [← next.text]
                  exact next.fits
              }

end FileSystem

end MyOS
