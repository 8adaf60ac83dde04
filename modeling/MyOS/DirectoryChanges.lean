import MyOS.DirectoryEntries

namespace MyOS

open Lib
open Routine

/-!
# Changing directories of a volume

`dirlink` and `nameiparent`, alone, as steps of a volume: which entry a name
gets, and which directory a path's last name is in.
-/

namespace FileSystem

variable {tolerated : FileSystem → FsPanic → Prop}
variable {fs later : FileSystem} {base vol : Volume}
variable {extra : InodeIndex → Nat} {lagging : Option Nat}
variable {dp ip : InodeIndex} {inum target : Nat} {name : List UInt8}

/-!
## Links
-/

theorem dirlinkSlotFrom_ends
    (represents : fs.Represents vol lagging)
    (lag : lagging = none ∨ lagging = some inum)
    (holds : vol.Holds dp inum)
    (whole : direntSize ∣ (vol.node inum).bytes.length)
    (fuel index : Nat)
    (inside : index ≤ (vol.node inum).bytes.length / direntSize)
    (enough :
      (vol.node inum).bytes.length / direntSize ≤ index + fuel) :
    (dirlinkSlotFrom dp fuel (direntSize * index) fs).Ends Exhausted
      (fun off later =>
        later = fs ∧
          ∃ slot, off = direntSize * slot ∧
            IsFree (vol.node inum).bytes slot) := by
  have isEntry : direntSize = 16 := rfl
  have atEnd :
      ∀ index, index ≤ (vol.node inum).bytes.length / direntSize →
        (vol.node inum).bytes.length / direntSize ≤ index →
          IsFree (vol.node inum).bytes index := by
    intro index lower upper
    exact {
      whole := whole
      inside := lower
      unused := fun below => absurd upper (Nat.not_le_of_lt below)
    }
  induction fuel generalizing index with
  | zero =>
      exact ⟨rfl, index, rfl, atEnd index inside enough⟩
  | succ fuel inductionHypothesis =>
      obtain ⟨_, _, _, _, isSize⟩ := represents.inode holds
      unfold dirlinkSlotFrom
      apply ends_inodeAt
      rw [isSize]
      split
      next within =>
        have below :
            index < (vol.node inum).bytes.length / direntSize := by
          obtain ⟨entries, isLength⟩ := whole
          rw [isLength, isEntry] at within ⊢
          omega
        apply ends_bind (readi_entry represents lag holds whole within)
        rintro bytes later ⟨isLater, isLength, isDirent⟩
        rw [isLater, if_neg (not_not_intro isLength), isDirent]
        split
        next unused =>
          exact ⟨rfl, index, rfl, whole, inside, fun _ => unused⟩
        next =>
          exact inductionHypothesis (index + 1) below (by omega)
      next behind =>
        refine ⟨rfl, index, rfl, atEnd index inside ?_⟩
        rw [isEntry] at behind ⊢
        omega

/-- What `dirlink` has come to; there is room for entries on every disk. -/
def Links
    (vol : Volume)
    (lagging : Option Nat)
    (inum : Nat)
    (name : List UInt8)
    (target : Nat)
    (result : Int)
    (later : FileSystem) : Prop :=
  result = 0 ∧
    ∃ slot, IsFree (vol.node inum).bytes slot ∧
      later.Represents
        (vol.setNode inum
          { vol.node inum with
            bytes := withEntry (vol.node inum).bytes slot name target })
        (lagAfter (vol.node inum).bytes
          (withEntry (vol.node inum).bytes slot name target) lagging)

theorem dirlink_ends
    (represents : fs.Represents vol lagging)
    (lag : lagging = none ∨ lagging = some inum)
    (holds : vol.Holds dp inum)
    (sound : vol.Sound)
    (isDir : vol.IsDir inum)
    (isNew : lookup (vol.node inum).bytes name = none)
    (target : Nat) :
    (dirlink dp name target fs).Ends Exhausted
      (Links vol lagging inum name target) := by
  have isEntry : direntSize = 16 := rfl
  have room : MAXFILE * BSIZE = 67382272 := by decide
  have size : FSSIZE * BSIZE = 16777216 := by decide
  have bounded := represents.length_le_disk inum
  have whole := sound.whole isDir
  have missing : slotOf (vol.node inum).bytes name = none :=
    Option.map_eq_none_iff.mp isNew
  unfold dirlink
  apply ends_bind (dirlookup_ends represents lag holds sound isDir)
  rintro found later (⟨_, isNone, isLater⟩ | ⟨_, _, _, isSlot, _⟩)
  · rw [isNone, isLater]
    dsimp only
    have search :=
      dirlinkSlotFrom_ends represents lag holds whole direntBound 0
        (Nat.zero_le _)
        (by
          have fuel : direntBound = 268435456 := rfl
          rw [isEntry, fuel]
          omega)
    apply ends_bind search
    rintro off later ⟨isLater, slot, isOff, isFree⟩
    rw [isLater, isOff]
    have fits : direntSize * slot + direntSize ≤ MAXFILE * BSIZE := by
      have inside := isFree.inside
      rw [isEntry] at inside ⊢
      omega
    apply ends_bind (writei_represents represents lag holds fits rfl)
    rintro written final ⟨isWritten, represents⟩
    rw [if_neg (not_not_intro isWritten)]
    exact ⟨rfl, slot, isFree, represents⟩
  · rw [missing] at isSlot
    cases isSlot

/-!
## Parents
-/

/-- What a search for the directory of a path's last name has come to. -/
def FindsParent
    (base vol : Volume)
    (extra : InodeIndex → Nat)
    (parent : Option (Nat × List UInt8))
    (result : Option (InodeIndex × List UInt8))
    (later : FileSystem) : Prop :=
  ∃ after, later.Represents after none ∧ after.node = vol.node ∧
    ((parent = none ∧ result = none ∧ Volume.Borrows base after extra) ∨
      ∃ dp inum name, parent = some (inum, name) ∧
        result = some (dp, name) ∧
        Volume.Borrows base after (extra + Volume.one dp) ∧
        after.Refers dp inum ∧ vol.Usable inum)

theorem FindsParent.of_node
    {before : Volume}
    {parent : Option (Nat × List UInt8)}
    {result : Option (InodeIndex × List UInt8)}
    (same : before.node = vol.node)
    (finds : FindsParent base before extra parent result later) :
    FindsParent base vol extra parent result later := by
  obtain ⟨after, represents, isNode, finds⟩ := finds
  refine ⟨after, represents, isNode.trans same, ?_⟩
  rcases finds with missing | ⟨dp, inum, name, isParent, isResult, borrows,
    refers, usable⟩
  · exact Or.inl missing
  · exact Or.inr ⟨dp, inum, name, isParent, isResult, borrows, refers,
      usable.of_node same.symm⟩

theorem nameiparentFrom_ends
    (tolerates : ToleratesFull tolerated base extra)
    (represents : fs.Represents vol none)
    (sound : vol.Sound)
    (borrows : Volume.Borrows base vol (extra + Volume.one ip))
    (refers : vol.Refers ip inum)
    (usable : vol.Usable inum)
    (fuel : Nat)
    (path : List UInt8)
    (noNul : ∀ name ∈ pathNames path, 0 ∉ name)
    (enough : (pathNames path).length ≤ fuel) :
    (nameiparentFrom fuel ip path fs).Ends tolerated
      (FindsParent base vol extra (vol.parentOf inum (pathNames path))) := by
  induction fuel generalizing fs vol ip inum path with
  | zero =>
      have noNames : pathNames path = [] :=
        List.length_eq_zero_iff.mp (Nat.le_zero.mp enough)
      rw [noNames]
      unfold nameiparentFrom
      apply ends_bind (iput_borrowed represents borrows refers usable.linked)
      rintro _ later ⟨represents, same, borrows⟩
      exact ⟨_, represents, same, Or.inl ⟨rfl, rfl, borrows⟩⟩
  | succ fuel inductionHypothesis =>
      unfold nameiparentFrom
      cases step : skipelem path with
      | none =>
          rw [skipelem_none step]
          apply ends_bind
            (iput_borrowed represents borrows refers usable.linked)
          rintro _ later ⟨represents, same, borrows⟩
          exact ⟨_, represents, same, Or.inl ⟨rfl, rfl, borrows⟩⟩
      | some found =>
          obtain ⟨rest, name⟩ := found
          have isEnd := skipelem_rest step
          rw [skipelem_some step] at enough noNul ⊢
          have isName : 0 ∉ name := noNul name List.mem_cons_self
          dsimp only
          apply ends_bind (ilock_represents represents refers usable.inUse)
          intro _ fs represents
          have holds := refers.load
          have borrowsHere := borrows.load ip
          have sound :=
            sound.of_node
              (vol.setHandle ip { vol.handle ip with valid := true }) rfl
          have inode := represents.inode holds
          apply ends_inodeAt
          rw [inode.2.2.1]
          have isParent :
              vol.parentOf inum (name :: pathNames rest) =
                if pathNames rest = [] then
                  if vol.IsDir inum then some (inum, name) else none
                else
                  (vol.child inum name).bind fun next =>
                    vol.parentOf next (pathNames rest) :=
            rfl
          split
          next notDir =>
            have notDir : ¬ vol.IsDir inum := notDir
            have nowhere :
                vol.parentOf inum (name :: pathNames rest) = none := by
              have noChild : vol.child inum name = none :=
                if_neg fun both => notDir both.1
              rw [isParent, if_neg notDir, noChild]
              exact ite_self none
            apply ends_bind
              (iunlockput_borrowed represents borrowsHere holds.refers
                usable.linked)
            rintro _ later ⟨represents, same, borrows⟩
            exact ⟨_, represents, same, Or.inl ⟨nowhere, rfl, borrows⟩⟩
          next isDir =>
            have isDir : vol.IsDir inum := not_not.mp isDir
            split
            next isLast =>
              apply ends_bind (iunlock_represents represents holds.refers)
              intro _ later isLater
              rw [isLater, isParent, if_pos (isEnd.mp isLast), if_pos isDir]
              exact ⟨_, represents, rfl,
                Or.inr ⟨ip, inum, name, rfl, rfl, borrowsHere, holds.refers,
                  usable⟩⟩
            next notLast =>
              rw [isParent, if_neg (mt isEnd.mpr notLast)]
              apply ends_bind
                (dirlookup_tolerates represents (Or.inl rfl) holds sound
                  isDir (tolerates (Or.inr ⟨ip, rfl⟩) represents borrowsHere))
              rintro found later (⟨missing, isNone, isLater⟩ |
                ⟨index, next, after, isSlot, isFound, represents, gets⟩)
              · have noChild : vol.child inum name = none := by
                  rw [Volume.child_of_isDir isDir isName]
                  exact congrArg _ missing
                rw [isNone, isLater]
                apply ends_bind
                  (iunlockput_borrowed represents borrowsHere holds.refers
                    usable.linked)
                rintro _ final ⟨represents, same, borrows⟩
                refine ⟨_, represents, same, Or.inl ⟨?_, rfl, borrows⟩⟩
                rw [noChild]
                rfl
              · have isChild :
                    vol.child inum name =
                      some (direntAt (vol.node inum).bytes index).inum := by
                  rw [Volume.child_of_isDir isDir isName]
                  exact congrArg _ isSlot
                have borrows := borrowsHere.gets gets
                rw [add_right_comm] at borrows
                have linked : (after.node inum).nlink ≠ 0 := by
                  rw [gets.node]
                  exact usable.linked
                rw [isFound]
                apply ends_bind
                  (iunlockput_borrowed represents borrows
                    (holds.refers.of_gets gets) linked)
                rintro _ released ⟨represents, same, borrows⟩
                have same : (after.put ip).node = vol.node :=
                  same.trans gets.node
                have finds :=
                  inductionHypothesis represents (sound.of_node _ same)
                    borrows
                    ((gets.refers (borrowsHere.nonneg_now next)).of_put
                      borrows)
                    ((sound.usable_child isChild).of_node same) rest
                    (fun other member =>
                      noNul other (List.mem_cons_of_mem name member))
                    (Nat.le_of_succ_le_succ enough)
                rw [Volume.parentOf_of_node same] at finds
                rw [isChild, Option.bind_some]
                exact finds.mono fun _ _ => FindsParent.of_node same

theorem nameiparent_tolerates
    {cwd : Option InodeIndex}
    (tolerates : ToleratesFull tolerated base extra)
    (represents : fs.Represents vol none)
    (sound : vol.Sound)
    (borrows : Volume.Borrows base vol extra)
    (stands : Stands vol cwd inum)
    {path : List UInt8}
    (noNul : 0 ∉ path) :
    (nameiparent cwd path fs).Ends tolerated
      (FindsParent base vol extra
        (vol.parentOf (startOf inum path) (pathNames path))) := by
  unfold nameiparent
  have full := tolerates (Or.inl rfl) represents (by rwa [add_zero])
  apply ends_bind (pathStart_ends represents sound stands full path)
  rintro ip later ⟨after, represents, gets⟩
  have usable : vol.Usable (startOf inum path) := by
    unfold startOf
    split
    · exact sound.root.1
    · exact stands.usable
  have finds :=
    nameiparentFrom_ends tolerates represents (sound.of_node after gets.node)
      (borrows.gets gets) (gets.refers (borrows.nonneg_now ip))
      (usable.of_node gets.node) (path.length + 1) path
      (fun _ member => nul_notMem_pathNames noNul member)
      (by
        unfold pathNames
        rw [List.length_map]
        exact length_components_le)
  rw [Volume.parentOf_of_node gets.node] at finds
  exact finds.mono fun _ _ => FindsParent.of_node gets.node

theorem nameiparent_ends
    {cwd : Option InodeIndex}
    (represents : fs.Represents vol none)
    (sound : vol.Sound)
    (borrows : Volume.Borrows base vol extra)
    (stands : Stands vol cwd inum)
    {path : List UInt8}
    (noNul : 0 ∉ path) :
    (nameiparent cwd path fs).Ends Exhausted
      (FindsParent base vol extra
        (vol.parentOf (startOf inum path) (pathNames path))) :=
  nameiparent_tolerates exhausted_full represents sound borrows stands noNul

end FileSystem

end MyOS
