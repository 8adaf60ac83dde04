import MyOS.FileSanity
import MyOS.OpenAtomicity

namespace MyOS

open Lib
open Routine

/-!
# Appending

Any number of descriptors are opened, some of them with `O_APPEND`, and written
through in any order.  `sys_open` moves a file to the end, once; a write puts
its bytes where the file has been moved to since.
-/

namespace FileKernel

/-- A call that opens a file or writes to one. -/
inductive AppendCall where
  | open (p : Slot) (text : List UInt8) (flags : Nat)
  | write (p : Slot) (fd : Int) (source : Nat → Option UInt8) (len : Int)

/-- The kernel's code for a call. -/
def AppendCall.routine : AppendCall → FileRoutine Int
  | .open p text flags => openCall p text flags
  | write p fd source len => writeCall p fd source len

/-- The files that have been opened with `O_APPEND`, behind a call. -/
def AppendCall.marks
    (appends : FileSlot → Bool)
    (result : Int)
    (later : FileKernel) : AppendCall → FileSlot → Bool
  | .open p _ flags =>
      match later.argfd p result with
      | some (_, f) => Function.update appends f (hasFlag flags O_APPEND)
      | none => appends
  | write _ _ _ _ => appends

/-- The bytes of the file at a slot of the file table. -/
def fileBytes (kernel : FileKernel) (f : FileSlot) : List UInt8 :=
  match (kernel.file f).ip with
  | some ip => (kernel.fs.savedNode (kernel.fs.inode ip).inum).bytes
  | none => []

/-- A write through a file stores at least one byte. -/
def StoresSome
    (kernel : FileKernel)
    (f : FileSlot)
    (source : Nat → Option UInt8)
    (len : Int) : Prop :=
  (kernel.file f).writable = true ∧
    WritesNext (kernel.file f).off source 0 len.toNat

/-- What a call has done, by what was and by what it returned. -/
abbrev AppendLaw : Type :=
  (FileSlot → Bool) → FileKernel → AppendCall → Int → FileKernel → Prop

/-- A write through a file opened with `O_APPEND` is behind the file's bytes. -/
def Appends : AppendLaw
  | appends, kernel, .write p fd source _, result, later =>
      ∀ slot f, kernel.argfd p fd = some (slot, f) → appends f = true →
        later.fileBytes f =
          kernel.fileBytes f ++ tabulate result.toNat (userBytes source)
  | _, _, .open _ _ _, _, _ => True

/--
A write through a file opened with `O_APPEND` starts with the file's offset at
the end, or stores nothing.
-/
def StartsAtEnd : AppendLaw
  | appends, kernel, .write p fd source len, _, _ =>
      ∀ slot f, kernel.argfd p fd = some (slot, f) → appends f = true →
        kernel.StoresSome f source len →
          (kernel.file f).off = (kernel.fileBytes f).length
  | _, _, .open _ _ _, _, _ => True

/-- A law holds of every call of a run. -/
def EachCall (law : AppendLaw) :
    List AppendCall → (FileSlot → Bool) → FileKernel → Prop
  | [], _, _ => True
  | call :: rest, appends, kernel =>
      (call.routine kernel).Ends Exhausted fun result later =>
        law appends kernel call result later ∧
          EachCall law rest (call.marks appends result later) later

/-- The files marked are open on inodes. -/
def Marked (appends : FileSlot → Bool) (kernel : FileKernel) : Prop :=
  ∀ f, appends f = true → (kernel.file f).type = .inode

/-- Paths are strings. -/
def AppendCall.IsText : AppendCall → Prop
  | .open _ text _ => 0 ∉ text
  | write _ _ _ _ => True

variable {kernel later : FileKernel} {vol after : Volume} {p : Slot}
variable {f : FileSlot} {ip : InodeIndex} {inum : Nat}
variable {appends : FileSlot → Bool}

theorem OpenOn.fileBytes
    (isOpen : OpenOn vol (kernel.file f) ip inum)
    (represents : kernel.fs.Represents vol none) :
    kernel.fileBytes f = (vol.node inum).bytes := by
  unfold FileKernel.fileBytes
  rw [isOpen.isIp]
  dsimp only
  rw [(represents.inode isOpen.holds).1,
    represents.savedNode isOpen.usable.inArea]

/-!
## Opening
-/

theorem openTarget_existing
    {flags start : Nat}
    {names : List (List UInt8)}
    (isTarget : vol.openTarget flags start names = .existing inum) :
    opensToWrite flags = true → ¬ vol.IsDir inum := by
  have ofExisting :
      ∀ {found}, vol.existingTarget flags found = .existing inum →
        opensToWrite flags = true → ¬ vol.IsDir inum := by
    intro found isFound writes isDir
    unfold Volume.existingTarget at isFound
    split at isFound
    · cases isFound
    next notBoth =>
      cases isFound
      exact notBoth ⟨isDir, writes⟩
  unfold Volume.openTarget Volume.entryTarget at isTarget
  split at isTarget
  · split at isTarget
    · cases isTarget
    · split at isTarget
      · cases isTarget
      · split at isTarget
        · cases isTarget
        · exact ofExisting isTarget
  · split at isTarget
    · cases isTarget
    · exact ofExisting isTarget

theorem Sane.filled
    {extra : InodeIndex → Nat}
    {fd : Descriptor}
    {flags off : Nat}
    (sane : kernel.Sane vol)
    (represents : later.fs.Represents after none)
    (carries : Carries vol after)
    (borrows : Volume.Borrows vol after extra)
    (holds : after.Holds ip inum)
    (usable : after.Usable inum)
    (notDir : opensToWrite flags = true → ¬ after.IsDir inum)
    (file :
      later.file =
        Function.update kernel.file f
          (filled { kernel.file f with ref := 1 } ip flags off))
    (ofile :
      later.ofile =
        Function.update kernel.ofile p
          (Function.update (kernel.ofile p) fd (some f)))
    (cwd : later.cwd = kernel.cwd) :
    later.Sane after := by
  have isNew :
      later.file f = FileKernel.filled { kernel.file f with ref := 1 } ip
        flags off := by
    rw [file, Function.update_self]
  have isOther : ∀ {g}, g ≠ f → later.file g = kernel.file g := by
    intro g different
    rw [file, Function.update_of_ne different]
  exact {
    represents := represents
    sound := carries.sound
    cleared := by
      intro g isFree
      by_cases same : g = f
      · rw [same, isNew] at isFree
        exact absurd isFree one_ne_zero
      · rw [isOther same] at isFree ⊢
        exact sane.cleared g isFree
    noInode := by
      intro g notInode
      by_cases same : g = f
      · rw [same, isNew] at notInode
        exact absurd rfl notInode
      · rw [isOther same] at notInode ⊢
        exact sane.noInode g notInode
    opened := by
      intro g isInode
      by_cases same : g = f
      · rw [same, isNew]
        exact ⟨ip, inum, ⟨rfl, rfl, holds, usable⟩, notDir⟩
      · rw [isOther same] at isInode ⊢
        exact Opened.carried (sane.opened g isInode) carries borrows rfl
    used := by
      intro q slot g isOpen
      by_cases same : g = f
      · rw [same, isNew]
        exact one_ne_zero
      · have wasOpen : kernel.ofile q slot = some g := by
          rw [ofile] at isOpen
          by_cases sameProcess : q = p
          · rw [sameProcess, Function.update_self] at isOpen
            rw [sameProcess]
            by_cases sameSlot : slot = fd
            · rw [sameSlot, Function.update_self] at isOpen
              cases isOpen
              exact absurd rfl same
            · rw [Function.update_of_ne sameSlot] at isOpen
              exact isOpen
          · rw [Function.update_of_ne sameProcess] at isOpen
            exact isOpen
        rw [isOther same]
        exact sane.used q slot g wasOpen
    stands := by
      intro q
      obtain ⟨start, stands⟩ := sane.stands q
      rw [cwd]
      exact ⟨start, stands_carried stands carries borrows⟩
  }

theorem Sane.sameFiles
    {extra : InodeIndex → Nat}
    (sane : kernel.Sane vol)
    (represents : later.fs.Represents after none)
    (carries : Carries vol after)
    (borrows : Volume.Borrows vol after extra)
    (same : kernel.SameFiles later) :
    later.Sane after :=
  sane.carried represents carries borrows
    (fun f => Or.inl (congrFun same.file f)) same.ofile same.cwd

theorem Carries.openedNode
    {flags : Nat}
    (sound : vol.Sound)
    (same :
      after.node =
        (vol.setNode inum (openedNode flags (vol.node inum))).node) :
    Carries vol after := by
  by_cases truncates : Truncates flags (vol.node inum)
  · have notDir : ¬ vol.IsDir inum := by
      intro isDir
      have isFile := truncates.2.1
      unfold Volume.IsDir at isDir
      rw [isDir] at isFile
      cases isFile
    exact Carries.setBytes sound notDir (openedNode_fields ..).1
      (openedNode_fields ..).2 same
  · have isSame : FileKernel.openedNode flags (vol.node inum) = _ :=
      if_neg truncates
    rw [isSame, Volume.setNode_self] at same
    exact .of_node sound same

theorem argfd_val
    (kernel : FileKernel)
    (p : Slot)
    (fd : Descriptor) :
    kernel.argfd p (fd.val : Int) =
      (kernel.ofile p fd).map fun f => (fd, f) := by
  unfold argfd
  have inRange : 0 ≤ (fd.val : Int) ∧ ((fd.val : Int)).toNat < NOFILE :=
    ⟨Int.natCast_nonneg _, fd.isLt⟩
  rw [dif_pos inRange]
  rfl

theorem argfd_minusOne (kernel : FileKernel) (p : Slot) :
    kernel.argfd p (-1) = none := by
  unfold argfd
  rw [dif_neg]
  exact fun inRange => absurd inRange.1 (by decide)

theorem marks_failed
    {text : List UInt8}
    {flags : Nat} :
    (AppendCall.open p text flags).marks appends (-1) later = appends := by
  unfold AppendCall.marks
  dsimp only
  rw [argfd_minusOne]

theorem marks_opened
    {text : List UInt8}
    {flags : Nat}
    {fd : Descriptor}
    (isOpen : later.ofile p fd = some f) :
    (AppendCall.open p text flags).marks appends (fd.val : Int) later =
      Function.update appends f (hasFlag flags O_APPEND) := by
  unfold AppendCall.marks
  dsimp only
  rw [argfd_val, isOpen]
  rfl

theorem Marked.sameFiles
    (marked : Marked appends kernel)
    (same : kernel.SameFiles later) :
    Marked appends later := by
  intro f isMarked
  rw [same.file]
  exact marked f isMarked

/-- What holds behind a call, for the calls behind it -/
def StaysOpen
    (appends : FileSlot → Bool)
    (call : AppendCall)
    (result : Int)
    (later : FileKernel) : Prop :=
  (∃ after, later.Sane after) ∧ Marked (call.marks appends result later) later

theorem OpensFile.staysOpen
    {extra : InodeIndex → Nat}
    {flags : Nat}
    {node : Node}
    {text : List UInt8}
    {result : Int}
    (opens : OpensFile vol extra kernel p ip flags node result later after)
    (sane : kernel.Sane vol)
    (marked : Marked appends kernel)
    (represents : later.fs.Represents after none)
    (carries : Carries vol after)
    (holds : result ≠ -1 → after.Holds ip inum)
    (usable : after.Usable inum)
    (notDir : opensToWrite flags = true → ¬ after.IsDir inum) :
    StaysOpen appends (.open p text flags) result later := by
  unfold StaysOpen
  cases opens with
  | noFile full sameFiles borrows =>
      rw [marks_failed]
      exact ⟨⟨after, sane.sameFiles represents carries borrows sameFiles⟩,
        marked.sameFiles sameFiles⟩
  | noDescriptor free full sameFiles borrows =>
      rw [marks_failed]
      exact ⟨⟨after, sane.sameFiles represents carries borrows sameFiles⟩,
        marked.sameFiles sameFiles⟩
  | @opened _ _ f fd free room file ofile cwd alive borrows =>
      have notMinusOne : ((fd.val : Nat) : Int) ≠ -1 := by
        omega
      have isOpen : later.ofile p fd = some f := by
        rw [ofile, Function.update_self, Function.update_self]
      rw [marks_opened isOpen]
      refine ⟨⟨after, ?_⟩, ?_⟩
      · exact sane.filled represents carries borrows (holds notMinusOne) usable
          notDir file ofile cwd
      · intro g isMarked
        rw [file]
        by_cases same : g = f
        · rw [same, Function.update_self]
          rfl
        · rw [Function.update_of_ne same]
          have wasMarked : appends g = true := by
            rw [← isMarked]
            exact (Function.update_of_ne same ..).symm
          exact marked g wasMarked

theorem open_staysOpen
    {text : List UInt8}
    {flags : Nat}
    (sane : kernel.Sane vol)
    (marked : Marked appends kernel)
    (noNul : 0 ∉ text) :
    (openCall p text flags kernel).Ends Exhausted
      (StaysOpen appends (.open p text flags)) := by
  obtain ⟨start, stands⟩ := sane.stands p
  have borrows := Volume.Borrows.refl sane.represents.nonneg
  apply
    (openCall_ends sane.represents sane.sound sane.cleared borrows stands
      noNul).mono
  intro result later opens
  generalize isTarget : callTarget vol flags start text = target at opens
  cases opens with
  | failed represents same borrows sameFiles =>
      have saneLater :=
        sane.sameFiles represents (.of_node sane.sound same) borrows sameFiles
      refine ⟨⟨_, saneLater⟩, ?_⟩
      rw [marks_failed]
      exact marked.sameFiles sameFiles
  | @existing inum ip _ _ usable opens =>
      obtain ⟨after, represents, same, opens, holds⟩ := opens
      have carries := Carries.openedNode sane.sound same
      have notDir : opensToWrite flags = true → ¬ vol.IsDir inum := by
        unfold callTarget at isTarget
        split at isTarget
        · exact openTarget_existing isTarget
        · cases isTarget
      exact opens.staysOpen sane marked represents carries holds
        (carries.usable usable)
        (fun writes isDir => notDir writes (carries.dirs usable isDir))
  | @created held dp new slot name ip _ _ creates opens =>
      obtain ⟨after, represents, same, opens, holds⟩ := opens
      have soundHeld := creates.adds.sound sane.sound
      have carriesHeld : Carries vol held := {
        sound := soundHeld
        usable := creates.adds.usable
        dirs := by
          intro other usable isDir
          have notNew : other ≠ new := by
            intro isNew
            rw [isNew] at usable
            exact usable.inUse creates.unused
          exact (creates.adds.dirs notNew).mp isDir
      }
      have carries := carriesHeld.trans (Carries.openedNode soundHeld same)
      have isNode : after.node new = openedNode flags (held.node new) := by
        rw [same, Volume.setNode_node_self]
      have isFile : (after.node new).type = T_FILE := by
        rw [isNode, (openedNode_fields ..).1, creates.node_new]
        rfl
      have usable : after.Usable new := by
        refine ⟨creates.newInArea, ?_, ?_⟩
        · rw [isFile]
          decide
        · rw [isNode, (openedNode_fields ..).2, creates.node_new]
          exact one_ne_zero
      refine opens.staysOpen sane marked represents carries holds usable ?_
      intro _ isDir
      unfold Volume.IsDir at isDir
      rw [isFile] at isDir
      cases isDir

/-!
## Writing
-/

theorem writeCountFrom_notInode
    {source : Nat → Option UInt8}
    {left : Nat}
    (fuel : Nat)
    (notInode : (kernel.file f).type ≠ .inode) :
    (writeCountFrom f source fuel 0 left kernel).Ends Exhausted
      (fun _ later => later = kernel) := by
  cases fuel with
  | zero =>
      rfl
  | succ fuel =>
      unfold writeCountFrom
      split
      · rfl
      · apply ends_fileAt
        rw [if_neg (fun both => notInode both.2)]
        rfl

theorem writeCall_ends
    {fd len : Int}
    {slot : Descriptor}
    {source : Nat → Option UInt8}
    (represents : kernel.fs.Represents vol none)
    (isOpen : OpenOn vol (kernel.file f) ip inum)
    (found : kernel.argfd p fd = some (slot, f))
    (writable : (kernel.file f).writable = true) :
    (writeCall p fd source len kernel).Ends Exhausted
      (WritesFrom kernel vol f inum source 0 len.toNat) := by
  have nothing :
      Writes kernel vol f inum 0 (userBytes source) kernel vol :=
    .nothing rfl (Volume.Borrows.refl represents.nonneg) ⟨rfl, rfl, rfl, rfl⟩
  unfold writeCall
  apply ends_get
  rw [found]
  dsimp only
  rw [if_pos writable]
  exact writeCountFrom_ends len.toNat represents nothing isOpen writable le_rfl

theorem WritesFrom.appends_iff
    {source : Nat → Option UInt8}
    {left : Nat}
    {result : Int}
    (writes : WritesFrom kernel vol f inum source 0 left result later)
    (represents : kernel.fs.Represents vol none)
    (isOpen : OpenOn vol (kernel.file f) ip inum) :
    later.fileBytes f =
        kernel.fileBytes f ++ tabulate result.toNat (userBytes source) ↔
      (WritesNext (kernel.file f).off source 0 left →
        (kernel.file f).off = (kernel.fileBytes f).length) := by
  obtain ⟨total, after, representsLater, writes, isResult, _, stores⟩ := writes
  rw [add_zero] at stores
  have isTotal : result.toNat = total := by
    omega
  have isNode := congrArg Node.bytes (congrFun writes.node inum)
  rw [Volume.setNode_node_self] at isNode
  dsimp only at isNode
  rw [(writes.openOn isOpen).fileBytes representsLater,
    isOpen.fileBytes represents, isNode, isTotal, overwrite_eq_append_iff]
  constructor
  · rintro (nothing | atEnd) writesNext
    · have positive := stores.mpr writesNext
      have noBytes := tabulate_eq_nil nothing
      omega
    · exact atEnd
  · intro startsAtEnd
    by_cases nothing : total = 0
    · rw [nothing]
      exact Or.inl rfl
    · exact Or.inr (startsAtEnd (stores.mp (Nat.pos_of_ne_zero nothing)))

theorem WritesFrom.staysOpen
    {fd len : Int}
    {slot : Descriptor}
    {source : Nat → Option UInt8}
    {left : Nat}
    {result : Int}
    (writes : WritesFrom kernel vol f inum source 0 left result later)
    (sane : kernel.Sane vol)
    (marked : Marked appends kernel)
    (found : kernel.argfd p fd = some (slot, f))
    (notDir : ¬ vol.IsDir inum) :
    StaysOpen appends (.write p fd source len) result later := by
  obtain ⟨total, after, represents, writes, _⟩ := writes
  have isUsed := sane.used p slot f (argfd_eq found)
  have carries : Carries vol after := by
    apply Carries.setBytes sane.sound notDir _ _ writes.node
    · rfl
    · rfl
  refine ⟨⟨after, ?_⟩, ?_⟩
  · refine sane.carried represents carries writes.borrows ?_ writes.ofile
      writes.cwd
    intro g
    rw [writes.file]
    by_cases same : g = f
    · rw [same, Function.update_self]
      exact Or.inr ⟨isUsed, rfl⟩
    · rw [Function.update_of_ne same]
      exact Or.inl rfl
  · intro g isMarked
    have wasInode := marked g isMarked
    rw [writes.file]
    by_cases same : g = f
    · rw [same] at wasInode ⊢
      rw [Function.update_self]
      exact wasInode
    · rw [Function.update_of_ne same]
      exact wasInode

/-- A write appends exactly if it starts at the end. -/
def AppendsIffAtEnd : AppendLaw :=
  fun appends kernel call result later =>
    Appends appends kernel call result later ↔
      StartsAtEnd appends kernel call result later

theorem write_appends_iff
    {fd len : Int}
    {source : Nat → Option UInt8}
    (sane : kernel.Sane vol)
    (marked : Marked appends kernel) :
    (writeCall p fd source len kernel).Ends Exhausted
      (fun result later =>
        AppendsIffAtEnd appends kernel (.write p fd source len) result later ∧
          StaysOpen appends (.write p fd source len) result later) := by
  have unchanged :
      ∀ {result : Int},
        StaysOpen appends (.write p fd source len) result kernel :=
    ⟨⟨vol, sane⟩, marked⟩
  cases found : kernel.argfd p fd with
  | none =>
      unfold writeCall
      apply ends_get
      rw [found]
      refine ⟨?_, unchanged⟩
      unfold AppendsIffAtEnd Appends StartsAtEnd
      dsimp only
      rw [found]
      exact iff_of_true (fun _ _ impossible => by cases impossible)
        (fun _ _ impossible => by cases impossible)
  | some pair =>
      obtain ⟨slot, f⟩ := pair
      -- The law speaks of the one file that the descriptor refers to.
      have isLaw :
          ∀ {result : Int} {later : FileKernel},
            (appends f = true →
              (later.fileBytes f =
                  kernel.fileBytes f ++
                    tabulate result.toNat (userBytes source) ↔
                (kernel.StoresSome f source len →
                  (kernel.file f).off = (kernel.fileBytes f).length))) →
              AppendsIffAtEnd appends kernel (.write p fd source len) result
                later := by
        intro result later isIff
        unfold AppendsIffAtEnd Appends StartsAtEnd
        dsimp only
        rw [found]
        constructor
        · intro law slot g isFound isMarked
          cases isFound
          exact (isIff isMarked).mp (law _ f rfl isMarked)
        · intro law slot g isFound isMarked
          cases isFound
          exact (isIff isMarked).mpr (law _ f rfl isMarked)
      by_cases writable : (kernel.file f).writable = true
      · by_cases isInode : (kernel.file f).type = .inode
        · obtain ⟨ip, inum, isOpen, notDir⟩ := sane.opened f isInode
          apply (writeCall_ends sane.represents isOpen found writable).mono
          intro result later writes
          refine ⟨isLaw ?_,
            writes.staysOpen sane marked found (notDir writable)⟩
          intro _
          rw [writes.appends_iff sane.represents isOpen]
          exact ⟨fun law stores => law stores.2,
            fun law stores => law ⟨writable, stores⟩⟩
        · have ends :
              (writeCall p fd source len kernel).Ends Exhausted
                (fun _ later => later = kernel) := by
            unfold writeCall
            apply ends_get
            rw [found]
            dsimp only
            rw [if_pos writable]
            exact writeCountFrom_notInode len.toNat isInode
          apply ends.mono
          rintro result later isLater
          rw [isLater]
          exact ⟨isLaw fun isMarked => absurd (marked f isMarked) isInode,
            unchanged⟩
      · unfold writeCall
        apply ends_get
        rw [found]
        dsimp only
        rw [if_neg writable]
        refine ⟨isLaw fun _ => ?_, unchanged⟩
        exact iff_of_true (List.append_nil _).symm
          (fun stores => absurd stores.1 writable)

theorem eachCall_appendsIffAtEnd
    (calls : List AppendCall)
    (sane : kernel.Sane vol)
    (marked : Marked appends kernel)
    (areTexts : ∀ call ∈ calls, call.IsText) :
    EachCall AppendsIffAtEnd calls appends kernel := by
  induction calls generalizing kernel vol appends with
  | nil =>
      exact trivial
  | cons call rest inductionHypothesis =>
      have restTexts : ∀ call ∈ rest, call.IsText :=
        fun next isNext => areTexts next (List.mem_cons_of_mem _ isNext)
      have isText : call.IsText := areTexts call List.mem_cons_self
      cases call with
      | «open» p text flags =>
          apply (open_staysOpen sane marked isText).mono
          rintro result later ⟨⟨after, saneLater⟩, markedLater⟩
          exact ⟨Iff.rfl,
            inductionHypothesis saneLater markedLater restTexts⟩
      | write p fd source len =>
          apply (write_appends_iff sane marked).mono
          rintro result later ⟨isLaw, ⟨after, saneLater⟩, markedLater⟩
          exact ⟨isLaw, inductionHypothesis saneLater markedLater restTexts⟩

theorem EachCall.mono
    {law weaker : AppendLaw}
    {calls : List AppendCall}
    (each : EachCall law calls appends kernel)
    (implies :
      ∀ {appends kernel call result later},
        law appends kernel call result later →
          weaker appends kernel call result later) :
    EachCall weaker calls appends kernel := by
  induction calls generalizing kernel appends with
  | nil =>
      exact trivial
  | cons call rest inductionHypothesis =>
      apply Outcome.Ends.mono each
      rintro result later ⟨isLaw, eachRest⟩
      exact ⟨implies isLaw, inductionHypothesis eachRest⟩

theorem EachCall.follow
    {law weaker : AppendLaw}
    {calls : List AppendCall}
    (each : EachCall law calls appends kernel)
    (follows :
      EachCall
        (fun appends kernel call result later =>
          law appends kernel call result later →
            weaker appends kernel call result later)
        calls appends kernel) :
    EachCall weaker calls appends kernel := by
  induction calls generalizing kernel appends with
  | nil =>
      exact trivial
  | cons call rest inductionHypothesis =>
      apply (Outcome.Ends.and each follows).mono
      rintro result later ⟨⟨isLaw, eachRest⟩, implies, followsRest⟩
      exact ⟨implies isLaw, inductionHypothesis eachRest followsRest⟩

/--
In every run of opens and writes, of any processes and on any files: the writes
through files opened with `O_APPEND` are all behind the bytes of their files
exactly if each of them finds the file's offset at the end or stores nothing.
-/
theorem appends_iff_startsAtEnd
    (calls : List AppendCall)
    (sane : kernel.Sane vol)
    (marked : Marked appends kernel)
    (areTexts : ∀ call ∈ calls, call.IsText) :
    EachCall Appends calls appends kernel ↔
      EachCall StartsAtEnd calls appends kernel := by
  have each := eachCall_appendsIffAtEnd calls sane marked areTexts
  exact ⟨fun appends => appends.follow (each.mono Iff.mp),
    fun atEnd => atEnd.follow (each.mono Iff.mpr)⟩

/-!
## Two descriptors
-/

/-- The path `/f` -/
def filePath : List UInt8 := [slash, 102]

/-- One byte in the memory of a process -/
def oneByte (byte : UInt8) : Nat → Option UInt8 :=
  fun _ => some byte

/--
A new file is opened twice with `O_APPEND`, and written to through the first of
its descriptors.
-/
def firstAppend : List AppendCall :=
  [.open firstSlot filePath (O_CREAT ||| O_RDWR ||| O_APPEND),
    .open firstSlot filePath (O_RDWR ||| O_APPEND),
    .write firstSlot 3 (oneByte 49) 1]

/-- The same, and then a write through the other descriptor -/
def twoAppends : List AppendCall :=
  firstAppend ++ [.write firstSlot 4 (oneByte 50) 1]

theorem twoAppends_areTexts : ∀ call ∈ twoAppends, call.IsText := by
  have noNul : 0 ∉ filePath := by
    decide
  unfold twoAppends firstAppend
  simp only [List.cons_append, List.nil_append, List.forall_mem_cons]
  exact ⟨noNul, noNul, trivial, trivial, List.forall_mem_nil _⟩

theorem marked_none : Marked (fun _ => false) kernel := by
  intro f isMarked
  cases isMarked

/-- Two appends at the start of the first process -/
theorem appends_iff_startsAtEnd_twoAppends :
    EachCall Appends twoAppends (fun _ => false) booted ↔
      EachCall StartsAtEnd twoAppends (fun _ => false) booted :=
  appends_iff_startsAtEnd twoAppends booted_sane marked_none
    twoAppends_areTexts

/-- Run calls one after the other. -/
def runAppends :
    List AppendCall → (FileSlot → Bool) → FileKernel →
      Option ((FileSlot → Bool) × FileKernel)
  | [], appends, kernel => some (appends, kernel)
  | call :: rest, appends, kernel =>
      match call.routine.run kernel with
      | .ok (later, result) =>
          runAppends rest (call.marks appends result later) later
      | .error _ => none

theorem EachCall.behind
    {law : AppendLaw}
    {calls rest : List AppendCall}
    {marks : FileSlot → Bool}
    (each : EachCall law (calls ++ rest) appends kernel)
    (reached : runAppends calls appends kernel = some (marks, later)) :
    EachCall law rest marks later := by
  induction calls generalizing kernel appends with
  | nil =>
      cases reached
      exact each
  | cons call calls inductionHypothesis =>
      unfold runAppends at reached
      split at reached
      next middle result finished =>
        have both := Outcome.Ends.ok each finished
        exact inductionHypothesis both.2 reached
      · cases reached

/-- Behind a run, a marked file's write does not end in what it had and wrote. -/
def overwritesAppend
    (calls : List AppendCall)
    (p : Slot)
    (fd : Int)
    (byte : UInt8)
    (appends : FileSlot → Bool)
    (kernel : FileKernel) : Bool :=
  match runAppends calls appends kernel with
  | some (appends, kernel) =>
      match (writeCall p fd (oneByte byte) 1).run kernel with
      | .ok (later, result) =>
          (kernel.argfd p fd).any fun found =>
            appends found.2 &&
              later.fileBytes found.2 !=
                kernel.fileBytes found.2 ++
                  tabulate result.toNat (userBytes (oneByte byte))
      | .error _ => false
  | none => false

theorem not_eachCall_of_overwrites
    {calls : List AppendCall}
    {fd : Int}
    {byte : UInt8}
    (overwrites : overwritesAppend calls p fd byte appends kernel = true) :
    ¬ EachCall Appends (calls ++ [.write p fd (oneByte byte) 1]) appends
        kernel := by
  intro each
  unfold overwritesAppend at overwrites
  split at overwrites
  next marks middle reached =>
    have last := each.behind reached
    split at overwrites
    next later result finished =>
      have appended := (Outcome.Ends.ok last finished).1
      rw [Option.any_eq_true] at overwrites
      obtain ⟨⟨slot, f⟩, found, checks⟩ := overwrites
      rw [Bool.and_eq_true, bne_iff_ne] at checks
      exact checks.2 (appended slot f found checks.1)
    · cases overwrites
  · cases overwrites

seal EachCall in
/-- Appends through two descriptors of a file overwrite each other. -/
theorem not_appends :
    ¬ ∀ (kernel : FileKernel) (vol : Volume) (appends : FileSlot → Bool)
        (calls : List AppendCall),
      kernel.Sane vol → Marked appends kernel →
        (∀ call ∈ calls, call.IsText) →
          EachCall Appends calls appends kernel := by
  intro law
  have overwrites :
      overwritesAppend firstAppend firstSlot 4 50 (fun _ => false) booted =
        true := by
    decide +kernel
  have each :=
    law booted _ (fun _ => false)
      (firstAppend ++ [.write firstSlot 4 (oneByte 50) 1]) booted_sane
      marked_none twoAppends_areTexts
  exact not_eachCall_of_overwrites overwrites each

end FileKernel

end MyOS
