import MyOS.PipeCreation

namespace MyOS

open Lib
open Routine

/-!
# A pipe that fails

What `sys_pipe` leaves behind where it fails.  As long as no file has been bound
to the pipe, it leaves everything as it was.  Afterwards it frees the page and
then closes the files, which lock the page and free it once more.
-/

namespace PipeSystem

variable {image : KernelImage}
variable {tolerated : PipeSystem → PipeStop → Prop}
variable {s : PipeSystem}

/-!
## The parts of a state
-/

@[simp]
theorem setLocked_file
    {pi locked : Nat} :
    (s.setLocked pi locked).file = s.file :=
  rfl

@[simp]
theorem setLocked_uses
    {pi locked : Nat} :
    (s.setLocked pi locked).uses = s.uses :=
  rfl

@[simp]
theorem setLocked_pipes
    {pi locked : Nat} :
    (s.setLocked pi locked).pipes = s.pipes :=
  rfl

@[simp]
theorem withUse_file
    {use : PageUse} :
    (s.withUse use).file = s.file :=
  rfl

@[simp]
theorem withUse_uses
    {use : PageUse} :
    (s.withUse use).uses = s.uses ++ [use] :=
  rfl

@[simp]
theorem withUse_pipes
    {use : PageUse} :
    (s.withUse use).pipes = s.pipes :=
  rfl

@[simp]
theorem locked_withUse
    {pi : Nat}
    {use : PageUse} :
    (s.withUse use).locked pi = s.locked pi :=
  rfl

theorem locked_setLocked
    {pi locked : Nat}
    (small : locked < uintModulus) :
    (s.setLocked pi locked).locked pi = locked := by
  simp only [PipeSystem.locked, setLocked, Function.update_self]
  rw [Nat.mul_comm, Nat.mul_add_mod, Nat.mod_eq_of_lt small]

/-!
## What the parts do
-/

theorem freeFile?_some
    {f : FileSlot}
    (found : s.freeFile? = some f) :
    (s.file f).ref = 0 := by
  simpa using List.find?_some found

theorem freeFile?_none
    (found : s.freeFile? = none)
    (f : FileSlot) :
    (s.file f).ref ≠ 0 := by
  simpa using List.find?_eq_none.mp found f (List.mem_finRange f)

theorem freeDescriptor?_some
    {p : Slot}
    {fd : Descriptor}
    (found : s.freeDescriptor? p = some fd) :
    s.ofile p fd = none := by
  simpa using List.find?_some found

theorem freeDescriptor?_none
    {p : Slot}
    (found : s.freeDescriptor? p = none)
    (fd : Descriptor) :
    s.ofile p fd ≠ none := by
  simpa using List.find?_eq_none.mp found fd (List.mem_finRange fd)

theorem filealloc_none
    (found : s.freeFile? = none) :
    (filealloc s).Ends tolerated
      (fun value later => later = s ∧ value = none) := by
  unfold filealloc
  apply ends_get
  rw [found]
  exact ⟨rfl, rfl⟩

theorem filealloc_some
    {f : FileSlot}
    (found : s.freeFile? = some f) :
    (filealloc s).Ends tolerated
      (fun value later =>
        later = s.setFile f { s.file f with ref := 1 } ∧ value = some f) := by
  unfold filealloc
  apply ends_get
  rw [found]
  exact ⟨rfl, rfl⟩

theorem fdalloc_none
    {p : Slot}
    {f : FileSlot}
    (found : s.freeDescriptor? p = none) :
    (fdalloc p f s).Ends tolerated
      (fun value later => later = s ∧ value = none) := by
  unfold fdalloc
  apply ends_get
  rw [found]
  exact ⟨rfl, rfl⟩

theorem fdalloc_some
    {p : Slot}
    {f : FileSlot}
    {fd : Descriptor}
    (found : s.freeDescriptor? p = some fd) :
    (fdalloc p f s).Ends tolerated
      (fun value later =>
        later = s.setOfile p fd (some f) ∧ value = some fd) := by
  unfold fdalloc
  apply ends_get
  rw [found]
  exact ⟨rfl, rfl⟩

/-- The state in which a page has been put on the free list. -/
def freed (pa : Nat) (s : PipeSystem) : PipeSystem :=
  ({ s with
    memory := {
      freeMemList := pa
      next := Function.update s.memory.next pa s.memory.freeMemList } }).withUse
    (.freed pa)

theorem kfreePage_ends
    {pa : Nat}
    (valid : image.validPage pa) :
    (kfreePage image pa s).Ends tolerated
      (fun value later => later = s.freed pa ∧ value = ()) := by
  have accepted :
      MyOS.kfree image s.memory pa =
        some {
          freeMemList := pa
          next := Function.update s.memory.next pa s.memory.freeMemList } :=
    if_pos valid
  unfold kfreePage
  apply ends_get
  rw [accepted]
  exact ⟨rfl, rfl⟩

theorem fileclose_unfilled
    {f : FileSlot}
    (one : (s.file f).ref = 1)
    (isNone : (s.file f).type = .none) :
    (fileclose image f s).Ends tolerated
      (fun _ later =>
        later = s.setFile f { s.file f with ref := 0, type := .none }) := by
  unfold fileclose
  apply ends_get
  dsimp only
  rw [if_neg (by rw [one]; decide)]
  apply ends_modify
  rw [if_pos (by rw [one]; decide)]
  unfold closeLast
  rw [isNone]
  apply ends_pure
  show setFile f _ (setFile f _ s) = setFile f _ s
  simp only [setFile, Function.update_self, Function.update_idem, one,
    Int.sub_self]

theorem fileclose_spins
    {post : Unit → PipeSystem → Prop}
    {f : FileSlot}
    (one : (s.file f).ref = 1)
    (isPipe : (s.file f).type = .pipe)
    (held : s.locked (s.file f).pipe ≠ 0) :
    (fileclose image f s).Ends (fun _ _ => True) post := by
  unfold fileclose
  apply ends_get
  dsimp only
  rw [if_neg (by rw [one]; decide)]
  apply ends_modify
  rw [if_pos (by rw [one]; decide)]
  unfold closeLast
  rw [isPipe]
  have stuck
      (t : PipeSystem)
      (same : t.locked (s.file f).pipe = s.locked (s.file f).pipe) :
      (pipeclose image (s.file f).pipe (s.file f).writable t).Ends
        (fun _ _ => True) (fun _ _ => False) := by
    have waits :
        (acquire (s.file f).pipe t).Ends (fun _ _ => True)
          (fun _ _ => False) := by
      unfold acquire
      apply ends_get
      rw [same, if_pos held]
      exact True.intro
    exact ends_bind waits (fun _ _ impossible => impossible.elim)
  exact ends_bind (stuck _ rfl) (fun _ _ impossible => impossible.elim)

theorem acquire_free
    {pi : Nat}
    (free : s.locked pi = 0) :
    (acquire pi s).Ends tolerated
      (fun value later =>
        later = (s.setLocked pi 1).withUse (.touched pi) ∧ value = ()) := by
  unfold acquire
  apply ends_get
  rw [if_neg (not_not_intro free)]
  exact ⟨rfl, rfl⟩

theorem pipeclose_touches
    {pi : Nat}
    {writable : Bool}
    (valid : image.validPage pi)
    (free : s.locked pi = 0) :
    (pipeclose image pi writable s).Ends tolerated
      (fun _ later =>
        (∃ rest, later.uses = s.uses ++ .touched pi :: rest) ∧
          later.file = s.file ∧
          later.ofile = s.ofile ∧
          ((closeEnd writable (s.pipes pi)).readopen ≠ 0 ∨
              (closeEnd writable (s.pipes pi)).writeopen ≠ 0 →
            later.locked pi = 0)) := by
  unfold pipeclose
  apply ends_step (acquire_free free)
  apply ends_modify
  apply ends_get
  apply ends_modify
  split
  · next bothClosed =>
    simp only [withUse_pipes, setLocked_pipes, Function.update_self]
      at bothClosed
    apply (kfreePage_ends valid).mono
    rintro _ _ ⟨rfl, _⟩
    refine ⟨⟨[.touched pi, .freed pi], ?_⟩, rfl, rfl, ?_⟩
    · simp [freed]
    · intro oneOpen
      omega
  · refine ⟨⟨[.touched pi], ?_⟩, rfl, rfl, fun _ => ?_⟩
    · simp
    · exact locked_setLocked (by decide)

/-- The file of an end of a pipe, with its only reference. -/
structure IsEnd (pi : Nat) (writable : Bool) (file : PipeFile) : Prop where
  type : file.type = .pipe
  ref : file.ref = 1
  writable : file.writable = writable
  pipe : file.pipe = pi

theorem fileclose_touches
    {pi : Nat}
    {writable : Bool}
    {f : FileSlot}
    (valid : image.validPage pi)
    (isEnd : IsEnd pi writable (s.file f))
    (free : s.locked pi = 0) :
    (fileclose image f s).Ends tolerated
      (fun _ later =>
        (∃ rest, later.uses = s.uses ++ .touched pi :: rest) ∧
          (∀ g, g ≠ f → later.file g = s.file g) ∧
          ((closeEnd writable (s.pipes pi)).readopen ≠ 0 ∨
              (closeEnd writable (s.pipes pi)).writeopen ≠ 0 →
            later.locked pi = 0)) := by
  unfold fileclose
  apply ends_get
  dsimp only
  rw [if_neg (by rw [isEnd.ref]; decide)]
  apply ends_modify
  rw [if_pos (by rw [isEnd.ref]; decide)]
  unfold closeLast
  rw [isEnd.type, isEnd.pipe, isEnd.writable]
  apply ends_bind
    (pipeclose_touches (s := s.setFile f _) valid free)
  rintro _ closed ⟨uses, file, _, stays⟩
  refine ⟨uses, ?_, stays⟩
  intro g other
  have unchanged :
      closed.file g = s.file g := by
    rw [file]
    exact Function.update_of_ne other _ _
  exact (Function.update_of_ne other _ _).trans unchanged

theorem giveBack_ends
    {post : Unit → PipeSystem → Prop}
    {p : Slot}
    {f : FileSlot}
    {fd : Option Descriptor}
    (closes :
      ∀ t : PipeSystem,
        t.file = s.file → t.uses = s.uses → t.pipes = s.pipes →
        t.memory = s.memory → (fileclose image f t).Ends tolerated post) :
    (giveBack image p (some f) fd s).Ends tolerated post := by
  unfold giveBack
  cases fd with
  | none =>
      exact closes s rfl rfl rfl rfl
  | some fd =>
      exact ends_modify (closes (s.setOfile p fd none) rfl rfl rfl rfl)

/-- The page of a pipe whose files are both closed after it has been freed. -/
structure BothEnds (pi : Nat) (rf wf : FileSlot) (s : PipeSystem) : Prop where
  different : wf ≠ rf
  reads : IsEnd pi false (s.file rf)
  writes : IsEnd pi true (s.file wf)
  pipes : s.pipes pi = ⟨1, 1⟩

theorem locked_freed
    {pi : Nat} :
    (s.freed pi).locked pi = s.memory.freeMemList % uintModulus := by
  simp only [freed, locked_withUse]
  simp only [PipeSystem.locked, Function.update_self]

theorem bad_spins
    {post : Int → PipeSystem → Prop}
    {pi : Nat}
    {p : Slot}
    {rf wf : FileSlot}
    {fd0 fd1 : Option Descriptor}
    (valid : image.validPage pi)
    (ends : BothEnds pi rf wf s)
    (another : s.memory.freeMemList % uintModulus ≠ 0) :
    (bad image p pi (some rf) (some wf) fd0 fd1 s).Ends (fun _ _ => True)
      post := by
  unfold bad
  apply ends_step (kfreePage_ends valid)
  have stuck :
      (giveBack image p (some rf) fd0 (s.freed pi)).Ends (fun _ _ => True)
        (fun _ _ => False) := by
    apply giveBack_ends
    intro t file _ _ memory
    have isEnd : IsEnd pi false (t.file rf) := by
      rw [file]
      exact ends.reads
    apply fileclose_spins isEnd.ref isEnd.type
    rw [isEnd.pipe]
    have sameLock : t.locked pi = (s.freed pi).locked pi := by
      unfold PipeSystem.locked
      rw [memory]
    rw [sameLock, locked_freed]
    exact another
  exact ends_bind stuck (fun _ _ impossible => impossible.elim)

theorem bad_touches
    {pi : Nat}
    {p : Slot}
    {rf wf : FileSlot}
    {fd0 fd1 : Option Descriptor}
    (valid : image.validPage pi)
    (ends : BothEnds pi rf wf s)
    (last : s.memory.freeMemList = 0) :
    (bad image p pi (some rf) (some wf) fd0 fd1 s).Ends tolerated
      (fun result later =>
        result = -1 ∧ ¬ UntouchedOnceFreed later.uses) := by
  unfold bad
  apply ends_step (kfreePage_ends valid)
  have first :
      (giveBack image p (some rf) fd0 (s.freed pi)).Ends tolerated
        (fun _ later =>
          (∃ rest, later.uses = (s.freed pi).uses ++ .touched pi :: rest) ∧
            IsEnd pi true (later.file wf) ∧
            later.locked pi = 0) := by
    apply giveBack_ends
    intro t file uses pipes memory
    have isEnd : IsEnd pi false (t.file rf) := by
      rw [file]
      exact ends.reads
    have free : t.locked pi = 0 := by
      have sameLock : t.locked pi = (s.freed pi).locked pi := by
        unfold PipeSystem.locked
        rw [memory]
      rw [sameLock, locked_freed, last]
      rfl
    apply (fileclose_touches valid isEnd free).mono
    rintro _ later ⟨touched, others, stays⟩
    refine ⟨uses ▸ touched, ?_, stays (Or.inr ?_)⟩
    · rw [others wf ends.different, file]
      exact ends.writes
    · rw [pipes]
      simp [freed, ends.pipes, closeEnd]
  apply ends_bind first
  rintro _ middle ⟨⟨rest, uses⟩, writes, free⟩
  have second :
      (giveBack image p (some wf) fd1 middle).Ends tolerated
        (fun _ later => ∃ more, later.uses = middle.uses ++ more) := by
    apply giveBack_ends
    intro t file sameUses _ memory
    have isEnd : IsEnd pi true (t.file wf) := by
      rw [file]
      exact writes
    have stillFree : t.locked pi = 0 := by
      unfold PipeSystem.locked at free ⊢
      rw [memory]
      exact free
    apply (fileclose_touches valid isEnd stillFree).mono
    rintro _ later ⟨⟨more, touched⟩, _⟩
    exact ⟨_, sameUses ▸ touched⟩
  apply ends_bind second
  rintro _ later ⟨more, laterUses⟩
  refine ⟨rfl, ?_⟩
  intro untouched
  refine untouched s.uses (.touched pi :: (rest ++ more)) pi ?_
    List.mem_cons_self
  rw [laterUses, uses]
  simp [freed]

/-!
## Failing before a file is bound
-/

/-- The state in which a page has been taken and made a pipe. -/
def begun (pi : Nat) (s : PipeSystem) : PipeSystem :=
  let s := { s with memory := (MyOS.kalloc s.memory).2 }
  ({ s.setLocked pi 0 with
    pipes := Function.update s.pipes pi ⟨1, 1⟩ }).withUse (.touched pi)

@[simp]
theorem begun_file
    {pi : Nat} :
    (s.begun pi).file = s.file :=
  rfl

theorem begun_pipes
    {pi : Nat} :
    (s.begun pi).pipes pi = ⟨1, 1⟩ :=
  Function.update_self pi _ _

theorem freed_begun_memory
    {pi : Nat}
    (isHead : s.memory.freeMemList = pi)
    (notNull : pi ≠ 0) :
    ((s.begun pi).freed pi).memory = s.memory := by
  obtain ⟨⟨head, next⟩, pipes, file, ofile, uses⟩ := s
  subst isHead
  simp [begun, freed, withUse, setLocked, MyOS.kalloc, notNull]

theorem AsBefore.of_clean
    {pages : List Nat}
    {pi : Nat}
    {later : PipeSystem}
    (sound : Sound image pages s)
    (isFree : pi ∈ pages)
    (ofile : later.ofile = s.ofile)
    (file : later.file = s.file)
    (pipes : ∀ page, page ≠ pi → later.pipes page = s.pipes page)
    (memory : later.memory = s.memory)
    (uses : later.uses = [.touched pi, .freed pi]) :
    AsBefore pages s later where
  ofile := ofile
  ref := fun f => by rw [file]
  file := fun f _ => by rw [file]
  pipes := fun page notFree => pipes page (by rintro rfl; exact notFree isFree)
  next := fun page _ => by rw [memory]
  free := ⟨pages, by rw [memory]; exact sound.freeList, List.Perm.refl _⟩
  untouched := by
    rw [uses]
    intro before after page split touched
    rcases before with _ | ⟨first, _ | ⟨second, more⟩⟩
    · simp at split
    · obtain ⟨_, _, isEmpty⟩ : _ ∧ pi = page ∧ after = [] := by
        simpa using split
      simp [isEmpty] at touched
    · simp at split
  freedOnce := by
    rw [uses]
    intro page touched
    simp at touched
    simp [touched]

theorem AsBefore.refl
    {pages : List Nat}
    (sound : Sound image pages s) :
    AsBefore pages s s where
  ofile := rfl
  ref := fun _ => rfl
  file := fun _ _ => rfl
  pipes := fun _ _ => rfl
  next := fun _ _ => rfl
  free := ⟨pages, sound.freeList, List.Perm.refl _⟩
  untouched := by
    rw [sound.uses]
    intro before after page split
    simp at split
  freedOnce := by
    rw [sound.uses]
    intro page touched
    cases touched

theorem twoFiles_of_found
    {f g : FileSlot}
    (first : s.freeFile? = some f)
    (second : (s.setFile f { s.file f with ref := 1 }).freeFile? = some g) :
    g ≠ f ∧ s.TwoFiles := by
  have isFree := freeFile?_some second
  have different : g ≠ f := by
    rintro rfl
    simp [setFile] at isFree
  refine ⟨different, f, g, different.symm, freeFile?_some first, ?_⟩
  simpa [setFile, different] using isFree

theorem not_twoFiles
    {f : FileSlot}
    (second : (s.setFile f { s.file f with ref := 1 }).freeFile? = none) :
    ¬ s.TwoFiles := by
  have inUse
      (g : FileSlot)
      (other : g ≠ f) :
      (s.file g).ref ≠ 0 := by
    simpa [setFile, other] using freeFile?_none second g
  rintro ⟨g, h, different, gFree, hFree⟩
  by_cases isFirst : g = f
  · exact inUse h (fun same => different (isFirst.trans same.symm)) hFree
  · exact inUse g isFirst gFree

theorem twoDescriptors_of_found
    {p : Slot}
    {f : FileSlot}
    {fd other : Descriptor}
    (first : s.freeDescriptor? p = some fd)
    (second : (s.setOfile p fd (some f)).freeDescriptor? p = some other) :
    s.TwoDescriptors p := by
  have isFree := freeDescriptor?_some second
  have different : other ≠ fd := by
    rintro rfl
    simp [setOfile] at isFree
  refine ⟨fd, other, different.symm, freeDescriptor?_some first, ?_⟩
  simpa [setOfile, different] using isFree

theorem not_twoDescriptors
    {p : Slot}
    {f : FileSlot}
    {fd : Descriptor}
    (second : (s.setOfile p fd (some f)).freeDescriptor? p = none) :
    ¬ s.TwoDescriptors p := by
  have inUse
      (g : Descriptor)
      (other : g ≠ fd) :
      s.ofile p g ≠ none := by
    simpa [setOfile, other] using freeDescriptor?_none second g
  rintro ⟨g, h, different, gFree, hFree⟩
  by_cases isFirst : g = fd
  · exact inUse h (fun same => different (isFirst.trans same.symm)) hFree
  · exact inUse g isFirst gFree

theorem pipeFiles_clean
    {pages : List Nat}
    {mapped : Nat → Bool}
    {p : Slot}
    {fdarray pi : Nat}
    (sound : Sound image pages s)
    (isFree : pi ∈ pages)
    (isHead : s.memory.freeMemList = pi)
    (few : ¬ s.TwoFiles) :
    (pipeFiles image mapped p fdarray pi (s.begun pi)).Ends tolerated
      (fun _ later => AsBefore pages s later) := by
  have valid := sound.valid pi isFree
  have memory := freed_begun_memory isHead valid.ne_zero
  have otherPipes
      (page : Nat)
      (other : page ≠ pi) :
      (s.begun pi).pipes page = s.pipes page := by
    simp [begun, other, setLocked]
  have begunUses : (s.begun pi).uses = [.touched pi] := by
    simp [begun, sound.uses, setLocked]
  unfold pipeFiles
  cases first : (s.begun pi).freeFile? with
  | none =>
      apply ends_step (filealloc_none first)
      dsimp only
      unfold bad
      apply ends_step (kfreePage_ends valid)
      apply ends_pure
      apply ends_pure
      have uses : ((s.begun pi).freed pi).uses = [.touched pi, .freed pi] := by
        simp [freed, begunUses]
      exact AsBefore.of_clean sound isFree rfl rfl otherPipes memory uses
  | some f =>
      have unused : (s.file f).ref = 0 := freeFile?_some first
      have isNone := sound.cleared f unused
      apply ends_step (filealloc_some first)
      cases second :
          ((s.begun pi).setFile f
            { (s.begun pi).file f with ref := 1 }).freeFile? with
      | some g =>
          exact (few (twoFiles_of_found first second).2).elim
      | none =>
          dsimp only
          apply ends_step (filealloc_none second)
          dsimp only
          unfold bad
          apply ends_step (kfreePage_ends valid)
          have gives :
              (giveBack image p (some f) none
                (((s.begun pi).setFile f
                  { (s.begun pi).file f with ref := 1 }).freed pi)).Ends
                tolerated _ :=
            fileclose_unfilled
              (by simp [freed, setFile])
              (by simpa [freed, setFile] using isNone)
          apply ends_bind gives
          rintro _ later isLater
          apply ends_pure
          have file : later.file = s.file := by
            rw [isLater]
            simp only [setFile, freed, withUse_file, Function.update_self,
              Function.update_idem, begun_file]
            rw [← unused, ← isNone]
            exact Function.update_eq_self f s.file
          have uses : later.uses = [.touched pi, .freed pi] := by
            rw [isLater]
            simp [freed, begunUses, setFile]
          subst isLater
          exact AsBefore.of_clean sound isFree rfl file otherPipes memory uses

/-!
## Failing once the files are bound
-/

theorem storeFds_ends
    {mapped : Nat → Bool}
    {va left : Nat}
    (walks : ¬ Unstorable mapped va left → ∀ t, tolerated t .walk) :
    (storeFds mapped left va s).Ends tolerated
      (fun stored later =>
        later = s ∧ (stored = false ↔ Unstorable mapped va left)) := by
  induction left generalizing va with
  | zero =>
      exact ⟨rfl, by simp [Unstorable]⟩
  | succ left inductionHypothesis =>
      unfold storeFds
      unfold Unstorable at walks ⊢
      split
      · next high =>
        exact walks (fun inside => Nat.not_le_of_lt inside.1 high) s
      · next low =>
        have inside := Nat.lt_of_not_le low
        split
        · next isMapped =>
          simp only [inside, isMapped, true_and, forall_const] at walks ⊢
          exact inductionHypothesis walks
        · next notMapped =>
          exact ⟨rfl, by simp [inside, notMapped]⟩

theorem bothEnds_fillPipe
    {pi : Nat}
    {rf wf : FileSlot}
    (different : wf ≠ rf)
    (reads : (s.file rf).ref = 1)
    (writes : (s.file wf).ref = 1)
    (pipes : s.pipes pi = ⟨1, 1⟩) :
    ((fillPipe rf pi false >>= fun _ => fillPipe wf pi true) s).Ends tolerated
      (fun _ later =>
        BothEnds pi rf wf later ∧ later.memory = s.memory ∧
          later.ofile = s.ofile) := by
  apply ends_modify
  refine ⟨?_, rfl, rfl⟩
  constructor
  · exact different
  · constructor <;> simp [setFile, different.symm, reads]
  · constructor <;> simp [setFile, different, writes]
  · exact pipes

theorem pipeDescriptors_ends
    {post : Int → PipeSystem → Prop}
    {mapped : Nat → Bool}
    {p : Slot}
    {fdarray pi : Nat}
    {rf wf : FileSlot}
    (different : wf ≠ rf)
    (reads : (s.file rf).ref = 1)
    (writes : (s.file wf).ref = 1)
    (pipes : s.pipes pi = ⟨1, 1⟩)
    (fails :
      ¬ s.TwoDescriptors p ∨ Unstorable mapped fdarray 8 →
      ∀ t fd0 fd1, BothEnds pi rf wf t → t.memory = s.memory →
        (bad image p pi (some rf) (some wf) fd0 fd1 t).Ends tolerated post)
    (succeeds :
      s.TwoDescriptors p → ¬ Unstorable mapped fdarray 8 → ∀ t, post 0 t)
    (walks :
      s.TwoDescriptors p → ¬ Unstorable mapped fdarray 8 →
        ∀ t, tolerated t .walk) :
    (pipeDescriptors image mapped p fdarray pi rf wf s).Ends tolerated
      post := by
  unfold pipeDescriptors
  rw [← bind_assoc]
  apply ends_bind (bothEnds_fillPipe different reads writes pipes)
  rintro _ filled ⟨ends, memory, ofile⟩
  have sameTwo : filled.TwoDescriptors p ↔ s.TwoDescriptors p := by
    unfold TwoDescriptors
    rw [ofile]
  rw [← sameTwo] at fails succeeds walks
  cases first : filled.freeDescriptor? p with
  | none =>
      apply ends_step (fdalloc_none first)
      apply fails (Or.inl ?_) filled none none ends memory
      rintro ⟨fd, _, _, isFree, _⟩
      exact freeDescriptor?_none first fd isFree
  | some fd0 =>
      apply ends_step (fdalloc_some first)
      dsimp only
      cases second :
          (filled.setOfile p fd0 (some rf)).freeDescriptor? p with
      | none =>
          apply ends_step (fdalloc_none second)
          exact fails (Or.inl (not_twoDescriptors second)) _ (some fd0) none
            ⟨ends.different, ends.reads, ends.writes, ends.pipes⟩ memory
      | some fd1 =>
          have two := twoDescriptors_of_found first second
          apply ends_step (fdalloc_some second)
          dsimp only
          apply ends_bind (storeFds_ends (walks two))
          rintro stored _ ⟨rfl, isStored⟩
          cases stored with
          | true =>
              exact succeeds two (fun fails => by simpa using isStored.mpr fails)
                _
          | false =>
              exact fails (Or.inr (isStored.mp rfl)) _ (some fd0) (some fd1)
                ⟨ends.different, ends.reads, ends.writes, ends.pipes⟩ memory

theorem pipeFiles_two
    {post : Int → PipeSystem → Prop}
    {mapped : Nat → Bool}
    {p : Slot}
    {fdarray pi : Nat}
    (two : s.TwoFiles)
    (rest :
      ∀ t rf wf, wf ≠ rf → (t.file rf).ref = 1 → (t.file wf).ref = 1 →
        t.pipes = s.pipes → t.memory = s.memory → t.ofile = s.ofile →
        (pipeDescriptors image mapped p fdarray pi rf wf t).Ends tolerated
          post) :
    (pipeFiles image mapped p fdarray pi s).Ends tolerated post := by
  unfold pipeFiles
  cases first : s.freeFile? with
  | none =>
      obtain ⟨f, _, _, unused, _⟩ := two
      exact (freeFile?_none first f unused).elim
  | some rf =>
      apply ends_step (filealloc_some first)
      dsimp only
      cases second : (s.setFile rf { s.file rf with ref := 1 }).freeFile? with
      | none =>
          exact (not_twoFiles second two).elim
      | some wf =>
          have different := (twoFiles_of_found first second).1
          apply ends_step (filealloc_some second)
          dsimp only
          refine rest _ rf wf different ?_ ?_ rfl rfl rfl
          · simp [setFile, different.symm]
          · simp [setFile]

/-!
## Calls
-/

theorem kallocPage_ends :
    (kallocPage s).Ends tolerated
      (fun value later =>
        later = { s with memory := (MyOS.kalloc s.memory).2 } ∧
          value = (MyOS.kalloc s.memory).1) :=
  ⟨rfl, rfl⟩

theorem sysPipe_noPage
    {mapped : Nat → Bool}
    {p : Slot}
    {fdarray : Nat}
    (sound : Sound image [] s) :
    (sysPipe image mapped p fdarray s).Ends tolerated
      (fun _ later => AsBefore [] s later) := by
  unfold sysPipe
  apply ends_step kallocPage_ends
  rw [sound.freeList.kalloc_nil, if_pos rfl]
  exact AsBefore.refl sound

theorem sysPipe_page
    {post : Int → PipeSystem → Prop}
    {mapped : Nat → Bool}
    {p : Slot}
    {fdarray pi : Nat}
    {rest : List Nat}
    (sound : Sound image (pi :: rest) s)
    (goesOn :
      (pipeFiles image mapped p fdarray pi (s.begun pi)).Ends tolerated
        post) :
    (sysPipe image mapped p fdarray s).Ends tolerated post := by
  have notNull := (sound.valid pi List.mem_cons_self).ne_zero
  unfold sysPipe
  apply ends_step kallocPage_ends
  rw [sound.freeList.kalloc.1, if_neg notNull]
  exact ends_modify goesOn

theorem begun_freeMemList
    {pi : Nat}
    {rest : List Nat}
    (freeList : s.memory.FreeList (pi :: rest)) :
    (s.begun pi).memory.freeMemList = rest.headD 0 := by
  have isHead
      {memory : PageMemory}
      (left : memory.FreeList rest) :
      memory.freeMemList = rest.headD 0 := by
    obtain ⟨head, next⟩ := memory
    cases left <;> rfl
  have left := isHead freeList.kalloc.2
  exact left

theorem held_of_valid
    {page : Nat}
    (valid : image.validPage page) :
    page % uintModulus ≠ 0 := by
  have above := Nat.le_trans image.linked valid.2.1
  have below := valid.2.2
  unfold KERNBASE at above
  unfold PHYSTOP KERNBASE at below
  unfold uintModulus
  omega

theorem sysPipe_last
    {mapped : Nat → Bool}
    {p : Slot}
    {fdarray pi : Nat}
    (sound : Sound image [pi] s)
    (two : s.TwoFiles)
    (fails : ¬ s.TwoDescriptors p ∨ Unstorable mapped fdarray 8) :
    (sysPipe image mapped p fdarray s).Ends tolerated
      (fun result later =>
        result = -1 ∧ ¬ UntouchedOnceFreed later.uses) := by
  have valid := sound.valid pi List.mem_cons_self
  have free := begun_freeMemList sound.freeList
  apply sysPipe_page sound
  apply pipeFiles_two (s := s.begun pi) two
  intro t rf wf different reads writes pipes memory ofile
  have sameTwo : t.TwoDescriptors p ↔ s.TwoDescriptors p := by
    unfold TwoDescriptors
    rw [ofile]
    rfl
  rw [← sameTwo] at fails
  apply pipeDescriptors_ends different reads writes (pipes ▸ begun_pipes)
  · intro _ filled fd0 fd1 bothEnds sameMemory
    apply bad_touches valid bothEnds
    rw [sameMemory, memory, free]
    rfl
  · intro twoFds stores
    exact (fails.elim (· twoFds) stores).elim
  · intro twoFds stores
    exact (fails.elim (· twoFds) stores).elim

theorem sysPipe_asBefore
    {mapped : Nat → Bool}
    {p : Slot}
    {fdarray : Nat}
    {pages : List Nat}
    (sound : Sound image pages s)
    (otherwise :
      ¬ (pages.length = 1 ∧ s.TwoFiles ∧
        (¬ s.TwoDescriptors p ∨ Unstorable mapped fdarray 8))) :
    (sysPipe image mapped p fdarray s).Ends (fun _ _ => True)
      (fun result later => result = -1 → AsBefore pages s later) := by
  cases pages with
  | nil =>
      exact (sysPipe_noPage sound).mono fun _ _ asBefore _ => asBefore
  | cons pi rest =>
      have valid := sound.valid pi List.mem_cons_self
      have free := begun_freeMemList sound.freeList
      apply sysPipe_page sound
      by_cases two : s.TwoFiles
      · apply pipeFiles_two (s := s.begun pi) two
        intro t rf wf different reads writes pipes memory ofile
        have sameTwo : t.TwoDescriptors p ↔ s.TwoDescriptors p := by
          unfold TwoDescriptors
          rw [ofile]
          rfl
        rw [← sameTwo] at otherwise
        apply pipeDescriptors_ends different reads writes
          (pipes ▸ begun_pipes)
        · intro fails filled fd0 fd1 bothEnds sameMemory
          apply bad_spins valid bothEnds
          rw [sameMemory, memory, free]
          cases rest with
          | nil =>
              exact (otherwise ⟨rfl, two, fails⟩).elim
          | cons another more =>
              apply held_of_valid
              exact sound.valid another
                (List.mem_cons_of_mem _ List.mem_cons_self)
        · intro _ _ _ impossible
          cases impossible
        · intro _ _ _
          exact True.intro
      · have isHead : s.memory.freeMemList = pi := by
          obtain ⟨⟨head, next⟩, _, _, _, _⟩ := s
          cases sound.freeList
          rfl
        exact (pipeFiles_clean sound List.mem_cons_self isHead two).mono
          fun _ _ asBefore _ => asBefore

theorem not_asBefore
    {mapped : Nat → Bool}
    {p : Slot}
    {fdarray : Nat}
    {pages : List Nat}
    (violates :
      (sysPipe image mapped p fdarray s).Ends (fun _ _ => False)
        (fun result later => result = -1 ∧ ¬ UntouchedOnceFreed later.uses)) :
    ¬ (sysPipe image mapped p fdarray s).Ends (fun _ _ => True)
      (fun result later => result = -1 → AsBefore pages s later) := by
  intro ends
  cases isRun : (sysPipe image mapped p fdarray s).finish with
  | ok ended =>
      have violated := violates.ok isRun
      exact violated.2 (ends.ok isRun violated.1).untouched
  | error stopped =>
      exact violates.error isRun

/--
A call that returns -1 has changed nothing, except where it takes the last free
page, finds two files and then fails.
-/
theorem sysPipe_asBefore_iff
    (image : KernelImage)
    (mapped : Nat → Bool)
    (p : Slot)
    (fdarray : Nat)
    (pages : List Nat)
    (s : PipeSystem)
    (sound : Sound image pages s) :
    (sysPipe image mapped p fdarray s).Ends (fun _ _ => True)
        (fun result later => result = -1 → AsBefore pages s later) ↔
      ¬ (pages.length = 1 ∧ s.TwoFiles ∧
        (¬ s.TwoDescriptors p ∨ Unstorable mapped fdarray 8)) := by
  constructor
  · rintro ends ⟨isLast, two, fails⟩
    obtain ⟨pi, rfl⟩ := List.length_eq_one_iff.mp isLast
    exact not_asBefore (sysPipe_last sound two fails) ends
  · exact sysPipe_asBefore sound

/-- The kernel of an empty image. -/
def emptyImage : KernelImage :=
  ⟨KERNBASE, Nat.le_refl _⟩

/-- One page is free, and all of the file table. -/
def lastPage : PipeSystem where
  memory := ⟨KERNBASE, fun _ => 0⟩
  pipes := fun _ => ⟨0, 0⟩
  file := fun _ => ⟨.none, 0, false, false, 0⟩
  ofile := fun _ _ => none
  uses := []

theorem lastPage_sound : Sound emptyImage [KERNBASE] lastPage where
  freeList := .cons (by decide) .nil
  valid := by
    intro page isPage
    rw [List.mem_singleton.mp isPage]
    decide
  cleared := fun _ _ => rfl
  uses := rfl

theorem lastPage_twoFiles : lastPage.TwoFiles :=
  ⟨⟨0, by decide⟩, ⟨1, by decide⟩, by decide, rfl, rfl⟩

/-- An array that is not mapped makes the last call fail. -/
theorem sysPipe_asBefore_iff_lastPage :
    ¬ (sysPipe emptyImage (fun _ => false) ⟨0, by decide⟩ 0 lastPage).Ends
        (fun _ _ => True)
        (fun result later =>
          result = -1 → AsBefore [KERNBASE] lastPage later) :=
  fun ends =>
    (sysPipe_asBefore_iff emptyImage (fun _ => false) ⟨0, by decide⟩ 0
      [KERNBASE] lastPage lastPage_sound).mp ends
      ⟨rfl, lastPage_twoFiles,
        Or.inr ⟨by decide, fun mapped => by cases mapped⟩⟩

/-- A failing call does not always leave everything as it was. -/
theorem sysPipe_not_asBefore :
    ¬ ∀ (image : KernelImage) (mapped : Nat → Bool) (p : Slot)
        (fdarray : Nat) (pages : List Nat) (s : PipeSystem),
      Sound image pages s →
      (sysPipe image mapped p fdarray s).Ends (fun _ _ => True)
        (fun result later => result = -1 → AsBefore pages s later) := by
  intro always
  refine not_asBefore ?_
    (always emptyImage (fun _ => false) ⟨0, by decide⟩ 0 [KERNBASE] lastPage
      lastPage_sound)
  exact sysPipe_last lastPage_sound lastPage_twoFiles
    (Or.inr ⟨by decide, fun mapped => by cases mapped⟩)

end PipeSystem

end MyOS
