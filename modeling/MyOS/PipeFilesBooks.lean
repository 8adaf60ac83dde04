import MyOS.FileDiscipline
import MyOS.PipeFiles

namespace MyOS

open Lib

/-!
# The books of descriptors and of pipe ends

Two invariants of the file table: the reference counts count the descriptors,
and every flag of a pipe says whether an open file refers to that end.  Each
change that a system call makes to the tables has one lemma for each of them.
-/

namespace PipeKernel

/-- The reference counts count the descriptors; the dead have none. -/
structure CountsFit
    (file : FileSlot → FileObject)
    (ofile : Slot → Descriptor → Option FileSlot)
    (alive : Slot → Bool) : Prop where
  counted :
    ∀ f, (file f).ref =
      referenceCount
        (fun entry : Slot × Descriptor => ofile entry.1 entry.2) f
  dead : ∀ {p}, alive p = false → ∀ fd, ofile p fd = none

/-- A file is open and refers to an end of a pipe. -/
def IsEnd
    (file : FileSlot → FileObject)
    (pipeOf : FileSlot → Option Nat)
    (f : FileSlot)
    (page : Nat)
    (writable : Bool) : Prop :=
  0 < (file f).ref ∧ (file f).type = .pipe ∧ pipeOf f = some page ∧
    (file f).writable = writable

/-- Whether an end of a pipe is open. -/
def endOpen (ends : PipeEnds) (writable : Bool) : Bool :=
  if writable then ends.writeopen else ends.readopen

/-- The flags of the pipes say which ends are referred to. -/
structure EndsFit
    (file : FileSlot → FileObject)
    (pipeOf : FileSlot → Option Nat)
    (pipes : Nat → Option PipeEnds) : Prop where
  empty : ∀ f, (file f).ref = 0 → (file f).type = .none
  single :
    ∀ {f g page writable},
      IsEnd file pipeOf f page writable →
        IsEnd file pipeOf g page writable → f = g
  flags :
    ∀ {page ends}, pipes page = some ends →
      ∀ writable,
        endOpen ends writable = true ↔
          ∃ f, IsEnd file pipeOf f page writable
  freed :
    ∀ page, pipes page = none ↔ ∀ f writable, ¬ IsEnd file pipeOf f page writable

/-!
## Descriptors
-/

section Counts

variable {file changed : FileSlot → FileObject}
variable {ofile : Slot → Descriptor → Option FileSlot} {alive : Slot → Bool}
variable {p : Slot} {fd : Descriptor} {f : FileSlot}

theorem entries_update (value : Option FileSlot) :
    (fun entry : Slot × Descriptor =>
        Function.update ofile p (Function.update (ofile p) fd value) entry.1
          entry.2) =
      Function.update
        (fun entry : Slot × Descriptor => ofile entry.1 entry.2) (p, fd)
        value := by
  funext ⟨q, d⟩
  by_cases process : q = p
  · subst process
    by_cases descriptor : d = fd
    · subst descriptor
      simp
    · simp [descriptor]
  · simp [process]

theorem CountsFit.ref_nonneg
    (fits : CountsFit file ofile alive)
    (f : FileSlot) :
    0 ≤ (file f).ref := by
  rw [fits.counted]
  exact Int.natCast_nonneg _

theorem CountsFit.ref_pos
    (fits : CountsFit file ofile alive)
    (refers : ofile p fd = some f) :
    0 < (file f).ref := by
  have nonneg := fits.ref_nonneg f
  have notZero : (file f).ref ≠ 0 := by
    intro isZero
    rw [fits.counted] at isZero
    have none := referenceCount_eq_zero.mp (Int.natCast_eq_zero.mp isZero)
    exact none (p, fd) refers
  omega

theorem CountsFit.of_refs
    (fits : CountsFit file ofile alive)
    (refs : ∀ g, (changed g).ref = (file g).ref) :
    CountsFit changed ofile alive where
  counted := by
    intro g
    rw [refs, fits.counted]
  dead := fits.dead

theorem CountsFit.attach
    (fits : CountsFit file ofile alive)
    (isAlive : alive p = true)
    (unused : ofile p fd = none)
    (taken : (changed f).ref = (file f).ref + 1)
    (others : ∀ g, g ≠ f → (changed g).ref = (file g).ref) :
    CountsFit changed
      (Function.update ofile p (Function.update (ofile p) fd (some f)))
      alive where
  counted := by
    intro g
    rw [entries_update]
    by_cases same : g = f
    · subst same
      have added :
          referenceCount
              (Function.update
                (fun entry : Slot × Descriptor => ofile entry.1 entry.2)
                (p, fd) (some g)) g =
            referenceCount
              (fun entry : Slot × Descriptor => ofile entry.1 entry.2) g + 1 :=
        referenceCount_add unused
      rw [taken, fits.counted, added]
      rfl
    · rw [others g same, fits.counted, referenceCount_update_of_ne]
      · intro isG
        rw [unused] at isG
        cases isG
      · intro isG
        exact same (Option.some.inj isG).symm
  dead := by
    intro q isDead d
    have different : q ≠ p := by
      intro same
      rw [same, isAlive] at isDead
      cases isDead
    rw [Function.update_of_ne different]
    exact fits.dead isDead d

theorem CountsFit.detach
    (fits : CountsFit file ofile alive)
    (refers : ofile p fd = some f)
    (dropped : (changed f).ref = (file f).ref - 1)
    (others : ∀ g, g ≠ f → (changed g).ref = (file g).ref) :
    CountsFit changed
      (Function.update ofile p (Function.update (ofile p) fd none))
      alive where
  counted := by
    intro g
    rw [entries_update]
    by_cases same : g = f
    · subst same
      have removed :
          referenceCount
              (fun entry : Slot × Descriptor => ofile entry.1 entry.2) g =
            referenceCount
              (Function.update
                (fun entry : Slot × Descriptor => ofile entry.1 entry.2)
                (p, fd) none) g + 1 :=
        referenceCount_remove refers
      rw [dropped, fits.counted, removed]
      omega
    · rw [others g same, fits.counted, referenceCount_update_of_ne]
      · intro isG
        rw [refers] at isG
        exact same (Option.some.inj isG).symm
      · intro isG
        cases isG
  dead := by
    intro q isDead d
    by_cases here : q = p
    · subst here
      have noEntry := fits.dead isDead
      by_cases descriptor : d = fd
      · subst descriptor
        rw [Function.update_self, Function.update_self]
      · rw [Function.update_self, Function.update_of_ne descriptor]
        exact noEntry d
    · rw [Function.update_of_ne here]
      exact fits.dead isDead d

theorem CountsFit.start
    (fits : CountsFit file ofile alive)
    (child : Slot) :
    CountsFit file ofile (Function.update alive child true) where
  counted := fits.counted
  dead := by
    intro q isDead d
    have different : q ≠ child := by
      intro same
      rw [same, Function.update_self] at isDead
      cases isDead
    rw [Function.update_of_ne different] at isDead
    exact fits.dead isDead d

theorem CountsFit.leave
    (fits : CountsFit file ofile alive)
    (closed : ∀ fd, ofile p fd = none) :
    CountsFit file ofile (Function.update alive p false) where
  counted := fits.counted
  dead := by
    intro q isDead d
    by_cases here : q = p
    · rw [here]
      exact closed d
    · rw [Function.update_of_ne here] at isDead
      exact fits.dead isDead d

end Counts

/-!
## Ends of pipes
-/

section Ends

variable {file changed : FileSlot → FileObject}
variable {pipeOf : FileSlot → Option Nat} {pipes : Nat → Option PipeEnds}
variable {f : FileSlot}

theorem isEnd_update
    {object : FileObject}
    (same :
      ∀ page writable,
        (0 < object.ref ∧ object.type = .pipe ∧ pipeOf f = some page ∧
          object.writable = writable) ↔
        IsEnd file pipeOf f page writable)
    (g : FileSlot)
    (page : Nat)
    (writable : Bool) :
    IsEnd (Function.update file f object) pipeOf g page writable ↔
      IsEnd file pipeOf g page writable := by
  by_cases here : g = f
  · subst here
    unfold IsEnd
    rw [Function.update_self]
    exact same page writable
  · unfold IsEnd
    rw [Function.update_of_ne here]

theorem EndsFit.of_ends
    (fits : EndsFit file pipeOf pipes)
    (empty : ∀ g, (changed g).ref = 0 → (changed g).type = .none)
    (same :
      ∀ g page writable,
        IsEnd changed pipeOf g page writable ↔
          IsEnd file pipeOf g page writable) :
    EndsFit changed pipeOf pipes where
  empty := empty
  single := by
    intro g h page writable first second
    exact fits.single ((same g page writable).mp first)
      ((same h page writable).mp second)
  flags := by
    intro page ends isPipe writable
    simp only [same]
    exact fits.flags isPipe writable
  freed := by
    intro page
    simp only [same]
    exact fits.freed page

theorem EndsFit.update
    {object : FileObject}
    (fits : EndsFit file pipeOf pipes)
    (empty : object.ref = 0 → object.type = .none)
    (same :
      ∀ page writable,
        (0 < object.ref ∧ object.type = .pipe ∧ pipeOf f = some page ∧
          object.writable = writable) ↔
        IsEnd file pipeOf f page writable) :
    EndsFit (Function.update file f object) pipeOf pipes := by
  apply fits.of_ends
  · intro g isZero
    by_cases here : g = f
    · subst here
      rw [Function.update_self] at isZero ⊢
      exact empty isZero
    · rw [Function.update_of_ne here] at isZero ⊢
      exact fits.empty g isZero
  · exact isEnd_update same

theorem EndsFit.recount
    {ref : Int}
    (fits : EndsFit file pipeOf pipes)
    (before : 0 < (file f).ref)
    (after : 0 < ref) :
    EndsFit (Function.update file f { file f with ref := ref }) pipeOf
      pipes := by
  apply fits.update
  · intro isZero
    have isZero : ref = 0 := isZero
    omega
  · intro page writable
    unfold IsEnd
    constructor
    · rintro ⟨_, rest⟩
      exact ⟨before, rest⟩
    · rintro ⟨_, rest⟩
      exact ⟨after, rest⟩

theorem EndsFit.replace
    {object : FileObject}
    (fits : EndsFit file pipeOf pipes)
    (before : (file f).type ≠ .pipe)
    (after : object.type ≠ .pipe)
    (empty : object.ref = 0 → object.type = .none) :
    EndsFit (Function.update file f object) pipeOf pipes := by
  apply fits.update empty
  intro page writable
  constructor
  · rintro ⟨_, isPipe, _⟩
    exact absurd isPipe after
  · rintro ⟨_, isPipe, _⟩
    exact absurd isPipe before

theorem EndsFit.not_pipe
    (fits : EndsFit file pipeOf pipes)
    (unused : (file f).ref = 0) :
    (file f).type ≠ .pipe := by
  rw [fits.empty f unused]
  decide

/-- The pipes after an end of one of them has been closed. -/
def closeEnd
    (pipes : Nat → Option PipeEnds)
    (pi : Nat)
    (writable : Bool) : Nat → Option PipeEnds :=
  Function.update pipes pi
    ((pipes pi).bind fun ends =>
      let ends :=
        if writable then
          { ends with writeopen := false }
        else
          { ends with readopen := false }
      if ends.readopen = false ∧ ends.writeopen = false then
        none
      else
        some ends)

theorem closeEnd_self
    {ends : PipeEnds}
    {page : Nat}
    (writable : Bool)
    (isPipe : pipes page = some ends) :
    (closeEnd pipes page writable page = none ↔
        endOpen ends (!writable) = false) ∧
      ∀ {after}, closeEnd pipes page writable page = some after →
        endOpen after writable = false ∧
          endOpen after (!writable) = endOpen ends (!writable) := by
  unfold closeEnd
  rw [Function.update_self, isPipe]
  obtain ⟨readopen, writeopen⟩ := ends
  cases writable
  all_goals
    cases readopen
    all_goals
      cases writeopen
      all_goals simp [endOpen]

theorem EndsFit.close
    {page : Nat}
    {writable : Bool}
    {object : FileObject}
    (fits : EndsFit file pipeOf pipes)
    (isEnd : IsEnd file pipeOf f page writable)
    (closed : object.type = .none) :
    EndsFit (Function.update file f object) pipeOf
      (closeEnd pipes page writable) := by
  have gone :
      ∀ g other end',
        IsEnd (Function.update file f object) pipeOf g other end' ↔
          IsEnd file pipeOf g other end' ∧ g ≠ f := by
    intro g other end'
    by_cases here : g = f
    · subst here
      unfold IsEnd
      rw [Function.update_self, closed]
      simp
    · unfold IsEnd
      rw [Function.update_of_ne here]
      simp [here]
  have stays :
      ∀ other end',
        (other ≠ page ∨ end' ≠ writable) →
          ((∃ g, IsEnd (Function.update file f object) pipeOf g other end') ↔
            ∃ g, IsEnd file pipeOf g other end') := by
    intro other end' apart
    constructor
    · rintro ⟨g, isOther⟩
      exact ⟨g, ((gone g other end').mp isOther).1⟩
    · rintro ⟨g, isOther⟩
      refine ⟨g, (gone g other end').mpr ⟨isOther, ?_⟩⟩
      intro here
      subst here
      obtain ⟨_, _, isPage, isWritable⟩ := isEnd
      obtain ⟨_, _, isPage', isWritable'⟩ := isOther
      rw [isPage] at isPage'
      rw [isWritable] at isWritable'
      rcases apart with notPage | notWritable
      · exact notPage (Option.some.inj isPage').symm
      · exact notWritable isWritable'.symm
  have leaves :
      ¬ ∃ g, IsEnd (Function.update file f object) pipeOf g page writable := by
    rintro ⟨g, isOther⟩
    obtain ⟨before, different⟩ := (gone g page writable).mp isOther
    exact different (fits.single before isEnd)
  obtain ⟨ends, isPipe⟩ : ∃ ends, pipes page = some ends := by
    cases isPipe : pipes page with
    | none =>
        exact absurd isEnd ((fits.freed page).mp isPipe f writable)
    | some ends =>
        exact ⟨ends, rfl⟩
  obtain ⟨isFreed, remains⟩ := closeEnd_self writable isPipe
  have otherEnd : (!writable) ≠ writable := by
    cases writable
    all_goals decide
  refine {
    empty := ?_
    single := ?_
    flags := ?_
    freed := ?_
  }
  · intro g isZero
    by_cases here : g = f
    · subst here
      rw [Function.update_self]
      exact closed
    · rw [Function.update_of_ne here] at isZero ⊢
      exact fits.empty g isZero
  · intro g h other end' first second
    exact fits.single ((gone g other end').mp first).1
      ((gone h other end').mp second).1
  · intro other after isAfter end'
    by_cases here : other = page
    · subst here
      obtain ⟨isClosed, same⟩ := remains isAfter
      by_cases thisEnd : end' = writable
      · subst thisEnd
        rw [isClosed]
        constructor
        · intro isOpen
          cases isOpen
        · intro refers
          exact absurd refers leaves
      · have isOther : end' = !writable := by
          cases end'
          all_goals
            cases writable
            all_goals simp at thisEnd ⊢
        rw [stays other end' (Or.inr thisEnd), isOther, same]
        exact fits.flags isPipe (!writable)
    · rw [stays other end' (Or.inl here)]
      unfold closeEnd at isAfter
      rw [Function.update_of_ne here] at isAfter
      exact fits.flags isAfter end'
  · intro other
    by_cases here : other = page
    · subst here
      rw [isFreed, ← Bool.not_eq_true, fits.flags isPipe (!writable),
        ← stays other (!writable) (Or.inr otherEnd)]
      constructor
      · intro noOther g end' isOther
        by_cases thisEnd : end' = writable
        · subst thisEnd
          exact leaves ⟨g, isOther⟩
        · have isNot : end' = !writable := by
            cases end'
            all_goals
              cases writable
              all_goals simp at thisEnd ⊢
          rw [isNot] at isOther
          exact noOther ⟨g, isOther⟩
      · rintro noEnd ⟨g, isOther⟩
        exact noEnd g (!writable) isOther
    · unfold closeEnd
      rw [Function.update_of_ne here, fits.freed other]
      constructor
      · intro noEnd g end' isOther
        exact noEnd g end' ((gone g other end').mp isOther).1
      · intro noEnd g end' isOther
        obtain ⟨h, stillOther⟩ :=
          (stays other end' (Or.inl here)).mpr ⟨g, isOther⟩
        exact noEnd h end' stillOther

theorem EndsFit.create
    {page : Nat}
    {rf wf : FileSlot}
    {reader writer : FileObject}
    (fits : EndsFit file pipeOf pipes)
    (unusedReader : (file rf).ref = 0)
    (unusedWriter : (file wf).ref = 0)
    (different : wf ≠ rf)
    (isFree : pipes page = none)
    (isReader :
      0 < reader.ref ∧ reader.type = .pipe ∧ reader.writable = false)
    (isWriter :
      0 < writer.ref ∧ writer.type = .pipe ∧ writer.writable = true) :
    EndsFit
      (Function.update (Function.update file rf reader) wf writer)
      (Function.update (Function.update pipeOf rf (some page)) wf (some page))
      (Function.update pipes page
        (some { readopen := true, writeopen := true })) := by
  have noEnd := (fits.freed page).mp isFree
  have ends :
      ∀ g other end',
        IsEnd (Function.update (Function.update file rf reader) wf writer)
            (Function.update (Function.update pipeOf rf (some page)) wf
              (some page)) g other end' ↔
          (g = rf ∧ other = page ∧ end' = false) ∨
            (g = wf ∧ other = page ∧ end' = true) ∨
            (other ≠ page ∧ IsEnd file pipeOf g other end') := by
    intro g other end'
    by_cases isWf : g = wf
    · subst isWf
      have before : ¬ IsEnd file pipeOf g other end' := by
        rintro ⟨positive, _⟩
        rw [unusedWriter] at positive
        exact absurd positive (Int.lt_irrefl 0)
      unfold IsEnd
      rw [Function.update_self, Function.update_self]
      simp only [isWriter.1, isWriter.2.1, isWriter.2.2, true_and, different,
        false_and, false_or, Option.some.injEq]
      constructor
      · rintro ⟨isPage, isEnd'⟩
        exact Or.inl ⟨isPage.symm, isEnd'.symm⟩
      · rintro (⟨isPage, isEnd'⟩ | ⟨_, isOther⟩)
        · exact ⟨isPage.symm, isEnd'.symm⟩
        · exact absurd isOther before
    · by_cases isRf : g = rf
      · subst isRf
        have before : ¬ IsEnd file pipeOf g other end' := by
          rintro ⟨positive, _⟩
          rw [unusedReader] at positive
          exact absurd positive (Int.lt_irrefl 0)
        unfold IsEnd
        rw [Function.update_of_ne isWf, Function.update_of_ne isWf,
          Function.update_self, Function.update_self]
        simp only [isReader.1, isReader.2.1, isReader.2.2, true_and, isWf,
          false_and, false_or, Option.some.injEq]
        constructor
        · rintro ⟨isPage, isEnd'⟩
          exact Or.inl ⟨isPage.symm, isEnd'.symm⟩
        · rintro (⟨isPage, isEnd'⟩ | ⟨_, isOther⟩)
          · exact ⟨isPage.symm, isEnd'.symm⟩
          · exact absurd isOther before
      · unfold IsEnd
        rw [Function.update_of_ne isWf, Function.update_of_ne isWf,
          Function.update_of_ne isRf, Function.update_of_ne isRf]
        simp only [isRf, isWf, false_and, false_or]
        constructor
        · intro isOther
          refine ⟨?_, isOther⟩
          intro isPage
          subst isPage
          exact noEnd g end' isOther
        · rintro ⟨_, isOther⟩
          exact isOther
  refine {
    empty := ?_
    single := ?_
    flags := ?_
    freed := ?_
  }
  · intro g isZero
    by_cases isWf : g = wf
    · subst isWf
      rw [Function.update_self] at isZero
      have positive := isWriter.1
      omega
    · rw [Function.update_of_ne isWf] at isZero ⊢
      by_cases isRf : g = rf
      · subst isRf
        rw [Function.update_self] at isZero
        have positive := isReader.1
        omega
      · rw [Function.update_of_ne isRf] at isZero ⊢
        exact fits.empty g isZero
  · intro g h other end' first second
    rcases (ends g other end').mp first with
      ⟨isG, isPage, isFalse⟩ | ⟨isG, isPage, isTrue⟩ | ⟨notPage, firstEnd⟩
    · rcases (ends h other end').mp second with
        ⟨isH, _, _⟩ | ⟨_, _, isTrue⟩ | ⟨notPage, _⟩
      · rw [isG, isH]
      · rw [isFalse] at isTrue
        cases isTrue
      · exact absurd isPage notPage
    · rcases (ends h other end').mp second with
        ⟨_, _, isFalse⟩ | ⟨isH, _, _⟩ | ⟨notPage, _⟩
      · rw [isTrue] at isFalse
        cases isFalse
      · rw [isG, isH]
      · exact absurd isPage notPage
    · rcases (ends h other end').mp second with
        ⟨_, isPage, _⟩ | ⟨_, isPage, _⟩ | ⟨_, secondEnd⟩
      · exact absurd isPage notPage
      · exact absurd isPage notPage
      · exact fits.single firstEnd secondEnd
  · intro other found isFound end'
    by_cases isPage : other = page
    · subst isPage
      rw [Function.update_self] at isFound
      cases isFound
      cases end' with
      | false =>
          exact ⟨fun _ => ⟨rf, (ends _ _ _).mpr (Or.inl ⟨rfl, rfl, rfl⟩)⟩,
            fun _ => rfl⟩
      | true =>
          exact ⟨fun _ =>
              ⟨wf, (ends _ _ _).mpr (Or.inr (Or.inl ⟨rfl, rfl, rfl⟩))⟩,
            fun _ => rfl⟩
    · rw [Function.update_of_ne isPage] at isFound
      rw [fits.flags isFound end']
      constructor
      · rintro ⟨g, isOther⟩
        exact ⟨g, (ends _ _ _).mpr (Or.inr (Or.inr ⟨isPage, isOther⟩))⟩
      · rintro ⟨g, isOther⟩
        rcases (ends _ _ _).mp isOther with
          ⟨_, same, _⟩ | ⟨_, same, _⟩ | ⟨_, before⟩
        · exact absurd same isPage
        · exact absurd same isPage
        · exact ⟨g, before⟩
  · intro other
    by_cases isPage : other = page
    · subst isPage
      rw [Function.update_self]
      constructor
      · intro isNone
        cases isNone
      · intro noOther
        exact absurd ((ends _ _ _).mpr (Or.inl ⟨rfl, rfl, rfl⟩))
          (noOther rf false)
    · rw [Function.update_of_ne isPage, fits.freed other]
      constructor
      · intro noOther g end' isOther
        rcases (ends _ _ _).mp isOther with
          ⟨_, same, _⟩ | ⟨_, same, _⟩ | ⟨_, before⟩
        · exact isPage same
        · exact isPage same
        · exact noOther g end' before
      · intro noOther g end' isOther
        exact noOther g end'
          ((ends _ _ _).mpr (Or.inr (Or.inr ⟨isPage, isOther⟩)))

end Ends

end PipeKernel

end MyOS
