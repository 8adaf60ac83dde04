import Mathlib.Data.Fintype.Prod
import MyOS.FileCalls
import MyOS.Lib.References

namespace MyOS

open Lib

/-!
# The invariant of the file table

Every slot that `sys_open` has bound shows what it was bound to, reference
counts count the descriptors that are not being closed for good, and every
inode reference of an open is in the hands of one call or one slot.
-/

/-- A table slot is what it was bound to. -/
structure FileObject.Shows (file : FileObject) (opening : Opening) : Prop where
  type : file.type = .inode
  ip : file.ip = some opening.ip
  off : file.off = opening.off
  readable : file.readable = opening.readable
  writable : file.writable = opening.writable

namespace FileKernel

/-- A descriptor's file, unless the descriptor is being closed for good. -/
def liveEntry
    (ofile : Slot → Descriptor → Option FileSlot)
    (closing : Slot → Option FileSlot)
    (entry : Slot × Descriptor) :
    Option FileSlot :=
  if closing entry.1 = ofile entry.1 entry.2 then
    none
  else
    ofile entry.1 entry.2

/-- The calls and the table slots that hold an inode reference of an open. -/
def holder
    (opening : Slot → Option Nat)
    (opened : FileSlot → Option Opening) :
    Slot ⊕ FileSlot → Option Nat :=
  Sum.elim opening fun f => (opened f).map Opening.reference

/-- The invariant of the file table between the segments of its callers. -/
structure FilesFit
    (file : FileSlot → FileObject)
    (ofile : Slot → Descriptor → Option FileSlot)
    (alive : Slot → Bool)
    (closing : Slot → Option FileSlot)
    (opening : Slot → Option Nat)
    (opened : FileSlot → Option Opening)
    (carries : FileSlot → Option Nat)
    (opens : Nat)
    (drops : Nat → Nat) : Prop where
  shows :
    ∀ {f bound}, opened f = some bound →
      (file f).Shows bound ∧ carries f = some bound.reference
  counted :
    ∀ f, (file f).ref = referenceCount (liveEntry ofile closing) f
  closed : ∀ {p f}, closing p = some f → (file f).ref = 0
  unbound : ∀ {f}, (file f).ref = 0 → opened f = none
  bound :
    ∀ {f}, (file f).ref ≠ 0 → opened f = none → (file f).type = .console
  dead :
    ∀ {p}, alive p = false →
      (∀ fd, ofile p fd = none) ∧ closing p = none ∧ opening p = none
  custody : Custody (holder opening opened) opens drops

/-- The invariant of the file table. -/
def Fits (kernel : FileKernel) : Prop :=
  FilesFit kernel.file kernel.ofile kernel.alive kernel.closing
    kernel.opening kernel.opened kernel.carries kernel.opens kernel.drops

/-!
## What the steps do to the invariant
-/

section Tables

variable {ofile : Slot → Descriptor → Option FileSlot}
variable {closing : Slot → Option FileSlot}
variable {p : Slot} {fd : Descriptor} {f : FileSlot}

theorem liveEntry_setOfile
    (idle : closing p = none)
    (value : Option FileSlot) :
    liveEntry (Function.update ofile p (Function.update (ofile p) fd value))
        closing =
      Function.update (liveEntry ofile closing) (p, fd) value := by
  funext ⟨q, d⟩
  by_cases process : q = p
  · subst process
    by_cases descriptor : d = fd
    · subst descriptor
      cases value with
      | none => simp [liveEntry]
      | some g => simp [liveEntry, idle]
    · simp [liveEntry, idle, descriptor]
  · simp [liveEntry, process]

theorem liveEntry_of_idle
    (idle : closing p = none) :
    liveEntry ofile closing (p, fd) = ofile p fd := by
  simp only [liveEntry, idle]
  split
  · next none => rw [← none]
  · rfl

theorem liveEntry_beginClose
    {kept : Option FileSlot}
    (idle : closing p = none)
    (isKept : kept = none ∨ kept = some f)
    (only : ∀ d, d ≠ fd → ofile p d ≠ some f) :
    liveEntry (Function.update ofile p (Function.update (ofile p) fd kept))
        (Function.update closing p (some f)) =
      Function.update (liveEntry ofile closing) (p, fd) none := by
  funext ⟨q, d⟩
  by_cases process : q = p
  · subst process
    by_cases descriptor : d = fd
    · subst descriptor
      rcases isKept with none | same
      · simp [liveEntry, none]
      · simp [liveEntry, same]
    · have other := (only d descriptor).symm
      simp only [liveEntry, Function.update_self, other, if_false, idle,
        Function.update_of_ne descriptor, Function.update_of_ne
          (fun same => descriptor (Prod.mk.inj same).2)]
      split
      · next none => rw [← none]
      · rfl
  · simp [liveEntry, process]

theorem liveEntry_finishClose
    (busy : closing p = some f)
    (last : ∀ d, d ≠ fd → ofile p d ≠ some f)
    (isKept : ofile p fd = none ∨ ofile p fd = some f) :
    liveEntry (Function.update ofile p (Function.update (ofile p) fd none))
        (Function.update closing p none) =
      liveEntry ofile closing := by
  funext ⟨q, d⟩
  by_cases process : q = p
  · subst process
    by_cases descriptor : d = fd
    · subst descriptor
      rcases isKept with none | same
      · simp [liveEntry, none]
      · simp [liveEntry, same, busy]
    · have other := (last d descriptor).symm
      simp only [liveEntry, Function.update_self, busy, other, if_false,
        Function.update_of_ne descriptor]
      split
      · next none => rw [← none]
      · rfl
  · simp [liveEntry, process]

end Tables

section Holders

variable {opening : Slot → Option Nat} {opened : FileSlot → Option Opening}
variable {p : Slot} {f : FileSlot}

theorem holder_setOpening (reference : Option Nat) :
    holder (Function.update opening p reference) opened =
      Function.update (holder opening opened) (.inl p) reference := by
  simp only [holder, Sum.update_elim_inl]

theorem holder_setOpened (bound : Option Opening) :
    holder opening (Function.update opened f bound) =
      Function.update (holder opening opened) (.inr f)
        (bound.map Opening.reference) := by
  funext place
  cases place with
  | inl q => simp [holder]
  | inr g =>
      by_cases same : g = f
      · simp [holder, same]
      · simp [holder, same]

end Holders

section Invariant

variable {file : FileSlot → FileObject}
variable {ofile : Slot → Descriptor → Option FileSlot}
variable {alive : Slot → Bool}
variable {closing : Slot → Option FileSlot}
variable {opening : Slot → Option Nat}
variable {opened : FileSlot → Option Opening}
variable {carries : FileSlot → Option Nat}
variable {opens : Nat}
variable {drops : Nat → Nat}
variable {p : Slot} {fd : Descriptor} {f : FileSlot}

namespace FilesFit

theorem ref_ne_zero
    (fits :
      FilesFit file ofile alive closing opening opened carries opens drops)
    (refers : ofile p fd = some f)
    (idle : closing p = none) :
    (file f).ref ≠ 0 := by
  intro zero
  have none := fits.counted f
  rw [zero] at none
  have count : referenceCount (liveEntry ofile closing) f = 0 := by
    exact_mod_cast none.symm
  apply referenceCount_eq_zero.mp count (p, fd)
  rw [liveEntry_of_idle idle, refers]

theorem seek
    (fits :
      FilesFit file ofile alive closing opening opened carries opens drops)
    (f : FileSlot)
    (move : Nat → Nat) :
    FilesFit
      (Function.update file f { file f with off := move (file f).off })
      ofile alive closing opening
      (Function.update opened f
        ((opened f).map fun bound => { bound with off := move bound.off }))
      carries opens drops := by
  have ref :
      ∀ g,
        (Function.update file f
          { file f with off := move (file f).off } g).ref = (file g).ref := by
    intro g
    by_cases same : g = f
    · rw [same, Function.update_self]
    · rw [Function.update_of_ne same]
  refine {
    shows := ?_
    counted := ?_
    closed := ?_
    unbound := ?_
    bound := ?_
    dead := fits.dead
    custody := ?_
  }
  · intro g bound isBound
    by_cases same : g = f
    · subst same
      rw [Function.update_self, Option.map_eq_some_iff] at isBound
      obtain ⟨before, wasBound, moved⟩ := isBound
      obtain ⟨shows, carried⟩ := fits.shows wasBound
      subst moved
      rw [Function.update_self]
      exact ⟨{
        type := shows.type
        ip := shows.ip
        off := congrArg move shows.off
        readable := shows.readable
        writable := shows.writable
      }, carried⟩
    · rw [Function.update_of_ne same] at isBound ⊢
      exact fits.shows isBound
  · intro g
    rw [ref]
    exact fits.counted g
  · intro q g busy
    rw [ref]
    exact fits.closed busy
  · intro g zero
    rw [ref] at zero
    by_cases same : g = f
    · rw [same, Function.update_self, ← same, fits.unbound zero,
        Option.map_none]
    · rw [Function.update_of_ne same]
      exact fits.unbound zero
  · intro g used notBound
    rw [ref] at used
    by_cases same : g = f
    · subst same
      rw [Function.update_self, Option.map_eq_none_iff] at notBound
      rw [Function.update_self]
      exact fits.bound used notBound
    · rw [Function.update_of_ne same] at notBound ⊢
      exact fits.bound used notBound
  · rw [holder_setOpened, Option.map_map]
    have kept :
        Function.update (holder opening opened) (.inr f)
            ((opened f).map Opening.reference) =
          holder opening opened :=
      Function.update_eq_self _ _
    have custody := fits.custody
    rw [← kept] at custody
    exact custody

theorem share
    (fits :
      FilesFit file ofile alive closing opening opened carries opens drops)
    (isAlive : alive p = true)
    (idle : closing p = none)
    (unused : ofile p fd = none)
    (used : (file f).ref ≠ 0) :
    FilesFit
      (Function.update file f { file f with ref := (file f).ref + 1 })
      (Function.update ofile p (Function.update (ofile p) fd (some f)))
      alive closing opening opened carries opens drops := by
  have notBusy : ∀ q, closing q ≠ some f :=
    fun q busy => used (fits.closed busy)
  have entry : liveEntry ofile closing (p, fd) = none := by
    rw [liveEntry_of_idle idle, unused]
  have positive : 0 ≤ (file f).ref := by
    rw [fits.counted f]
    exact Int.natCast_nonneg _
  refine {
    shows := ?_
    counted := ?_
    closed := ?_
    unbound := ?_
    bound := ?_
    dead := ?_
    custody := fits.custody
  }
  · intro g bound isBound
    by_cases same : g = f
    · subst same
      obtain ⟨shows, carried⟩ := fits.shows isBound
      rw [Function.update_self]
      exact ⟨⟨shows.type, shows.ip, shows.off, shows.readable,
        shows.writable⟩, carried⟩
    · rw [Function.update_of_ne same]
      exact fits.shows isBound
  · intro g
    rw [liveEntry_setOfile idle]
    by_cases same : g = f
    · subst same
      rw [Function.update_self, referenceCount_add entry, fits.counted g]
      push_cast
      rfl
    · rw [Function.update_of_ne same, referenceCount_update_of_ne]
      · exact fits.counted g
      · rw [entry]
        exact (Option.some_ne_none g).symm
      · intro wrong
        exact same (Option.some.inj wrong).symm
  · intro q g busy
    by_cases same : g = f
    · rw [same] at busy
      exact absurd busy (notBusy q)
    · rw [Function.update_of_ne same]
      exact fits.closed busy
  · intro g zero
    by_cases same : g = f
    · rw [same, Function.update_self] at zero
      change (file f).ref + 1 = 0 at zero
      omega
    · rw [Function.update_of_ne same] at zero
      exact fits.unbound zero
  · intro g inUse notBound
    by_cases same : g = f
    · subst same
      rw [Function.update_self]
      exact fits.bound used notBound
    · rw [Function.update_of_ne same] at inUse ⊢
      exact fits.bound inUse notBound
  · intro q isDead
    have other : q ≠ p := by
      intro same
      rw [same, isAlive] at isDead
      cases isDead
    rw [Function.update_of_ne other]
    exact fits.dead isDead

theorem takeReference
    (fits :
      FilesFit file ofile alive closing opening opened carries opens drops)
    (isAlive : alive p = true)
    (free : opening p = none) :
    FilesFit file ofile alive closing
      (Function.update opening p (some opens)) opened carries (opens + 1)
      drops where
  shows := fits.shows
  counted := fits.counted
  closed := fits.closed
  unbound := fits.unbound
  bound := fits.bound
  dead := by
    intro q isDead
    have other : q ≠ p := by
      intro same
      rw [same, isAlive] at isDead
      cases isDead
    rw [Function.update_of_ne other]
    exact fits.dead isDead
  custody := by
    rw [holder_setOpening]
    exact fits.custody.take free

theorem dropOpening
    (fits :
      FilesFit file ofile alive closing opening opened carries opens drops)
    {token : Nat}
    (held : opening p = some token) :
    FilesFit file ofile alive closing (Function.update opening p none) opened
      carries opens (Function.update drops token (drops token + 1)) where
  shows := fits.shows
  counted := fits.counted
  closed := fits.closed
  unbound := fits.unbound
  bound := fits.bound
  dead := by
    intro q isDead
    by_cases same : q = p
    · rw [same] at isDead
      obtain ⟨noEntry, notClosing, notOpening⟩ := fits.dead isDead
      rw [held] at notOpening
      cases notOpening
    · rw [Function.update_of_ne same]
      exact fits.dead isDead
  custody := by
    rw [holder_setOpening]
    exact fits.custody.drop held

theorem bind
    (fits :
      FilesFit file ofile alive closing opening opened carries opens drops)
    (isAlive : alive p = true)
    (idle : closing p = none)
    (unused : ofile p fd = none)
    (free : (file f).ref = 0)
    (notBusy : ∀ q, closing q ≠ some f)
    {bound : Opening}
    (held : opening p = some bound.reference)
    {filled : FileObject}
    (shows : filled.Shows bound)
    (first : filled.ref = 1) :
    FilesFit (Function.update file f filled)
      (Function.update ofile p (Function.update (ofile p) fd (some f)))
      alive closing (Function.update opening p none)
      (Function.update opened f (some bound))
      (Function.update carries f (some bound.reference)) opens drops := by
  have entry : liveEntry ofile closing (p, fd) = none := by
    rw [liveEntry_of_idle idle, unused]
  have other : ∀ {q}, alive q = false → q ≠ p := by
    intro q isDead same
    rw [same, isAlive] at isDead
    cases isDead
  refine {
    shows := ?_
    counted := ?_
    closed := ?_
    unbound := ?_
    bound := ?_
    dead := ?_
    custody := ?_
  }
  · intro g opening isBound
    by_cases same : g = f
    · subst same
      rw [Function.update_self] at isBound
      cases isBound
      rw [Function.update_self, Function.update_self]
      exact ⟨shows, rfl⟩
    · rw [Function.update_of_ne same] at isBound
      rw [Function.update_of_ne same, Function.update_of_ne same]
      exact fits.shows isBound
  · intro g
    rw [liveEntry_setOfile idle]
    by_cases same : g = f
    · subst same
      have none := fits.counted g
      rw [free] at none
      rw [Function.update_self, referenceCount_add entry, first]
      push_cast
      omega
    · rw [Function.update_of_ne same, referenceCount_update_of_ne]
      · exact fits.counted g
      · rw [entry]
        exact (Option.some_ne_none g).symm
      · intro wrong
        exact same (Option.some.inj wrong).symm
  · intro q g busy
    by_cases same : g = f
    · rw [same] at busy
      exact absurd busy (notBusy q)
    · rw [Function.update_of_ne same]
      exact fits.closed busy
  · intro g zero
    by_cases same : g = f
    · rw [same, Function.update_self, first] at zero
      cases zero
    · rw [Function.update_of_ne same] at zero ⊢
      exact fits.unbound zero
  · intro g inUse notBound
    by_cases same : g = f
    · rw [same, Function.update_self] at notBound
      cases notBound
    · rw [Function.update_of_ne same] at inUse notBound ⊢
      exact fits.bound inUse notBound
  · intro q isDead
    rw [Function.update_of_ne (other isDead),
      Function.update_of_ne (other isDead)]
    exact fits.dead isDead
  · rw [holder_setOpened, holder_setOpening]
    have holds : holder opening opened (.inl p) = some bound.reference :=
      held
    have empty : holder opening opened (.inr f) = none :=
      congrArg (Option.map Opening.reference) (fits.unbound free)
    exact fits.custody.pass holds empty

theorem release
    (fits :
      FilesFit file ofile alive closing opening opened carries opens drops)
    (idle : closing p = none)
    (refers : ofile p fd = some f)
    (more : (file f).ref - 1 ≠ 0) :
    FilesFit
      (Function.update file f { file f with ref := (file f).ref - 1 })
      (Function.update ofile p (Function.update (ofile p) fd none))
      alive closing opening opened carries opens drops := by
  have entry : liveEntry ofile closing (p, fd) = some f := by
    rw [liveEntry_of_idle idle, refers]
  have used := fits.ref_ne_zero refers idle
  refine {
    shows := ?_
    counted := ?_
    closed := ?_
    unbound := ?_
    bound := ?_
    dead := ?_
    custody := fits.custody
  }
  · intro g bound isBound
    by_cases same : g = f
    · subst same
      obtain ⟨shows, carried⟩ := fits.shows isBound
      rw [Function.update_self]
      exact ⟨⟨shows.type, shows.ip, shows.off, shows.readable,
        shows.writable⟩, carried⟩
    · rw [Function.update_of_ne same]
      exact fits.shows isBound
  · intro g
    rw [liveEntry_setOfile idle]
    by_cases same : g = f
    · subst same
      have count := fits.counted g
      rw [referenceCount_remove entry] at count
      rw [Function.update_self]
      push_cast at count ⊢
      change (file g).ref - 1 = _
      omega
    · rw [Function.update_of_ne same, referenceCount_update_of_ne]
      · exact fits.counted g
      · rw [entry]
        intro wrong
        exact same (Option.some.inj wrong).symm
      · exact (Option.some_ne_none g).symm
  · intro q g busy
    by_cases same : g = f
    · rw [same] at busy
      exact absurd (fits.closed busy) used
    · rw [Function.update_of_ne same]
      exact fits.closed busy
  · intro g zero
    by_cases same : g = f
    · rw [same, Function.update_self] at zero
      exact absurd zero more
    · rw [Function.update_of_ne same] at zero
      exact fits.unbound zero
  · intro g inUse notBound
    by_cases same : g = f
    · subst same
      rw [Function.update_self]
      exact fits.bound used notBound
    · rw [Function.update_of_ne same] at inUse ⊢
      exact fits.bound inUse notBound
  · intro q isDead
    obtain ⟨noEntry, notClosing, notOpening⟩ := fits.dead isDead
    refine ⟨?_, notClosing, notOpening⟩
    intro d
    by_cases same : q = p
    · rw [same] at noEntry
      rw [noEntry fd] at refers
      cases refers
    · rw [Function.update_of_ne same]
      exact noEntry d

theorem only_descriptor
    (fits :
      FilesFit file ofile alive closing opening opened carries opens drops)
    (idle : closing p = none)
    (refers : ofile p fd = some f)
    (last : (file f).ref - 1 = 0) :
    referenceCount
      (Function.update (liveEntry ofile closing) (p, fd) none) f = 0 := by
  have entry : liveEntry ofile closing (p, fd) = some f := by
    rw [liveEntry_of_idle idle, refers]
  have count := fits.counted f
  rw [referenceCount_remove entry] at count
  push_cast at count
  omega

theorem beginClose
    (fits :
      FilesFit file ofile alive closing opening opened carries opens drops)
    {kept : Option FileSlot}
    (idle : closing p = none)
    (refers : ofile p fd = some f)
    (isKept : kept = none ∨ kept = some f)
    (last : (file f).ref - 1 = 0)
    (isAlive : alive p = true)
    {dropped : Nat → Nat}
    (drop :
      ∀ bound, opened f = some bound →
        dropped =
          Function.update drops bound.reference (drops bound.reference + 1))
    (keep : opened f = none → dropped = drops) :
    FilesFit
      (Function.update file f { file f with ref := (file f).ref - 1 })
      (Function.update ofile p (Function.update (ofile p) fd kept))
      alive (Function.update closing p (some f)) opening
      (Function.update opened f none) carries opens dropped := by
  have nobody := fits.only_descriptor idle refers last
  have used := fits.ref_ne_zero refers idle
  have only : ∀ d, d ≠ fd → ofile p d ≠ some f := by
    intro d descriptor wrong
    apply referenceCount_eq_zero.mp nobody (p, d)
    rw [Function.update_of_ne fun same => descriptor (Prod.mk.inj same).2,
      liveEntry_of_idle idle, wrong]
  have other : ∀ {q}, alive q = false → q ≠ p := by
    intro q isDead same
    rw [same, isAlive] at isDead
    cases isDead
  have entry : liveEntry ofile closing (p, fd) = some f := by
    rw [liveEntry_of_idle idle, refers]
  refine {
    shows := ?_
    counted := ?_
    closed := ?_
    unbound := ?_
    bound := ?_
    dead := ?_
    custody := ?_
  }
  · intro g bound isBound
    by_cases same : g = f
    · rw [same, Function.update_self] at isBound
      cases isBound
    · rw [Function.update_of_ne same] at isBound ⊢
      exact fits.shows isBound
  · intro g
    rw [liveEntry_beginClose idle isKept only]
    by_cases same : g = f
    · rw [same, Function.update_self, nobody]
      exact last
    · rw [Function.update_of_ne same, referenceCount_update_of_ne]
      · exact fits.counted g
      · rw [entry]
        intro wrong
        exact same (Option.some.inj wrong).symm
      · exact (Option.some_ne_none g).symm
  · intro q g busy
    by_cases same : g = f
    · rw [same, Function.update_self]
      exact last
    · rw [Function.update_of_ne same]
      by_cases process : q = p
      · rw [process, Function.update_self] at busy
        exact absurd (Option.some.inj busy).symm same
      · rw [Function.update_of_ne process] at busy
        exact fits.closed busy
  · intro g zero
    by_cases same : g = f
    · rw [same, Function.update_self]
    · rw [Function.update_of_ne same] at zero ⊢
      exact fits.unbound zero
  · intro g inUse notBound
    by_cases same : g = f
    · rw [same, Function.update_self] at inUse
      exact absurd last inUse
    · rw [Function.update_of_ne same] at inUse notBound ⊢
      exact fits.bound inUse notBound
  · intro q isDead
    rw [Function.update_of_ne (other isDead),
      Function.update_of_ne (other isDead)]
    exact fits.dead isDead
  · rw [holder_setOpened]
    cases wasBound : opened f with
    | none =>
        rw [keep wasBound]
        have empty : holder opening opened (.inr f) = none :=
          congrArg (Option.map Opening.reference) wasBound
        have custody := fits.custody
        rw [← Function.update_eq_self (.inr f) (holder opening opened),
          empty] at custody
        exact custody
    | some bound =>
        rw [drop bound wasBound]
        have holds : holder opening opened (.inr f) = some bound.reference :=
          congrArg (Option.map Opening.reference) wasBound
        exact fits.custody.drop holds

theorem clear
    (fits :
      FilesFit file ofile alive closing opening opened carries opens drops)
    (free : (file f).ref = 0)
    {cleared : FileObject}
    (still : cleared.ref = (file f).ref) :
    FilesFit (Function.update file f cleared) ofile alive closing opening
      opened (Function.update carries f none) opens drops := by
  have ref : ∀ g, (Function.update file f cleared g).ref = (file g).ref := by
    intro g
    by_cases same : g = f
    · rw [same, Function.update_self, still]
    · rw [Function.update_of_ne same]
  have notBound := fits.unbound free
  refine {
    shows := ?_
    counted := ?_
    closed := ?_
    unbound := ?_
    bound := ?_
    dead := fits.dead
    custody := fits.custody
  }
  · intro g bound isBound
    have other : g ≠ f := by
      intro same
      rw [same, notBound] at isBound
      cases isBound
    rw [Function.update_of_ne other, Function.update_of_ne other]
    exact fits.shows isBound
  · intro g
    rw [ref]
    exact fits.counted g
  · intro q g busy
    rw [ref]
    exact fits.closed busy
  · intro g zero
    rw [ref] at zero
    exact fits.unbound zero
  · intro g inUse isUnbound
    rw [ref] at inUse
    have other : g ≠ f := by
      intro same
      rw [same] at inUse
      exact inUse free
    rw [Function.update_of_ne other]
    exact fits.bound inUse isUnbound

theorem finishClose
    (fits :
      FilesFit file ofile alive closing opening opened carries opens drops)
    (busy : closing p = some f)
    (last : ∀ d, d ≠ fd → ofile p d ≠ some f)
    (isKept : ofile p fd = none ∨ ofile p fd = some f)
    (isAlive : alive p = true) :
    FilesFit file
      (Function.update ofile p (Function.update (ofile p) fd none))
      alive (Function.update closing p none) opening opened carries opens
      drops where
  shows := fits.shows
  counted := by
    intro g
    rw [liveEntry_finishClose busy last isKept]
    exact fits.counted g
  closed := by
    intro q g stillBusy
    by_cases process : q = p
    · rw [process, Function.update_self] at stillBusy
      cases stillBusy
    · rw [Function.update_of_ne process] at stillBusy
      exact fits.closed stillBusy
  unbound := fits.unbound
  bound := fits.bound
  dead := by
    intro q isDead
    have other : q ≠ p := by
      intro same
      rw [same, isAlive] at isDead
      cases isDead
    rw [Function.update_of_ne other, Function.update_of_ne other]
    exact fits.dead isDead
  custody := fits.custody

theorem start
    (fits :
      FilesFit file ofile alive closing opening opened carries opens drops)
    (child : Slot) :
    FilesFit file ofile (Function.update alive child true) closing opening
      opened carries opens drops where
  shows := fits.shows
  counted := fits.counted
  closed := fits.closed
  unbound := fits.unbound
  bound := fits.bound
  dead := by
    intro q isDead
    by_cases same : q = child
    · rw [same, Function.update_self] at isDead
      cases isDead
    · rw [Function.update_of_ne same] at isDead
      exact fits.dead isDead
  custody := fits.custody

theorem leave
    (fits :
      FilesFit file ofile alive closing opening opened carries opens drops)
    (empty : ∀ fd, ofile p fd = none)
    (notClosing : closing p = none)
    (notOpening : opening p = none) :
    FilesFit file ofile (Function.update alive p false) closing opening opened
      carries opens drops where
  shows := fits.shows
  counted := fits.counted
  closed := fits.closed
  unbound := fits.unbound
  bound := fits.bound
  dead := by
    intro q isDead
    by_cases same : q = p
    · rw [same]
      exact ⟨empty, notClosing, notOpening⟩
    · rw [Function.update_of_ne same] at isDead
      exact fits.dead isDead
  custody := fits.custody

end FilesFit

end Invariant

end FileKernel

end MyOS
