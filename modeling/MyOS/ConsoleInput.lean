import MyOS.Lib.Ring
import MyOS.Lib.Run

namespace MyOS

open Lib

/-!
# The input of the console

`consoleintr` puts characters into a ring and `consgetc` takes them out.  The
interrupt comes between any two accesses of the reader and runs to its end, so
that a step is an interrupt or one access of the reader.  What has been put into
the ring and what has been returned is kept beside the state.
-/

/-- `CONS_BUF_SIZE` -/
def CONS_BUF_SIZE : Nat := 1024

/-- Where the reader is in `consgetc`, and what it has loaded. -/
inductive ReaderPoint where
  | outside
  /-- The test of the loop loads `cons_head`. -/
  | loop
  /-- The test of the loop loads `cons_tail`. -/
  | compare (head : Nat)
  /-- The buffer was empty. -/
  | empty
  /-- The loop has been left. -/
  | filled
  /-- The index of the slot is loaded. -/
  | index
  /-- The slot is loaded. -/
  | slot (head : Nat)
  /-- `cons_head` is loaded once more. -/
  | reload (c : UInt8)
  /-- `cons_head` is stored. -/
  | advance (c : UInt8) (head : Nat)
  /-- The character is returned. -/
  | done (c : UInt8)
  deriving Repr, DecidableEq

/-- The ring, the reader, and the history of both sides. -/
structure ConsoleState where
  cons_buffer : Nat → UInt8
  cons_head : Nat
  cons_tail : Nat
  /-- `killed` of the reading process -/
  killed : Bool
  /-- The reading process is not the first one, which Ctrl-C spares. -/
  killable : Bool
  point : ReaderPoint
  accepted : List UInt8
  returned : List UInt8

/-- What happens next. -/
inductive ConsoleAction where
  /-- An interrupt with a character. -/
  | key (c : UInt8)
  /-- The reading process is killed. -/
  | kill
  /-- The reader calls `consgetc`. -/
  | call
  /-- The reader makes its next access. -/
  | access
  deriving Repr, DecidableEq

namespace ConsoleState

/-- The console before the first key. -/
def boot (killable : Bool) : ConsoleState where
  cons_buffer := fun _ => 0
  cons_head := 0
  cons_tail := 0
  killed := false
  killable := killable
  point := .outside
  accepted := []
  returned := []

/-- The character that is stored for a key. -/
def keyStored (c : UInt8) : UInt8 :=
  if c = 13 then 10 else c

/-- `consoleintr`; Ctrl-C kills every process but the first. -/
def consoleintr (s : ConsoleState) (c : UInt8) : ConsoleState :=
  if c = 3 then
    { s with killed := s.killed || s.killable }
  else
    let c := keyStored c
    let next_tail := (s.cons_tail + 1) % CONS_BUF_SIZE
    if next_tail ≠ s.cons_head then
      { s with
        cons_buffer := Function.update s.cons_buffer s.cons_tail c
        cons_tail := next_tail
        accepted := s.accepted ++ [c] }
    else
      s

/-- The next access of the reader in `consgetc`. -/
def consgetc (s : ConsoleState) : Option ConsoleState :=
  match s.point with
  | .outside => none
  | .loop => some { s with point := .compare s.cons_head }
  | .compare head =>
      if head = s.cons_tail then
        some { s with point := .empty }
      else
        some { s with point := .filled }
  | .empty =>
      if s.killed then
        some { s with point := .outside }
      else
        some { s with point := .loop }
  | .filled =>
      if s.killed then
        some { s with point := .outside }
      else
        some { s with point := .index }
  | .index => some { s with point := .slot s.cons_head }
  | .slot head => some { s with point := .reload (s.cons_buffer head) }
  | .reload c => some { s with point := .advance c s.cons_head }
  | .advance c head =>
      some
        { s with
          cons_head := (head + 1) % CONS_BUF_SIZE
          point := .done c }
  | .done c =>
      some
        { s with
          point := .outside
          returned := s.returned ++ [c] }

/-- `console_pending`, without an interrupt in between -/
def consolePending (s : ConsoleState) : Int :=
  if s.cons_tail ≥ s.cons_head then
    (s.cons_tail : Int) - s.cons_head
  else
    (CONS_BUF_SIZE : Int) - s.cons_head + s.cons_tail

/-- One step. -/
def step? (s : ConsoleState) : ConsoleAction → Option ConsoleState
  | .key c => some (s.consoleintr c)
  | .kill => some { s with killed := true }
  | .call =>
      if s.point = .outside then
        some { s with point := .loop }
      else
        none
  | .access => s.consgetc

/-- The graph of `step?`. -/
def Step
    (s : ConsoleState)
    (action : ConsoleAction)
    (after : ConsoleState) : Prop :=
  s.step? action = some after

/-- The character that the reader has taken out and not returned yet. -/
def inHand (s : ConsoleState) : List UInt8 :=
  match s.point with
  | .done c => [c]
  | _ => []

/-- What the reader knows of the ring at its place in `consgetc`. -/
def ReaderKnows (s : ConsoleState) (waiting : List UInt8) : Prop :=
  match s.point with
  | .compare head => head = s.cons_head
  | .filled => waiting ≠ []
  | .index => waiting ≠ []
  | .slot head => head = s.cons_head ∧ waiting ≠ []
  | .reload c => waiting.head? = some c
  | .advance c head => head = s.cons_head ∧ waiting.head? = some c
  | _ => True

/-- The ring holds the characters that wait; with those that have been returned
and the one in hand in front of them they are the accepted ones. -/
structure RingFits (s : ConsoleState) (waiting : List UInt8) : Prop where
  ring :
    RingHolds CONS_BUF_SIZE CONS_BUF_SIZE s.cons_buffer s.cons_head
      s.cons_tail waiting
  few : waiting.length < CONS_BUF_SIZE
  accepted : s.accepted = s.returned ++ s.inHand ++ waiting
  reader : s.ReaderKnows waiting

/-- What a key should do when characters wait: Ctrl-C stores nothing, and a
character is refused only with a full ring. -/
structure KeysFit (s : ConsoleState) (waiting : List UInt8) : Prop where
  control :
    s.consoleintr 3 = { s with killed := s.killed || s.killable }
  refused :
    ∀ c, c ≠ 3 → waiting.length = CONS_BUF_SIZE - 1 → s.consoleintr c = s
  accepted :
    ∀ c, c ≠ 3 → waiting.length ≠ CONS_BUF_SIZE - 1 →
      (s.consoleintr c).accepted = s.accepted ++ [keyStored c]

/-- The characters are delivered in order: those that have been accepted are
those that have been returned, the one in hand, and those that wait in the
ring, of which there are as many as `console_pending` says. -/
def Delivers (s : ConsoleState) : Prop :=
  ∃ waiting,
    s.accepted = s.returned ++ s.inHand ++ waiting ∧
      RingHolds CONS_BUF_SIZE CONS_BUF_SIZE s.cons_buffer s.cons_head
        s.cons_tail waiting ∧
      waiting.length ≤ CONS_BUF_SIZE - 1 ∧
      s.consolePending = waiting.length ∧
      s.KeysFit waiting

section Steps

variable {s after : ConsoleState} {waiting : List UInt8} {c : UInt8}

theorem full_iff
    (fits : RingFits s waiting) :
    (s.cons_tail + 1) % CONS_BUF_SIZE = s.cons_head ↔
      waiting.length = CONS_BUF_SIZE - 1 := by
  have isSize : CONS_BUF_SIZE = 1024 := rfl
  have started := fits.ring.started
  have stopped := fits.ring.stopped
  have few := fits.few
  rw [isSize] at started stopped few ⊢
  omega

theorem ReaderKnows.append
    (knows : s.ReaderKnows waiting)
    (more : List UInt8)
    (sameHead : after.cons_head = s.cons_head)
    (samePoint : after.point = s.point) :
    after.ReaderKnows (waiting ++ more) := by
  unfold ReaderKnows at knows ⊢
  rw [samePoint, sameHead]
  have grows : waiting ≠ [] → waiting ++ more ≠ [] :=
    fun some_ none => some_ (List.append_eq_nil_iff.mp none).1
  have sameFirst : ∀ c, waiting.head? = some c →
      (waiting ++ more).head? = some c := by
    intro c first
    rw [List.head?_append, first, Option.some_or]
  cases point : s.point with
  | compare head =>
      rw [point] at knows
      exact knows
  | filled =>
      rw [point] at knows
      exact grows knows
  | index =>
      rw [point] at knows
      exact grows knows
  | slot head =>
      rw [point] at knows
      exact ⟨knows.1, grows knows.2⟩
  | reload c =>
      rw [point] at knows
      exact sameFirst c knows
  | advance c head =>
      rw [point] at knows
      exact ⟨knows.1, sameFirst c knows.2⟩
  | outside => exact True.intro
  | loop => exact True.intro
  | empty => exact True.intro
  | done c => exact True.intro

theorem RingFits.consoleintr
    (fits : RingFits s waiting)
    (c : UInt8) :
    ∃ later, RingFits (s.consoleintr c) later := by
  have full := full_iff fits
  unfold ConsoleState.consoleintr
  by_cases isControl : c = 3
  · rw [if_pos isControl]
    exact ⟨waiting, fits.ring, fits.few, fits.accepted, fits.reader⟩
  rw [if_neg isControl]
  dsimp only
  by_cases room : (s.cons_tail + 1) % CONS_BUF_SIZE ≠ s.cons_head
  · rw [if_pos room]
    have isSize : CONS_BUF_SIZE = 1024 := rfl
    have few := fits.few
    have notFull : waiting.length ≠ CONS_BUF_SIZE - 1 :=
      fun isFull => room (full.mpr isFull)
    have inRange : s.cons_tail % CONS_BUF_SIZE = s.cons_tail := by
      rw [fits.ring.stopped, Nat.mod_mod]
    have pushed := fits.ring.push (dvd_refl _) few (keyStored c)
    rw [inRange] at pushed
    refine ⟨waiting ++ [keyStored c], pushed, ?_, ?_, ?_⟩
    · rw [List.length_append, List.length_singleton]
      omega
    · change s.accepted ++ [keyStored c] =
        s.returned ++ s.inHand ++ (waiting ++ [keyStored c])
      rw [fits.accepted, List.append_assoc _ waiting]
    · exact ReaderKnows.append fits.reader [keyStored c] rfl rfl
  · rw [if_neg room]
    exact ⟨waiting, fits⟩

theorem RingFits.move
    (fits : RingFits s waiting)
    {point : ReaderPoint}
    (noneBefore : s.inHand = [])
    (noneAfter : ({ s with point := point } : ConsoleState).inHand = [])
    (knows :
      ({ s with point := point } : ConsoleState).ReaderKnows waiting) :
    RingFits { s with point := point } waiting where
  ring := fits.ring
  few := fits.few
  accepted := by
    have accepted := fits.accepted
    rw [noneBefore] at accepted
    rw [noneAfter]
    exact accepted
  reader := knows

theorem RingFits.consgetc
    (fits : RingFits s waiting)
    (goes : s.consgetc = some after) :
    ∃ later, RingFits after later := by
  have knows := fits.reader
  unfold ConsoleState.consgetc at goes
  unfold ReaderKnows at knows
  cases point : s.point with
  | outside =>
      rw [point] at goes
      cases goes
  | loop =>
      rw [point] at goes
      cases goes
      exact ⟨waiting, fits.move (by unfold inHand; rw [point]) rfl rfl⟩
  | compare head =>
      rw [point] at goes knows
      dsimp only at goes knows
      have noneBefore : s.inHand = [] := by
        unfold inHand
        rw [point]
      split_ifs at goes with isEmpty
      · cases goes
        exact ⟨waiting, fits.move noneBefore rfl True.intro⟩
      · cases goes
        refine ⟨waiting, fits.move noneBefore rfl ?_⟩
        intro none
        apply isEmpty
        rw [knows]
        exact (fits.ring.eq_nil_iff fits.few).mpr none
  | empty =>
      rw [point] at goes
      dsimp only at goes
      have noneBefore : s.inHand = [] := by
        unfold inHand
        rw [point]
      split_ifs at goes
      · cases goes
        exact ⟨waiting, fits.move noneBefore rfl True.intro⟩
      · cases goes
        exact ⟨waiting, fits.move noneBefore rfl True.intro⟩
  | filled =>
      rw [point] at goes knows
      dsimp only at goes knows
      have noneBefore : s.inHand = [] := by
        unfold inHand
        rw [point]
      split_ifs at goes
      · cases goes
        exact ⟨waiting, fits.move noneBefore rfl True.intro⟩
      · cases goes
        exact ⟨waiting, fits.move noneBefore rfl knows⟩
  | index =>
      rw [point] at goes knows
      cases goes
      exact ⟨waiting,
        fits.move (by unfold inHand; rw [point]) rfl ⟨rfl, knows⟩⟩
  | slot head =>
      rw [point] at goes knows
      cases goes
      obtain ⟨isHead, some_⟩ := knows
      refine ⟨waiting, fits.move (by unfold inHand; rw [point]) rfl ?_⟩
      -- The slot at the reader's index is the oldest character.
      obtain ⟨first, rest, isWaiting⟩ := List.exists_cons_of_ne_nil some_
      have ring := fits.ring
      rw [isWaiting] at ring
      have oldest := (ring.pop (dvd_refl _)).1
      rw [Nat.mod_eq_of_lt ring.started] at oldest
      change waiting.head? = some (s.cons_buffer head)
      rw [isWaiting, isHead, oldest]
      rfl
  | reload c =>
      rw [point] at goes knows
      cases goes
      exact ⟨waiting,
        fits.move (by unfold inHand; rw [point]) rfl ⟨rfl, knows⟩⟩
  | advance c head =>
      rw [point] at goes knows
      cases goes
      obtain ⟨isHead, isFirst⟩ := knows
      obtain ⟨rest, isWaiting⟩ := List.head?_eq_some_iff.mp isFirst
      have ring := fits.ring
      have few := fits.few
      have accepted := fits.accepted
      have noneBefore : s.inHand = [] := by
        unfold inHand
        rw [point]
      rw [isWaiting] at ring few accepted
      rw [noneBefore, List.append_nil] at accepted
      refine ⟨rest, ?_, ?_, ?_, True.intro⟩
      · rw [isHead]
        exact (ring.pop (dvd_refl _)).2
      · exact Nat.lt_of_succ_lt few
      · change s.accepted = s.returned ++ [c] ++ rest
        rw [accepted, List.append_assoc]
        rfl
  | done c =>
      rw [point] at goes
      cases goes
      have accepted := fits.accepted
      have isHand : s.inHand = [c] := by
        unfold inHand
        rw [point]
      rw [isHand] at accepted
      refine ⟨waiting, fits.ring, fits.few, ?_, True.intro⟩
      change s.accepted = s.returned ++ [c] ++ [] ++ waiting
      rw [accepted, List.append_nil]

theorem RingFits.step
    {action : ConsoleAction}
    (fits : RingFits s waiting)
    (goes : s.Step action after) :
    ∃ later, RingFits after later := by
  unfold Step step? at goes
  cases action with
  | key c =>
      cases goes
      exact fits.consoleintr c
  | kill =>
      cases goes
      exact ⟨waiting, fits.ring, fits.few, fits.accepted, fits.reader⟩
  | call =>
      dsimp only at goes
      split_ifs at goes with isOutside
      cases goes
      exact ⟨waiting,
        fits.move (by unfold inHand; rw [isOutside]) rfl True.intro⟩
  | access => exact fits.consgetc goes

theorem RingFits.boot (killable : Bool) : RingFits (.boot killable) [] where
  ring := .empty _ (Nat.zero_lt_succ 1023)
  few := by decide
  accepted := rfl
  reader := True.intro

theorem RingFits.delivers
    (fits : RingFits s waiting) :
    s.Delivers := by
  have isSize : CONS_BUF_SIZE = 1024 := rfl
  have full := full_iff fits
  refine ⟨waiting, fits.accepted, fits.ring, ?_, ?_, ?_⟩
  · exact Nat.le_sub_one_of_lt fits.few
  · have started := fits.ring.started
    have stopped := fits.ring.stopped
    have few := fits.few
    unfold consolePending
    rw [isSize] at started stopped few ⊢
    split_ifs <;> omega
  · refine ⟨rfl, ?_, ?_⟩
    · intro c notControl isFull
      unfold ConsoleState.consoleintr
      rw [if_neg notControl]
      dsimp only
      rw [if_neg (not_not.mpr (full.mpr isFull))]
    · intro c notControl notFull
      unfold ConsoleState.consoleintr
      rw [if_neg notControl]
      dsimp only
      rw [if_pos fun isNext => notFull (full.mp isNext)]

end Steps

/-- In every interleaving of the interrupt with the accesses of the reader the
characters are delivered in order. -/
theorem console_delivers
    {killable : Bool}
    {trace : List (ConsoleState × ConsoleAction)}
    {s : ConsoleState}
    (run : Run Step (boot killable) trace s) :
    s.Delivers := by
  have fits : ∃ waiting, RingFits s waiting := by
    induction run with
    | start => exact ⟨[], .boot killable⟩
    | next _ goes inductionHypothesis =>
        obtain ⟨waiting, fits⟩ := inductionHypothesis
        exact fits.step goes
  obtain ⟨waiting, fits⟩ := fits
  exact fits.delivers

/-- A carriage return is read as a newline, and another key waits. -/
theorem console_delivers_newline :
    ∃ trace s,
      Run Step (boot true) trace s ∧ s.returned = [10] ∧
        s.consolePending = 1 ∧ s.Delivers := by
  have reads :
      (runActions step? (boot true)
          [.key 13, .call, .access, .access, .access, .access, .access,
            .key 97, .access, .access, .access]).map
        (fun s => (s.returned, s.consolePending)) = some ([10], 1) := rfl
  obtain ⟨s, isDone, isState⟩ := Option.map_eq_some_iff.mp reads
  obtain ⟨isReturned, isPending⟩ := Prod.mk.inj isState
  obtain ⟨trace, _, run⟩ := runActions_sound isDone
  exact ⟨trace, s, run, isReturned, isPending, console_delivers run⟩

end ConsoleState

end MyOS
