import Mathlib.Data.List.Nodup
import Mathlib.Logic.Function.Basic

namespace MyOS.Lib

/-!
# Doubly linked rings with a sentinel

The cells of a ring are linked in both directions and in a circle through one
sentinel, which is the node `none`.  A ring is read as the list of its cells
from the sentinel on.  Splicing a cell in behind the sentinel and splicing one
out are a few writes each, and loops that follow one direction of the links up
to the sentinel are searches of that list.
-/

/-- The links of every node. -/
structure Links (Cell : Type) where
  next : Option Cell → Option Cell
  prev : Option Cell → Option Cell

namespace Links

variable {Cell : Type}

/-- The two nodes are linked with each other in this order. -/
def Joined (links : Links Cell) (first second : Option Cell) : Prop :=
  links.next first = second ∧ links.prev second = first

/-- The cells that lie on the way between two nodes. -/
def Path
    (links : Links Cell) :
    Option Cell → List Cell → Option Cell → Prop
  | first, [], last => links.Joined first last
  | first, cell :: cells, last =>
      links.Joined first (some cell) ∧ links.Path (some cell) cells last

/-- The cells of a ring, each met once on the way around it. -/
structure Ring (links : Links Cell) (cells : List Cell) : Prop where
  path : links.Path none cells none
  nodup : cells.Nodup

/-- The links with both directions exchanged. -/
def reversed (links : Links Cell) : Links Cell where
  next := links.prev
  prev := links.next

section Writing

variable [DecidableEq Cell]

/-- Write the link of a node to its successor. -/
def setNext
    (links : Links Cell)
    (node target : Option Cell) : Links Cell :=
  { links with next := Function.update links.next node target }

/-- Write the link of a node to its predecessor. -/
def setPrev
    (links : Links Cell)
    (node target : Option Cell) : Links Cell :=
  { links with prev := Function.update links.prev node target }

/-- Link the sentinel with itself. -/
def clear (links : Links Cell) : Links Cell :=
  (links.setPrev none none).setNext none none

/-- Splice a cell in behind the sentinel. -/
def insertFront (links : Links Cell) (cell : Cell) : Links Cell :=
  let links := links.setNext (some cell) (links.next none)
  let links := links.setPrev (links.next none) (some cell)
  let links := links.setNext none (some cell)
  links.setPrev (some cell) none

/-- Splice a cell out. -/
def unlink (links : Links Cell) (cell : Cell) : Links Cell :=
  let links :=
    links.setNext (links.prev (some cell)) (links.next (some cell))
  links.setPrev (links.next (some cell)) (links.prev (some cell))

end Writing

/--
Follow links from a node up to the sentinel or to a cell that is looked for.
There is no result when the steps do not suffice.
-/
def search
    (follow : Option Cell → Option Cell)
    (found : Cell → Bool) :
    Nat → Option Cell → Option (Option Cell)
  | 0, _ => none
  | _ + 1, none => some none
  | steps + 1, some cell =>
      if found cell then
        some (some cell)
      else
        search follow found steps (follow (some cell))

section Paths

variable {links : Links Cell}

theorem path_append
    {first last : Option Cell}
    {before after : List Cell}
    {cell : Cell} :
    links.Path first (before ++ cell :: after) last ↔
      links.Path first before (some cell) ∧
        links.Path (some cell) after last := by
  induction before generalizing first with
  | nil =>
      simp only [List.nil_append, Path]
  | cons head rest inductionHypothesis =>
      simp only [List.cons_append, Path, inductionHypothesis, and_assoc]

theorem Path.frame
    {other : Links Cell}
    {first last : Option Cell}
    {cells : List Cell}
    (path : links.Path first cells last)
    (firstNext : other.next first = links.next first)
    (lastPrev : other.prev last = links.prev last)
    (next :
      ∀ cell ∈ cells, other.next (some cell) = links.next (some cell))
    (prev :
      ∀ cell ∈ cells, other.prev (some cell) = links.prev (some cell)) :
    other.Path first cells last := by
  induction cells generalizing first with
  | nil =>
      exact ⟨firstNext.trans path.1, lastPrev.trans path.2⟩
  | cons cell rest inductionHypothesis =>
      obtain ⟨joined, later⟩ := path
      have cellNext := next cell List.mem_cons_self
      have cellPrev := prev cell List.mem_cons_self
      refine ⟨⟨firstNext.trans joined.1, cellPrev.trans joined.2⟩, ?_⟩
      exact inductionHypothesis later cellNext
        (fun cell member => next cell (List.mem_cons_of_mem _ member))
        (fun cell member => prev cell (List.mem_cons_of_mem _ member))

theorem Path.prev_last
    {first last : Option Cell}
    {cells : List Cell}
    (path : links.Path first cells last) :
    links.prev last = first ∨
      ∃ cell ∈ cells, links.prev last = some cell := by
  induction cells generalizing first with
  | nil =>
      exact Or.inl path.2
  | cons cell rest inductionHypothesis =>
      rcases inductionHypothesis path.2 with here | ⟨later, member, here⟩
      · exact Or.inr ⟨cell, List.mem_cons_self, here⟩
      · exact Or.inr ⟨later, List.mem_cons_of_mem _ member, here⟩

theorem Path.reverse
    {first last : Option Cell}
    {cells : List Cell}
    (path : links.Path first cells last) :
    links.reversed.Path last cells.reverse first := by
  induction cells generalizing first with
  | nil =>
      exact ⟨path.2, path.1⟩
  | cons cell rest inductionHypothesis =>
      rw [List.reverse_cons, path_append]
      exact ⟨inductionHypothesis path.2, path.1.2, path.1.1⟩

theorem Ring.reverse
    {cells : List Cell}
    (ring : links.Ring cells) :
    links.reversed.Ring cells.reverse where
  path := ring.path.reverse
  nodup := List.nodup_reverse.mpr ring.nodup

theorem Path.search_eq
    {first : Option Cell}
    {cells : List Cell}
    (path : links.Path first cells none)
    (found : Cell → Bool)
    {steps : Nat}
    (enough : cells.length < steps) :
    search links.next found steps (links.next first) =
      some (cells.find? found) := by
  induction cells generalizing first steps with
  | nil =>
      cases steps with
      | zero => exact absurd enough (Nat.lt_irrefl 0)
      | succ more =>
          rw [path.1]
          rfl
  | cons cell rest inductionHypothesis =>
      cases steps with
      | zero => exact absurd enough (Nat.not_lt_zero _)
      | succ more =>
          rw [path.1.1, search]
          cases isFound : found cell with
          | true =>
              rw [if_pos rfl, List.find?_cons, isFound]
          | false =>
              rw [if_neg Bool.false_ne_true, List.find?_cons, isFound]
              exact inductionHypothesis path.2
                (Nat.lt_of_succ_lt_succ enough)

theorem Ring.search_next
    {cells : List Cell}
    (ring : links.Ring cells)
    (found : Cell → Bool)
    {steps : Nat}
    (enough : cells.length < steps) :
    search links.next found steps (links.next none) =
      some (cells.find? found) :=
  ring.path.search_eq found enough

theorem Ring.search_prev
    {cells : List Cell}
    (ring : links.Ring cells)
    (found : Cell → Bool)
    {steps : Nat}
    (enough : cells.length < steps) :
    search links.prev found steps (links.prev none) =
      some (cells.reverse.find? found) :=
  ring.reverse.path.search_eq found
    (by simpa only [List.length_reverse] using enough)

end Paths

section Splicing

variable [DecidableEq Cell] {links : Links Cell} {cells : List Cell}

@[simp]
theorem setNext_next (node target other : Option Cell) :
    (links.setNext node target).next other =
      if other = node then target else links.next other :=
  Function.update_apply _ _ _ _

@[simp]
theorem setNext_prev (node target : Option Cell) :
    (links.setNext node target).prev = links.prev :=
  rfl

@[simp]
theorem setPrev_next (node target : Option Cell) :
    (links.setPrev node target).next = links.next :=
  rfl

@[simp]
theorem setPrev_prev (node target other : Option Cell) :
    (links.setPrev node target).prev other =
      if other = node then target else links.prev other :=
  Function.update_apply _ _ _ _

theorem clear_ring : links.clear.Ring [] where
  path := by simp [Path, Joined, clear]
  nodup := List.nodup_nil

theorem Ring.insertFront
    (ring : links.Ring cells)
    {cell : Cell}
    (new : cell ∉ cells) :
    (links.insertFront cell).Ring (cell :: cells) where
  nodup := List.nodup_cons.mpr ⟨new, ring.nodup⟩
  path := by
    have path := ring.path
    cases cells with
    | nil =>
        have next : links.next none = none := path.1
        simp [Path, Joined, Links.insertFront, next]
    | cons front rest =>
        obtain ⟨⟨next, -⟩, later⟩ := path
        obtain ⟨notFront, notRest⟩ := not_or.mp (List.mem_cons.not.mp new)
        have frontFresh := (List.nodup_cons.mp ring.nodup).1
        have others : ∀ other ∈ front :: rest, other ≠ cell := by
          rintro other member rfl
          exact new member
        have notFirst : ∀ other ∈ rest, other ≠ front := by
          rintro other member rfl
          exact frontFresh member
        refine ⟨?_, ?_, later.frame ?_ ?_ ?_ ?_⟩
        · simp [Joined, Links.insertFront]
        · simp [Joined, Links.insertFront, next, Ne.symm notFront]
        · simp [Links.insertFront, Ne.symm notFront]
        · simp [Links.insertFront, next]
        · intro other member
          have other_ne := others other (List.mem_cons_of_mem _ member)
          simp [Links.insertFront, other_ne]
        · intro other member
          have other_ne := others other (List.mem_cons_of_mem _ member)
          simp [Links.insertFront, next, other_ne, notFirst other member]

theorem Path.redirect
    {first last target : Option Cell}
    (path : links.Path first cells last)
    (firstFresh : first ∉ cells.map some)
    (nodup : cells.Nodup)
    (targetFresh : target ∉ cells.map some) :
    ((links.setNext (links.prev last) target).setPrev target
      (links.prev last)).Path first cells target := by
  induction cells generalizing first with
  | nil =>
      obtain ⟨-, prev⟩ := path
      simp [Path, Joined, prev]
  | cons cell rest inductionHypothesis =>
      obtain ⟨joined, later⟩ := path
      rw [List.nodup_cons] at nodup
      simp only [List.map_cons, List.mem_cons, not_or] at firstFresh
      simp only [List.map_cons, List.mem_cons, not_or] at targetFresh
      have cellFresh : some cell ∉ rest.map some := by
        simpa using nodup.1
      have firstOff : first ≠ links.prev last := by
        intro same
        rcases later.prev_last with here | ⟨inner, member, here⟩
        · exact firstFresh.1 (same.trans here)
        · apply firstFresh.2
          rw [same, here]
          exact List.mem_map_of_mem member
      refine ⟨⟨?_, ?_⟩, inductionHypothesis later cellFresh nodup.2
        targetFresh.2⟩
      · simpa [firstOff] using joined.1
      · simpa [Ne.symm targetFresh.1] using joined.2

theorem Ring.unlink
    {before after : List Cell}
    {cell : Cell}
    (ring : links.Ring (before ++ cell :: after)) :
    (links.unlink cell).Ring (before ++ after) where
  nodup := ring.nodup.sublist (by simp)
  path := by
    obtain ⟨earlier, later⟩ := path_append.mp ring.path
    obtain ⟨beforeNodup, afterNodup, apart⟩ :=
      List.nodup_append.mp ring.nodup
    rw [List.nodup_cons] at afterNodup
    have cellBefore : links.prev (some cell) ≠ some cell := by
      intro same
      rcases earlier.prev_last with here | ⟨inner, member, here⟩
      · exact Option.some_ne_none cell (same.symm.trans here)
      · have inner_eq := Option.some.inj (here.symm.trans same)
        exact apart inner member cell List.mem_cons_self inner_eq
    have written : links.unlink cell =
        (links.setNext (links.prev (some cell))
          (links.next (some cell))).setPrev (links.next (some cell))
            (links.prev (some cell)) := by
      simp [Links.unlink, Ne.symm cellBefore]
    cases after with
    | nil =>
        have target : links.next (some cell) = none := later.1
        rw [List.append_nil, written, target]
        exact earlier.redirect (by simp) beforeNodup (by simp)
    | cons follower rest =>
        obtain ⟨⟨target, -⟩, remaining⟩ := later
        rw [path_append, written, target]
        have followerApart : follower ∉ before := by
          intro member
          exact apart follower member follower (by simp) rfl
        have offBefore : ∀ other ∈ follower :: rest,
            some other ≠ links.prev (some cell) := by
          intro other member same
          rcases earlier.prev_last with here | ⟨inner, inside, here⟩
          · exact Option.some_ne_none other (same.trans here)
          · have other_eq := Option.some.inj (same.trans here)
            exact apart inner inside other
              (List.mem_cons_of_mem _ member) other_eq.symm
        have notFollower : ∀ other ∈ rest, other ≠ follower := by
          rintro other member rfl
          exact (List.nodup_cons.mp afterNodup.2).1 member
        refine ⟨earlier.redirect (by simp) beforeNodup
          (by simpa using followerApart), remaining.frame ?_ ?_ ?_ ?_⟩
        · simp [offBefore follower List.mem_cons_self]
        · simp
        · intro other member
          simp [offBefore other (List.mem_cons_of_mem _ member)]
        · intro other member
          simp [notFollower other member]

theorem Ring.moveFront
    {cell : Cell}
    (ring : links.Ring cells)
    (member : cell ∈ cells) :
    ((links.unlink cell).insertFront cell).Ring (cell :: cells.erase cell) := by
  obtain ⟨before, after, rfl⟩ := List.append_of_mem member
  have fresh : cell ∉ before := by
    intro inside
    have apart := (List.nodup_append.mp ring.nodup).2.2
    exact apart cell inside cell List.mem_cons_self rfl
  have freshAfter : cell ∉ after :=
    (List.nodup_cons.mp (List.nodup_append.mp ring.nodup).2.1).1
  rw [List.erase_append_right _ fresh, List.erase_cons_head]
  exact ring.unlink.insertFront (by simp [fresh, freshAfter])

end Splicing

end Links

end MyOS.Lib
