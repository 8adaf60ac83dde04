import MyOS.Lib.Extents

namespace MyOS.Lib

/-!
# Extents along links

A path of links that meets a list of extents and finds their lengths, and a
ring of such links through a head that has no length.
-/

section Paths

variable {next length : Nat → Nat}

/-- From a place the links meet the extents, with their lengths. -/
def Follows (next length : Nat → Nat) : Nat → List Extent → Prop
  | _, [] => True
  | place, extent :: rest =>
      next place = extent.start ∧ length extent.start = extent.length ∧
        Follows next length extent.start rest

/-- Where a path ends. -/
def lastStart : Nat → List Extent → Nat
  | place, [] => place
  | _, extent :: rest => lastStart extent.start rest

variable {place : Nat} {first second : List Extent} {extent : Extent}

@[simp] theorem lastStart_concat :
    lastStart place (first ++ [extent]) = extent.start := by
  induction first generalizing place with
  | nil => rfl
  | cons other first inductionHypothesis => exact inductionHypothesis

theorem lastStart_mem :
    lastStart place first = place ∨
      ∃ extent ∈ first, lastStart place first = extent.start := by
  rcases List.eq_nil_or_concat' first with rfl | ⟨rest, last, rfl⟩
  · exact Or.inl rfl
  · exact Or.inr
      ⟨last, List.mem_append_right _ List.mem_cons_self, lastStart_concat⟩

theorem follows_append :
    Follows next length place (first ++ second) ↔
      Follows next length place first ∧
        Follows next length (lastStart place first) second := by
  induction first generalizing place with
  | nil =>
      exact ⟨fun path => ⟨trivial, path⟩, fun both => both.2⟩
  | cons other first inductionHypothesis =>
      simp only [List.cons_append, Follows, lastStart, inductionHypothesis,
        and_assoc]

theorem Follows.congr
    {next' length' : Nat → Nat}
    {place' : Nat}
    (path : Follows next length place first)
    (sameStart : next' place' = next place)
    (same :
      ∀ extent ∈ first,
        next' extent.start = next extent.start ∧
          length' extent.start = length extent.start) :
    Follows next' length' place' first := by
  induction first generalizing place place' with
  | nil =>
      trivial
  | cons other first inductionHypothesis =>
      rw [List.forall_mem_cons] at same
      exact ⟨sameStart.trans path.1, same.1.2.trans path.2.1,
        inductionHypothesis path.2.2 same.1.1 same.2⟩

theorem Follows.congr_concat
    {next' length' : Nat → Nat}
    {place' : Nat}
    (path : Follows next length place (first ++ [extent]))
    (sameStart : next' place' = next place)
    (same :
      ∀ extent ∈ first,
        next' extent.start = next extent.start ∧
          length' extent.start = length extent.start)
    (sameLast : length' extent.start = length extent.start) :
    Follows next' length' place' (first ++ [extent]) := by
  induction first generalizing place place' with
  | nil =>
      exact ⟨sameStart.trans path.1, sameLast.trans path.2.1, trivial⟩
  | cons other first inductionHypothesis =>
      rw [List.forall_mem_cons] at same
      exact ⟨sameStart.trans path.1, same.1.2.trans path.2.1,
        inductionHypothesis path.2.2 same.1.1 same.2⟩

theorem Follows.length_eq
    (path : Follows next length place first)
    (member : extent ∈ first) :
    length extent.start = extent.length := by
  obtain ⟨before, behind, rfl⟩ := List.append_of_mem member
  exact (follows_append.mp path).2.2.1

end Paths

section Rings

variable {next length : Nat → Nat} {head : Extent} {extents : List Extent}

/-- The links lead from the head through the extents and back. -/
def LinkRing (next length : Nat → Nat) (head : Extent) (extents : List Extent) :
    Prop :=
  Follows next length head.start (extents ++ [head])

theorem LinkRing.onward
    {before behind : List Extent}
    {member : Extent}
    (ring : LinkRing next length head extents)
    (split : head :: extents = before ++ member :: behind) :
    Follows next length member.start (behind ++ [head]) := by
  cases before with
  | nil =>
      cases split
      exact ring
  | cons other before =>
      rw [List.cons_append] at split
      obtain ⟨rfl, rfl⟩ := List.cons.inj split
      unfold LinkRing at ring
      rw [List.append_assoc, List.cons_append] at ring
      exact (follows_append.mp ring).2.2.2

theorem LinkRing.turn
    {before behind : List Extent}
    {member : Extent}
    (ring : LinkRing next length head extents)
    (split : head :: extents = before ++ member :: behind) :
    Follows next length member.start (behind ++ before ++ [member]) := by
  cases before with
  | nil =>
      cases split
      rw [List.append_nil]
      exact ring
  | cons other before =>
      rw [List.cons_append] at split
      obtain ⟨rfl, rfl⟩ := List.cons.inj split
      unfold LinkRing at ring
      rw [List.append_assoc, List.cons_append] at ring
      have parts := follows_append.mp ring
      obtain ⟨toMember, found, around⟩ := parts.2
      have again := follows_append.mp around
      have onward :
          Follows next length head.start (before ++ [member]) :=
        follows_append.mpr ⟨parts.1, toMember, found, trivial⟩
      have whole :
          behind ++ head :: before ++ [member] =
            (behind ++ [head]) ++ (before ++ [member]) := by
        simp
      rw [whole, follows_append, lastStart_concat]
      exact ⟨around, onward⟩

theorem LinkRing.next_cons
    {before behind : List Extent}
    {member other : Extent}
    (ring : LinkRing next length head extents)
    (split : head :: extents = before ++ member :: other :: behind) :
    next member.start = other.start := by
  have around := ring.turn split
  rw [List.append_assoc, List.cons_append] at around
  exact around.1

theorem LinkRing.next_last
    {before : List Extent}
    {member : Extent}
    (ring : LinkRing next length head extents)
    (split : head :: extents = before ++ [member]) :
    next member.start = head.start := by
  have around := ring.turn split
  rw [List.nil_append, ← split] at around
  exact around.1

theorem LinkRing.relink
    {next' length' : Nat → Nat}
    {before behind later : List Extent}
    {member : Extent}
    (ring : LinkRing next length head extents)
    (split : head :: extents = before ++ member :: behind)
    (kept :
      ∀ extent ∈ before,
        next' extent.start = next extent.start ∧
          length' extent.start = length extent.start)
    (changed : Extent)
    (sameStart : changed.start = member.start)
    (sized : length' changed.start = changed.length)
    (onward : Follows next' length' changed.start (later ++ [head])) :
    LinkRing next' length' head ((before ++ [changed]).tail ++ later) := by
  cases before with
  | nil =>
      obtain ⟨rfl, rfl⟩ := List.cons.inj split
      rw [sameStart] at onward
      exact onward
  | cons first before =>
      rw [List.cons_append] at split
      obtain ⟨rfl, rfl⟩ := List.cons.inj split
      rw [List.forall_mem_cons] at kept
      unfold LinkRing at ring ⊢
      rw [List.append_assoc, List.cons_append] at ring
      obtain ⟨lower, link, _, _⟩ := follows_append.mp ring
      have lowerKept : Follows next' length' head.start before :=
        lower.congr kept.1.1 kept.2
      have linkKept :
          next' (lastStart head.start before) = changed.start := by
        rw [sameStart, ← link]
        have ends :
            lastStart head.start before = head.start ∨
              ∃ extent ∈ before,
                lastStart head.start before = extent.start := lastStart_mem
        rcases ends with atHead | ⟨extent, inBefore, same⟩
        · rw [atHead]
          exact kept.1.1
        · rw [same]
          exact (kept.2 extent inBefore).1
      rw [List.cons_append, List.tail_cons, List.append_assoc,
        List.append_assoc, follows_append]
      exact ⟨lowerKept, linkKept, sized, onward⟩

theorem LinkRing.length_eq
    {member : Extent}
    (ring : LinkRing next length head extents)
    (isMember : member ∈ head :: extents) :
    length member.start = member.length := by
  apply Follows.length_eq ring
  rcases List.mem_cons.mp isMember with same | inExtents
  · rw [same]
    exact List.mem_append_right _ List.mem_cons_self
  · exact List.mem_append_left _ inExtents

theorem ring_neighbours
    {start rest first last : List Extent}
    {rover previous member : Extent}
    (turned : head :: extents = start ++ rover :: rest)
    (neighbours :
      rover :: (rest ++ start ++ [rover]) = first ++ previous :: member :: last)
    (notHead : member ≠ head) :
    ∃ before behind,
      head :: extents = before ++ previous :: member :: behind := by
  have parts :
      (rover :: rest) ++ (start ++ [rover]) =
        first ++ previous :: member :: last := by
    rw [← neighbours, List.append_assoc]
    rfl
  have whole : head :: extents = (start ++ [rover]) ++ rest := by
    rw [turned, List.append_assoc]
    rfl
  rcases List.append_eq_append_iff.mp parts with
    ⟨middle, _, isUpper⟩ | ⟨middle, isLower, isUpper⟩
  · refine ⟨middle, last ++ rest, ?_⟩
    rw [whole, isUpper, List.append_assoc]
    rfl
  · rcases middle with _ | ⟨one, _ | ⟨other, middle⟩⟩
    · refine ⟨[], last ++ rest, ?_⟩
      rw [List.nil_append] at isUpper
      rw [whole, ← isUpper]
      rfl
    · obtain ⟨_, isStart⟩ := List.cons.inj isUpper
      change member :: last = start ++ [rover] at isStart
      rw [← isStart] at whole
      exact absurd (List.cons.inj whole).1.symm notHead
    · obtain ⟨rfl, isRest⟩ := List.cons.inj isUpper
      obtain ⟨rfl, _⟩ := List.cons.inj isRest
      refine ⟨start ++ first, middle, ?_⟩
      rw [turned, isLower, List.append_assoc]

end Rings

end MyOS.Lib
