import Mathlib.Data.List.Basic

namespace MyOS.Lib

/-!
# Extents apart from each other

A list of stretches of addresses, in order and with gaps between them.  An
extent that is put back is joined with the neighbours that it touches; an
extent may be taken out, or cut at its end.
-/

/-- A stretch of addresses. -/
structure Extent where
  start : Nat
  length : Nat
  deriving Repr, DecidableEq

namespace Extent

/-- The address behind an extent. -/
def stop (extent : Extent) : Nat :=
  extent.start + extent.length

/-- An address is in the extent. -/
def Has (extent : Extent) (address : Nat) : Prop :=
  extent.start ≤ address ∧ address < extent.stop

/-- Two extents in one. -/
def join (first second : Extent) : Extent :=
  ⟨first.start, first.length + second.length⟩

end Extent

/-- An address is in one of the extents. -/
def Covers (extents : List Extent) (address : Nat) : Prop :=
  ∃ extent ∈ extents, extent.Has address

/-- Every extent ends before the next one starts, and none is empty. -/
structure Spaced (extents : List Extent) : Prop where
  apart : extents.Pairwise fun first second => first.stop < second.start
  nonempty : ∀ extent ∈ extents, 0 < extent.length

/-- An extent with the one above it that it touches, and the others. -/
def joinAbove (new : Extent) : List Extent → Extent × List Extent
  | [] => (new, [])
  | next :: above =>
      if new.stop = next.start then
        (new.join next, above)
      else
        (new, next :: above)

/-- The extents with a new one between those below and those above. -/
def insertBetween
    (below : List Extent)
    (new : Extent)
    (above : List Extent) : List Extent :=
  match below.getLast? with
  | none => (joinAbove new above).1 :: (joinAbove new above).2
  | some last =>
      if last.stop = new.start then
        below.dropLast ++
          last.join (joinAbove new above).1 :: (joinAbove new above).2
      else
        below ++ (joinAbove new above).1 :: (joinAbove new above).2

section Covers

variable {extents first second : List Extent} {extent : Extent} {address : Nat}

@[simp] theorem covers_nil : ¬ Covers [] address := by
  rintro ⟨extent, member, _⟩
  exact absurd member List.not_mem_nil

@[simp] theorem covers_cons :
    Covers (extent :: extents) address ↔
      extent.Has address ∨ Covers extents address := by
  simp [Covers]

@[simp] theorem covers_append :
    Covers (first ++ second) address ↔
      Covers first address ∨ Covers second address := by
  simp [Covers, or_and_right, exists_or]

theorem Extent.has_join
    {other : Extent}
    (touches : extent.stop = other.start) :
    (extent.join other).Has address ↔
      extent.Has address ∨ other.Has address := by
  simp only [Extent.Has, Extent.join, Extent.stop] at touches ⊢
  omega

theorem Extent.stop_join
    {other : Extent}
    (touches : extent.stop = other.start) :
    (extent.join other).stop = other.stop := by
  simp only [Extent.join, Extent.stop] at touches ⊢
  omega

end Covers

section Joining

variable {below above : List Extent} {new : Extent} {address : Nat}

theorem joinAbove_of_touches
    {other : Extent}
    (touches : new.stop = other.start) :
    joinAbove new (other :: above) = (new.join other, above) :=
  if_pos touches

theorem joinAbove_of_gap
    {other : Extent}
    (gap : new.stop ≠ other.start) :
    joinAbove new (other :: above) = (new, other :: above) :=
  if_neg gap

theorem covers_joinAbove
    (new : Extent)
    (above : List Extent)
    (address : Nat) :
    Covers ((joinAbove new above).1 :: (joinAbove new above).2) address ↔
      new.Has address ∨ Covers above address := by
  cases above with
  | nil =>
      simp [joinAbove]
  | cons other above =>
      by_cases touches : new.stop = other.start
      · rw [joinAbove_of_touches touches, covers_cons, covers_cons,
          Extent.has_join touches, or_assoc]
      · rw [joinAbove_of_gap touches, covers_cons]

theorem joinAbove_start
    (new : Extent)
    (above : List Extent) :
    (joinAbove new above).1.start = new.start := by
  cases above with
  | nil => rfl
  | cons other above =>
      by_cases touches : new.stop = other.start
      · rw [joinAbove_of_touches touches]
        rfl
      · rw [joinAbove_of_gap touches]

theorem mem_of_mem_joinAbove
    {extent : Extent}
    (member : extent ∈ (joinAbove new above).2) :
    extent ∈ above := by
  cases above with
  | nil => exact member
  | cons other above =>
      by_cases touches : new.stop = other.start
      · rw [joinAbove_of_touches touches] at member
        exact List.mem_cons_of_mem _ member
      · rw [joinAbove_of_gap touches] at member
        exact member

theorem spaced_joinAbove
    (spaced : Spaced above)
    (positive : 0 < new.length)
    (atop : ∀ extent ∈ above, new.stop ≤ extent.start) :
    Spaced ((joinAbove new above).1 :: (joinAbove new above).2) := by
  cases above with
  | nil =>
      exact {
        apart := List.pairwise_singleton _ _
        nonempty := by simpa [joinAbove] using positive
      }
  | cons other above =>
      obtain ⟨apart, nonempty⟩ := spaced
      rw [List.pairwise_cons] at apart
      rw [List.forall_mem_cons] at nonempty atop
      by_cases touches : new.stop = other.start
      · rw [joinAbove_of_touches touches]
        refine ⟨List.pairwise_cons.mpr ⟨?_, apart.2⟩,
          List.forall_mem_cons.mpr ⟨?_, nonempty.2⟩⟩
        · intro extent member
          rw [Extent.stop_join touches]
          exact apart.1 extent member
        · exact Nat.lt_of_lt_of_le positive (Nat.le_add_right _ _)
      · rw [joinAbove_of_gap touches]
        have gap : new.stop < other.start :=
          Nat.lt_of_le_of_ne atop.1 touches
        refine ⟨List.pairwise_cons.mpr ⟨?_, List.pairwise_cons.mpr apart⟩,
          List.forall_mem_cons.mpr
            ⟨positive, List.forall_mem_cons.mpr nonempty⟩⟩
        rw [List.forall_mem_cons]
        refine ⟨gap, fun extent member => ?_⟩
        have later := apart.1 extent member
        simp only [Extent.stop] at gap later ⊢
        omega

theorem insertBetween_nil :
    insertBetween [] new above =
      (joinAbove new above).1 :: (joinAbove new above).2 :=
  rfl

theorem insertBetween_of_touches
    {first : List Extent}
    {last : Extent}
    (touches : last.stop = new.start) :
    insertBetween (first ++ [last]) new above =
      first ++ last.join (joinAbove new above).1 ::
        (joinAbove new above).2 := by
  simp only [insertBetween, List.getLast?_concat, List.dropLast_concat]
  exact if_pos touches

theorem insertBetween_of_gap
    {first : List Extent}
    {last : Extent}
    (gap : last.stop ≠ new.start) :
    insertBetween (first ++ [last]) new above =
      first ++ last :: (joinAbove new above).1 :: (joinAbove new above).2 := by
  simp only [insertBetween, List.getLast?_concat, List.dropLast_concat]
  rw [if_neg gap, List.append_assoc]
  rfl

theorem covers_insertBetween :
    Covers (insertBetween below new above) address ↔
      Covers (below ++ above) address ∨ new.Has address := by
  have joined := covers_joinAbove new above address
  rcases List.eq_nil_or_concat' below with rfl | ⟨first, last, rfl⟩
  · rw [insertBetween_nil, joined, List.nil_append]
    exact or_comm
  · by_cases touches : last.stop = new.start
    · have meets : last.stop = (joinAbove new above).1.start := by
        rw [joinAbove_start, touches]
      rw [insertBetween_of_touches touches, covers_append, covers_cons,
        Extent.has_join meets, or_assoc, ← covers_cons, joined]
      simp only [covers_append, covers_cons, covers_nil, or_false]
      tauto
    · rw [insertBetween_of_gap touches, covers_append, covers_cons, joined]
      simp only [covers_append, covers_cons, covers_nil, or_false]
      tauto

theorem spaced_insertBetween
    (spaced : Spaced (below ++ above))
    (positive : 0 < new.length)
    (under : ∀ extent ∈ below, extent.stop ≤ new.start)
    (atop : ∀ extent ∈ above, new.stop ≤ extent.start) :
    Spaced (insertBetween below new above) := by
  obtain ⟨apart, nonempty⟩ := spaced
  rw [List.pairwise_append] at apart
  rw [List.forall_mem_append] at nonempty
  have joined :=
    spaced_joinAbove ⟨apart.2.1, nonempty.2⟩ positive atop
  rcases List.eq_nil_or_concat' below with rfl | ⟨first, last, rfl⟩
  · exact joined
  · have start := joinAbove_start new above
    generalize pair : joinAbove new above = both at joined start
    obtain ⟨extent, others⟩ := both
    obtain ⟨apartJoined, positiveJoined⟩ := joined
    rw [List.pairwise_cons] at apartJoined
    rw [List.forall_mem_cons] at positiveJoined
    have lower := apart.1
    rw [List.pairwise_append] at lower
    have isLast : last ∈ first ++ [last] :=
      List.mem_append_right _ List.mem_cons_self
    have firstBelow : ∀ other ∈ first, other.stop < last.start :=
      fun other member => lower.2.2 other member last List.mem_cons_self
    have others_above : ∀ other ∈ others, extent.stop < other.start :=
      apartJoined.1
    have lastUnder := under last isLast
    by_cases touches : last.stop = new.start
    · have meets : last.stop = extent.start := by
        rw [start, touches]
      rw [insertBetween_of_touches touches, pair]
      constructor
      · rw [List.pairwise_append]
        refine ⟨lower.1, List.pairwise_cons.mpr ⟨?_, apartJoined.2⟩, ?_⟩
        · intro other member
          rw [Extent.stop_join meets]
          exact others_above other member
        · intro other member
          rw [List.forall_mem_cons]
          refine ⟨firstBelow other member, fun later inOthers => ?_⟩
          have before := firstBelow other member
          have behind := others_above later inOthers
          simp only [Extent.stop] at before behind meets ⊢
          omega
      · rw [List.forall_mem_append, List.forall_mem_cons]
        refine ⟨fun other member =>
          nonempty.1 other (List.mem_append_left _ member), ?_,
          positiveJoined.2⟩
        exact Nat.lt_of_lt_of_le (nonempty.1 last isLast)
          (Nat.le_add_right _ _)
    · have gap : last.stop < extent.start := by
        rw [start]
        exact Nat.lt_of_le_of_ne lastUnder touches
      rw [insertBetween_of_gap touches, pair]
      constructor
      · rw [List.pairwise_append]
        refine ⟨lower.1, List.pairwise_cons.mpr
          ⟨?_, List.pairwise_cons.mpr apartJoined⟩, ?_⟩
        · rw [List.forall_mem_cons]
          refine ⟨gap, fun later inOthers => ?_⟩
          have behind := others_above later inOthers
          simp only [Extent.stop] at gap behind ⊢
          omega
        · intro other member
          rw [List.forall_mem_cons, List.forall_mem_cons]
          have before := firstBelow other member
          refine ⟨before, ?_, fun later inOthers => ?_⟩
          · simp only [Extent.stop] at before gap ⊢
            omega
          · have behind := others_above later inOthers
            simp only [Extent.stop] at before gap behind ⊢
            omega
      · rw [List.forall_mem_append, List.forall_mem_cons,
          List.forall_mem_cons]
        exact ⟨fun other member =>
          nonempty.1 other (List.mem_append_left _ member),
          nonempty.1 last isLast, positiveJoined⟩

theorem forall_joinAbove
    (property : Extent → Prop)
    (joins :
      ∀ lower upper, property lower → property upper →
        lower.stop = upper.start → property (lower.join upper))
    (ofNew : property new)
    (ofAbove : ∀ extent ∈ above, property extent) :
    ∀ extent ∈ (joinAbove new above).1 :: (joinAbove new above).2,
      property extent := by
  cases above with
  | nil =>
      simpa [joinAbove] using ofNew
  | cons other above =>
      rw [List.forall_mem_cons] at ofAbove
      by_cases touches : new.stop = other.start
      · rw [joinAbove_of_touches touches, List.forall_mem_cons]
        exact ⟨joins new other ofNew ofAbove.1 touches, ofAbove.2⟩
      · rw [joinAbove_of_gap touches, List.forall_mem_cons,
          List.forall_mem_cons]
        exact ⟨ofNew, ofAbove⟩

theorem forall_insertBetween
    (property : Extent → Prop)
    (joins :
      ∀ lower upper, property lower → property upper →
        lower.stop = upper.start → property (lower.join upper))
    (ofBelow : ∀ extent ∈ below, property extent)
    (ofNew : property new)
    (ofAbove : ∀ extent ∈ above, property extent) :
    ∀ extent ∈ insertBetween below new above, property extent := by
  have joined := forall_joinAbove property joins ofNew ofAbove
  rcases List.eq_nil_or_concat' below with rfl | ⟨first, last, rfl⟩
  · exact joined
  · rw [List.forall_mem_append, List.forall_mem_singleton] at ofBelow
    by_cases touches : last.stop = new.start
    · rw [insertBetween_of_touches touches, List.forall_mem_append]
      rw [List.forall_mem_cons] at joined ⊢
      exact ⟨ofBelow.1,
        joins _ _ ofBelow.2 joined.1 (by rw [joinAbove_start, touches]),
        joined.2⟩
    · rw [insertBetween_of_gap touches, List.forall_mem_append,
        List.forall_mem_cons]
      exact ⟨ofBelow.1, ofBelow.2, joined⟩

theorem length_insertBetween_le
    (below : List Extent)
    (new : Extent)
    (above : List Extent) :
    (insertBetween below new above).length ≤
      below.length + above.length + 1 := by
  have joined : (joinAbove new above).2.length ≤ above.length := by
    cases above with
    | nil => exact Nat.le_refl _
    | cons other above =>
        by_cases touches : new.stop = other.start
        · rw [joinAbove_of_touches touches]
          exact Nat.le_succ _
        · exact Nat.le_of_eq (by rw [joinAbove_of_gap touches])
  rcases List.eq_nil_or_concat' below with rfl | ⟨first, last, rfl⟩
  · rw [insertBetween_nil, List.length_cons, List.length_nil]
    omega
  · by_cases touches : last.stop = new.start
    · rw [insertBetween_of_touches touches]
      simp only [List.length_append, List.length_cons, List.length_nil]
      omega
    · rw [insertBetween_of_gap touches]
      simp only [List.length_append, List.length_cons, List.length_nil]
      omega

theorem exists_insertBetween
    (below : List Extent)
    (new : Extent)
    (above : List Extent) :
    ∃ extent ∈ insertBetween below new above, new.length ≤ extent.length := by
  have longer : new.length ≤ (joinAbove new above).1.length := by
    cases above with
    | nil => exact Nat.le_refl _
    | cons other above =>
        by_cases touches : new.stop = other.start
        · rw [joinAbove_of_touches touches]
          exact Nat.le_add_right _ _
        · exact Nat.le_of_eq (by rw [joinAbove_of_gap touches])
  rcases List.eq_nil_or_concat' below with rfl | ⟨first, last, rfl⟩
  · exact ⟨_, List.mem_cons_self, longer⟩
  · by_cases touches : last.stop = new.start
    · rw [insertBetween_of_touches touches]
      exact ⟨_, List.mem_append_right _ List.mem_cons_self,
        Nat.le_trans longer (Nat.le_add_left _ _)⟩
    · rw [insertBetween_of_gap touches]
      exact ⟨_, List.mem_append_right _
        (List.mem_cons_of_mem _ List.mem_cons_self), longer⟩

end Joining

section Taking

variable {below above : List Extent} {extent : Extent} {address cut : Nat}

theorem Spaced.remove
    (spaced : Spaced (below ++ extent :: above)) :
    Spaced (below ++ above) where
  apart :=
    spaced.apart.sublist
      (List.Sublist.append_left (List.sublist_cons_self _ _) _)
  nonempty := fun other member =>
    spaced.nonempty other (by
      rcases List.mem_append.mp member with inBelow | inAbove
      · exact List.mem_append_left _ inBelow
      · exact List.mem_append_right _ (List.mem_cons_of_mem _ inAbove))

/-- An extent without its end. -/
def Extent.keep (extent : Extent) (length : Nat) : Extent :=
  ⟨extent.start, length⟩

/-- The end of an extent. -/
def Extent.tail (extent : Extent) (length : Nat) : Extent :=
  ⟨extent.start + length, extent.length - length⟩

theorem Extent.has_cut
    (address : Nat)
    (inside : cut ≤ extent.length) :
    extent.Has address ↔
      (extent.keep cut).Has address ∨ (extent.tail cut).Has address := by
  simp only [Extent.Has, Extent.keep, Extent.tail, Extent.stop]
  omega

theorem Spaced.keep
    (spaced : Spaced (below ++ extent :: above))
    (positive : 0 < cut)
    (inside : cut ≤ extent.length) :
    Spaced (below ++ extent.keep cut :: above) := by
  obtain ⟨apart, nonempty⟩ := spaced
  rw [List.pairwise_append, List.pairwise_cons] at apart
  rw [List.forall_mem_append, List.forall_mem_cons] at nonempty
  constructor
  · rw [List.pairwise_append, List.pairwise_cons]
    refine ⟨apart.1, ⟨?_, apart.2.1.2⟩, ?_⟩
    · intro other member
      have before := apart.2.1.1 other member
      simp only [Extent.keep, Extent.stop] at before ⊢
      omega
    · intro other member
      have later := apart.2.2 other member
      rw [List.forall_mem_cons] at later ⊢
      exact later
  · rw [List.forall_mem_append, List.forall_mem_cons]
    exact ⟨nonempty.1, positive, nonempty.2.2⟩

theorem Spaced.unique
    {extents : List Extent}
    {first second : Extent}
    (spaced : Spaced extents)
    (isFirst : first ∈ extents)
    (isSecond : second ∈ extents)
    (inFirst : first.Has address)
    (inSecond : second.Has address) :
    first = second := by
  obtain ⟨below, above, rfl⟩ := List.append_of_mem isFirst
  have apart := spaced.apart
  rw [List.pairwise_append, List.pairwise_cons] at apart
  rcases List.mem_append.mp isSecond with inBelow | inRest
  · have before := apart.2.2 second inBelow first List.mem_cons_self
    simp only [Extent.Has, Extent.stop] at *
    omega
  · rcases List.mem_cons.mp inRest with same | inAbove
    · exact same.symm
    · have later := apart.2.1.1 second inAbove
      simp only [Extent.Has, Extent.stop] at *
      omega

theorem Spaced.covers_remove
    (spaced : Spaced (below ++ extent :: above))
    (address : Nat) :
    Covers (below ++ above) address ↔
      Covers (below ++ extent :: above) address ∧ ¬ extent.Has address := by
  have isMember : extent ∈ below ++ extent :: above :=
    List.mem_append_right _ List.mem_cons_self
  have apart := spaced.apart
  rw [List.pairwise_append, List.pairwise_cons] at apart
  constructor
  · rintro ⟨other, member, inOther⟩
    rcases List.mem_append.mp member with inBelow | inAbove
    · refine ⟨⟨other, List.mem_append_left _ inBelow, inOther⟩, ?_⟩
      have before := apart.2.2 other inBelow extent List.mem_cons_self
      simp only [Extent.Has, Extent.stop] at before inOther ⊢
      omega
    · refine ⟨⟨other, List.mem_append_right _
        (List.mem_cons_of_mem _ inAbove), inOther⟩, ?_⟩
      have later := apart.2.1.1 other inAbove
      simp only [Extent.Has, Extent.stop] at later inOther ⊢
      omega
  · rintro ⟨covered, outside⟩
    rw [covers_append, covers_cons] at covered
    rw [covers_append]
    exact covered.imp_right fun rest => rest.resolve_left outside

theorem Spaced.covers_keep
    (spaced : Spaced (below ++ extent :: above))
    (inside : cut ≤ extent.length) :
    Covers (below ++ extent.keep cut :: above) address ↔
      Covers (below ++ extent :: above) address ∧
        ¬ (extent.tail cut).Has address := by
  have rest := spaced.covers_remove (address)
  have whole := Extent.has_cut (address) inside
  have parts :
      (extent.keep cut).Has address → ¬ (extent.tail cut).Has address := by
    simp only [Extent.Has, Extent.keep, Extent.tail, Extent.stop]
    omega
  rw [covers_append] at rest
  simp only [covers_append, covers_cons] at rest ⊢
  tauto

end Taking

end MyOS.Lib
