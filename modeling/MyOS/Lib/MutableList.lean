import Mathlib.Data.List.Basic

namespace MyOS.Lib

/-!
# Lists as files

What a file is for: a list whose items are overwritten in place or behind the
end, that is cut or filled up to a length, and of which intervals are read.
Every such list is given by its length and its items by place.
-/

variable {Item : Type}

/-- The list of a length with given items. -/
def tabulate (length : Nat) (item : Nat → Item) : List Item :=
  (List.range length).map item

/-- Cut a list to a length, or fill it up. -/
def resize (filler : Item) (items : List Item) (length : Nat) : List Item :=
  items.take length ++ List.replicate (length - items.length) filler

/-- Write items at a place, behind filled up ones if it is behind the end. -/
def overwrite
    (filler : Item)
    (items : List Item)
    (place : Nat)
    (written : List Item) :
    List Item :=
  if written = [] then
    items
  else
    resize filler items place ++ written ++
      items.drop (place + written.length)

/-- The items from a place on, as many as there are. -/
def window (items : List Item) (place count : Nat) : List Item :=
  (items.drop place).take count

section Tabulate

variable {length : Nat} {item other : Nat → Item}

@[simp]
theorem length_tabulate : (tabulate length item).length = length := by
  simp only [tabulate, List.length_map, List.length_range]

@[simp]
theorem getElem_tabulate
    {index : Nat}
    (inside : index < (tabulate length item).length) :
    (tabulate length item)[index] = item index := by
  simp only [tabulate, List.getElem_map, List.getElem_range]

theorem tabulate_add (count more : Nat) (item : Nat → Item) :
    tabulate count item ++ tabulate more (fun index => item (count + index)) =
      tabulate (count + more) item := by
  unfold tabulate
  rw [List.range_add, List.map_append, List.map_map]
  rfl

theorem take_tabulate (count : Nat) :
    (tabulate length item).take count = tabulate (min count length) item := by
  unfold tabulate
  rw [← List.map_take, List.take_range]

theorem tabulate_congr
    (same : ∀ index, index < length → item index = other index) :
    tabulate length item = tabulate length other := by
  apply List.map_congr_left
  intro index member
  exact same index (List.mem_range.mp member)

theorem tabulate_getD
    (filler : Item)
    (items : List Item) :
    tabulate items.length (fun index => items.getD index filler) = items := by
  apply List.ext_getElem
  · exact length_tabulate
  · intro index _ inside
    rw [getElem_tabulate]
    simp only [List.getD_eq_getElem?_getD, List.getElem?_eq_getElem inside,
      Option.getD_some]

theorem tabulate_eq_nil
    {length : Nat}
    {item : Nat → Item}
    (empty : tabulate length item = []) :
    length = 0 := by
  have same : (tabulate length item).length = length := length_tabulate
  rw [← same, empty]
  rfl

end Tabulate

section Files

variable {length place count : Nat} {item source : Nat → Item}
variable {filler : Item}

theorem resize_tabulate :
    resize filler (tabulate length item) count =
      tabulate count fun index =>
        if index < length then item index else filler := by
  apply List.ext_getElem
  · simp only [resize, List.length_append, List.length_take, length_tabulate,
      List.length_replicate]
    omega
  · intro index _ inside
    rw [length_tabulate] at inside
    simp only [resize, getElem_tabulate]
    by_cases within : index < length
    · rw [if_pos within, List.getElem_append_left]
      · rw [List.getElem_take, getElem_tabulate]
      · simp only [List.length_take, length_tabulate]
        omega
    · rw [if_neg within, List.getElem_append_right]
      · exact List.getElem_replicate _
      · simp only [List.length_take, length_tabulate]
        omega

theorem overwrite_tabulate
    (some : count ≠ 0) :
    overwrite filler (tabulate length item) place (tabulate count source) =
      tabulate (max length (place + count)) fun index =>
        if place ≤ index ∧ index < place + count then
          source (index - place)
        else if index < length then
          item index
        else
          filler := by
  have nonempty : tabulate count source ≠ [] :=
    fun empty => some (tabulate_eq_nil empty)
  unfold overwrite
  rw [if_neg nonempty, resize_tabulate, List.append_assoc]
  apply List.ext_getElem
  · simp only [List.length_append, List.length_drop, length_tabulate]
    omega
  · intro index _ inside
    rw [length_tabulate] at inside
    rw [getElem_tabulate]
    by_cases before : index < place
    · rw [if_neg (by omega), List.getElem_append_left]
      · rw [getElem_tabulate]
      · rw [length_tabulate]
        exact before
    · rw [List.getElem_append_right]
      · simp only [length_tabulate]
        by_cases behind : index < place + count
        · rw [if_pos (by omega), List.getElem_append_left]
          · rw [getElem_tabulate]
          · rw [length_tabulate]
            omega
        · rw [if_neg (by omega), List.getElem_append_right]
          · simp only [length_tabulate, List.getElem_drop, getElem_tabulate]
            rw [if_pos (by omega)]
            congr 1
            omega
          · rw [length_tabulate]
            omega
      · rw [length_tabulate]
        omega

theorem overwrite_nil
    (items : List Item) :
    overwrite filler items place [] = items :=
  if_pos rfl

theorem window_tabulate :
    window (tabulate length item) place count =
      tabulate (min count (length - place)) fun index =>
        item (place + index) := by
  apply List.ext_getElem
  · simp only [window, List.length_take, List.length_drop, length_tabulate]
  · intro index _ _
    simp only [window, List.getElem_take, List.getElem_drop,
      getElem_tabulate]

@[simp]
theorem length_window
    (items : List Item) :
    (window items place count).length = min count (items.length - place) := by
  simp only [window, List.length_take, List.length_drop]

theorem length_overwrite
    {items written : List Item}
    (some : written ≠ []) :
    (overwrite filler items place written).length =
      max items.length (place + written.length) := by
  unfold overwrite
  rw [if_neg some]
  simp only [resize, List.length_append, List.length_take,
    List.length_replicate, List.length_drop]
  omega

theorem getElem?_window
    (items : List Item)
    (index : Nat) :
    (window items place count)[index]? =
      if index < count then items[place + index]? else none := by
  unfold window
  rw [List.getElem?_take]
  split
  · rw [List.getElem?_drop]
  · rfl

theorem getElem?_overwrite
    {items written : List Item}
    (inside : place ≤ items.length)
    (index : Nat) :
    (overwrite filler items place written)[index]? =
      if place ≤ index ∧ index < place + written.length then
        written[index - place]?
      else
        items[index]? := by
  by_cases nothing : written = []
  · rw [nothing, overwrite_nil, if_neg]
    simp only [List.length_nil]
    omega
  · have isLength : (items.take place).length = place := by
      rw [List.length_take]
      omega
    unfold overwrite resize
    rw [if_neg nothing, Nat.sub_eq_zero_of_le inside, List.replicate_zero,
      List.append_nil, List.append_assoc]
    by_cases before : index < place
    · rw [if_neg (by omega), List.getElem?_append_left (by omega),
        List.getElem?_take_of_lt before]
    · rw [List.getElem?_append_right (by omega), isLength]
      by_cases within : index < place + written.length
      · rw [if_pos ⟨Nat.le_of_not_lt before, within⟩,
          List.getElem?_append_left (by omega)]
      · rw [if_neg (fun both => within both.2),
          List.getElem?_append_right (by omega), List.getElem?_drop]
        congr 1
        omega

theorem window_overwrite
    {items written : List Item}
    (inside : place ≤ items.length) :
    window (overwrite filler items place written) place written.length =
      written := by
  apply List.ext_getElem?
  intro index
  rw [getElem?_window, getElem?_overwrite inside]
  by_cases within : index < written.length
  · rw [if_pos within, if_pos (by omega), Nat.add_sub_cancel_left]
  · rw [if_neg within, List.getElem?_eq_none (by omega)]

theorem window_overwrite_apart
    {items written : List Item}
    {start : Nat}
    (inside : place ≤ items.length)
    (apart : start + count ≤ place ∨ place + written.length ≤ start) :
    window (overwrite filler items place written) start count =
      window items start count := by
  apply List.ext_getElem?
  intro index
  rw [getElem?_window, getElem?_window]
  split
  next within =>
    rw [getElem?_overwrite inside, if_neg (by omega)]
  · rfl

theorem overwrite_overwrite
    (items first second : List Item) :
    overwrite filler (overwrite filler items place first)
        (place + first.length) second =
      overwrite filler items place (first ++ second) := by
  by_cases noFirst : first = []
  · rw [noFirst, overwrite_nil]
    rfl
  by_cases noSecond : second = []
  · rw [noSecond, overwrite_nil, List.append_nil]
  have isPlace : (resize filler items place).length = place := by
    simp only [resize, List.length_append, List.length_take,
      List.length_replicate]
    omega
  have noneBoth : first ++ second ≠ [] := by
    intro isNil
    exact noFirst (List.append_eq_nil_iff.mp isNil).1
  have isLength :
      (resize filler items place ++ first).length = place + first.length := by
    rw [List.length_append, isPlace]
  unfold overwrite
  rw [if_neg noFirst, if_neg noSecond, if_neg noneBoth]
  have isHead :
      resize filler
          (resize filler items place ++ first ++
            items.drop (place + first.length))
          (place + first.length) =
        resize filler items place ++ first := by
    have enough :
        place + first.length -
            (resize filler items place ++ first ++
              items.drop (place + first.length)).length =
          0 := by
      rw [List.length_append, isLength]
      omega
    rw [resize, enough, List.replicate_zero, List.append_nil, ← isLength]
    exact List.take_left
  have isTail :
      (resize filler items place ++ first ++
          items.drop (place + first.length)).drop
            (place + first.length + second.length) =
        items.drop (place + (first ++ second).length) := by
    rw [List.drop_append, isLength, List.drop_eq_nil_of_le (by omega),
      List.nil_append, List.drop_drop, List.length_append]
    congr 1
    omega
  rw [isHead, isTail]
  simp only [List.append_assoc]

theorem overwrite_end
    (items written : List Item) :
    overwrite filler items items.length written = items ++ written := by
  unfold overwrite
  split
  next nothing =>
    rw [nothing, List.append_nil]
  · rw [resize, Nat.sub_self, List.replicate_zero, List.append_nil,
      List.take_length, List.drop_eq_nil_of_le (Nat.le_add_right ..),
      List.append_nil]

theorem resize_of_le
    {items : List Item}
    (short : count ≤ items.length) :
    resize filler items count = items.take count := by
  unfold resize
  rw [Nat.sub_eq_zero_of_le short, List.replicate_zero, List.append_nil]

@[simp]
theorem length_resize
    (items : List Item) :
    (resize filler items count).length = count := by
  simp only [resize, List.length_append, List.length_take,
    List.length_replicate]
  omega

theorem resize_resize
    {items : List Item}
    {more : Nat}
    (enough : items.length ≤ count)
    (further : count ≤ more) :
    resize filler (resize filler items count) more =
      resize filler items more := by
  have isTaken : (resize filler items count).take more =
      resize filler items count := by
    apply List.take_of_length_le
    rw [length_resize]
    exact further
  rw [resize, isTaken, length_resize]
  unfold resize
  rw [List.take_of_length_le enough,
    List.take_of_length_le (Nat.le_trans enough further), List.append_assoc,
    List.replicate_append_replicate]
  congr 2
  omega

theorem overwrite_fillers
    (items : List Item)
    (count : Nat) :
    overwrite filler items items.length (tabulate count fun _ => filler) =
      resize filler items (items.length + count) := by
  have isReplicate :
      tabulate count (fun _ => filler) = List.replicate count filler := by
    unfold tabulate
    rw [List.map_const', List.length_range]
  rw [overwrite_end, isReplicate]
  unfold resize
  rw [List.take_of_length_le (Nat.le_add_right ..), Nat.add_sub_cancel_left]

theorem overwrite_eq_append_iff
    {items written : List Item} :
    overwrite filler items place written = items ++ written ↔
      written = [] ∨ place = items.length := by
  constructor
  · intro appended
    by_cases nothing : written = []
    · exact Or.inl nothing
    · have lengths := congrArg List.length appended
      rw [length_overwrite nothing, List.length_append] at lengths
      have positive := List.length_pos_of_ne_nil nothing
      exact Or.inr (by omega)
  · rintro (nothing | isEnd)
    · rw [nothing, overwrite_nil, List.append_nil]
    · rw [isEnd]
      exact overwrite_end ..

end Files

end MyOS.Lib
