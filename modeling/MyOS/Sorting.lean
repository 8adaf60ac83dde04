import MyOS.Lib.Bytes
import MyOS.Lib.InsertionSort

namespace MyOS

open Lib

/-!
# The sorts of the C and of the C++ library

`qsort` swaps neighbouring objects byte by byte; `std::sort` moves an object
out, moves those behind its place up by one and moves it in again.  Both insert
the objects one after the other.
-/

/-- The loop of `swap_bytes`. -/
def swapBytes (memory : Bytes) (a b : Nat) : Nat → Bytes
  | 0 => memory
  | size + 1 =>
      swapBytes
        (Function.update (Function.update memory a (memory b)) b (memory a))
        (a + 1) (b + 1) size

/-- An object of an array. -/
def objectAt (memory : Bytes) (items size index : Nat) : List UInt8 :=
  memory.slice (items + index * size) size

/-- The inner loop of `qsort`, which goes on until `j` is zero. -/
def qsortInner
    (compar : List UInt8 → List UInt8 → Int)
    (items size : Nat) : Nat → Bytes → Bytes
  | 0, memory => memory
  | j + 1, memory =>
      if compar (objectAt memory items size (j + 1))
          (objectAt memory items size j) < 0 then
        qsortInner compar items size j
          (swapBytes memory (items + (j + 1) * size) (items + j * size) size)
      else
        memory

/-- `qsort`.  The comparison looks at two objects; the null pointer is none. -/
def qsort
    (memory : Bytes)
    (base nmemb size : Nat)
    (compar : Option (List UInt8 → List UInt8 → Int)) : Bytes :=
  match compar with
  | none => memory
  | some compar =>
      if base = 0 ∨ size = 0 then
        memory
      else
        (List.range (nmemb - 1)).foldl
          (fun memory i => qsortInner compar base size (i + 1) memory) memory

/-- The objects of an array. -/
def objects (memory : Bytes) (base nmemb size : Nat) : List (List UInt8) :=
  tabulate nmemb (objectAt memory base size)

section Swapping

variable {memory : Bytes} {a b size place : Nat}

theorem swapBytes_apply
    (apart : a + size ≤ b ∨ b + size ≤ a)
    (place : Nat) :
    swapBytes memory a b size place =
      if a ≤ place ∧ place < a + size then
        memory (b + (place - a))
      else if b ≤ place ∧ place < b + size then
        memory (a + (place - b))
      else
        memory place := by
  induction size generalizing memory a b with
  | zero =>
      rw [if_neg (by omega), if_neg (by omega)]
      rfl
  | succ size inductionHypothesis =>
      unfold swapBytes
      rw [inductionHypothesis (by omega)]
      by_cases inFirst : a ≤ place ∧ place < a + (size + 1)
      · rw [if_pos inFirst]
        by_cases isHead : place = a
        · rw [if_neg (by omega), if_neg (by omega), isHead,
            Function.update_of_ne (by omega), Function.update_self,
            Nat.sub_self, Nat.add_zero]
        · have shifted : b + 1 + (place - (a + 1)) = b + (place - a) := by
            omega
          rw [if_pos (by omega), shifted, Function.update_of_ne (by omega),
            Function.update_of_ne (by omega)]
      · rw [if_neg inFirst, if_neg (by omega)]
        by_cases inSecond : b ≤ place ∧ place < b + (size + 1)
        · rw [if_pos inSecond]
          by_cases isHead : place = b
          · rw [if_neg (by omega), isHead, Function.update_self, Nat.sub_self,
              Nat.add_zero]
          · have shifted : a + 1 + (place - (b + 1)) = a + (place - b) := by
              omega
            rw [if_pos (by omega), shifted, Function.update_of_ne (by omega),
              Function.update_of_ne (by omega)]
        · rw [if_neg inSecond, if_neg (by omega),
            Function.update_of_ne (by omega),
            Function.update_of_ne (by omega)]

theorem objects_apart
    {index other : Nat}
    (different : index < other) :
    place + index * size + size ≤ place + other * size := by
  have less := Nat.mul_le_mul_right size different
  rw [Nat.succ_mul] at less
  omega

theorem objectAt_swapBytes
    {items j : Nat}
    (index : Nat) :
    objectAt (swapBytes memory (items + (j + 1) * size) (items + j * size) size)
        items size index =
      Function.update
        (Function.update (objectAt memory items size) (j + 1)
          (objectAt memory items size j)) j
        (objectAt memory items size (j + 1)) index := by
  have apart := @objects_apart size items j (j + 1) (Nat.lt_succ_self j)
  have swapped := @swapBytes_apply memory (items + (j + 1) * size)
    (items + j * size) size (Or.inr apart)
  by_cases isUpper : index = j + 1
  · rw [isUpper, Function.update_of_ne (by omega), Function.update_self]
    apply Bytes.slice_congr
    intro place inside
    rw [swapped, if_pos (by omega), Nat.add_sub_cancel_left]
  by_cases isLower : index = j
  · rw [isLower, Function.update_self]
    apply Bytes.slice_congr
    intro place inside
    rw [swapped, if_neg (by omega), if_pos (by omega),
      Nat.add_sub_cancel_left]
  · rw [Function.update_of_ne isLower, Function.update_of_ne isUpper]
    apply Bytes.slice_congr
    intro place inside
    rw [swapped]
    rcases Nat.lt_or_gt_of_ne isLower with below | above
    · have under := @objects_apart size items index j below
      rw [if_neg (by omega), if_neg (by omega)]
    · have beyond := @objects_apart size items (j + 1) index (by omega)
      rw [if_neg (by omega), if_neg (by omega)]

end Swapping

section Qsort

variable {compar : List UInt8 → List UInt8 → Int}
variable {memory : Bytes} {base nmemb size : Nat}

/-- What `qsort` makes of a comparison. -/
def comesBefore
    (compar : List UInt8 → List UInt8 → Int)
    (object other : List UInt8) : Bool :=
  decide (compar object other < 0)

theorem objectAt_qsortInner (j : Nat) :
    objectAt (qsortInner compar base size j memory) base size =
      sink (comesBefore compar) j (objectAt memory base size) := by
  induction j generalizing memory with
  | zero =>
      rfl
  | succ j inductionHypothesis =>
      unfold qsortInner sink comesBefore
      by_cases isLess :
          compar (objectAt memory base size (j + 1))
            (objectAt memory base size j) < 0
      · rw [if_pos isLess, if_pos (decide_eq_true isLess),
          inductionHypothesis]
        congr 1
        funext index
        exact objectAt_swapBytes index
      · rw [if_neg isLess, if_neg (by simpa using isLess)]

theorem qsortInner_outside
    {j place : Nat}
    (outside : place < base ∨ base + (j + 1) * size ≤ place) :
    qsortInner compar base size j memory place = memory place := by
  induction j generalizing memory with
  | zero =>
      rfl
  | succ j inductionHypothesis =>
      have grows : (j + 1 + 1) * size = (j + 1) * size + size :=
        Nat.succ_mul (j + 1) size
      have grew : (j + 1) * size = j * size + size := Nat.succ_mul j size
      have apart := @objects_apart size base j (j + 1) (Nat.lt_succ_self j)
      unfold qsortInner
      split
      · rw [inductionHypothesis (by omega), swapBytes_apply (Or.inr apart),
          if_neg (by omega), if_neg (by omega)]
      · rfl

theorem qsortOuter (count : Nat) :
    let after :=
      (List.range count).foldl
        (fun memory i => qsortInner compar base size (i + 1) memory) memory
    objectAt after base size =
        sinkEach (comesBefore compar) (objectAt memory base size) (count + 1) ∧
      ∀ place, place < base ∨ base + (count + 1) * size ≤ place →
        after place = memory place := by
  induction count with
  | zero =>
      exact ⟨rfl, fun _ _ => rfl⟩
  | succ count inductionHypothesis =>
      obtain ⟨sorted, frame⟩ := inductionHypothesis
      have grows : (count + 1 + 1) * size = (count + 1) * size + size :=
        Nat.succ_mul (count + 1) size
      dsimp only at sorted frame ⊢
      rw [List.range_succ, List.foldl_append, List.foldl_cons, List.foldl_nil]
      constructor
      · rw [objectAt_qsortInner, sorted]
        rfl
      · intro place outside
        rw [qsortInner_outside outside, frame place (by omega)]

/-- A comparison that is an order: it tells of no two objects that each is
less, and what is not less than an object is not less than those that this one
is not less than. -/
def Consistent (compar : List UInt8 → List UInt8 → Int) : Prop :=
  (∀ object other, 0 ≤ compar object other ∨ 0 ≤ compar other object) ∧
    ∀ object other last, 0 ≤ compar object other → 0 ≤ compar other last →
      0 ≤ compar object last

theorem mayFollow_iff
    {object other : List UInt8} :
    MayFollow (comesBefore compar) object other ↔ 0 ≤ compar object other := by
  simp [MayFollow, comesBefore]

theorem Consistent.isOrder
    (consistent : Consistent compar) :
    IsOrder (comesBefore compar) where
  total := fun object other => by
    rw [mayFollow_iff, mayFollow_iff]
    exact consistent.1 object other
  trans := by
    intro object other last
    rw [mayFollow_iff, mayFollow_iff, mayFollow_iff]
    exact consistent.2 object other last

theorem qsort_inserts
    (isArray : base ≠ 0)
    (someSize : size ≠ 0) :
    objects (qsort memory base nmemb size (some compar)) base nmemb size =
        insertEach (comesBefore compar) (objects memory base nmemb size) ∧
      ∀ place, place < base ∨ base + nmemb * size ≤ place →
        qsort memory base nmemb size (some compar) place = memory place := by
  unfold qsort objects
  dsimp only
  rw [if_neg (by simp [isArray, someSize])]
  cases nmemb with
  | zero =>
      exact ⟨rfl, fun _ _ => rfl⟩
  | succ count =>
      obtain ⟨sorted, frame⟩ :=
        @qsortOuter compar memory base size count
      exact ⟨by rw [Nat.add_sub_cancel, sorted, sinkEach_inserts], frame⟩

/-- Whatever the comparison is, `qsort` permutes the objects of the array and
touches nothing else; if the comparison is consistent, the objects are sorted
afterwards, and those that were in order already have kept their order. -/
theorem qsort_sorts
    (memory : Bytes)
    (compar : List UInt8 → List UInt8 → Int)
    (isArray : base ≠ 0)
    (someSize : size ≠ 0) :
    let after := qsort memory base nmemb size (some compar)
    (objects after base nmemb size).Perm (objects memory base nmemb size) ∧
      (∀ place, place < base ∨ base + nmemb * size ≤ place →
        after place = memory place) ∧
      (Consistent compar →
        (objects after base nmemb size).Pairwise
            (fun first second => 0 ≤ compar second first) ∧
          ∀ kept : List (List UInt8),
            kept.Pairwise (fun first second => 0 ≤ compar second first) →
            kept.Sublist (objects memory base nmemb size) →
              kept.Sublist (objects after base nmemb size)) := by
  obtain ⟨inserts, frame⟩ :=
    @qsort_inserts compar memory base nmemb size isArray someSize
  dsimp only
  rw [inserts]
  refine ⟨insertEach_perm _, frame, ?_⟩
  intro consistent
  simp only [← mayFollow_iff]
  exact ⟨insertEach_sorted consistent.isOrder _,
    fun kept sorted sublist => insertEach_stable sorted sublist⟩

/-- Single bytes are compared as numbers. -/
def compareBytes (object other : List UInt8) : Int :=
  (object.headD 0).toNat - (other.headD 0).toNat

/-- Two bytes at address 1 are sorted. -/
theorem qsort_sorts_bytes :
    let memory := Bytes.ofList [0, 2, 1]
    let after := qsort memory 1 2 1 (some compareBytes)
    (objects after 1 2 1).Perm [[2], [1]] ∧
      (∀ place, place < 1 ∨ 1 + 2 * 1 ≤ place →
        after place = memory place) ∧
      (Consistent compareBytes →
        (objects after 1 2 1).Pairwise
            (fun first second => 0 ≤ compareBytes second first) ∧
          ∀ kept : List (List UInt8),
            kept.Pairwise (fun first second =>
              0 ≤ compareBytes second first) →
            kept.Sublist [[2], [1]] →
              kept.Sublist (objects after 1 2 1)) :=
  @qsort_sorts 1 2 1 (Bytes.ofList [0, 2, 1]) compareBytes (by decide)
    (by decide)

end Qsort

section StdSort

variable {T : Type}

/-- The inner loop of `sort`: the place that it stops at, and the objects.
`moved` is what a move leaves behind. -/
def stdSortInner
    (comp : T → T → Bool)
    (moved : T → T)
    (value : T) : Nat → (Nat → T) → Nat × (Nat → T)
  | 0, item => (0, item)
  | pos + 1, item =>
      if comp value (item pos) then
        stdSortInner comp moved value pos
          (Function.update
            (Function.update item (pos + 1) (item pos)) pos (moved (item pos)))
      else
        (pos + 1, item)

/-- A round of `sort`, for the object at `it`. -/
def stdSortRound
    (comp : T → T → Bool)
    (moved : T → T)
    (it : Nat)
    (item : Nat → T) : Nat → T :=
  let stopped :=
    stdSortInner comp moved (item it) it
      (Function.update item it (moved (item it)))
  Function.update stopped.2 stopped.1 (item it)

/-- `sort`, from `first` on. -/
def stdSort
    (comp : T → T → Bool)
    (moved : T → T)
    (item : Nat → T)
    (count : Nat) : Nat → T :=
  (List.range (count - 1)).foldl
    (fun item i => stdSortRound comp moved (i + 1) item) item

variable {comp : T → T → Bool} {moved : T → T}

theorem stdSortInner_eq
    {value : T}
    {pos : Nat}
    {item : Nat → T} :
    Function.update (stdSortInner comp moved value pos item).2
        (stdSortInner comp moved value pos item).1 value =
      sink comp pos (Function.update item pos value) := by
  induction pos generalizing item with
  | zero =>
      rfl
  | succ pos inductionHypothesis =>
      have isNeighbour :
          Function.update item (pos + 1) value pos = item pos :=
        Function.update_of_ne (by omega) _ _
      unfold stdSortInner sink
      rw [Function.update_self, isNeighbour]
      cases passes : comp value (item pos) with
      | true =>
          rw [if_pos rfl, if_pos rfl, inductionHypothesis,
            Function.update_idem, Function.update_idem]
      | false =>
          rw [if_neg Bool.false_ne_true, if_neg Bool.false_ne_true]

theorem stdSortRound_eq
    (it : Nat)
    (item : Nat → T) :
    stdSortRound comp moved it item = sink comp it item := by
  unfold stdSortRound
  dsimp only
  rw [stdSortInner_eq, Function.update_idem, Function.update_eq_self]

theorem stdSort_eq
    (item : Nat → T)
    (count : Nat) :
    stdSort comp moved item (count + 1) = sinkEach comp item (count + 1) := by
  unfold stdSort
  rw [Nat.add_sub_cancel]
  induction count with
  | zero =>
      rfl
  | succ count inductionHypothesis =>
      rw [List.range_succ, List.foldl_append, List.foldl_cons, List.foldl_nil,
        inductionHypothesis, stdSortRound_eq]
      rfl

/-- Whatever a move leaves behind and whatever the comparison is, `sort`
permutes the objects of the range and touches no others; if the comparison is an
order, the objects are sorted afterwards, and those that were in order already
have kept their order. -/
theorem stdSort_sorts
    (comp : T → T → Bool)
    (moved : T → T)
    (item : Nat → T)
    (count : Nat) :
    let after := stdSort comp moved item count
    (tabulate count after).Perm (tabulate count item) ∧
      (∀ place, count ≤ place → after place = item place) ∧
      (IsOrder comp →
        (tabulate count after).Pairwise
            (fun first second => comp second first = false) ∧
          ∀ kept : List T,
            kept.Pairwise (fun first second => comp second first = false) →
            kept.Sublist (tabulate count item) →
              kept.Sublist (tabulate count after)) := by
  cases count with
  | zero =>
      exact ⟨List.Perm.refl _, fun _ _ => rfl, fun _ =>
        ⟨List.Pairwise.nil, fun _ _ sublist => sublist⟩⟩
  | succ count =>
      dsimp only
      rw [stdSort_eq, sinkEach_inserts]
      refine ⟨insertEach_perm _, fun place behind => sinkEach_behind behind, ?_⟩
      intro isOrder
      exact ⟨insertEach_sorted isOrder _,
        fun kept sorted sublist => insertEach_stable sorted sublist⟩

end StdSort

end MyOS
