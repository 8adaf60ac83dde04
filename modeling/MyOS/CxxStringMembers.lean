import Mathlib.Data.List.TakeWhile
import MyOS.CxxString

namespace MyOS

open Lib

/-!
# What the member functions of a string do

A member function leaves the string with its characters and a null byte behind
them.  A text that it is given counts up to its first null byte, and has to be
there still when it is copied.
-/

section Texts

variable {arena later : Chars} {text : TextPointer}
variable {items chars : List UInt8}

/-- The pointer is one to a C string. -/
structure IsText
    (arena : Chars)
    (text : TextPointer)
    (chars : List UInt8) : Prop where
  plain : 0 ∉ chars
  read : ∀ i, i < chars.length → readText arena text i = chars[i]?
  ends : readText arena text chars.length = some 0
  extent : chars.length < textExtent arena text

theorem cText_beginning (items : List UInt8) : cText items <+: items :=
  List.takeWhile_prefix _

theorem cText_plain (items : List UInt8) : 0 ∉ cText items := by
  intro member
  have isPlain := List.mem_takeWhile_imp member
  simp at isPlain

theorem cText_eq_self_iff : cText items = items ↔ 0 ∉ items := by
  constructor
  · intro same
    rw [← same]
    exact cText_plain items
  · intro plain
    apply List.takeWhile_eq_self_iff.mpr
    intro c member
    rw [decide_eq_true_eq]
    rintro rfl
    exact plain member

theorem cText_ends (items : List UInt8) :
    (items ++ [0])[(cText items).length]? = some 0 := by
  induction items with
  | nil => rfl
  | cons c items inductionHypothesis =>
      unfold cText at inductionHypothesis ⊢
      rw [List.takeWhile_cons]
      by_cases isNull : c = 0
      · rw [if_neg (by simpa using isNull), isNull]
        rfl
      · rw [if_pos (by simpa using isNull)]
        exact inductionHypothesis

theorem isText_of_read
    (read :
      ∀ i, i ≤ items.length → readText arena text i = (items ++ [0])[i]?)
    (extent : items.length < textExtent arena text) :
    IsText arena text (cText items) := by
  have isPrefix := cText_beginning items
  have shorter := isPrefix.length_le
  refine ⟨cText_plain items, ?_, ?_, Nat.lt_of_le_of_lt shorter extent⟩
  · intro i inside
    rw [read i (by omega), List.getElem?_append_left (by omega)]
    obtain ⟨rest, isAll⟩ := isPrefix
    conv => lhs; rw [← isAll]
    exact List.getElem?_append_left inside
  · rw [read _ shorter]
    exact cText_ends items

theorem isText_outside (arena : Chars) (items : List UInt8) :
    IsText arena (.outside items) (cText items) := by
  apply isText_of_read
  · intro i inside
    change (if i = items.length then some 0 else items[i]?) = _
    by_cases last : i = items.length
    · rw [if_pos last, last]
      simp
    · rw [if_neg last, List.getElem?_append_left (by omega)]
  · exact Nat.lt_succ_self _

theorem IsText.congr
    (isText : IsText arena text chars)
    (same : ∀ b, text = .inside b → later.buffers b = arena.buffers b) :
    IsText later text chars := by
  have sameRead : ∀ i, readText later text i = readText arena text i := by
    intro i
    cases text with
    | null => rfl
    | outside items => rfl
    | inside b =>
        dsimp only [readText, Arena.read, Option.bind_some]
        rw [same b rfl]
  have sameExtent : textExtent later text = textExtent arena text := by
    cases text with
    | null => rfl
    | outside items => rfl
    | inside b =>
        dsimp only [textExtent]
        rw [same b rfl]
  refine ⟨isText.plain, ?_, ?_, ?_⟩
  · intro i inside
    rw [sameRead]
    exact isText.read i inside
  · rw [sameRead]
    exact isText.ends
  · rw [sameExtent]
    exact isText.extent

theorem IsText.not_null
    (isText : IsText arena text chars) :
    text ≠ .null := by
  rintro rfl
  exact absurd isText.ends (Option.some_ne_none _).symm

theorem cstrLenLoop_eq
    {rounds len : Nat}
    (isText : IsText arena text chars)
    (before : len ≤ chars.length)
    (enough : chars.length < len + rounds) :
    cstrLenLoop arena text rounds len = some chars.length := by
  induction rounds generalizing len with
  | zero => omega
  | succ rounds inductionHypothesis =>
      unfold cstrLenLoop
      by_cases last : len = chars.length
      · rw [last, isText.ends, Option.bind_some, if_pos rfl]
      · have inside : len < chars.length := by omega
        rw [isText.read len inside, List.getElem?_eq_getElem inside,
          Option.bind_some, if_neg, inductionHypothesis (by omega) (by omega)]
        intro isNull
        exact isText.plain (isNull ▸ List.getElem_mem inside)

theorem IsText.cstrLen_eq
    (isText : IsText arena text chars) :
    cstrLen arena text = some chars.length := by
  unfold cstrLen
  rw [if_neg isText.not_null]
  exact cstrLenLoop_eq isText (Nat.zero_le _) (by
    rw [Nat.zero_add]
    exact isText.extent)

theorem copyCharacters_spec
    {b capacity rounds i : Nat}
    {start : Chars}
    {first : List UInt8}
    (left : i + rounds = chars.length)
    (room : first.length + chars.length ≤ capacity)
    (source :
      ∀ middle : Chars,
        (∀ other, other ≠ b →
          middle.buffers other = start.buffers other) →
        middle.Begins b capacity first →
          ∀ i, i < chars.length → readText middle text i = chars[i]?)
    (others : ∀ other, other ≠ b → arena.buffers other = start.buffers other)
    (begins : arena.Begins b capacity (first ++ chars.take i)) :
    ∃ later,
      copyCharacters text (some b) first.length rounds i arena =
          some later ∧
        later.Begins b capacity (first ++ chars) ∧
        (∀ other, other ≠ b →
          later.buffers other = start.buffers other) ∧
        later.next = arena.next := by
  induction rounds generalizing i arena with
  | zero =>
      have all : chars.length ≤ i := Nat.le_of_eq left.symm
      rw [List.take_of_length_le all] at begins
      exact ⟨arena, rfl, begins, others, rfl⟩
  | succ rounds inductionHypothesis =>
      have inside : i < chars.length := by omega
      have isThere :=
        source arena others (begins.shorter (List.prefix_append _ _)) i inside
      rw [List.getElem?_eq_getElem inside] at isThere
      have length : (first ++ chars.take i).length = first.length + i := by
        rw [List.length_append, List.length_take]
        omega
      obtain ⟨put, stores, isPut, putOther, putNext⟩ :=
        begins.store chars[i] (by omega)
      rw [List.append_assoc, ← List.take_succ_eq_append_getElem inside]
        at isPut
      obtain ⟨later, copies, isLater, laterOther, laterNext⟩ :=
        inductionHypothesis (by omega)
          (fun other different =>
            (putOther other different).trans (others other different)) isPut
      refine ⟨later, ?_, isLater, laterOther, laterNext.trans putNext⟩
      unfold copyCharacters
      rw [isThere, Option.bind_some]
      rw [length] at stores
      rw [stores, Option.bind_some]
      exact copies

end Texts

/-- The string has these characters, in a buffer of its own with a null byte
behind them, or none and no buffer. -/
structure StringOk
    (arena : Chars)
    (v : BufferFields)
    (items : List UInt8) : Prop where
  size : v.size = items.length
  data :
    v.data = none ∧ v.capacity = 0 ∧ items = [] ∨
      ∃ b, v.data = some b ∧ b < arena.next ∧
        arena.Begins b v.capacity (items ++ [0])

/-- A member function works: it comes to an end without an undefined operation,
and leaves these characters. -/
def StringWorks
    (member : BufferFields → Chars → Option (BufferFields × Chars))
    (arena : Chars)
    (v : BufferFields)
    (items : List UInt8) : Prop :=
  ∃ after later,
    member v arena = some (after, later) ∧
      StringOk later after items ∧
      OwnerEffect arena later v after

section Members

variable {arena later : Chars} {v after other : BufferFields}
variable {items theirs chars : List UInt8} {text : TextPointer}

theorem stringOk_represents : Represents StringOk where
  owned := by
    intro arena v items b ok isData
    rcases ok.data with ⟨none, _⟩ | ⟨own, isOwn, old, _⟩
    · rw [none] at isData
      cases isData
    · rw [isData] at isOwn
      rw [Option.some.inj isOwn]
      exact old
  frame := by
    intro arena later v items ok next same
    refine ⟨ok.size, ?_⟩
    rcases ok.data with isNone | ⟨b, isData, old, begins⟩
    · exact Or.inl isNone
    · exact Or.inr ⟨b, isData, Nat.lt_of_lt_of_le old next,
        begins.congr (same b isData)⟩
  empty := fun _ => ⟨rfl, Or.inl ⟨rfl, rfl, rfl⟩⟩

theorem StringOk.room
    {b : Nat}
    (ok : StringOk arena v items)
    (isData : v.data = some b) :
    v.size < v.capacity := by
  rcases ok.data with ⟨none, _⟩ | ⟨_, _, _, begins⟩
  · rw [none] at isData
    cases isData
  · have room := begins.room
    rw [List.length_append, List.length_singleton] at room
    rw [ok.size]
    exact room

theorem StringOk.unique
    (ok : StringOk arena v items)
    (also : StringOk arena v theirs) :
    items = theirs := by
  have length := ok.size.symm.trans also.size
  rcases ok.data with ⟨isNone, _, isNil⟩ | ⟨b, isData, _, begins⟩
  · subst isNil
    exact (List.length_eq_zero_iff.mp length.symm).symm
  · rcases also.data with ⟨isNone, _⟩ | ⟨c, isAlso, _, alsoBegins⟩
    · rw [isNone] at isData
      cases isData
    · rw [isData] at isAlso
      rw [← Option.some.inj isAlso] at alsoBegins
      exact List.append_cancel_right
        (begins.unique alsoBegins (by
          rw [List.length_append, List.length_append, length]))

theorem StringOk.read
    {i : Nat}
    (ok : StringOk arena v items)
    (inside : i < items.length) :
    arena.read v.data i = items[i]? := by
  rcases ok.data with ⟨_, _, isNil⟩ | ⟨b, isData, _, begins⟩
  · rw [isNil] at inside
    exact absurd inside (Nat.not_lt_zero i)
  · rw [isData, begins.read (by
        rw [List.length_append]
        omega),
      List.getElem?_append_left inside]

theorem StringOk.cStr
    (ok : StringOk arena v items) :
    IsText arena (cStr v) (cText items) := by
  unfold MyOS.cStr
  rcases ok.data with ⟨isNone, _, isNil⟩ | ⟨b, isData, _, begins⟩
  · rw [isNone, isNil]
    exact isText_outside arena []
  · rw [isData]
    have room := begins.room
    rw [List.length_append, List.length_singleton] at room
    apply isText_of_read
    · intro i inside
      change arena.read (some b) i = _
      apply begins.read
      rw [List.length_append, List.length_singleton]
      omega
    · obtain ⟨_, slots, isBuffer, _⟩ := begins
      change _ < ((arena.buffers b).map SlotBuffer.capacity).getD 0
      rw [isBuffer]
      exact room

theorem stringReserve_works
    (capacity : Nat)
    (ok : StringOk arena v items) :
    ∃ after later,
      stringReserve capacity v arena = some (after, later) ∧
        StringOk later after items ∧
        OwnerEffect arena later v after ∧
        capacity ≤ after.capacity ∧
        (capacity ≤ v.capacity → after = v ∧ later = arena) ∧
        (v.capacity < capacity →
          ∀ b, v.data = some b → later.buffers b = none) := by
  unfold stringReserve
  by_cases enough : capacity ≤ v.capacity
  · rw [if_pos enough]
    exact ⟨v, arena, rfl, ok, OwnerEffect.refl, enough, fun _ => ⟨rfl, rfl⟩,
      fun less => absurd enough (Nat.not_le_of_lt less)⟩
  rw [if_neg enough]
  have size := ok.size
  have isNew : ∀ b, b ≠ arena.next →
      (arena.allocate capacity).buffers b = arena.buffers b :=
    fun b different => Function.update_of_ne different _ _
  have fits : items.length < capacity := by
    rcases ok.data with ⟨_, _, isNil⟩ | ⟨b, isData, _, _⟩
    · rw [isNil]
      change 0 < capacity
      omega
    · have room := ok.room isData
      omega
  have source :
      ∀ middle : Chars,
        (∀ other, other ≠ arena.next →
          middle.buffers other =
            (arena.allocate capacity).buffers other) →
        middle.Begins arena.next capacity [] →
          ∀ i, i < items.length →
            readText middle (stringData v) i = items[i]? := by
    intro middle others _ i inside
    rw [← ok.read inside]
    unfold stringData
    rcases ok.data with ⟨_, _, isNil⟩ | ⟨b, isData, old, _⟩
    · rw [isNil] at inside
      exact absurd inside (Nat.not_lt_zero i)
    · have different := Nat.ne_of_lt old
      rw [isData]
      dsimp only [readText, Arena.read, Option.bind_some]
      rw [others b different, isNew b different]
  obtain ⟨filled, copies, isFilled, filledOther, filledNext⟩ :=
    copyCharacters_spec (i := 0) (Nat.zero_add _)
      (by rw [List.length_nil]; omega) source
      (fun _ _ => rfl) (Arena.begins_allocate arena capacity)
  rw [List.nil_append] at isFilled
  rw [List.length_nil] at copies
  obtain ⟨ended, stores, isEnded, endedOther, endedNext⟩ :=
    isFilled.store 0 fits
  rw [size, copies, Option.bind_some, stores, Option.bind_some]
  have nextEq : ended.next = arena.next + 1 :=
    endedNext.trans filledNext
  have unchanged :
      ∀ b, b ≠ arena.next → ended.buffers b = arena.buffers b := by
    intro b different
    rw [endedOther b different, filledOther b different, isNew b different]
  have isLast :
      ∀ last : Chars,
        last.next = ended.next →
        last.buffers arena.next = ended.buffers arena.next →
          StringOk last ⟨some arena.next, items.length, capacity⟩ items :=
    fun last sameNext same =>
      ⟨rfl, Or.inr ⟨arena.next, rfl, by omega, isEnded.congr same⟩⟩
  rcases ok.data with ⟨isNone, noRoom, isNil⟩ | ⟨b, isData, old, begins⟩
  · refine ⟨_, ended, by rw [isNone]; rfl, isLast ended rfl rfl,
      ⟨by omega, Or.inr (Or.inr ⟨_, rfl, Nat.le_refl _⟩),
        fun b old _ => unchanged b (Nat.ne_of_lt old)⟩, Nat.le_refl _,
      fun less => absurd less enough, ?_⟩
    intro _ b isData
    rw [isNone] at isData
    cases isData
  · have different := Nat.ne_of_lt old
    obtain ⟨last, deletes, isGone, lastOther, lastNext⟩ :=
      (begins.congr (unchanged b different)).delete
    refine ⟨_, last, by rw [isData, deletes]; rfl,
      isLast last lastNext (lastOther _ different.symm),
      ⟨by omega, Or.inr (Or.inr ⟨_, rfl, Nat.le_refl _⟩), ?_⟩,
      Nat.le_refl _, fun less => absurd less enough, ?_⟩
    · intro other isOlder notOwn
      rw [lastOther other (by rintro rfl; exact notOwn isData),
        unchanged other (Nat.ne_of_lt isOlder)]
    · intro _ own isOwn
      rw [isData] at isOwn
      rw [← Option.some.inj isOwn]
      exact isGone

/-- A text is in no buffer of this string, and in none that is to come. -/
def TextApart
    (arena : Chars)
    (text : TextPointer)
    (v : BufferFields) : Prop :=
  ∀ b, text = .inside b → b < arena.next ∧ v.data ≠ some b

theorem StringOk.textApart
    (otherOk : StringOk arena other theirs)
    (apart : ∀ b, other.data = some b → v.data ≠ some b) :
    TextApart arena (MyOS.cStr other) v := by
  intro b isInside
  have isData : other.data = some b := by
    unfold MyOS.cStr at isInside
    split at isInside
    · cases isInside
    · next isData =>
        rw [isData]
        exact congrArg some (TextPointer.inside.inj isInside)
  exact ⟨stringOk_represents.owned otherOk isData, apart b isData⟩

theorem copyCharacters_works
    {b : Nat}
    (ok : StringOk arena v items)
    (isData : v.data = some b)
    (room : v.size + chars.length + 1 ≤ v.capacity)
    (source :
      ∀ middle : Chars,
        (∀ other, other ≠ b →
          middle.buffers other = arena.buffers other) →
        middle.Begins b v.capacity items →
          ∀ i, i < chars.length → readText middle text i = chars[i]?) :
    ∃ filled later,
      copyCharacters text v.data v.size chars.length 0 arena =
          some filled ∧
        filled.store v.data (v.size + chars.length) 0 = some later ∧
        StringOk later ⟨v.data, v.size + chars.length, v.capacity⟩
          (items ++ chars) ∧
        OwnerEffect arena later v
          ⟨v.data, v.size + chars.length, v.capacity⟩ := by
  have size := ok.size
  rcases ok.data with ⟨isNone, _⟩ | ⟨own, isOwn, old, begins⟩
  · rw [isNone] at isData
    cases isData
  rw [isData] at isOwn
  rw [← Option.some.inj isOwn] at old begins
  obtain ⟨filled, copies, isFilled, filledOther, filledNext⟩ :=
    copyCharacters_spec (Nat.zero_add _) (by omega) source
      (fun _ _ => rfl) (begins.shorter (by
        rw [List.take_zero, List.append_nil]
        exact List.prefix_append _ _))
  obtain ⟨later, stores, isLater, laterOther, laterNext⟩ :=
    isFilled.store 0 (by rw [List.length_append]; omega)
  rw [List.length_append] at stores
  refine ⟨filled, later, ?_, ?_, ⟨?_, Or.inr ⟨b, isData, ?_, isLater⟩⟩, ?_⟩
  · rw [isData, size]
    exact copies
  · rw [isData, size]
    exact stores
  · rw [List.length_append]
    change v.size + _ = _
    rw [size]
  · omega
  · refine OwnerEffect.inPlace isData isData ?_ (by omega)
    intro other different
    rw [laterOther other different, filledOther other different]

theorem stringAppend_works
    (ok : StringOk arena v items)
    (isText : IsText arena text chars)
    (apart : TextApart arena text v) :
    StringWorks (stringAppend text) arena v (items ++ chars) := by
  obtain ⟨next, between, reserves, nextOk, effect, room, _, _⟩ :=
    stringReserve_works (v.size + chars.length + 1) ok
  have size : next.size = v.size := nextOk.size.trans ok.size.symm
  have isData : ∃ b, next.data = some b := by
    rcases nextOk.data with ⟨_, noRoom, _⟩ | ⟨b, isData, _⟩
    · omega
    · exact ⟨b, isData⟩
  obtain ⟨b, isData⟩ := isData
  have stillText :
      ∀ middle : Chars,
        (∀ other, other ≠ b →
          middle.buffers other = between.buffers other) →
        middle.Begins b next.capacity items →
          ∀ i, i < chars.length → readText middle text i = chars[i]? := by
    intro middle others _
    apply IsText.read
    apply isText.congr
    intro own isOwn
    obtain ⟨old, notOwn⟩ := apart own isOwn
    have different : own ≠ b := by
      rintro rfl
      exact effect.disjoint old notOwn isData
    rw [others own different, effect.frame own old notOwn]
  obtain ⟨filled, later, copies, stores, isOk, lastEffect⟩ :=
    copyCharacters_works nextOk isData (by omega) stillText
  refine ⟨_, later, ?_, isOk, effect.trans lastEffect⟩
  unfold stringAppend
  rw [if_neg isText.not_null, isText.cstrLen_eq, Option.bind_some, reserves,
    Option.bind_some]
  dsimp only
  rw [copies, Option.bind_some, stores]
  rfl

theorem stringAppend_self
    (ok : StringOk arena v items)
    (fits : v.size + (cText items).length + 1 ≤ v.capacity) :
    StringWorks (stringAppend (cStr v)) arena v (items ++ cText items) := by
  have isText := ok.cStr
  obtain ⟨next, between, reserves, _, _, _, same, _⟩ :=
    stringReserve_works (v.size + (cText items).length + 1) ok
  obtain ⟨rfl, rfl⟩ := same fits
  have isData : ∃ b, next.data = some b := by
    rcases ok.data with ⟨_, noRoom, _⟩ | ⟨b, isData, _⟩
    · omega
    · exact ⟨b, isData⟩
  obtain ⟨b, isData⟩ := isData
  have stillText :
      ∀ middle : Chars,
        (∀ other, other ≠ b →
          middle.buffers other = between.buffers other) →
        middle.Begins b next.capacity items →
          ∀ i, i < (cText items).length →
            readText middle (cStr next) i = (cText items)[i]? := by
    intro middle _ begins i inside
    obtain ⟨rest, isAll⟩ := cText_beginning items
    have shorter := (cText_beginning items).length_le
    unfold cStr
    rw [isData]
    change middle.read (some b) i = _
    rw [begins.read (by omega)]
    conv => lhs; rw [← isAll]
    exact List.getElem?_append_left inside
  obtain ⟨filled, later, copies, stores, isOk, lastEffect⟩ :=
    copyCharacters_works ok isData fits stillText
  refine ⟨_, later, ?_, isOk, lastEffect⟩
  unfold stringAppend
  rw [if_neg isText.not_null, isText.cstrLen_eq, Option.bind_some, reserves,
    Option.bind_some]
  dsimp only
  rw [copies, Option.bind_some, stores]
  rfl

theorem stringAppend_dangling
    (ok : StringOk arena v items)
    (some_ : cText items ≠ [])
    (less : v.capacity < v.size + (cText items).length + 1) :
    stringAppend (cStr v) v arena = none := by
  have isText := ok.cStr
  obtain ⟨next, between, reserves, _, _, _, _, gone⟩ :=
    stringReserve_works (v.size + (cText items).length + 1) ok
  rcases ok.data with ⟨_, _, isNil⟩ | ⟨b, isData, _⟩
  · rw [isNil] at some_
    exact absurd rfl some_
  have isGone := gone less b isData
  unfold stringAppend
  rw [if_neg isText.not_null, isText.cstrLen_eq, Option.bind_some, reserves,
    Option.bind_some]
  obtain ⟨first, rest, isCons⟩ := List.exists_cons_of_ne_nil some_
  rw [isCons, List.length_cons]
  unfold copyCharacters cStr
  rw [isData]
  dsimp only [readText, Arena.read, Option.bind_some]
  rw [isGone]
  rfl

theorem stringPushBack_works
    (ch : UInt8)
    (ok : StringOk arena v items) :
    StringWorks (stringPushBack ch) arena v (items ++ [ch]) := by
  obtain ⟨next, between, reserves, nextOk, effect, room, _, _⟩ :=
    stringReserve_works (v.size + 2) ok
  have size : next.size = v.size := nextOk.size.trans ok.size.symm
  have nextSize := nextOk.size
  rcases nextOk.data with ⟨_, noRoom, _⟩ | ⟨b, isData, old, begins⟩
  · omega
  obtain ⟨put, stores, isPut, putOther, putNext⟩ :=
    (begins.shorter (List.prefix_append items [0])).store ch (by omega)
  obtain ⟨later, ends, isLater, laterOther, laterNext⟩ :=
    isPut.store 0 (by
      rw [List.length_append, List.length_singleton]
      omega)
  rw [List.length_append, List.length_singleton] at ends
  refine ⟨⟨next.data, next.size + 1, next.capacity⟩, later, ?_,
    ⟨?_, Or.inr ⟨b, isData, by omega, isLater⟩⟩, effect.trans ?_⟩
  · unfold stringPushBack
    rw [reserves, Option.bind_some]
    dsimp only
    rw [isData, nextSize, stores, Option.bind_some, ends]
    rfl
  · rw [List.length_append, List.length_singleton]
    change next.size + 1 = _
    rw [nextSize]
  · refine OwnerEffect.inPlace isData isData ?_ (by omega)
    intro other different
    rw [laterOther other different, putOther other different]

theorem stringClear_works
    (ok : StringOk arena v items) :
    StringWorks stringClear arena v [] := by
  unfold StringWorks stringClear
  rcases ok.data with ⟨isNone, noRoom, isNil⟩ | ⟨b, isData, old, begins⟩
  · rw [isNone]
    refine ⟨_, arena, rfl, ⟨rfl, Or.inl ⟨rfl, noRoom, rfl⟩⟩,
      ⟨Nat.le_refl _, Or.inr (Or.inl rfl), fun _ _ _ => rfl⟩⟩
  · have room := ok.room isData
    obtain ⟨later, stores, isLater, laterOther, laterNext⟩ :=
      (begins.shorter List.nil_prefix).store 0 (by
        rw [List.length_nil]
        omega)
    rw [List.length_nil] at stores
    rw [isData]
    dsimp only
    rw [stores]
    refine ⟨_, later, rfl, ⟨rfl, Or.inr ⟨b, rfl, by omega, isLater⟩⟩, ?_⟩
    exact OwnerEffect.inPlace isData rfl laterOther laterNext

theorem stringConstruct_works
    (ok : StringOk arena v []) :
    StringWorks stringConstruct arena v [] := by
  obtain ⟨next, between, reserves, nextOk, effect, room, _, _⟩ :=
    stringReserve_works 1 ok
  rcases nextOk.data with ⟨_, noRoom, _⟩ | ⟨b, isData, old, begins⟩
  · omega
  obtain ⟨later, stores, isLater, laterOther, laterNext⟩ :=
    (begins.shorter List.nil_prefix).store 0 (by
      rw [List.length_nil]
      omega)
  rw [List.length_nil] at stores
  refine ⟨next, later, ?_,
    ⟨nextOk.size, Or.inr ⟨b, isData, by omega, isLater⟩⟩,
    effect.trans (OwnerEffect.inPlace isData isData laterOther laterNext)⟩
  unfold stringConstruct
  rw [reserves, Option.bind_some]
  dsimp only
  rw [isData, stores]
  rfl

theorem stringAppend_reserved
    (capacity : Nat)
    (ok : StringOk arena v items)
    (isText : IsText arena text chars)
    (apart : TextApart arena text v) :
    ∃ after later,
      ((stringReserve capacity v arena).bind fun next =>
          stringAppend text next.1 next.2) = some (after, later) ∧
        StringOk later after (items ++ chars) ∧
        OwnerEffect arena later v after := by
  obtain ⟨next, between, reserves, nextOk, effect, _⟩ :=
    stringReserve_works capacity ok
  have stillText : IsText between text chars :=
    isText.congr fun b isOwn =>
      effect.frame b (apart b isOwn).1 (apart b isOwn).2
  have stillApart : TextApart between text next := fun b isOwn =>
    ⟨Nat.lt_of_lt_of_le (apart b isOwn).1 effect.next,
      effect.disjoint (apart b isOwn).1 (apart b isOwn).2⟩
  obtain ⟨after, later, appends, isOk, lastEffect⟩ :=
    stringAppend_works nextOk stillText stillApart
  rw [reserves, Option.bind_some]
  exact ⟨after, later, appends, isOk, effect.trans lastEffect⟩

theorem stringFromText_works
    (ok : StringOk arena v [])
    (isText : IsText arena text chars)
    (apart : TextApart arena text v) :
    StringWorks (stringFromText text) arena v chars := by
  obtain ⟨after, later, returns, isOk, effect⟩ :=
    stringAppend_reserved (chars.length + 1) ok isText apart
  refine ⟨after, later, ?_, isOk, effect⟩
  unfold stringFromText
  rw [isText.cstrLen_eq, Option.bind_some]
  exact returns

theorem stringFromText_null
    (ok : StringOk arena v []) :
    StringWorks (stringFromText .null) arena v [] := by
  obtain ⟨next, between, reserves, nextOk, effect, _⟩ :=
    stringReserve_works 1 ok
  refine ⟨next, between, ?_, nextOk, effect⟩
  unfold stringFromText cstrLen stringAppend
  rw [if_pos rfl, Option.bind_some, reserves]
  rfl

theorem stringCopyFrom_works
    (ok : StringOk arena v [])
    (otherOk : StringOk arena other theirs)
    (apart : TextApart arena (cStr other) v) :
    StringWorks (stringCopyFrom other) arena v (cText theirs) :=
  stringAppend_reserved (other.size + 1) ok otherOk.cStr apart

theorem stringCopyAssign_works
    (ok : StringOk arena v items)
    (otherOk : StringOk arena other theirs)
    (apart : ∀ b, other.data = some b → v.data ≠ some b) :
    StringWorks (stringCopyAssign other) arena v (cText theirs) := by
  obtain ⟨cleared, between, clears, isOk, effect⟩ := stringClear_works ok
  have stillOk := stringOk_represents.elsewhere otherOk effect apart
  have stillApart := stringOk_represents.apart otherOk effect apart
  obtain ⟨after, later, copies, lastOk, lastEffect⟩ :=
    stringCopyFrom_works isOk stillOk (stillOk.textApart stillApart)
  refine ⟨after, later, ?_, lastOk, effect.trans lastEffect⟩
  unfold stringCopyAssign
  rw [clears, Option.bind_some]
  exact copies

theorem stringRelease_works
    (ok : StringOk arena v items) :
    ∃ later,
      stringRelease v arena = some (.empty, later) ∧
        StringOk later .empty [] ∧
        OwnerEffect arena later v .empty := by
  have emptyOk : ∀ last : Chars, StringOk last .empty [] :=
    stringOk_represents.empty
  unfold stringRelease
  rcases ok.data with ⟨isNone, _⟩ | ⟨b, isData, _, begins⟩
  · rw [isNone]
    exact ⟨arena, rfl, emptyOk arena,
      ⟨Nat.le_refl _, Or.inr (Or.inl rfl), fun _ _ _ => rfl⟩⟩
  · obtain ⟨later, deletes, isGone, laterOther, laterNext⟩ := begins.delete
    rw [isData, deletes]
    refine ⟨later, rfl, emptyOk later,
      ⟨Nat.le_of_eq laterNext.symm, Or.inr (Or.inl rfl), ?_⟩⟩
    intro other _ notOwn
    apply laterOther
    rintro rfl
    exact notOwn isData

theorem stringEqual_eq
    (ok : StringOk arena v items)
    (otherOk : StringOk arena other theirs) :
    stringEqual arena v other = some (decide (items = theirs)) := by
  have loop :
      ∀ rounds i, i + rounds = items.length → items.length = theirs.length →
        stringEqualLoop arena v other rounds i =
          some (decide (items.drop i = theirs.drop i)) := by
    intro rounds
    induction rounds with
    | zero =>
        intro i all length
        have isNil : items.drop i = theirs.drop i := by
          rw [List.drop_eq_nil_of_le (by omega),
            List.drop_eq_nil_of_le (by omega)]
        rw [decide_eq_true isNil]
        rfl
    | succ rounds inductionHypothesis =>
        intro i left length
        have inside : i < items.length := by omega
        have also : i < theirs.length := by omega
        unfold stringEqualLoop
        rw [ok.read inside, otherOk.read also,
          List.getElem?_eq_getElem inside, List.getElem?_eq_getElem also,
          Option.bind_some, Option.bind_some,
          List.drop_eq_getElem_cons inside, List.drop_eq_getElem_cons also]
        by_cases same : items[i] = theirs[i]
        · rw [if_neg (not_not_intro same),
            inductionHypothesis (i + 1) (by omega) length, same]
          congr 1
          rw [decide_eq_decide, List.cons_inj_right]
        · rw [if_pos same, decide_eq_false]
          intro isEqual
          exact same (List.cons.inj isEqual).1
  unfold stringEqual
  rw [ok.size, otherOk.size]
  by_cases length : items.length = theirs.length
  · rw [if_neg (not_not_intro length)]
    have all := loop items.length 0 (Nat.zero_add _) length
    rw [List.drop_zero, List.drop_zero] at all
    exact all
  · rw [if_pos length, decide_eq_false]
    rintro rfl
    exact length rfl

end Members

end MyOS
