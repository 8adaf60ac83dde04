import Mathlib.Data.List.TakeWhile
import MyOS.LibcEnvironment

namespace MyOS

open Lib

/-!
# The environment is a map

An entry belongs to one name, the first entry of a name holds its value, and
every call changes the entries of its own name only.
-/

section Names

variable {entry name other value : List UInt8}

theorem strncmp_eq_zero
    (noNull : 0 ∉ name) :
    strncmp entry name name.length = 0 ↔ name <+: entry := by
  induction name generalizing entry with
  | nil => simp [strncmp]
  | cons b name inductionHypothesis =>
      rw [List.mem_cons, not_or] at noNull
      cases entry with
      | nil =>
          have notZero : b.toNat ≠ 0 := fun isZero =>
            noNull.1 (UInt8.toNat_inj.mp isZero).symm
          simp only [List.length_cons, strncmp, List.prefix_nil,
            reduceCtorEq, iff_false]
          omega
      | cons a entry =>
          simp only [List.length_cons, strncmp, List.cons_prefix_cons]
          by_cases same : a = b
          · rw [if_pos same, inductionHypothesis noNull.2]
            exact ⟨fun rest => ⟨same.symm, rest⟩, fun both => both.2⟩
          · have different : a.toNat ≠ b.toNat := fun equal =>
              same (UInt8.toNat_inj.mp equal)
            rw [if_neg same]
            constructor
            · intro isZero
              omega
            · intro both
              exact absurd both.1.symm same

theorem hasName_iff
    (noNull : 0 ∉ name) :
    hasName entry name = true ↔ ∃ value, entry = envEntry name value := by
  unfold hasName envEntry
  rw [Bool.and_eq_true, decide_eq_true_eq, decide_eq_true_eq,
    strncmp_eq_zero noNull]
  constructor
  · rintro ⟨⟨rest, rfl⟩, isEquals⟩
    rw [List.getD_eq_getElem?_getD, List.getElem?_append_right
      (Nat.le_refl _), Nat.sub_self] at isEquals
    cases rest with
    | nil => exact absurd isEquals (by decide)
    | cons c value =>
        have isFirst : c = EQUALS := isEquals
        exact ⟨value, by rw [isFirst]⟩
  · rintro ⟨value, rfl⟩
    refine ⟨List.prefix_append _ _, ?_⟩
    rw [List.getD_eq_getElem?_getD, List.getElem?_append_right
      (Nat.le_refl _), Nat.sub_self]
    rfl

theorem nameIn_envEntry
    (noEquals : EQUALS ∉ name) :
    nameIn (envEntry name value) = name := by
  have kept : ∀ c ∈ name, decide (c ≠ EQUALS) = true := by
    intro c member
    apply decide_eq_true
    rintro rfl
    exact noEquals member
  unfold nameIn envEntry
  rw [List.takeWhile_append_of_pos kept,
    List.takeWhile_cons_of_neg (by decide), List.append_nil]

theorem hasName_unique
    (noNull : 0 ∉ name)
    (noEquals : EQUALS ∉ name)
    (otherNull : 0 ∉ other)
    (otherEquals : EQUALS ∉ other)
    (isName : hasName entry name = true)
    (isOther : hasName entry other = true) :
    name = other := by
  obtain ⟨value, rfl⟩ := (hasName_iff noNull).mp isName
  obtain ⟨_, same⟩ := (hasName_iff otherNull).mp isOther
  have names := congrArg nameIn same
  rw [nameIn_envEntry noEquals, nameIn_envEntry otherEquals] at names
  exact names

theorem drop_envEntry :
    (envEntry name value).drop (name.length + 1) = value := by
  unfold envEntry
  rw [← List.drop_drop, List.drop_left]
  rfl

theorem badName_some :
    badName (some name) = false ↔ name ≠ [] ∧ EQUALS ∉ name := by
  unfold badName
  simp

end Names

section Tables

variable {environ : EnvSlots} {entries before behind : List (List UInt8)}
variable {name old new : List UInt8}

theorem findEntry_spec
    (name : List UInt8)
    {offset fuel : Nat}
    (slots :
      ∀ i, i ≤ entries.length → environ (offset + i) = entries[i]?)
    (enough : entries.length < fuel) :
    (∃ before old behind,
      entries = before ++ old :: behind ∧
        (∀ entry ∈ before, hasName entry name = false) ∧
        hasName old name = true ∧
        findEntry environ name fuel offset =
          some (some (offset + before.length))) ∨
      (∀ entry ∈ entries, hasName entry name = false) ∧
        findEntry environ name fuel offset = some none := by
  induction entries generalizing offset fuel with
  | nil =>
      obtain ⟨fuel, rfl⟩ := Nat.exists_eq_succ_of_ne_zero
        (Nat.ne_of_gt enough)
      have isEnd : environ offset = none := slots 0 (Nat.le_refl _)
      refine Or.inr ⟨fun entry member => absurd member List.not_mem_nil, ?_⟩
      unfold findEntry
      rw [isEnd]
  | cons first entries inductionHypothesis =>
      obtain ⟨fuel, rfl⟩ := Nat.exists_eq_succ_of_ne_zero
        (Nat.ne_of_gt (Nat.lt_of_le_of_lt (Nat.zero_le _) enough))
      have isFirst : environ offset = some first :=
        slots 0 (Nat.zero_le _)
      have rest :
          ∀ i, i ≤ entries.length →
            environ (offset + 1 + i) = entries[i]? := by
        intro i inside
        have here := slots (i + 1) (Nat.succ_le_succ inside)
        rw [← Nat.add_assoc, Nat.add_right_comm] at here
        exact here
      by_cases found : hasName first name = true
      · refine Or.inl ⟨[], first, entries, rfl, ?_, found, ?_⟩
        · exact fun entry member => absurd member List.not_mem_nil
        · unfold findEntry
          rw [isFirst]
          exact if_pos found
      have passes :
          findEntry environ name (fuel + 1) offset =
            findEntry environ name fuel (offset + 1) := by
        conv_lhs => unfold findEntry
        rw [isFirst]
        exact if_neg found
      rw [Bool.not_eq_true] at found
      rw [Nat.succ_eq_add_one, passes]
      rcases inductionHypothesis rest (Nat.lt_of_succ_lt_succ enough) with
        ⟨before, old, behind, split, others, isOld, finds⟩ | ⟨none, finds⟩
      · refine Or.inl ⟨first :: before, old, behind, ?_, ?_, isOld, ?_⟩
        · rw [split, List.cons_append]
        · rw [List.forall_mem_cons]
          exact ⟨found, others⟩
        · rw [finds, List.length_cons]
          congr 2
          omega
      · refine Or.inr ⟨?_, finds⟩
        rw [List.forall_mem_cons]
        exact ⟨found, none⟩

theorem EnvTable.findEntry
    (table : EnvTable environ entries)
    (name : List UInt8) :
    (∃ before old behind,
      entries = before ++ old :: behind ∧
        (∀ entry ∈ before, hasName entry name = false) ∧
        hasName old name = true ∧
        MyOS.findEntry environ name (ENV_MAX + 1) 0 =
          some (some before.length)) ∨
      (∀ entry ∈ entries, hasName entry name = false) ∧
        MyOS.findEntry environ name (ENV_MAX + 1) 0 = some none := by
  have slots :
      ∀ i, i ≤ entries.length → environ (0 + i) = entries[i]? := by
    intro i inside
    rw [Nat.zero_add]
    exact table.slots i inside
  have search :=
    findEntry_spec name slots (Nat.lt_succ_of_lt table.room)
  simp only [Nat.zero_add] at search
  exact search

theorem EnvTable.entry_at
    (table : EnvTable environ (before ++ old :: behind)) :
    environ before.length = some old := by
  rw [table.slots before.length (by simp)]
  simp

theorem EnvTable.replace
    (table : EnvTable environ (before ++ old :: behind)) :
    EnvTable (Function.update environ before.length (some new))
      (before ++ new :: behind) := by
  have room := table.room
  have slots := table.slots
  simp only [List.length_append, List.length_cons] at room slots
  constructor
  · simp only [List.length_append, List.length_cons]
    exact room
  · intro i inside
    simp only [List.length_append, List.length_cons] at inside
    by_cases here : i = before.length
    · rw [here, Function.update_self]
      simp
    · rw [Function.update_of_ne here, slots i inside]
      rcases Nat.lt_or_gt_of_ne here with lower | upper
      · rw [List.getElem?_append_left lower, List.getElem?_append_left lower]
      · obtain ⟨k, rfl⟩ := Nat.exists_eq_add_of_lt upper
        rw [List.getElem?_append_right (by omega),
          List.getElem?_append_right (by omega)]
        have shift : before.length + k + 1 - before.length = k + 1 := by omega
        rw [shift]
        rfl

theorem freeSlot_spec
    {offset rounds : Nat}
    (slots :
      ∀ i, i ≤ entries.length → environ (offset + i) = entries[i]?) :
    freeSlot environ rounds offset =
      if entries.length < rounds then
        some (offset + entries.length)
      else
        none := by
  induction entries generalizing offset rounds with
  | nil =>
      have isEnd : environ offset = none := slots 0 (Nat.le_refl _)
      cases rounds with
      | zero => rfl
      | succ rounds =>
          unfold freeSlot
          rw [if_pos isEnd]
          rfl
  | cons first entries inductionHypothesis =>
      have isFirst : environ offset = some first := slots 0 (Nat.zero_le _)
      cases rounds with
      | zero => rfl
      | succ rounds =>
          have taken : ¬ environ offset = none := by
            rw [isFirst]
            exact Option.some_ne_none _
          unfold freeSlot
          rw [if_neg taken, inductionHypothesis]
          · rw [List.length_cons]
            by_cases fits : entries.length < rounds
            · rw [if_pos fits, if_pos (Nat.succ_lt_succ fits)]
              congr 1
              omega
            · rw [if_neg fits, if_neg fun less =>
                fits (Nat.lt_of_succ_lt_succ less)]
          · intro i inside
            have here := slots (i + 1) (Nat.succ_le_succ inside)
            rw [← Nat.add_assoc, Nat.add_right_comm] at here
            exact here

theorem EnvTable.addEntry
    (table : EnvTable environ entries)
    (allocated : Bool)
    (new : List UInt8) :
    (MyOS.addEntry environ allocated new).1 = -1 ∧
        (MyOS.addEntry environ allocated new).2 = environ ∨
      (MyOS.addEntry environ allocated new).1 = 0 ∧
        EnvTable (MyOS.addEntry environ allocated new).2
          (entries ++ [new]) := by
  have slots :
      ∀ i, i ≤ entries.length → environ (0 + i) = entries[i]? := by
    intro i inside
    rw [Nat.zero_add]
    exact table.slots i inside
  unfold MyOS.addEntry
  rw [freeSlot_spec slots]
  by_cases fits : entries.length < ENV_MAX - 1
  · rw [if_pos fits]
    cases allocated with
    | false => exact Or.inl ⟨rfl, rfl⟩
    | true =>
        refine Or.inr ⟨rfl, ?_, ?_⟩
        · rw [List.length_append, List.length_singleton]
          omega
        · intro i inside
          rw [List.length_append, List.length_singleton] at inside
          rw [Nat.zero_add]
          change Function.update _ _ _ i = _
          by_cases isEnd : i = entries.length + 1
          · rw [isEnd, Function.update_self, List.getElem?_eq_none]
            rw [List.length_append, List.length_singleton]
          · rw [Function.update_of_ne isEnd]
            by_cases isNew : i = entries.length
            · rw [isNew, Function.update_self]
              simp
            · rw [Function.update_of_ne isNew,
                table.slots i (by omega),
                List.getElem?_append_left (by omega)]
  · rw [if_neg fits]
    exact Or.inl ⟨rfl, rfl⟩

theorem EnvTable.shift
    {fuel : Nat}
    (table : EnvTable environ (before ++ old :: behind))
    (enough : behind.length + 1 < fuel) :
    ∃ later,
      shiftEntries fuel before.length environ = some later ∧
        EnvTable later (before ++ behind) := by
  induction behind generalizing before old fuel environ with
  | nil =>
      obtain ⟨fuel, rfl⟩ := Nat.exists_eq_add_of_lt enough
      have isEnd : environ (before.length + 1) = none := by
        rw [table.slots (before.length + 1) (by simp)]
        simp
      refine ⟨Function.update environ before.length none, ?_, ?_, ?_⟩
      · unfold shiftEntries
        rw [table.entry_at]
        dsimp only
        rw [List.length_nil, Nat.zero_add, Nat.add_comm 1 fuel]
        unfold shiftEntries
        rw [Function.update_of_ne (by omega), isEnd]
      · have room := table.room
        simp only [List.length_append, List.length_cons, List.length_nil,
          Nat.add_zero] at room ⊢
        omega
      · intro i inside
        rw [List.append_nil] at inside ⊢
        by_cases here : i = before.length
        · rw [here, Function.update_self]
          simp
        · rw [Function.update_of_ne here, table.slots i (by simp; omega),
            List.getElem?_append_left (by omega)]
  | cons next behind inductionHypothesis =>
      obtain ⟨fuel, rfl⟩ := Nat.exists_eq_succ_of_ne_zero
        (Nat.ne_of_gt (Nat.lt_of_le_of_lt (Nat.zero_le _) enough))
      have isNext : environ (before.length + 1) = some next := by
        rw [table.slots (before.length + 1) (by simp),
          List.getElem?_append_right (by omega), Nat.add_sub_cancel_left]
        rfl
      have moved :
          EnvTable (Function.update environ before.length (some next))
            ((before ++ [next]) ++ next :: behind) := by
        rw [List.append_assoc]
        exact table.replace
      obtain ⟨later, shifts, isTable⟩ :=
        inductionHypothesis moved (Nat.lt_of_succ_lt_succ enough)
      refine ⟨later, ?_, ?_⟩
      · unfold shiftEntries
        rw [table.entry_at]
        dsimp only
        rw [isNext]
        rw [List.length_append, List.length_singleton] at shifts
        exact shifts
      · rw [List.append_assoc] at isTable
        exact isTable

theorem EnvTable.remove
    {rest : List (List UInt8)}
    {fuel : Nat}
    (table : EnvTable environ (before ++ rest))
    (enough : rest.length < fuel) :
    ∃ later,
      removeEntries name fuel before.length environ = some later ∧
        EnvTable later
          (before ++ rest.filter fun entry => !hasName entry name) := by
  induction rest generalizing before fuel environ with
  | nil =>
      obtain ⟨fuel, rfl⟩ := Nat.exists_eq_succ_of_ne_zero
        (Nat.ne_of_gt enough)
      have isEnd : environ before.length = none := by
        rw [table.slots before.length (by simp)]
        simp
      refine ⟨environ, ?_, table⟩
      unfold removeEntries
      rw [isEnd]
  | cons first rest inductionHypothesis =>
      obtain ⟨fuel, rfl⟩ := Nat.exists_eq_succ_of_ne_zero
        (Nat.ne_of_gt (Nat.lt_of_le_of_lt (Nat.zero_le _) enough))
      have shorter := Nat.lt_of_succ_lt_succ enough
      unfold removeEntries
      rw [table.entry_at]
      dsimp only
      by_cases found : hasName first name = true
      · rw [if_pos found, List.filter_cons_of_neg (by rw [found]; decide)]
        have few : rest.length + 1 < ENV_MAX + 1 := by
          have room := table.room
          simp only [List.length_append, List.length_cons] at room
          omega
        obtain ⟨shifted, shifts, isTable⟩ := table.shift few
        obtain ⟨later, removes, isLater⟩ :=
          inductionHypothesis isTable shorter
        refine ⟨later, ?_, isLater⟩
        rw [shifts]
        exact removes
      · rw [if_neg found, List.filter_cons_of_pos (by simpa using found)]
        have passed : EnvTable environ ((before ++ [first]) ++ rest) := by
          rw [List.append_assoc]
          exact table
        obtain ⟨later, removes, isLater⟩ :=
          inductionHypothesis passed shorter
        rw [List.length_append, List.length_singleton] at removes
        refine ⟨later, removes, ?_⟩
        rw [List.append_assoc] at isLater
        exact isLater

end Tables

section Values

variable {entries before behind : List (List UInt8)}
variable {name other old new value : List UInt8}

/-- The entries tell of all names what they told, but of one name they tell a
value or nothing. -/
def Changes
    (entries : List (List UInt8))
    (name : List UInt8)
    (value : Option (List UInt8))
    (after : List (List UInt8)) : Prop :=
  ∀ other, 0 ∉ other →
    envMap after other =
      Function.update (envMap entries) name value other

theorem entryValue_split
    (others : ∀ entry ∈ before, hasName entry name = false)
    (isOld : hasName old name = true) :
    entryValue (before ++ old :: behind) name =
      some (old.drop (name.length + 1)) := by
  unfold entryValue
  have none :
      before.find? (fun entry => hasName entry name) = none := by
    rw [List.find?_eq_none]
    intro entry member
    rw [others entry member]
    decide
  rw [List.find?_append, none, Option.none_or,
    List.find?_cons_of_pos (p := fun entry => hasName entry name) isOld]
  rfl

theorem entryValue_none
    (none : ∀ entry ∈ entries, hasName entry name = false) :
    entryValue entries name = .none := by
  unfold entryValue
  have nothing :
      entries.find? (fun entry => hasName entry name) = .none := by
    rw [List.find?_eq_none]
    intro entry member
    rw [none entry member]
    decide
  rw [nothing]
  rfl

theorem entryValue_filter
    (keep : List UInt8 → Bool)
    (kept :
      ∀ entry ∈ entries, hasName entry name = true → keep entry = true) :
    entryValue (entries.filter keep) name = entryValue entries name := by
  unfold entryValue
  congr 1
  induction entries with
  | nil => rfl
  | cons first entries inductionHypothesis =>
      rw [List.forall_mem_cons] at kept
      by_cases found : hasName first name = true
      · rw [List.filter_cons_of_pos (kept.1 found),
          List.find?_cons_of_pos (p := fun entry => hasName entry name) found,
          List.find?_cons_of_pos (p := fun entry => hasName entry name)
            found]
      · rw [List.find?_cons_of_neg (p := fun entry => hasName entry name)
          found]
        by_cases isKept : keep first = true
        · rw [List.filter_cons_of_pos isKept,
            List.find?_cons_of_neg (p := fun entry => hasName entry name)
              found]
          exact inductionHypothesis kept.2
        · rw [List.filter_cons_of_neg isKept]
          exact inductionHypothesis kept.2

theorem changes_replace
    (noNull : 0 ∉ name)
    (isName : badName (some name) = false)
    (others : ∀ entry ∈ before, hasName entry name = false)
    (isOld : hasName old name = true) :
    Changes (before ++ old :: behind) name (some value)
      (before ++ envEntry name value :: behind) := by
  intro other otherNull
  have isNew : hasName (envEntry name value) name = true :=
    (hasName_iff noNull).mpr ⟨value, rfl⟩
  by_cases same : other = name
  · rw [same, Function.update_self]
    unfold envMap
    rw [isName, entryValue_split others isNew, drop_envEntry]
    rfl
  rw [Function.update_of_ne same]
  unfold envMap
  cases bad : badName (some other) with
  | true => rfl
  | false =>
      have usable := badName_some.mp isName
      have otherUsable := badName_some.mp bad
      have foreign :
          ∀ entry, hasName entry name = true →
            hasName entry other = false := by
        intro entry isHere
        rw [Bool.eq_false_iff]
        intro isThere
        exact same (hasName_unique otherNull otherUsable.2 noNull usable.2
          isThere isHere)
      change entryValue _ other = entryValue _ other
      have dropped :
          ∀ entry, hasName entry name = true →
            entryValue (before ++ entry :: behind) other =
              entryValue (before ++ behind) other := by
        intro entry isHere
        unfold entryValue
        rw [List.find?_append, List.find?_append,
          List.find?_cons_of_neg (p := fun entry => hasName entry other)
            (by rw [foreign entry isHere]; decide)]
      rw [dropped _ isNew, dropped _ isOld]

theorem changes_add
    (noNull : 0 ∉ name)
    (isName : badName (some name) = false)
    (none : ∀ entry ∈ entries, hasName entry name = false) :
    Changes entries name (some value)
      (entries ++ [envEntry name value]) := by
  intro other otherNull
  have isNew : hasName (envEntry name value) name = true :=
    (hasName_iff noNull).mpr ⟨value, rfl⟩
  by_cases same : other = name
  · rw [same, Function.update_self]
    unfold envMap
    rw [isName, entryValue_split none isNew, drop_envEntry]
    rfl
  rw [Function.update_of_ne same]
  unfold envMap
  cases bad : badName (some other) with
  | true => rfl
  | false =>
      have usable := badName_some.mp isName
      have otherUsable := badName_some.mp bad
      have foreign : ¬ hasName (envEntry name value) other = true :=
        fun isThere => same (hasName_unique otherNull otherUsable.2 noNull
          usable.2 isThere isNew)
      change entryValue _ other = entryValue _ other
      unfold entryValue
      rw [List.find?_append,
        List.find?_cons_of_neg (p := fun entry => hasName entry other)
          foreign, List.find?_nil, Option.or_none]

theorem changes_remove
    (noNull : 0 ∉ name)
    (isName : badName (some name) = false) :
    Changes entries name none
      (entries.filter fun entry => !hasName entry name) := by
  intro other otherNull
  by_cases same : other = name
  · rw [same, Function.update_self]
    unfold envMap
    rw [isName, entryValue_none]
    · rfl
    · intro entry member
      have kept := (List.mem_filter.mp member).2
      simpa using kept
  rw [Function.update_of_ne same]
  unfold envMap
  cases bad : badName (some other) with
  | true => rfl
  | false =>
      have usable := badName_some.mp isName
      have otherUsable := badName_some.mp bad
      change entryValue _ other = entryValue _ other
      apply entryValue_filter
      intro entry _ isThere
      have foreign : hasName entry name = false := by
        rw [Bool.eq_false_iff]
        intro isHere
        exact same (hasName_unique otherNull otherUsable.2 noNull usable.2
          isThere isHere)
      rw [foreign]
      rfl

end Values

end MyOS
