import MyOS.DirectoryVolume

namespace MyOS

open Lib

/-!
# Entries of directories

When a name matches an entry, what `dirlink` leaves in a directory, and what is
found there afterwards.  Names are C strings.
-/

/-!
## Names
-/

theorem matchesFrom_congr
    {left right other : Bytes}
    {fuel i : Nat}
    (same : ∀ k, i ≤ k → k < i + fuel → left k = other k) :
    matchesFrom left right fuel i = matchesFrom other right fuel i := by
  induction fuel generalizing i with
  | zero =>
      rfl
  | succ fuel inductionHypothesis =>
      unfold matchesFrom
      rw [same i (Nat.le_refl i) (by omega), inductionHypothesis]
      intro k lower upper
      exact same k (by omega) (by omega)

theorem nameByte_eq_zero_iff
    {name : List UInt8}
    (noNul : 0 ∉ name)
    (i : Nat) :
    nameByte name i = 0 ↔ name.length ≤ i := by
  unfold nameByte Bytes.ofList
  rw [List.getD_eq_getElem?_getD]
  constructor
  · intro isZero
    by_contra inside
    have inside : i < name.length := Nat.lt_of_not_le inside
    rw [List.getElem?_eq_getElem inside, Option.getD_some] at isZero
    apply noNul
    rw [← isZero]
    exact List.getElem_mem inside
  · intro behind
    rw [List.getElem?_eq_none behind]
    rfl

theorem matchesFrom_nameByte
    {left right : List UInt8}
    (noNul : 0 ∉ left)
    (noNulRight : 0 ∉ right)
    (fuel i : Nat) :
    matchesFrom (nameByte left) (nameByte right) fuel i = true ↔
      (left.drop i).take fuel = (right.drop i).take fuel := by
  have byte :
      ∀ {name : List UInt8} {i : Nat} (inside : i < name.length),
        nameByte name i = name[i] := by
    intro name i inside
    unfold nameByte Bytes.ofList
    rw [List.getD_eq_getElem?_getD, List.getElem?_eq_getElem inside]
    rfl
  induction fuel generalizing i with
  | zero =>
      rw [List.take_zero, List.take_zero]
      exact iff_of_true rfl rfl
  | succ fuel inductionHypothesis =>
      have isEnd := nameByte_eq_zero_iff noNul i
      have isEndRight := nameByte_eq_zero_iff noNulRight i
      unfold matchesFrom
      by_cases inside : i < left.length
      · have notZero := mt isEnd.mp (Nat.not_le_of_lt inside)
        by_cases insideRight : i < right.length
        · rw [if_neg notZero, List.drop_eq_getElem_cons inside,
            List.drop_eq_getElem_cons insideRight, List.take_succ_cons,
            List.take_succ_cons, List.cons.injEq, ← byte inside,
            ← byte insideRight]
          split
          next different =>
            exact iff_of_false Bool.false_ne_true fun both =>
              different both.1
          next same =>
            exact (inductionHypothesis (i + 1)).trans
              (and_iff_right (not_not.mp same)).symm
        · have isZero := isEndRight.mpr (Nat.le_of_not_lt insideRight)
          rw [if_pos (fun same => notZero (same.trans isZero))]
          apply iff_of_false Bool.false_ne_true
          rw [List.drop_of_length_le (Nat.le_of_not_lt insideRight),
            List.drop_eq_getElem_cons inside, List.take_succ_cons,
            List.take_nil]
          exact List.cons_ne_nil _ _
      · have isZero := isEnd.mpr (Nat.le_of_not_lt inside)
        rw [List.drop_of_length_le (Nat.le_of_not_lt inside), List.take_nil,
          isZero, if_pos rfl]
        by_cases insideRight : i < right.length
        · have notZero := mt isEndRight.mp (Nat.not_le_of_lt insideRight)
          rw [if_pos (fun same => notZero same.symm)]
          apply iff_of_false Bool.false_ne_true
          rw [List.drop_eq_getElem_cons insideRight, List.take_succ_cons]
          exact fun same => List.cons_ne_nil _ _ same.symm
        · have isZeroRight :=
            isEndRight.mpr (Nat.le_of_not_lt insideRight)
          rw [if_neg (not_not_intro isZeroRight.symm),
            List.drop_of_length_le (Nat.le_of_not_lt insideRight),
            List.take_nil]
          exact iff_of_true rfl rfl

theorem matches_iff
    {left right : List UInt8}
    (noNul : 0 ∉ left)
    (noNulRight : 0 ∉ right)
    (short : left.length < DIRSIZ) :
    matchesFrom (nameByte left) (nameByte right) DIRSIZ 0 = true ↔
      right = left := by
  rw [matchesFrom_nameByte noNul noNulRight, List.drop_zero, List.drop_zero,
    List.take_of_length_le (Nat.le_of_lt short)]
  constructor
  · intro same
    have isLength := congrArg List.length same
    rw [List.length_take] at isLength
    rw [List.take_of_length_le (by omega)] at same
    exact same.symm
  · intro same
    rw [same, List.take_of_length_le (Nat.le_of_lt short)]

theorem safestrcpyFrom_nameByte
    {name : List UInt8}
    (noNul : 0 ∉ name)
    (n i : Nat) :
    safestrcpyFrom (nameByte name) n i (nameByte (name.take i)) =
      nameByte (name.take (i + n)) := by
  have byte :
      ∀ (name : List UInt8) (k : Nat),
        nameByte name k = (name[k]?).getD 0 :=
    fun name k => List.getD_eq_getElem?_getD ..
  have behind : ∀ k, i ≤ k → nameByte (name.take i) k = 0 := by
    intro k le
    rw [byte, List.getElem?_eq_none]
    · rfl
    · rw [List.length_take]
      omega
  induction n generalizing i with
  | zero =>
      unfold safestrcpyFrom
      rw [← behind i (Nat.le_refl i), Function.update_eq_self]
      rfl
  | succ n inductionHypothesis =>
      unfold safestrcpyFrom
      split
      next isZero =>
        have atEnd := (nameByte_eq_zero_iff noNul i).mp isZero
        have first :
            Function.update (nameByte (name.take i)) i 0 =
              nameByte (name.take i) := by
          rw [← behind i (Nat.le_refl i), Function.update_eq_self]
        rw [first, ← behind (i + 1) (Nat.le_succ i), Function.update_eq_self,
          List.take_of_length_le atEnd, List.take_of_length_le (by omega)]
      next notZero =>
        have inside : i < name.length :=
          Nat.lt_of_not_le (mt (nameByte_eq_zero_iff noNul i).mpr notZero)
        have next :
            Function.update (nameByte (name.take i)) i (nameByte name i) =
              nameByte (name.take (i + 1)) := by
          funext k
          by_cases same : k = i
          · rw [same, Function.update_self, byte, byte,
              List.getElem?_take_of_lt (Nat.lt_succ_self i)]
          · rw [Function.update_of_ne same, byte, byte, List.getElem?_take,
              List.getElem?_take]
            by_cases before : k < i
            · rw [if_pos before, if_pos (by omega)]
            · rw [if_neg before, if_neg (by omega)]
        rw [next, inductionHypothesis (i + 1), Nat.add_assoc, Nat.add_comm 1 n]
        intro k le
        rw [byte, List.getElem?_eq_none]
        · rfl
        · rw [List.length_take]
          omega

theorem linkEntry_name
    {name : List UInt8}
    (noNul : 0 ∉ name)
    (inum : Nat) :
    (FileSystem.linkEntry name inum).name =
      nameByte (name.take (DIRSIZ - 1)) := by
  have copied := safestrcpyFrom_nameByte noNul (DIRSIZ - 1) 0
  rw [List.take_zero, Nat.zero_add] at copied
  exact copied

/-!
## Entries
-/

/-- The bytes that `dirlink` writes. -/
def entryBytes (name : List UInt8) (inum : Nat) : List UInt8 :=
  tabulate direntSize (FileSystem.linkEntry name inum).bytes

@[simp]
theorem length_entryBytes
    (name : List UInt8)
    (inum : Nat) :
    (entryBytes name inum).length = direntSize :=
  length_tabulate

variable {bytes name other : List UInt8} {inum index slot : Nat}

theorem ofList_tabulate
    {item : Nat → UInt8}
    {length : Nat}
    (inside : index < length) :
    Bytes.ofList (tabulate length item) index = item index := by
  unfold Bytes.ofList
  rw [List.getD_eq_getElem?_getD,
    List.getElem?_eq_getElem (by rw [length_tabulate]; exact inside),
    getElem_tabulate]
  rfl

theorem ofBytes_entryBytes_inum
    (narrow : inum < shortModulus) :
    (Dirent.ofBytes (entryBytes name inum)).inum = inum := by
  have low :
      Bytes.ofList (entryBytes name inum) 0 = Bytes.ofNat inum 0 :=
    ofList_tabulate (by decide)
  have high :
      Bytes.ofList (entryBytes name inum) 1 = Bytes.ofNat inum 1 :=
    ofList_tabulate (by decide)
  have isInum := Bytes.le16_ofNat inum
  unfold Bytes.le16 at isInum
  unfold Dirent.ofBytes Bytes.le16
  dsimp only
  rw [low, high]
  exact isInum.trans (Nat.mod_eq_of_lt narrow)

theorem isNamed_entryBytes
    (noNul : 0 ∉ name)
    (short : name.length < DIRSIZ)
    (narrow : inum < shortModulus)
    (inUse : inum ≠ 0)
    (noNulOther : 0 ∉ other) :
    (Dirent.ofBytes (entryBytes name inum)).isNamed other = true ↔
      other = name := by
  have sameName :
      matchesFrom (Dirent.ofBytes (entryBytes name inum)).name
          (nameByte other) DIRSIZ 0 =
        matchesFrom (nameByte name) (nameByte other) DIRSIZ 0 := by
    apply matchesFrom_congr
    intro k _ upper
    have fits : name.length ≤ DIRSIZ - 1 := Nat.le_sub_one_of_lt short
    have isByte :
        (FileSystem.linkEntry name inum).bytes (2 + k) = nameByte name k := by
      unfold Dirent.bytes
      rw [if_neg (by omega), Nat.add_sub_cancel_left, linkEntry_name noNul,
        List.take_of_length_le fits]
    have isEntry : direntSize = 16 := rfl
    have isName : DIRSIZ = 14 := rfl
    rw [← isByte]
    exact ofList_tabulate (by omega)
  rw [Dirent.isNamed_iff, ofBytes_entryBytes_inum narrow, sameName,
    matches_iff noNul noNulOther short]
  exact and_iff_right inUse

/-!
## Directories
-/

theorem slotOf_eq_some_iff :
    slotOf bytes name = some index ↔
      (index < bytes.length / direntSize ∧
        (direntAt bytes index).isNamed name = true) ∧
        ∀ before, before < index →
          (direntAt bytes before).isNamed name = false := by
  unfold slotOf slotFrom
  rw [Nat.sub_zero, ← List.range_eq_range', List.find?_range_eq_some]
  simp only [List.mem_range, Bool.not_eq_true']
  tauto

theorem slotOf_eq_none_iff :
    slotOf bytes name = none ↔
      ∀ index, index < bytes.length / direntSize →
        (direntAt bytes index).isNamed name = false := by
  unfold slotOf slotFrom
  rw [Nat.sub_zero, ← List.range_eq_range', List.find?_range_eq_none]
  simp only [Bool.not_eq_true']

/-- A place where `dirlink` puts an entry. -/
structure IsFree (bytes : List UInt8) (slot : Nat) : Prop where
  whole : direntSize ∣ bytes.length
  inside : slot ≤ bytes.length / direntSize
  unused :
    slot < bytes.length / direntSize → (direntAt bytes slot).inum = 0

/-- A directory with another entry. -/
def withEntry
    (bytes : List UInt8)
    (slot : Nat)
    (name : List UInt8)
    (inum : Nat) : List UInt8 :=
  overwrite 0 bytes (direntSize * slot) (entryBytes name inum)

theorem length_withEntry :
    (withEntry bytes slot name inum).length =
      max bytes.length (direntSize * (slot + 1)) := by
  unfold withEntry
  rw [length_overwrite]
  · rw [length_entryBytes]
    rfl
  · intro empty
    have isLength := length_entryBytes name inum
    rw [empty] at isLength
    cases isLength

theorem whole_withEntry
    (isFree : IsFree bytes slot) :
    direntSize ∣ (withEntry bytes slot name inum).length := by
  rw [length_withEntry]
  rcases max_choice bytes.length (direntSize * (slot + 1)) with
    isOld | isNew
  · rw [isOld]
    exact isFree.whole
  · rw [isNew]
    exact Nat.dvd_mul_right ..

theorem inside_withEntry
    (isFree : IsFree bytes slot) :
    index < (withEntry bytes slot name inum).length / direntSize ↔
      index < bytes.length / direntSize ∨ index = slot := by
  obtain ⟨entries, isLength⟩ := isFree.whole
  have inside := isFree.inside
  have isEntry : direntSize = 16 := rfl
  rw [length_withEntry]
  rw [isEntry] at isLength inside ⊢
  omega

theorem direntAt_withEntry
    (isFree : IsFree bytes slot) :
    direntAt (withEntry bytes slot name inum) index =
      if index = slot then
        Dirent.ofBytes (entryBytes name inum)
      else
        direntAt bytes index := by
  obtain ⟨entries, isLength⟩ := isFree.whole
  have inside := isFree.inside
  have isEntry : direntSize = 16 := rfl
  have within : direntSize * slot ≤ bytes.length := by
    rw [isEntry] at isLength inside ⊢
    omega
  unfold direntAt withEntry
  split
  next same =>
    have read :
        window
            (overwrite 0 bytes (direntSize * slot) (entryBytes name inum))
            (direntSize * slot) (entryBytes name inum).length =
          entryBytes name inum :=
      window_overwrite within
    rw [length_entryBytes] at read
    rw [same, read]
  next different =>
    rw [window_overwrite_apart within]
    rw [length_entryBytes, isEntry]
    omega

theorem lookup_withEntry
    (isFree : IsFree bytes slot)
    (noNul : 0 ∉ name)
    (short : name.length < DIRSIZ)
    (narrow : inum < shortModulus)
    (inUse : inum ≠ 0)
    (isNew : lookup bytes name = none)
    (noNulOther : 0 ∉ other) :
    lookup (withEntry bytes slot name inum) other =
      if other = name then some inum else lookup bytes other := by
  have named :
      ∀ index,
        (direntAt (withEntry bytes slot name inum) index).isNamed other =
          if index = slot then decide (other = name)
          else (direntAt bytes index).isNamed other := by
    intro index
    rw [direntAt_withEntry isFree]
    by_cases here : index = slot
    · rw [if_pos here, if_pos here, Bool.eq_iff_iff,
        isNamed_entryBytes noNul short narrow inUse noNulOther,
        decide_eq_true_iff]
    · rw [if_neg here, if_neg here]
  have unused :
      slot < bytes.length / direntSize →
        (direntAt bytes slot).isNamed other = false := by
    intro inside
    apply Bool.eq_false_of_not_eq_true
    intro isNamed
    exact (Dirent.isNamed_iff.mp isNamed).1 (isFree.unused inside)
  split
  next same =>
    have missing := slotOf_eq_none_iff.mp (Option.map_eq_none_iff.mp isNew)
    have found :
        slotOf (withEntry bytes slot name inum) other = some slot := by
      rw [slotOf_eq_some_iff]
      refine ⟨⟨(inside_withEntry isFree).mpr (Or.inr rfl), ?_⟩, ?_⟩
      · rw [named, if_pos rfl, decide_eq_true_iff]
        exact same
      · intro before isBefore
        rw [named, if_neg (Nat.ne_of_lt isBefore), same]
        exact missing before (Nat.lt_of_lt_of_le isBefore isFree.inside)
    unfold lookup
    rw [found, Option.map_some, direntAt_withEntry isFree, if_pos rfl,
      ofBytes_entryBytes_inum narrow]
  next different =>
    have same :
        slotOf (withEntry bytes slot name inum) other =
          slotOf bytes other := by
      apply Option.ext
      intro index
      rw [slotOf_eq_some_iff, slotOf_eq_some_iff]
      simp only [named, decide_eq_false different, inside_withEntry isFree]
      constructor
      · rintro ⟨⟨inside, isNamed⟩, earlier⟩
        split at isNamed
        · cases isNamed
        next elsewhere =>
          have inside := inside.resolve_right elsewhere
          refine ⟨⟨inside, isNamed⟩, ?_⟩
          intro before isBefore
          by_cases here : before = slot
          · rw [here]
            exact unused (here ▸ Nat.lt_trans isBefore inside)
          · have other := earlier before isBefore
            rw [if_neg here] at other
            exact other
      · rintro ⟨⟨inside, isNamed⟩, earlier⟩
        have elsewhere : index ≠ slot := by
          intro here
          rw [here] at inside isNamed
          rw [unused inside] at isNamed
          cases isNamed
        rw [if_neg elsewhere]
        refine ⟨⟨Or.inl inside, isNamed⟩, ?_⟩
        intro before isBefore
        split
        · rfl
        · exact earlier before isBefore
    unfold lookup
    rw [same]
    cases isSlot : slotOf bytes other with
    | none =>
        rfl
    | some index =>
        obtain ⟨⟨inside, isNamed⟩, _⟩ := slotOf_eq_some_iff.mp isSlot
        have elsewhere : index ≠ slot := by
          intro here
          rw [here] at inside isNamed
          rw [unused inside] at isNamed
          cases isNamed
        rw [Option.map_some, Option.map_some, direntAt_withEntry isFree,
          if_neg elsewhere]

/-!
## Lists of entries
-/

/-- A directory with nothing but the entries of a list. -/
def directoryBytes (entries : List (List UInt8 × Nat)) : List UInt8 :=
  entries.flatMap fun entry => entryBytes entry.1 entry.2

/-- Entries that `dirlink` writes as they are. -/
structure Linkable (entry : List UInt8 × Nat) : Prop where
  noNul : 0 ∉ entry.1
  short : entry.1.length < DIRSIZ
  narrow : entry.2 < shortModulus
  inUse : entry.2 ≠ 0

instance (entry : List UInt8 × Nat) : Decidable (Linkable entry) :=
  decidable_of_iff
    (0 ∉ entry.1 ∧ entry.1.length < DIRSIZ ∧ entry.2 < shortModulus ∧
      entry.2 ≠ 0)
    ⟨fun linkable =>
      ⟨linkable.1, linkable.2.1, linkable.2.2.1, linkable.2.2.2⟩,
      fun linkable =>
        ⟨linkable.noNul, linkable.short, linkable.narrow, linkable.inUse⟩⟩

variable {entries : List (List UInt8 × Nat)}

@[simp]
theorem length_directoryBytes :
    (directoryBytes entries).length = direntSize * entries.length := by
  induction entries with
  | nil =>
      rfl
  | cons entry entries inductionHypothesis =>
      unfold directoryBytes at inductionHypothesis ⊢
      rw [List.flatMap_cons, List.length_append, inductionHypothesis,
        length_entryBytes, List.length_cons, Nat.mul_succ, Nat.add_comm]

theorem isFree_end
    (entries : List (List UInt8 × Nat)) :
    IsFree (directoryBytes entries) entries.length := by
  have isCount :
      (directoryBytes entries).length / direntSize = entries.length := by
    rw [length_directoryBytes]
    exact Nat.mul_div_cancel_left _ (by decide)
  exact {
    whole := by
      rw [length_directoryBytes]
      exact Nat.dvd_mul_right ..
    inside := isCount.ge
    unused := by
      intro inside
      rw [isCount] at inside
      exact absurd inside (Nat.lt_irrefl _)
  }

theorem directoryBytes_snoc
    (entry : List UInt8 × Nat) :
    directoryBytes (entries ++ [entry]) =
      withEntry (directoryBytes entries) entries.length entry.1 entry.2 := by
  have nonempty : entryBytes entry.1 entry.2 ≠ [] := by
    intro empty
    have isLength := length_entryBytes entry.1 entry.2
    rw [empty] at isLength
    cases isLength
  have bytes :
      directoryBytes (entries ++ [entry]) =
        directoryBytes entries ++ entryBytes entry.1 entry.2 := by
    unfold directoryBytes
    rw [List.flatMap_append, List.flatMap_singleton]
  rw [bytes]
  unfold withEntry overwrite resize
  rw [if_neg nonempty, ← length_directoryBytes, List.take_length,
    Nat.sub_self, List.replicate_zero, List.append_nil,
    List.drop_of_length_le (Nat.le_add_right _ _), List.append_nil]

theorem lookup_directoryBytes
    (linkable : ∀ entry ∈ entries, Linkable entry)
    (distinct : (entries.map Prod.fst).Nodup)
    (noNul : 0 ∉ name) :
    lookup (directoryBytes entries) name =
      (entries.find? fun entry => entry.1 = name).map Prod.snd := by
  induction entries using List.reverseRecOn generalizing name with
  | nil =>
      rfl
  | append_singleton entries entry inductionHypothesis =>
      rw [List.map_append, List.nodup_append] at distinct
      obtain ⟨distinct, _, different⟩ := distinct
      have isLinkable : Linkable entry :=
        linkable entry (List.mem_append_right _ (List.mem_singleton_self _))
      have found :
          ∀ {name : List UInt8}, 0 ∉ name →
            lookup (directoryBytes entries) name =
              (entries.find? fun entry => entry.1 = name).map Prod.snd :=
        inductionHypothesis
          (fun other member => linkable other (List.mem_append_left _ member))
          distinct
      have missing :
          (entries.find? fun other => other.1 = entry.1) = none := by
        rw [List.find?_eq_none]
        intro other member same
        exact different other.1 (List.mem_map_of_mem member) entry.1
          (List.mem_singleton_self _) (of_decide_eq_true same)
      have isNew : lookup (directoryBytes entries) entry.1 = none := by
        rw [found isLinkable.noNul, missing]
        rfl
      rw [directoryBytes_snoc,
        lookup_withEntry (isFree_end entries) isLinkable.noNul
          isLinkable.short isLinkable.narrow isLinkable.inUse isNew noNul,
        List.find?_append, found noNul, List.find?_singleton]
      by_cases same : name = entry.1
      · rw [if_pos same, same, missing, if_pos (decide_eq_true rfl)]
        rfl
      · rw [if_neg same, if_neg]
        · rw [Option.or_none]
        · simp only [decide_eq_true_eq]
          exact fun equal => same equal.symm

theorem mem_of_lookup
    (linkable : ∀ entry ∈ entries, Linkable entry)
    (distinct : (entries.map Prod.fst).Nodup)
    (noNul : 0 ∉ name)
    (found : lookup (directoryBytes entries) name = some inum) :
    (name, inum) ∈ entries := by
  rw [lookup_directoryBytes linkable distinct noNul] at found
  obtain ⟨entry, isEntry, isInum⟩ := Option.map_eq_some_iff.mp found
  have isFound := List.find?_some isEntry
  have isName : entry.1 = name := of_decide_eq_true isFound
  rw [← isName, ← isInum]
  exact List.mem_of_find?_eq_some isEntry

theorem direntAt_directoryBytes
    (linkable : ∀ entry ∈ entries, Linkable entry)
    (inside : index < entries.length) :
    (direntAt (directoryBytes entries) index).inum = entries[index].2 := by
  induction entries using List.reverseRecOn with
  | nil =>
      cases inside
  | append_singleton entries entry inductionHypothesis =>
      rw [directoryBytes_snoc, direntAt_withEntry (isFree_end entries)]
      split
      next isLast =>
        have isLinkable : Linkable entry :=
          linkable entry (List.mem_append_right _ (List.mem_singleton_self _))
        rw [ofBytes_entryBytes_inum isLinkable.narrow]
        simp only [isLast, List.getElem_concat_length]
      next different =>
        have before : index < entries.length := by
          rw [List.length_append, List.length_singleton] at inside
          omega
        rw [List.getElem_append_left before]
        apply inductionHypothesis
        intro other member
        exact linkable other (List.mem_append_left _ member)

end MyOS
