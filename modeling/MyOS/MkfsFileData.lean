import MyOS.MkfsTables

namespace MyOS

open Lib
open Routine

/-!
# Packing a file

The loop of `add_file_data` and what it leaves on the disk: the pointers of the
new inode are the numbers that the blocks have been given, and the blocks hold
what the host has returned.
-/

namespace Mkfs

open Position

variable {first s : Mkfs} {p : Packing} {number : Position → Nat}
variable {position : Position} {b : Nat}
variable {has : Position → Prop} {chunks : List (List UInt8)}
variable {chunk : List UInt8}

/-!
## A turn of the loop
-/

/-- What a turn changes in the locals beside the tables. -/
structure SamePacking (p later : Packing) : Prop where
  blockIndex : later.blockIndex = p.blockIndex
  inode : later.inode = { p.inode with addrs := later.inode.addrs }

theorem SamePacking.refl (p : Packing) : SamePacking p p :=
  ⟨rfl, rfl⟩

theorem SamePacking.trans
    {middle later : Packing}
    (before : SamePacking p middle)
    (behind : SamePacking middle later) :
    SamePacking p later where
  blockIndex := behind.blockIndex.trans before.blockIndex
  inode := by
    rw [behind.inode, before.inode]

/-- The second-level block at hand when a file has a number of blocks. -/
def secondAt (count : Nat) : Option Nat :=
  if NDIRECT + NINDIRECT < count then
    some ((count - 1 - NDIRECT - NINDIRECT) / NINDIRECT)
  else
    none

/-- What has been packed between two turns. -/
structure Packed
    (first s : Mkfs)
    (p : Packing)
    (number : Position → Nat)
    (chunks : List (List UInt8)) : Prop where
  filling : Filling first s p number (FilledAt chunks.length) chunks
  count : p.blockIndex = chunks.length
  bound : chunks.length ≤ MAXFILE
  current : p.currentSecond = secondAt chunks.length

theorem due_secondLevel
    {outer : Nat}
    (inside : outer < NINDIRECT) :
    (secondLevel outer).due =
      some (NDIRECT + NINDIRECT + outer * NINDIRECT) := by
  unfold secondLevel due
  dsimp only
  rw [if_neg (Nat.not_le_of_lt inside), if_neg (by decide), if_pos rfl]

theorem filledAt_succ
    {count : Nat}
    (inside : count < MAXFILE)
    (position : Position) :
    FilledAt (count + 1) position ↔
      FilledAt count position ∨ position = ofBlock count ∨
        (position = .addr indirectIndex ∧ count = NDIRECT) ∨
        (position = .addr doubleIndex ∧ count = NDIRECT + NINDIRECT) ∨
        ∃ outer, position = secondLevel outer ∧ outer < NINDIRECT ∧
          count = NDIRECT + NINDIRECT + outer * NINDIRECT := by
  constructor
  · rintro ⟨bn, isDue, below⟩
    rcases Nat.lt_succ_iff_lt_or_eq.mp below with before | isLast
    · exact Or.inl ⟨bn, isDue, before⟩
    · rw [isLast] at isDue
      exact Or.inr (due_eq_some isDue)
  · rintro (⟨bn, isDue, below⟩ | isOwn | ⟨isIndirect, isCount⟩ |
      ⟨isDouble, isCount⟩ | ⟨outer, isSecond, isOuter, isCount⟩)
    · exact ⟨bn, isDue, Nat.lt_succ_of_lt below⟩
    · rw [isOwn]
      exact ⟨count, due_ofBlock inside, Nat.lt_succ_self count⟩
    · rw [isIndirect, isCount]
      exact ⟨NDIRECT, rfl, Nat.lt_succ_self _⟩
    · rw [isDouble, isCount]
      exact ⟨NDIRECT + NINDIRECT, rfl, Nat.lt_succ_self _⟩
    · rw [isSecond, isCount]
      exact ⟨_, due_secondLevel isOuter, Nat.lt_succ_self _⟩

theorem not_filledAt
    {count : Nat}
    (inside : count < MAXFILE) :
    ¬ FilledAt count (ofBlock count) := by
  rintro ⟨bn, isDue, below⟩
  rw [due_ofBlock inside] at isDue
  cases isDue
  exact Nat.lt_irrefl count below

theorem Filling.congr
    {others : Position → Prop}
    (filling : Filling first s p number has chunks)
    (same : ∀ position, has position ↔ others position) :
    Filling first s p number others chunks where
  numbers := filling.numbers
  tables := filling.tables
  filled := fun position =>
    (filling.filled position).trans (same position)
  content := filling.content

theorem reserveIndirect_ends
    {count : Nat}
    (filling : Filling first s p number (FilledAt count) chunks)
    (positive : 0 < first.freeblock)
    (isCount : p.blockIndex = count) :
    (reserveIndirect p s).Ends anyFailure
      (fun later after =>
        SamePacking p later ∧ later.currentSecond = p.currentSecond ∧
          ∃ numbers, Filling first after later numbers
            (fun position => FilledAt count position ∨
              (position = .addr indirectIndex ∧ count = NDIRECT)) chunks) := by
  unfold reserveIndirect
  by_cases isDue : p.blockIndex = NDIRECT
  · rw [if_pos isDue]
    apply ends_allocBlock
    intro room
    refine ⟨⟨rfl, rfl⟩, rfl, _, (filling.attachAddr positive room ?_).congr ?_⟩
    · rintro ⟨bn, isBn, below⟩
      have isEleven : NDIRECT = bn := Option.some.inj isBn
      omega
    · intro position
      rw [and_iff_left (isCount.symm.trans isDue)]
  · rw [if_neg isDue]
    refine ⟨SamePacking.refl p, rfl, number, filling.congr ?_⟩
    intro position
    apply (or_iff_left _).symm
    rintro ⟨_, isNow⟩
    exact isDue (isCount.trans isNow)

theorem or_eq_of_has
    (isFilled : has position) :
    (fun place => has place ∨ place = position) = has := by
  funext place
  apply propext
  apply or_iff_left_of_imp
  intro same
  rw [same]
  exact isFilled

theorem reserveDouble_ends
    (pending : Pending first s p number has chunks position b chunk)
    (positive : 0 < first.freeblock) :
    (reserveDouble p s).Ends anyFailure
      (fun later after =>
        SamePacking p later ∧ later.currentSecond = p.currentSecond ∧
          ∃ numbers, Pending first after later numbers
            (fun place => has place ∨ place = .addr doubleIndex) chunks
            position b chunk) := by
  unfold reserveDouble
  have isAddr := pending.tables.addrs doubleIndex
  by_cases isEmpty : p.inode.addrs doubleIndex = 0
  · rw [if_pos isEmpty]
    apply ends_allocBlock
    intro room
    have missing : ¬ has (.addr doubleIndex) := by
      rw [← pending.filled, ← isAddr]
      exact not_not_intro isEmpty
    refine ⟨⟨rfl, rfl⟩, rfl, _, pending.attach positive room rfl missing ?_⟩
    apply (pending.tables.setAddr doubleIndex s.freeblock).congr
    intro outer _ held
    rw [Function.update_of_ne (by intro same; cases same)] at held ⊢
    rw [disk_withNewBlock,
      Function.update_of_ne (pending.ne_freeblock held)]
  · rw [if_neg isEmpty]
    have isFilled : has (.addr doubleIndex) := by
      rw [← pending.filled, ← isAddr]
      exact isEmpty
    refine ⟨SamePacking.refl p, rfl, number, ?_⟩
    rw [or_eq_of_has isFilled]
    exact pending

theorem changeSecond_ends
    {outer : Nat}
    (pending : Pending first s p number has chunks position b chunk)
    (positive : 0 < first.freeblock)
    (inside : outer < NINDIRECT)
    (isNew :
      p.currentSecond ≠ some outer →
        ¬ has (secondLevel outer) ∧
          ∀ inner, ¬ has (.child (secondLevel outer) inner)) :
    (changeSecond p outer s).Ends anyFailure
      (fun later after =>
        SamePacking p later ∧ later.currentSecond = some outer ∧
          ∃ numbers, Pending first after later numbers
            (fun place => has place ∨ place = secondLevel outer) chunks
            position b chunk) := by
  unfold changeSecond
  by_cases isCurrent : p.currentSecond = some outer
  · rw [if_pos isCurrent]
    have isFilled : has (secondLevel outer) :=
      (pending.filled _).mp (pending.tables.current outer isCurrent).2
    refine ⟨SamePacking.refl p, isCurrent, number, ?_⟩
    rw [or_eq_of_has isFilled]
    exact pending
  · rw [if_neg isCurrent]
    obtain ⟨missing, missingBelow⟩ := isNew isCurrent
    have takes :
        ∀ later : Mkfs,
          Pending first later p number has chunks position b chunk →
            (∀ current, p.currentSecond = some current →
              ∀ inner, inner < NINDIRECT →
                FileSystem.entry
                    (later.disk (number (secondLevel current))) inner =
                  number (.child (secondLevel current) inner)) →
              later.freeblock < FSSIZE →
                Pending first later.withNewBlock
                  { p with
                    currentSecond := some outer
                    second := fun _ => 0
                    dindirect :=
                      Function.update p.dindirect outer later.freeblock }
                  (Function.update number (secondLevel outer) later.freeblock)
                  (fun place => has place ∨ place = secondLevel outer) chunks
                  position b chunk := by
      intro later pending flushed room
      have order := pending.numbers.order
      apply pending.attach positive room rfl missing
      refine Tables.congr (?_ : Tables _ _ later.disk) ?_
      · apply pending.tables.changeSecond inside (by omega)
        · intro inner
          exact pending.empty (missingBelow inner)
        · exact flushed
      · intro other notCurrent held
        have different : secondLevel other ≠ secondLevel outer := by
          intro same
          rw [(Position.child.inj same).2] at notCurrent
          exact notCurrent rfl
        rw [Function.update_of_ne different] at held ⊢
        rw [disk_withNewBlock,
          Function.update_of_ne (pending.ne_freeblock held)]
    unfold writeSecond
    cases wasCurrent : p.currentSecond with
    | none =>
        apply ends_pure
        apply ends_allocBlock
        intro room
        refine ⟨⟨rfl, rfl⟩, rfl, _, takes s pending ?_ room⟩
        intro current impossible
        rw [wasCurrent] at impossible
        cases impossible
    | some current =>
        obtain ⟨flushed, sameBlocks, entries⟩ := pending.flush wasCurrent
        apply ends_done writeBlock_done
        apply ends_allocBlock
        intro room
        refine ⟨⟨rfl, rfl⟩, rfl, _, takes _ flushed ?_ room⟩
        intro other isOther
        cases wasCurrent.symm.trans isOther
        exact entries

/-- The positions that have been filled before a data block is placed. -/
def filledBefore (count : Nat) (position : Position) : Prop :=
  FilledAt count position ∨
    (position = .addr indirectIndex ∧ count = NDIRECT)

theorem filledBefore_place
    {count : Nat}
    (inside : count < MAXFILE)
    (below : count < NDIRECT + NINDIRECT) :
    filledBefore count position ∨ position = ofBlock count ↔
      FilledAt (count + 1) position := by
  rw [filledAt_succ inside]
  unfold filledBefore
  constructor
  · rintro ((isFilled | isIndirect) | isOwn)
    · exact Or.inl isFilled
    · exact Or.inr (Or.inr (Or.inl isIndirect))
    · exact Or.inr (Or.inl isOwn)
  · rintro (isFilled | isOwn | isIndirect | ⟨_, isDouble⟩ | isSecond)
    · exact Or.inl (Or.inl isFilled)
    · exact Or.inr isOwn
    · exact Or.inl (Or.inr isIndirect)
    · omega
    · obtain ⟨_, _, _, isCount⟩ := isSecond
      omega

theorem placeDirect_ends
    (pending :
      Pending first s p number (filledBefore chunks.length) chunks
        (ofBlock chunks.length) b chunk)
    (inside : chunks.length < MAXFILE)
    (isDirect : chunks.length < NDIRECT) :
    ∃ numbers,
      Filling first s (p.setAddr (directIndex chunks.length isDirect) b)
        numbers (FilledAt (chunks.length + 1)) (chunks ++ [chunk]) := by
  refine ⟨_, (pending.place rfl ?_).congr ?_⟩
  · rw [ofBlock_direct isDirect]
    exact pending.tables.setAddr (directIndex chunks.length isDirect) b
  · exact fun position => filledBefore_place inside (by omega)

theorem placeIndirect_ends
    (pending :
      Pending first s p number (filledBefore chunks.length) chunks
        (ofBlock chunks.length) b chunk)
    (inside : chunks.length < MAXFILE)
    (notDirect : ¬ chunks.length < NDIRECT)
    (isIndirect : chunks.length < NDIRECT + NINDIRECT) :
    ∃ numbers,
      Filling first s
        { p with
          indirect :=
            Function.update p.indirect (chunks.length - NDIRECT) b }
        numbers (FilledAt (chunks.length + 1)) (chunks ++ [chunk]) := by
  refine ⟨_, (pending.place rfl ?_).congr ?_⟩
  · rw [ofBlock_indirect notDirect (by omega)]
    exact pending.tables.setIndirect (chunks.length - NDIRECT) b
  · exact fun position => filledBefore_place inside isIndirect

theorem secondAt_succ
    {count : Nat}
    (isDouble : ¬ count < NDIRECT + NINDIRECT) :
    secondAt (count + 1) =
      some ((count - NDIRECT - NINDIRECT) / NINDIRECT) := by
  unfold secondAt
  rw [if_pos (by omega), Nat.add_sub_cancel]

theorem isNew_second
    {count : Nat}
    (isDouble : ¬ count < NDIRECT + NINDIRECT)
    (isNew :
      secondAt count ≠ some ((count - NDIRECT - NINDIRECT) / NINDIRECT)) :
    count =
      NDIRECT + NINDIRECT +
        (count - NDIRECT - NINDIRECT) / NINDIRECT * NINDIRECT := by
  have isDirect := NDIRECT_eq
  have isIndirect := NINDIRECT_eq
  unfold secondAt at isNew
  rw [isDirect, isIndirect] at isNew isDouble ⊢
  split at isNew
  next beyond =>
    have different :
        (count - 1 - 11 - 256) / 256 ≠ (count - 11 - 256) / 256 :=
      fun same => isNew (congrArg some same)
    omega
  · omega

theorem placeDouble_ends
    (pending :
      Pending first s p number (filledBefore chunks.length) chunks
        (ofBlock chunks.length) b chunk)
    (positive : 0 < first.freeblock)
    (inside : chunks.length < MAXFILE)
    (notDirect : ¬ chunks.length < NDIRECT)
    (isDouble : ¬ chunks.length < NDIRECT + NINDIRECT)
    (isCurrent : p.currentSecond = secondAt chunks.length) :
    ((do
      let p ← reserveDouble p
      let p ← changeSecond p
        ((chunks.length - NDIRECT - NINDIRECT) / NINDIRECT)
      return { p with
        second :=
          Function.update p.second
            ((chunks.length - NDIRECT - NINDIRECT) % NINDIRECT) b } :
        MkfsRoutine Packing) s).Ends anyFailure
      (fun later after =>
        SamePacking p later ∧
          later.currentSecond = secondAt (chunks.length + 1) ∧
          ∃ numbers, Filling first after later numbers
            (FilledAt (chunks.length + 1)) (chunks ++ [chunk])) := by
  have isDirect := NDIRECT_eq
  have isIndirect := NINDIRECT_eq
  have isMax := MAXFILE_eq
  generalize isOuter :
    (chunks.length - NDIRECT - NINDIRECT) / NINDIRECT = outer
  have outerInside : outer < NINDIRECT := by
    rw [← isOuter, isDirect, isIndirect]
    omega
  apply ends_bind (reserveDouble_ends pending positive)
  rintro middle between ⟨sameMiddle, isMiddle, numbers, reserved⟩
  have isNew :
      middle.currentSecond ≠ some outer →
        ¬ (filledBefore chunks.length (secondLevel outer) ∨
            secondLevel outer = .addr doubleIndex) ∧
          ∀ inner,
            ¬ (filledBefore chunks.length
                (.child (secondLevel outer) inner) ∨
              Position.child (secondLevel outer) inner =
                .addr doubleIndex) := by
    intro different
    rw [isMiddle, isCurrent, ← isOuter] at different
    have isCount := isNew_second isDouble different
    rw [isOuter] at isCount
    constructor
    · rintro ((⟨bn, isDue, below⟩ | ⟨impossible, _⟩) | impossible)
      · rw [due_secondLevel outerInside] at isDue
        cases isDue
        omega
      · cases impossible
      · cases impossible
    · rintro inner ((⟨bn, isDue, below⟩ | ⟨impossible, _⟩) | impossible)
      · unfold secondLevel due at isDue
        dsimp only at isDue
        split at isDue
        · cases isDue
          omega
        · cases isDue
      · cases impossible
      · cases impossible
  apply ends_bind (changeSecond_ends reserved positive outerInside isNew)
  rintro last after ⟨sameLast, isLast, numbers, changed⟩
  have same := sameMiddle.trans sameLast
  refine ⟨⟨same.blockIndex, same.inode⟩, ?_, _, (changed.place rfl ?_).congr ?_⟩
  · rw [secondAt_succ isDouble, isOuter]
    exact isLast
  · rw [ofBlock_double notDirect (by omega), isOuter]
    exact changed.tables.setSecond isLast _ b
  · intro position
    rw [filledAt_succ inside]
    unfold filledBefore
    constructor
    · rintro ((((isFilled | ⟨_, isFirst⟩) | isAddr) | isSecond) | isOwn)
      · exact Or.inl isFilled
      · omega
      · by_cases isFilled : FilledAt chunks.length position
        · exact Or.inl isFilled
        · refine Or.inr (Or.inr (Or.inr (Or.inl ⟨isAddr, ?_⟩)))
          by_contra different
          apply isFilled
          rw [isAddr]
          refine ⟨NDIRECT + NINDIRECT, rfl, ?_⟩
          omega
      · by_cases isFilled : FilledAt chunks.length position
        · exact Or.inl isFilled
        · refine Or.inr (Or.inr (Or.inr (Or.inr
            ⟨outer, isSecond, outerInside, ?_⟩)))
          by_contra different
          apply isFilled
          rw [isSecond]
          refine ⟨_, due_secondLevel outerInside, ?_⟩
          rw [isDirect, isIndirect] at isOuter different isDouble ⊢
          omega
      · exact Or.inr (Or.inl isOwn)
    · rintro (isFilled | isOwn | isFirst | ⟨isAddr, _⟩ |
        ⟨other, isSecond, isInside, isCount⟩)
      · exact Or.inl (Or.inl (Or.inl (Or.inl isFilled)))
      · exact Or.inr isOwn
      · exact Or.inl (Or.inl (Or.inl (Or.inr isFirst)))
      · exact Or.inl (Or.inl (Or.inr isAddr))
      · have isOther : other = outer := by
          rw [isDirect, isIndirect] at isOuter isCount
          omega
        rw [isOther] at isSecond
        exact Or.inl (Or.inr isSecond)

theorem placeBlock_ends
    (pending :
      Pending first s p number (filledBefore chunks.length) chunks
        (ofBlock chunks.length) b chunk)
    (positive : 0 < first.freeblock)
    (inside : chunks.length < MAXFILE)
    (isCount : p.blockIndex = chunks.length)
    (isCurrent : p.currentSecond = secondAt chunks.length) :
    (placeBlock p b s).Ends anyFailure
      (fun later after =>
        SamePacking p later ∧
          later.currentSecond = secondAt (chunks.length + 1) ∧
          ∃ numbers, Filling first after later numbers
            (FilledAt (chunks.length + 1)) (chunks ++ [chunk])) := by
  have noSecond :
      chunks.length < NDIRECT + NINDIRECT →
        secondAt chunks.length = secondAt (chunks.length + 1) := by
    intro small
    unfold secondAt
    rw [if_neg (by omega), if_neg (by omega)]
  obtain ⟨inode, indirect, dindirect, second, blockIndex, current⟩ := p
  change blockIndex = chunks.length at isCount
  subst isCount
  unfold placeBlock
  dsimp only
  by_cases isDirect : chunks.length < NDIRECT
  · rw [dif_pos isDirect]
    refine ⟨⟨rfl, rfl⟩, ?_, placeDirect_ends pending inside isDirect⟩
    rw [← noSecond (by omega)]
    exact isCurrent
  · rw [dif_neg isDirect]
    by_cases isIndirect : chunks.length < NDIRECT + NINDIRECT
    · rw [if_pos isIndirect]
      refine ⟨⟨rfl, rfl⟩, ?_,
        placeIndirect_ends pending inside isDirect isIndirect⟩
      rw [← noSecond isIndirect]
      exact isCurrent
    · rw [if_neg isIndirect]
      exact placeDouble_ends pending positive inside isDirect isIndirect
        isCurrent

theorem addChunk_ends
    (packed : Packed first s p number chunks)
    (positive : 0 < first.freeblock)
    (chunk : List UInt8) :
    (addChunk p chunk s).Ends anyFailure
      (fun later after =>
        later.inode =
            { p.inode with
              size := (p.inode.size + chunk.length) % uintModulus
              addrs := later.inode.addrs } ∧
          ∃ numbers, Packed first after later numbers (chunks ++ [chunk])) := by
  unfold addChunk
  by_cases tooLarge : MAXFILE ≤ p.blockIndex
  · rw [if_pos tooLarge]
    exact True.intro
  · rw [if_neg tooLarge]
    have inside : chunks.length < MAXFILE := by
      rw [← packed.count]
      exact Nat.lt_of_not_le tooLarge
    apply ends_bind (reserveIndirect_ends packed.filling positive packed.count)
    rintro reserved between ⟨sameReserved, isReserved, numbers, filling⟩
    apply ends_allocBlock
    intro room
    apply ends_done writeBlock_done
    have missing :
        ¬ filledBefore chunks.length (ofBlock chunks.length) := by
      rintro (isFilled | ⟨isIndirect, _⟩)
      · exact not_filledAt inside isFilled
      · have isData := isIndex_ofBlock chunks.length
        rw [isIndirect] at isData
        cases isData
    have pending :=
      filling.pend positive room (isIndex_ofBlock _) missing chunk
    apply ends_bind
      (placeBlock_ends pending positive inside
        (sameReserved.blockIndex.trans packed.count)
        (isReserved.trans packed.current))
    rintro placed after ⟨samePlaced, isPlaced, numbers, filled⟩
    have same := sameReserved.trans samePlaced
    have isLength : (chunks ++ [chunk]).length = chunks.length + 1 := by
      rw [List.length_append, List.length_singleton]
    refine ⟨?_, numbers, ?_⟩
    · dsimp only
      rw [same.inode]
    · exact {
        filling := {
          numbers := filled.numbers
          tables := {
            current := filled.tables.current
            addrs := filled.tables.addrs
            indirect := filled.tables.indirect
            dindirect := filled.tables.dindirect
            second := filled.tables.second
            written := filled.tables.written
          }
          filled := by
            rw [isLength]
            exact filled.filled
          content := filled.content
        }
        count := by
          rw [isLength, same.blockIndex, packed.count]
        bound := by
          rw [isLength]
          exact inside
        current := by
          rw [isLength]
          exact isPlaced
      }

theorem addChunks_ends
    (packed : Packed first s p number chunks)
    (positive : 0 < first.freeblock)
    (rest : List (List UInt8)) :
    (addChunks rest p s).Ends anyFailure
      (fun later after =>
        later.inode =
            { p.inode with
              size := later.inode.size
              addrs := later.inode.addrs } ∧
          later.inode.size % uintModulus =
            (p.inode.size + rest.flatten.length) % uintModulus ∧
          (p.inode.size < uintModulus → later.inode.size < uintModulus) ∧
          ∃ numbers, Packed first after later numbers (chunks ++ rest)) := by
  induction rest generalizing s p number chunks with
  | nil =>
      refine ⟨rfl, rfl, id, number, ?_⟩
      rw [List.append_nil]
      exact packed
  | cons chunk rest inductionHypothesis =>
      unfold addChunks
      apply ends_bind (addChunk_ends packed positive chunk)
      rintro middle between ⟨isInode, numbers, packed⟩
      apply (inductionHypothesis packed).mono
      rintro later after ⟨isLater, isSize, narrow, numbers, packed⟩
      have isMiddle :
          middle.inode.size =
            (p.inode.size + chunk.length) % uintModulus := by
        rw [isInode]
      refine ⟨?_, ?_, ?_, numbers, ?_⟩
      · rw [isLater, isInode]
      · rw [isSize, isMiddle, Nat.mod_add_mod, List.flatten_cons,
          List.length_append, Nat.add_assoc]
      · intro _
        apply narrow
        rw [isMiddle]
        exact Nat.mod_lt _ (by decide)
      · rw [List.append_assoc] at packed
        exact packed

/-!
## The tables that are left
-/

theorem Numbers.narrow
    (numbers : Numbers first s number)
    (position : Position) :
    number position < uintModulus := by
  have small : FSSIZE < uintModulus := by decide
  have room := numbers.room
  by_cases isEmpty : number position = 0
  · rw [isEmpty]
    decide
  · have below := (numbers.numbering.inRange isEmpty).2
    omega

theorem writeTable_ends
    (position : Position)
    {table : Nat → Nat}
    (numbers : Numbers first s number)
    (narrow : ∀ index, index < NINDIRECT → table index < uintModulus) :
    (writeTable (number position) table s).Ends anyFailure
      (fun _ later =>
        Numbers first later number ∧
          (∀ other, other ≠ position → number other ≠ 0 →
            later.disk (number other) = s.disk (number other)) ∧
          (number position ≠ 0 → ∀ index, index < NINDIRECT →
            FileSystem.entry (later.disk (number position)) index =
              table index)) := by
  unfold writeTable
  by_cases held : number position ≠ 0
  · rw [if_pos held, writeBlock_done]
    have own := (numbers.numbering.inRange held).1
    refine ⟨numbers.withBlock own, ?_, ?_⟩
    · intro other different isHeld
      rw [disk_withBlock, Function.update_of_ne]
      intro same
      exact different (numbers.numbering.exclusive same isHeld)
    · intro _ index inside
      rw [disk_withBlock, Function.update_self]
      exact entry_tableBytes inside (narrow index inside)
  · rw [if_neg held]
    exact ⟨numbers, fun _ _ _ => rfl, fun isHeld => absurd isHeld held⟩

theorem filledAt_parent
    {count place : Nat}
    {parent : Position}
    (isFilled : FilledAt count (.child parent place)) :
    parent.isIndex = true ∧ place < NINDIRECT ∧ FilledAt count parent := by
  have isDirect := NDIRECT_eq
  have isIndirect := NINDIRECT_eq
  obtain ⟨bn, isDue, below⟩ := isFilled
  cases parent with
  | addr index =>
      unfold due at isDue
      dsimp only at isDue
      split at isDue
      · cases isDue
      next inside =>
        have isInside := Nat.lt_of_not_le inside
        split at isDue
        next isFirst =>
          cases isDue
          rw [isFirst]
          refine ⟨rfl, isInside, NDIRECT, rfl, ?_⟩
          omega
        next notFirst =>
          split at isDue
          next isDouble =>
            cases isDue
            rw [isDouble]
            refine ⟨rfl, isInside, NDIRECT + NINDIRECT, rfl, ?_⟩
            omega
          · cases isDue
  | child above outer =>
      cases above with
      | addr index =>
          unfold due at isDue
          dsimp only at isDue
          split at isDue
          next both =>
            cases isDue
            obtain ⟨isDouble, isOuter, isInner⟩ := both
            rw [isDouble]
            refine ⟨rfl, isInner, _, due_secondLevel isOuter, ?_⟩
            omega
          · cases isDue
      | child above index =>
          cases isDue

/-- The disk shows the number of every position. -/
structure Shows
    (first s : Mkfs)
    (addrs : AddrIndex → Nat)
    (number : Position → Nat)
    (chunks : List (List UInt8)) : Prop where
  numbers : Numbers first s number
  filled : ∀ position, number position ≠ 0 ↔ FilledAt chunks.length position
  bound : chunks.length ≤ MAXFILE
  addrs : ∀ index, addrs index = number (.addr index)
  entries :
    ∀ {parent index}, parent.isIndex = true → number parent ≠ 0 →
      index < NINDIRECT →
        FileSystem.entry (s.disk (number parent)) index =
          number (.child parent index)
  content :
    ∀ bn, bn < chunks.length →
      s.disk (number (ofBlock bn)) =
        cutBlock (Bytes.ofList (chunks.getD bn []))

theorem Shows.pointer
    {inode : Dinode}
    (shows : Shows first s inode.addrs number chunks)
    (position : Position) :
    s.disk.pointer inode position = number position := by
  induction position with
  | addr index =>
      exact shows.addrs index
  | child parent place inductionHypothesis =>
      unfold Disk.pointer
      rw [inductionHypothesis]
      by_cases reached :
          parent.isIndex = true ∧ place < NINDIRECT ∧ number parent ≠ 0
      · rw [if_pos reached]
        exact shows.entries reached.1 reached.2.2 reached.2.1
      · rw [if_neg reached]
        by_contra held
        apply reached
        have isFilled := (shows.filled _).mp (Ne.symm held)
        obtain ⟨isIndex, inside, above⟩ := filledAt_parent isFilled
        exact ⟨isIndex, inside, (shows.filled _).mpr above⟩

theorem writeSecond_ends
    {disk : Disk}
    (tables : Tables p number disk)
    (numbers : Numbers first s number) :
    (writeSecond p s).Ends anyFailure
      (fun _ later =>
        Numbers first later number ∧
          (∀ other,
            (∀ outer, p.currentSecond = some outer →
              other ≠ secondLevel outer) →
            number other ≠ 0 →
              later.disk (number other) = s.disk (number other)) ∧
          ∀ outer, p.currentSecond = some outer →
            ∀ inner, inner < NINDIRECT →
              FileSystem.entry (later.disk (number (secondLevel outer)))
                  inner =
                number (.child (secondLevel outer) inner)) := by
  unfold writeSecond
  cases isCurrent : p.currentSecond with
  | none =>
      exact ⟨numbers, fun _ _ _ => rfl, fun _ impossible => by
        cases impossible⟩
  | some current =>
      obtain ⟨inside, held⟩ := tables.current current isCurrent
      have narrow :
          ∀ inner, inner < NINDIRECT → p.second inner < uintModulus := by
        intro inner isInner
        rw [tables.second current isCurrent inner isInner]
        exact numbers.narrow _
      have writes := writeTable_ends (secondLevel current) numbers narrow
      unfold writeTable at writes
      rw [if_pos held, ← tables.dindirect current inside] at writes
      apply writes.mono
      rintro _ later ⟨isNumbers, kept, isSecond⟩
      refine ⟨isNumbers, ?_, ?_⟩
      · intro other elsewhere isHeld
        exact kept other (elsewhere current rfl) isHeld
      · intro outer isOuter inner isInner
        cases isOuter
        rw [tables.dindirect current inside] at isSecond
        rw [isSecond held inner isInner]
        exact tables.second current isCurrent inner isInner

theorem writeTables_ends
    (packed : Packed first s p number chunks) :
    (writeTables p s).Ends anyFailure
      (fun _ later => Shows first later p.inode.addrs number chunks) := by
  have tables := packed.filling.tables
  have numbers := packed.filling.numbers
  have filled := packed.filling.filled
  have heldSecond :
      ∀ outer, number (secondLevel outer) ≠ 0 → outer < NINDIRECT :=
    fun outer held => (filledAt_parent ((filled _).mp held)).2.1
  unfold writeTables
  rw [tables.addrs, tables.addrs]
  apply ends_bind
    (writeTable_ends (.addr indirectIndex) numbers ?_)
  · rintro _ afterFirst ⟨numbersFirst, keptFirst, isFirst⟩
    apply ends_bind (writeSecond_ends tables numbersFirst)
    rintro _ afterSecond ⟨numbersSecond, keptSecond, isSecond⟩
    apply
      (writeTable_ends (.addr doubleIndex) numbersSecond ?_).mono
    · rintro _ later ⟨isNumbers, kept, isDouble⟩
      have keptAll :
          ∀ other, other ≠ .addr indirectIndex → other ≠ .addr doubleIndex →
            (∀ outer, p.currentSecond = some outer →
              other ≠ secondLevel outer) →
            number other ≠ 0 →
              later.disk (number other) = s.disk (number other) := by
        intro other notFirst notDouble notSecond held
        rw [kept other notDouble held, keptSecond other notSecond held,
          keptFirst other notFirst held]
      exact {
        numbers := isNumbers
        filled := filled
        bound := packed.bound
        addrs := tables.addrs
        entries := by
          intro parent index isIndex held inside
          cases parent with
          | addr address =>
              have isAddress :
                  address = indirectIndex ∨ address = doubleIndex := by
                unfold Position.isIndex at isIndex
                rw [Bool.or_eq_true, beq_iff_eq, beq_iff_eq] at isIndex
                exact isIndex
              rcases isAddress with isIndirect | isLast
              · rw [isIndirect] at held ⊢
                rw [kept _ (by decide) held,
                  keptSecond _ (fun outer _ same => by cases same) held,
                  isFirst held index inside]
                exact tables.indirect index inside
              · rw [isLast] at held ⊢
                rw [isDouble held index inside]
                exact tables.dindirect index inside
          | child above outer =>
              have isAbove : above = .addr doubleIndex := by
                cases above with
                | addr address =>
                    exact congrArg Position.addr (eq_of_beq isIndex)
                | child above place =>
                    cases isIndex
              rw [isAbove] at held ⊢
              have outerInside := heldSecond outer held
              by_cases isCurrent : p.currentSecond = some outer
              · have atTable :=
                  kept (secondLevel outer) (by intro same; cases same) held
                change
                  FileSystem.entry
                      (later.disk (number (secondLevel outer))) index = _
                rw [atTable]
                exact isSecond outer isCurrent index inside
              · have atTable :=
                  keptAll (secondLevel outer) (by intro same; cases same)
                    (by intro same; cases same)
                    (by
                      intro current isOther same
                      rw [(Position.child.inj same).2] at isCurrent
                      exact isCurrent isOther)
                    held
                change
                  FileSystem.entry
                      (later.disk (number (secondLevel outer))) index = _
                rw [atTable]
                exact tables.written outer outerInside isCurrent held index
                  inside
        content := by
          intro bn inside
          obtain ⟨held, isContent⟩ := packed.filling.content bn inside
          have notIndex :
              ∀ {other : Position}, other.isIndex = true →
                ofBlock bn ≠ other := by
            intro other isIndex same
            have isData := isIndex_ofBlock bn
            rw [same, isIndex] at isData
            cases isData
          rw [← isContent]
          exact keptAll _ (notIndex rfl) (notIndex rfl)
            (fun _ _ => notIndex rfl) held
      }
    · intro index inside
      rw [tables.dindirect index inside]
      exact numbersSecond.narrow _
  · intro index inside
    rw [tables.indirect index inside]
    exact numbers.narrow _

/-!
## The whole file
-/

theorem Packed.start
    {inode : Dinode}
    (room : s.freeblock ≤ FSSIZE)
    (noAddrs : inode.addrs = fun _ => 0) :
    Packed s s (Packing.start inode) (fun _ => 0) [] where
  filling := {
    numbers := {
      same := SameTables.refl s
      frame := fun _ _ => rfl
      order := Nat.le_refl _
      room := room
      numbering := Numbering.empty fun _ => rfl
    }
    tables := {
      current := fun _ impossible => by cases impossible
      addrs := fun index => congrFun noAddrs index
      indirect := fun _ _ => rfl
      dindirect := fun _ _ => rfl
      second := fun _ impossible => by cases impossible
      written := fun _ _ _ held => absurd rfl held
    }
    filled := by
      intro position
      apply iff_of_false
      · exact not_not_intro rfl
      · rintro ⟨bn, _, below⟩
        exact Nat.not_lt_zero bn below
    content := fun bn inside => absurd inside (Nat.not_lt_zero bn)
  }
  count := rfl
  bound := Nat.zero_le _
  current := rfl

theorem length_content_le (file : HostFile) :
    file.content.length ≤ file.chunks.length * BSIZE := by
  have bounded := file.bounded
  unfold HostFile.content
  generalize file.chunks = chunks at bounded ⊢
  induction chunks with
  | nil =>
      exact Nat.le_refl 0
  | cons chunk rest inductionHypothesis =>
      have isBound := (bounded chunk List.mem_cons_self).2
      have below :=
        inductionHypothesis fun other member =>
          bounded other (List.mem_cons_of_mem chunk member)
      rw [List.flatten_cons, List.length_append, List.length_cons,
        Nat.succ_mul]
      omega

theorem addFileData_ends
    {inode : Dinode}
    (positive : 0 < s.freeblock)
    (room : s.freeblock ≤ FSSIZE)
    (noAddrs : inode.addrs = fun _ => 0)
    (isEmpty : inode.size = 0)
    (file : HostFile) :
    (addFileData file inode s).Ends anyFailure
      (fun result later =>
        result =
            { inode with
              size := file.content.length
              addrs := result.addrs } ∧
          ∃ number, Shows s later result.addrs number file.chunks) := by
  unfold addFileData
  apply ends_bind (addChunks_ends (.start room noAddrs) positive file.chunks)
  rintro p later ⟨isInode, isSize, narrow, number, packed⟩
  rw [List.nil_append] at packed
  split
  · exact True.intro
  · apply ends_bind (writeTables_ends packed)
    intro _ last shows
    refine ⟨?_, number, shows⟩
    have start : (Packing.start inode).inode = inode := rfl
    have small : uintModulus = 4294967296 := rfl
    have isMax := MAXFILE_eq
    have isBlock := BSIZE_eq
    have bound := packed.bound
    have isLength := length_content_le file
    rw [isBlock] at isLength
    rw [start, isEmpty] at isSize narrow
    have narrowNow := narrow (by decide)
    have size : p.inode.size = file.content.length := by
      unfold HostFile.content at isLength ⊢
      rw [Nat.mod_eq_of_lt narrowNow, Nat.zero_add,
        Nat.mod_eq_of_lt (by omega)] at isSize
      exact isSize
    rw [← size]
    exact isInode

/-- Every read returns a full block as long as more follows. -/
def Full (file : HostFile) : Prop :=
  ∀ bn, bn + 1 < file.chunks.length →
    (file.chunks.getD bn []).length = BSIZE

theorem getD_flatten
    {Item : Type}
    {lists : List (List Item)}
    {size : Nat}
    (positive : 0 < size)
    (bounded : ∀ list ∈ lists, list.length ≤ size)
    (full :
      ∀ index, index + 1 < lists.length →
        (lists.getD index []).length = size)
    (filler : Item)
    {place : Nat}
    (inside : place < lists.flatten.length) :
    lists.flatten.getD place filler =
      (lists.getD (place / size) []).getD (place % size) filler := by
  induction lists generalizing place with
  | nil =>
      exact absurd inside (Nat.not_lt_zero place)
  | cons head rest inductionHypothesis =>
      rw [List.flatten_cons]
      by_cases first : place < head.length
      · have isShort := bounded head List.mem_cons_self
        rw [List.getD_append _ _ _ _ first,
          Nat.div_eq_of_lt (by omega), Nat.mod_eq_of_lt (by omega)]
        rfl
      · have beyond : head.length ≤ place := Nat.le_of_not_lt first
        have nonempty : rest ≠ [] := by
          intro isEmpty
          rw [isEmpty, List.flatten_cons, List.flatten_nil,
            List.append_nil] at inside
          exact first inside
        have isFull : head.length = size := by
          apply full 0
          have more := List.length_pos_of_ne_nil nonempty
          rw [List.length_cons]
          omega
        rw [isFull] at beyond
        rw [List.getD_append_right _ _ _ _ (by rw [isFull]; exact beyond),
          isFull, inductionHypothesis]
        · have step : place / size = (place - size) / size + 1 := by
            rw [← Nat.sub_add_cancel beyond, Nat.add_div_right _ positive,
              Nat.add_sub_cancel]
          rw [step, List.getD_cons_succ, Nat.mod_eq_sub_mod beyond]
        · intro list member
          exact bounded list (List.mem_cons_of_mem head member)
        · intro index isIndex
          have isNext := full (index + 1) (by
            rw [List.length_cons]
            omega)
          rw [List.getD_cons_succ] at isNext
          exact isNext
        · rw [List.flatten_cons, List.length_append] at inside
          omega

theorem Shows.present
    {inode : Dinode}
    {file : HostFile}
    (shows : Shows first s inode.addrs number file.chunks)
    {place : Nat}
    (inside : place < file.content.length) :
    place / BSIZE < file.chunks.length ∧
      s.disk.pointer inode (ofBlock (place / BSIZE)) ≠ 0 := by
  have isBlock := BSIZE_eq
  have isLength := length_content_le file
  have bound := shows.bound
  have isChunk : place / BSIZE < file.chunks.length := by
    rw [isBlock] at isLength ⊢
    omega
  refine ⟨isChunk, ?_⟩
  rw [shows.pointer, shows.filled]
  exact ⟨_, due_ofBlock (Nat.lt_of_lt_of_le isChunk bound), isChunk⟩

theorem Shows.byteAt
    {inode : Dinode}
    {file : HostFile}
    (shows : Shows first s inode.addrs number file.chunks)
    (full : Full file)
    {place : Nat}
    (inside : place < file.content.length) :
    s.disk.byteAt inode place = file.content.getD place 0 := by
  have positive : 0 < BSIZE := by decide
  have isChunk := (shows.present inside).1
  unfold Disk.byteAt
  rw [shows.pointer, shows.content _ isChunk,
    cutBlock_of_lt (Nat.mod_lt _ positive)]
  unfold HostFile.content at inside ⊢
  rw [getD_flatten positive (fun list member => (file.bounded list member).2)
    full 0 inside]
  rfl

end Mkfs

end MyOS
