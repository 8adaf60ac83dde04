import MyOS.CxxStringRuns

namespace MyOS

open Lib

/-!
# Strings are sequences of characters

A call does to sequences what its code says, and its code says what it should
where the operands allow it.
-/

section Calls

variable {world : StringWorld} {sequences : Sequences UInt8}
variable {call : StringCall}

@[simp]
theorem joined_some (left right : List UInt8) :
    joined (some left) (some right) = some (left ++ right) :=
  rfl

theorem stringMove_works
    {other : Nat}
    (ok : OwnersOk StringOk world sequences)
    (exists_ : (world.owners other).isSome) :
    ∃ later,
      stringCall world (.move other) = some later ∧
        OwnersOk StringOk later (codeCall sequences (.move other)) := by
  obtain ⟨w, theirs, isOther, isTheirs, _⟩ := stringItems ok exists_
  have isOld := ok.exists_lt isOther
  have stillOther : (world.add .empty).owners other = some w :=
    (Function.update_of_ne (Nat.ne_of_lt isOld) _ _).trans isOther
  obtain ⟨later, takes, laterOk⟩ :=
    stringTake_works (ok.add stringOk_represents)
      (Function.update_self _ _ _) stillOther (Nat.ne_of_gt isOld)
  refine ⟨later, takes, ?_⟩
  rw [ok.created] at laterOk isOld
  rw [Sequences.add_set,
    Sequences.add_items_of_ne _ (Nat.ne_of_lt isOld)] at laterOk
  exact laterOk

theorem stringCopyAssign_owners
    {id other : Nat}
    (ok : OwnersOk StringOk world sequences)
    (exists_ : (world.owners id).isSome)
    (otherExists : (world.owners other).isSome) :
    ∃ later,
      stringCall world (.copyAssign id other) = some later ∧
        OwnersOk StringOk later
          (codeCall sequences (.copyAssign id other)) := by
  obtain ⟨v, items, isOwner, isItems, isOk⟩ := stringItems ok exists_
  obtain ⟨w, theirs, isOther, isTheirs, otherOk⟩ := stringItems ok otherExists
  dsimp only [stringCall, codeCall]
  rw [isOther, Option.bind_some]
  by_cases same : id = other
  · rw [if_pos same, if_pos same]
    exact ⟨world, rfl, ok⟩
  · rw [if_neg same, if_neg same, isTheirs]
    obtain ⟨later, updates, laterOk, _⟩ :=
      stringUpdate_works ok isOwner
        (stringCopyAssign_works isOk otherOk (ok.apart isOwner isOther same))
    exact ⟨later, updates, laterOk⟩

theorem stringMoveAssign_works
    {id other : Nat}
    (ok : OwnersOk StringOk world sequences)
    (exists_ : (world.owners id).isSome)
    (otherExists : (world.owners other).isSome) :
    ∃ later,
      stringCall world (.moveAssign id other) = some later ∧
        OwnersOk StringOk later
          (codeCall sequences (.moveAssign id other)) := by
  obtain ⟨v, items, isOwner, isItems, isOk⟩ := stringItems ok exists_
  obtain ⟨w, theirs, isOther, isTheirs, otherOk⟩ := stringItems ok otherExists
  dsimp only [stringCall, codeCall, characterCall]
  by_cases same : id = other
  · rw [if_pos same, if_pos same]
    exact ⟨world, rfl, ok⟩
  · rw [if_neg same, if_neg same]
    obtain ⟨released, releases, isReleased, releasedOk⟩ :=
      stringRelease_owners ok isOwner
    have isEmpty : released.owners id = some .empty := by
      rw [isReleased, Function.update_self]
    have stillOther : released.owners other = some w := by
      rw [isReleased, Function.update_of_ne (Ne.symm same), isOther]
    obtain ⟨later, takes, laterOk⟩ :=
      stringTake_works releasedOk isEmpty stillOther same
    refine ⟨later, ?_, ?_⟩
    · rw [releases, Option.bind_some]
      exact takes
    · rw [Sequences.set_set,
        Sequences.set_items_of_ne _ (Ne.symm same)] at laterOk
      exact laterOk

theorem stringAdd_works
    {id : Nat}
    {operand : TextOperand}
    (ok : OwnersOk StringOk world sequences)
    (exists_ : (world.owners id).isSome)
    (operandExists : OperandExists world operand)
    (fits : operand = .of id → FitsItself world id) :
    ∃ later,
      addOperand world id operand = some later ∧
        OwnersOk StringOk later
          (sequences.set id
            (joined (sequences.items id)
              (operandText sequences operand))) := by
  obtain ⟨v, items, isOwner, isItems, _⟩ := stringItems ok exists_
  obtain ⟨_, chars, _, isText, _⟩ := operandPointer_works ok operandExists
  rw [isItems, isText, joined_some]
  exact addOperand_works ok isOwner isItems isText operandExists fits

theorem stringCall_works
    (ok : OwnersOk StringOk world sequences)
    (exist : StringsExist world call)
    (fits : SelfFits world call) :
    ∃ later,
      stringCall world call = some later ∧
        OwnersOk StringOk later (codeCall sequences call) := by
  cases call with
  | construct =>
      obtain ⟨later, updates, laterOk, _⟩ :=
        stringNew_works ok
          (stringConstruct_works (stringOk_represents.empty world.arena))
      exact ⟨later, updates, laterOk⟩
  | constructText operand =>
      obtain ⟨later, chars, makes, isText, laterOk, _⟩ :=
        newFromText_works ok exist
      refine ⟨later, makes, ?_⟩
      dsimp only [codeCall, characterCall]
      rw [isText]
      exact laterOk
  | copy other =>
      obtain ⟨w, theirs, isOther, isTheirs, _⟩ := stringItems ok exist
      obtain ⟨later, makes, laterOk, _⟩ :=
        newCopy_works ok isOther isTheirs
      refine ⟨later, makes, ?_⟩
      dsimp only [codeCall]
      rw [isTheirs]
      exact laterOk
  | move other => exact stringMove_works ok exist
  | copyAssign id other => exact stringCopyAssign_owners ok exist.1 exist.2
  | moveAssign id other => exact stringMoveAssign_works ok exist.1 exist.2
  | append id operand => exact stringAdd_works ok exist.1 exist.2 fits
  | addText id operand => exact stringAdd_works ok exist.1 exist.2 fits
  | addString id other =>
      exact stringAdd_works ok exist.1 exist.2 fun same =>
        fits (TextOperand.of.inj same).symm
  | addChar id ch =>
      obtain ⟨v, items, isOwner, isItems, isOk⟩ := stringItems ok exist
      obtain ⟨later, updates, laterOk, _⟩ :=
        stringUpdate_works ok isOwner (stringPushBack_works ch isOk)
      refine ⟨later, updates, ?_⟩
      dsimp only [codeCall, characterCall]
      rw [isItems]
      exact laterOk
  | pushBack id ch =>
      obtain ⟨v, items, isOwner, isItems, isOk⟩ := stringItems ok exist
      obtain ⟨later, updates, laterOk, _⟩ :=
        stringUpdate_works ok isOwner (stringPushBack_works ch isOk)
      refine ⟨later, updates, ?_⟩
      dsimp only [codeCall, characterCall]
      rw [isItems]
      exact laterOk
  | clear id =>
      obtain ⟨v, items, isOwner, _, isOk⟩ := stringItems ok exist
      obtain ⟨later, updates, laterOk, _⟩ :=
        stringUpdate_works ok isOwner (stringClear_works isOk)
      exact ⟨later, updates, laterOk⟩
  | plus left right =>
      obtain ⟨w, theirs, isOther, isTheirs, _⟩ := stringItems ok exist.1
      obtain ⟨v, items, isOwner, isItems, _⟩ := stringItems ok exist.2
      obtain ⟨middle, makes, middleOk, others⟩ :=
        newCopy_works ok isOther isTheirs
      obtain ⟨later, _, adds, laterOk⟩ :=
        addToNew_works (.of right) ok middleOk others exist.2
          (congrArg (Option.map cText) isItems)
      refine ⟨later, ?_, ?_⟩
      · dsimp only [stringCall]
        rw [makes, Option.bind_some]
        exact adds
      · dsimp only [codeCall]
        rw [isTheirs, isItems]
        exact laterOk
  | plusText left right =>
      obtain ⟨w, theirs, isOther, isTheirs, _⟩ := stringItems ok exist.1
      obtain ⟨text, chars, isPointer, isText, _⟩ :=
        operandPointer_works ok exist.2
      obtain ⟨middle, makes, middleOk, others⟩ :=
        newCopy_works ok isOther isTheirs
      obtain ⟨later, adds, _, laterOk⟩ :=
        addToNew_works right ok middleOk others exist.2 isText
      refine ⟨later, ?_, ?_⟩
      · dsimp only [stringCall]
        rw [isPointer, Option.bind_some] at adds ⊢
        rw [makes, Option.bind_some]
        exact adds
      · dsimp only [codeCall]
        rw [isTheirs, isText]
        exact laterOk
  | textPlus left right =>
      obtain ⟨v, items, isOwner, isItems, _⟩ := stringItems ok exist.2
      obtain ⟨middle, chars, makes, isText, middleOk, others⟩ :=
        newFromText_works ok exist.1
      obtain ⟨later, _, adds, laterOk⟩ :=
        addToNew_works (.of right) ok middleOk others exist.2
          (congrArg (Option.map cText) isItems)
      refine ⟨later, ?_, ?_⟩
      · dsimp only [stringCall]
        rw [makes, Option.bind_some]
        exact adds
      · dsimp only [codeCall]
        rw [isText, isItems]
        exact laterOk
  | destruct id =>
      obtain ⟨v, items, isOwner, _, _⟩ := stringItems ok exist
      obtain ⟨released, releases, _, releasedOk⟩ :=
        stringRelease_owners ok isOwner
      have laterOk :
          OwnersOk StringOk (released.set id none)
            ((sequences.set id (some [])).set id none) :=
        releasedOk.drop
      rw [Sequences.set_set] at laterOk
      refine ⟨released.set id none, ?_, laterOk⟩
      dsimp only [stringCall]
      rw [releases]
      rfl

theorem addItself_dangling
    {id : Nat}
    (ok : OwnersOk StringOk world sequences)
    (exists_ : (world.owners id).isSome)
    (notFits : ¬ FitsItself world id) :
    addOperand world id (.of id) = none := by
  obtain ⟨v, items, isOwner, isItems, isOk⟩ := stringItems ok exists_
  have isLen := isOk.cStr.cstrLen_eq
  have isDangling : stringAppend (cStr v) v world.arena = none := by
    by_cases nothing : cText items = []
    · refine absurd ?_ notFits
      intro own isOwn len isLength
      rw [isOwner] at isOwn
      rw [← Option.some.inj isOwn, isLen, nothing] at isLength
      exact Or.inl (Option.some.inj isLength).symm
    · apply stringAppend_dangling isOk nothing
      by_contra room
      apply notFits
      intro own isOwn len isLength
      rw [isOwner] at isOwn
      rw [← Option.some.inj isOwn] at isLength ⊢
      rw [isLen] at isLength
      rw [← Option.some.inj isLength]
      exact Or.inr (by omega)
  dsimp only [addOperand, operandPointer, OwnerWorld.update]
  rw [isOwner, Option.map_some, Option.bind_some, Option.bind_some, isDangling]
  rfl

theorem stringCall_dangling
    (ok : OwnersOk StringOk world sequences)
    (exist : StringsExist world call)
    (notFits : ¬ SelfFits world call) :
    stringCall world call = none := by
  cases call with
  | append id operand =>
      obtain ⟨same, notFits⟩ := Classical.not_imp.mp notFits
      rw [same]
      exact addItself_dangling ok exist.1 notFits
  | addText id operand =>
      obtain ⟨same, notFits⟩ := Classical.not_imp.mp notFits
      rw [same]
      exact addItself_dangling ok exist.1 notFits
  | addString id other =>
      obtain ⟨same, notFits⟩ := Classical.not_imp.mp notFits
      rw [← same]
      exact addItself_dangling ok exist.1 notFits
  | _ => exact absurd trivial notFits

theorem plainString_iff
    {id : Nat}
    {items : List UInt8}
    (ok : OwnersOk StringOk world sequences)
    (exists_ : (world.owners id).isSome)
    (isItems : sequences.items id = some items) :
    PlainString world id ↔ 0 ∉ items := by
  obtain ⟨v, all, isOwner, isAll, isOk⟩ := stringItems ok exists_
  rw [isItems] at isAll
  obtain rfl := Option.some.inj isAll
  constructor
  · intro plain member
    obtain ⟨i, inside, isNull⟩ := List.mem_iff_getElem.mp member
    apply plain v isOwner i (isOk.size ▸ inside)
    rw [isOk.read inside, List.getElem?_eq_getElem inside, isNull]
  · intro plain own isOwn i inside isNull
    rw [isOwner] at isOwn
    rw [← Option.some.inj isOwn] at inside isNull
    rw [isOk.size] at inside
    rw [isOk.read inside, List.getElem?_eq_getElem inside] at isNull
    exact plain (Option.some.inj isNull ▸ List.getElem_mem inside)

theorem sequences_set_inj
    {id : Nat}
    {first second : Option (List UInt8)} :
    sequences.set id first = sequences.set id second ↔ first = second := by
  constructor
  · intro same
    have atPlace := congrArg (fun all => Sequences.items all id) same
    simpa using atPlace
  · rintro rfl
    rfl

theorem sequences_add_inj
    {first second : Option (List UInt8)} :
    sequences.add first = sequences.add second ↔ first = second := by
  constructor
  · intro same
    have atPlace :=
      congrArg (fun all => Sequences.items all sequences.created) same
    dsimp only [Sequences.add] at atPlace
    rw [Function.update_self, Function.update_self] at atPlace
    exact atPlace
  · rintro rfl
    rfl

theorem cText_append_iff (left right : List UInt8) :
    cText left ++ cText right = left ++ right ↔ 0 ∉ left ∧ 0 ∉ right := by
  rw [← cText_eq_self_iff, ← cText_eq_self_iff]
  constructor
  · intro same
    have length := congrArg List.length same
    rw [List.length_append, List.length_append] at length
    have first := (cText_beginning left).length_le
    have second := (cText_beginning right).length_le
    exact ⟨(cText_beginning left).eq_of_length (by omega),
      (cText_beginning right).eq_of_length (by omega)⟩
  · rintro ⟨first, second⟩
    rw [first, second]

theorem codeCall_eq_iff
    (ok : OwnersOk StringOk world sequences)
    (exist : StringsExist world call) :
    codeCall sequences call = characterCall sequences call ↔
      TextsPlain world call := by
  cases call with
  | copy other =>
      obtain ⟨w, theirs, _, isTheirs, _⟩ := stringItems ok exist
      dsimp only [codeCall, characterCall, TextsPlain]
      rw [sequences_add_inj, plainString_iff ok exist isTheirs, isTheirs,
        Option.map_some, Option.some_inj, cText_eq_self_iff]
  | copyAssign id other =>
      obtain ⟨w, theirs, _, isTheirs, _⟩ := stringItems ok exist.2
      dsimp only [codeCall, characterCall, TextsPlain]
      rw [plainString_iff ok exist.2 isTheirs]
      by_cases same : id = other
      · rw [if_pos same, same, Sequences.set_self]
        exact ⟨fun _ => Or.inl rfl, fun _ => rfl⟩
      · rw [if_neg same, sequences_set_inj, isTheirs, Option.map_some,
          Option.some_inj, cText_eq_self_iff]
        exact ⟨Or.inr, fun either => either.resolve_left same⟩
  | addString id other =>
      obtain ⟨v, items, _, isItems, _⟩ := stringItems ok exist.1
      obtain ⟨w, theirs, _, isTheirs, _⟩ := stringItems ok exist.2
      dsimp only [codeCall, characterCall, TextsPlain]
      rw [sequences_set_inj, plainString_iff ok exist.2 isTheirs, isItems,
        isTheirs, Option.map_some, joined_some, joined_some, Option.some_inj,
        List.append_cancel_left_eq, cText_eq_self_iff]
  | plus left right =>
      obtain ⟨v, items, _, isItems, _⟩ := stringItems ok exist.1
      obtain ⟨w, theirs, _, isTheirs, _⟩ := stringItems ok exist.2
      dsimp only [codeCall, characterCall, TextsPlain]
      rw [sequences_add_inj, plainString_iff ok exist.1 isItems,
        plainString_iff ok exist.2 isTheirs, isItems, isTheirs,
        Option.map_some, Option.map_some, joined_some, joined_some,
        Option.some_inj, cText_append_iff]
  | plusText left right =>
      obtain ⟨v, items, _, isItems, _⟩ := stringItems ok exist.1
      obtain ⟨_, chars, _, isText, _⟩ := operandPointer_works ok exist.2
      dsimp only [codeCall, characterCall, TextsPlain]
      rw [sequences_add_inj, plainString_iff ok exist.1 isItems, isItems,
        isText, Option.map_some, joined_some, joined_some, Option.some_inj,
        List.append_cancel_right_eq, cText_eq_self_iff]
  | textPlus left right =>
      obtain ⟨_, chars, _, isText, _⟩ := operandPointer_works ok exist.1
      obtain ⟨w, theirs, _, isTheirs, _⟩ := stringItems ok exist.2
      dsimp only [codeCall, characterCall, TextsPlain]
      rw [sequences_add_inj, plainString_iff ok exist.2 isTheirs, isTheirs,
        isText, Option.map_some, joined_some, joined_some, Option.some_inj,
        List.append_cancel_left_eq, cText_eq_self_iff]
  | _ => exact ⟨fun _ => trivial, fun _ => rfl⟩

theorem stringOk_unique
    {others : Sequences UInt8}
    (ok : OwnersOk StringOk world sequences)
    (also : OwnersOk StringOk world others) :
    sequences = others := by
  have sameItems : sequences.items = others.items := by
    funext id
    cases isOwner : world.owners id with
    | none =>
        have first := ok.same id
        have second := also.same id
        rw [isOwner, Option.isSome_none] at first second
        have isNone : sequences.items id = none :=
          Option.not_isSome_iff_eq_none.mp (by rw [← first]; exact Bool.false_ne_true)
        have alsoNone : others.items id = none :=
          Option.not_isSome_iff_eq_none.mp (by rw [← second]; exact Bool.false_ne_true)
        rw [isNone, alsoNone]
    | some v =>
        obtain ⟨items, isItems, isOk⟩ := ok.items isOwner
        obtain ⟨theirs, isTheirs, theirOk⟩ := also.items isOwner
        rw [isItems, isTheirs, isOk.unique theirOk]
  obtain ⟨items, created⟩ := sequences
  obtain ⟨theirs, theirCreated⟩ := others
  have created : created = theirCreated := ok.created.symm.trans also.created
  rw [created]
  exact congrArg (Sequences.mk · theirCreated) sameItems

theorem stringCall_iff
    (ok : OwnersOk StringOk world sequences)
    (exist : StringsExist world call) :
    (∃ later,
        stringCall world call = some later ∧
          OwnersOk StringOk later (characterCall sequences call)) ↔
      OperandsOk world call := by
  constructor
  · rintro ⟨later, returns, laterOk⟩
    have fits : SelfFits world call := by
      by_contra notFits
      rw [stringCall_dangling ok exist notFits] at returns
      cases returns
    obtain ⟨found, finds, foundOk⟩ := stringCall_works ok exist fits
    rw [returns] at finds
    rw [← Option.some.inj finds] at foundOk
    exact ⟨fits,
      (codeCall_eq_iff ok exist).mp (stringOk_unique foundOk laterOk)⟩
  · rintro ⟨fits, plain⟩
    rw [← (codeCall_eq_iff ok exist).mpr plain]
    exact stringCall_works ok exist fits

end Calls

section Runs

variable {world : StringWorld}

/-- The sequences that a program's calls define. -/
def charactersOf (calls : List StringCall) : Sequences UInt8 :=
  calls.foldl characterCall .start

theorem stringsOk_run
    {trace : List (StringWorld × StringCall)}
    (run : Run StringStep .start trace world)
    (meets : Meets OperandsOk trace) :
    OwnersOk StringOk world (charactersOf (trace.map Prod.snd)) := by
  induction run with
  | start => exact ownersOk_start
  | next earlier last inductionHypothesis =>
      rw [Meets.snoc_iff] at meets
      obtain ⟨later, returns, isOk⟩ :=
        (stringCall_iff (inductionHypothesis meets.1) last.1).mpr meets.2
      rw [last.2] at returns
      rw [Option.some.inj returns]
      unfold charactersOf at isOk ⊢
      rw [List.map_append, List.foldl_append]
      exact isOk

/-- In every run in which strings that are copied or added have no null bytes,
and have room where they are added to themselves, every string is the sequence
that the calls define, with a null byte behind it; a further call keeps this
exactly when its operands are such; and `operator==` compares sequences. -/
theorem strings_are_sequences
    {trace : List (StringWorld × StringCall)}
    (run : Run StringStep .start trace world)
    (meets : Meets OperandsOk trace) :
    OwnersOk StringOk world (charactersOf (trace.map Prod.snd)) ∧
      (∀ call, StringsExist world call →
        ((∃ later,
            stringCall world call = some later ∧
              OwnersOk StringOk later
                (charactersOf (trace.map Prod.snd ++ [call]))) ↔
          OperandsOk world call)) ∧
      ∀ left right v w,
        world.owners left = some v → world.owners right = some w →
          stringEqual world.arena v w =
            some (decide
              ((charactersOf (trace.map Prod.snd)).items left =
                (charactersOf (trace.map Prod.snd)).items right)) := by
  have ok := stringsOk_run run meets
  refine ⟨ok, ?_, ?_⟩
  · intro call exist
    rw [← stringCall_iff ok exist]
    unfold charactersOf
    rw [List.foldl_append]
    exact Iff.rfl
  · intro left right v w isLeft isRight
    obtain ⟨items, isItems, isOk⟩ := ok.items isLeft
    obtain ⟨theirs, isTheirs, theirOk⟩ := ok.items isRight
    rw [stringEqual_eq isOk theirOk, isItems, isTheirs]
    congr 1
    rw [decide_eq_decide, Option.some_inj]

/-- A string from a text, in a run. -/
theorem strings_are_sequences_word :
    ∃ world trace,
      trace.map Prod.snd = [.constructText (.text [104, 105])] ∧
        Run StringStep .start trace world ∧
        OwnersOk StringOk world
          (charactersOf [.constructText (.text [104, 105])]) := by
  let made := (stringCall .start (.constructText (.text [104, 105]))).get rfl
  have run :
      Run StringStep .start [(.start, .constructText (.text [104, 105]))]
        made :=
    .next .start ⟨trivial, (Option.some_get rfl).symm⟩
  have meets :
      Meets OperandsOk
        [(.start, .constructText (.text [104, 105]))] := by
    intro entry member
    rw [List.mem_singleton.mp member]
    exact ⟨trivial, trivial⟩
  exact ⟨made, _, rfl, run, (strings_are_sequences run meets).1⟩

/-- The copy of a string that is one null byte is empty, and a string of two
characters that is added to itself is read when it has been deleted. -/
theorem string_copy_drops_null :
    (∃ world trace later,
      Run StringStep .start trace world ∧
        trace.map Prod.snd = [.construct, .pushBack 0 0] ∧
        StringsExist world (.copy 0) ∧
        stringCall world (.copy 0) = some later ∧
        ¬ OwnersOk StringOk later
          (charactersOf [.construct, .pushBack 0 0, .copy 0])) ∧
      ∃ world trace,
        Run StringStep .start trace world ∧
          trace.map Prod.snd = [.constructText (.text [97, 98])] ∧
          StringsExist world (.addString 0 0) ∧
          stringCall world (.addString 0 0) = none := by
  let built := (stringCall .start .construct).get rfl
  let pushed := (stringCall built (.pushBack 0 0)).get rfl
  let copied := (stringCall pushed (.copy 0)).get rfl
  let made := (stringCall .start (.constructText (.text [97, 98]))).get rfl
  have first : Run StringStep .start [(.start, .construct)] built :=
    .next .start ⟨trivial, (Option.some_get rfl).symm⟩
  have second :
      Run StringStep .start
        [(.start, .construct), (built, .pushBack 0 0)] pushed :=
    .next first ⟨rfl, (Option.some_get rfl).symm⟩
  have third :
      Run StringStep .start [(.start, .constructText (.text [97, 98]))]
        made :=
    .next .start ⟨trivial, (Option.some_get rfl).symm⟩
  refine ⟨⟨pushed, _, copied, second, rfl, rfl, (Option.some_get rfl).symm,
    ?_⟩, made, _, third, rfl, ⟨rfl, rfl⟩, rfl⟩
  intro ok
  have size : ∀ v, copied.owners 1 = some v → v.size = 1 := fun v isOwner =>
    (ok.owners 1 v [0] isOwner rfl).size
  have wrong := size _ rfl
  cases wrong

end Runs

end MyOS
