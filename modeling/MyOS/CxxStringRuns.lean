import MyOS.CxxStringMembers

namespace MyOS

open Lib

/-!
# Runs of programs with strings

The code takes strings as C strings where it copies or adds them, so that they
end at their first null byte, and a string that is added to itself has to have
room for the result.  Under exactly these conditions a call does to the strings
what it does to sequences of characters.
-/

section Conditions

/-- A string has room for its own text behind it. -/
def FitsItself (world : StringWorld) (id : Nat) : Prop :=
  ∀ v, world.owners id = some v →
    ∀ len, cstrLen world.arena (cStr v) = some len →
      len = 0 ∨ v.size + len + 1 ≤ v.capacity

/-- No character of a string is a null byte. -/
def PlainString (world : StringWorld) (id : Nat) : Prop :=
  ∀ v, world.owners id = some v →
    ∀ i, i < v.size → world.arena.read v.data i ≠ some 0

/-- A string that is added to itself has room for the result. -/
def SelfFits (world : StringWorld) : StringCall → Prop
  | .append id operand => operand = .of id → FitsItself world id
  | .addText id operand => operand = .of id → FitsItself world id
  | .addString id other => id = other → FitsItself world id
  | _ => True

/-- Strings that are copied or added have no null bytes. -/
def TextsPlain (world : StringWorld) : StringCall → Prop
  | .copy other => PlainString world other
  | .copyAssign id other => id = other ∨ PlainString world other
  | .addString _ other => PlainString world other
  | .plus left right => PlainString world left ∧ PlainString world right
  | .plusText left _ => PlainString world left
  | .textPlus _ right => PlainString world right
  | _ => True

/-- The operands of a call are such that the code does what it should. -/
def OperandsOk (world : StringWorld) (call : StringCall) : Prop :=
  SelfFits world call ∧ TextsPlain world call

end Conditions

/-- What the code of a call does to sequences: texts end at null bytes. -/
def codeCall (sequences : Sequences UInt8) : StringCall → Sequences UInt8
  | .copy other => sequences.add ((sequences.items other).map cText)
  | .copyAssign id other =>
      if id = other then
        sequences
      else
        sequences.set id ((sequences.items other).map cText)
  | .addString id other =>
      sequences.set id
        (joined (sequences.items id) ((sequences.items other).map cText))
  | .plus left right =>
      sequences.add
        (joined ((sequences.items left).map cText)
          ((sequences.items right).map cText))
  | .plusText left right =>
      sequences.add
        (joined ((sequences.items left).map cText)
          (operandText sequences right))
  | .textPlus left right =>
      sequences.add
        (joined (operandText sequences left)
          ((sequences.items right).map cText))
  | call => characterCall sequences call

section Steps

variable {world : StringWorld} {sequences : Sequences UInt8} {id other : Nat}
variable {v w : BufferFields} {items theirs chars : List UInt8}
variable {operand : TextOperand}
variable {member : BufferFields → Chars → Option (BufferFields × Chars)}

theorem stringUpdate_works
    (ok : OwnersOk StringOk world sequences)
    (isOwner : world.owners id = some v)
    (works : StringWorks member world.arena v items) :
    ∃ later,
      world.update id member = some later ∧
        OwnersOk StringOk later (sequences.set id (some items)) ∧
        ∀ place, place ≠ id → later.owners place = world.owners place := by
  obtain ⟨after, arena, returns, isOk, effect⟩ := works
  obtain ⟨updates, laterOk⟩ :=
    ok.update stringOk_represents isOwner returns isOk effect
  exact ⟨_, updates, laterOk,
    fun place different => Function.update_of_ne different _ _⟩

theorem stringNew_works
    (ok : OwnersOk StringOk world sequences)
    (works : StringWorks member world.arena .empty items) :
    ∃ later,
      (world.add .empty).update world.created member = some later ∧
        OwnersOk StringOk later (sequences.add (some items)) ∧
        ∀ place, place ≠ world.created →
          later.owners place = world.owners place := by
  obtain ⟨later, updates, laterOk, others⟩ :=
    stringUpdate_works (ok.add stringOk_represents)
      (Function.update_self _ _ _) works
  rw [ok.created, Sequences.add_set] at laterOk
  refine ⟨later, updates, laterOk, fun place different => ?_⟩
  rw [others place different]
  exact Function.update_of_ne different _ _

theorem stringItems
    (ok : OwnersOk StringOk world sequences)
    (exists_ : (world.owners id).isSome) :
    ∃ v items, world.owners id = some v ∧ sequences.items id = some items ∧
      StringOk world.arena v items := by
  obtain ⟨v, isOwner⟩ := Option.isSome_iff_exists.mp exists_
  obtain ⟨items, isItems, isOk⟩ := ok.items isOwner
  exact ⟨v, items, isOwner, isItems, isOk⟩

theorem operandPointer_works
    (ok : OwnersOk StringOk world sequences)
    (exists_ : OperandExists world operand) :
    ∃ text chars,
      operandPointer world operand = some text ∧
        operandText sequences operand = some chars ∧
        (text = .null ∧ chars = [] ∨
          IsText world.arena text chars ∧
            TextApart world.arena text .empty) := by
  have nothing :
      ∀ b, BufferFields.empty.data ≠ some b :=
    fun b => (Option.some_ne_none b).symm
  cases operand with
  | null => exact ⟨.null, [], rfl, rfl, Or.inl ⟨rfl, rfl⟩⟩
  | text characters =>
      refine ⟨.outside characters, cText characters, rfl, rfl,
        Or.inr ⟨isText_outside _ _, ?_⟩⟩
      intro b isInside
      cases isInside
  | of id =>
      obtain ⟨v, items, isOwner, isItems, isOk⟩ := stringItems ok exists_
      refine ⟨cStr v, cText items, ?_, ?_, Or.inr ⟨isOk.cStr, ?_⟩⟩
      · exact congrArg (Option.map cStr) isOwner
      · exact congrArg (Option.map cText) isItems
      · exact isOk.textApart fun b _ => nothing b

theorem newFromText_works
    (ok : OwnersOk StringOk world sequences)
    (exists_ : OperandExists world operand) :
    ∃ later chars,
      newFromText world operand = some later ∧
        operandText sequences operand = some chars ∧
        OwnersOk StringOk later (sequences.add (some chars)) ∧
        ∀ place, place ≠ world.created →
          later.owners place = world.owners place := by
  have emptyOk := stringOk_represents.empty world.arena
  obtain ⟨text, chars, isPointer, isText, isThere⟩ :=
    operandPointer_works ok exists_
  have works : StringWorks (stringFromText text) world.arena .empty chars := by
    rcases isThere with ⟨rfl, rfl⟩ | ⟨isChars, apart⟩
    · exact stringFromText_null emptyOk
    · exact stringFromText_works emptyOk isChars apart
  obtain ⟨later, updates, laterOk, others⟩ := stringNew_works ok works
  refine ⟨later, chars, ?_, isText, laterOk, others⟩
  unfold newFromText
  rw [isPointer, Option.bind_some]
  exact updates

theorem newCopy_works
    (ok : OwnersOk StringOk world sequences)
    (isOther : world.owners other = some w)
    (isTheirs : sequences.items other = some theirs) :
    ∃ later,
      newCopy world other = some later ∧
        OwnersOk StringOk later (sequences.add (some (cText theirs))) ∧
        ∀ place, place ≠ world.created →
          later.owners place = world.owners place := by
  have emptyOk := stringOk_represents.empty world.arena
  have otherOk := ok.owners other w theirs isOther isTheirs
  obtain ⟨later, updates, laterOk, others⟩ :=
    stringNew_works ok
      (stringCopyFrom_works emptyOk otherOk
        (otherOk.textApart fun b _ => (Option.some_ne_none b).symm))
  refine ⟨later, ?_, laterOk, others⟩
  unfold newCopy
  rw [isOther, Option.bind_some]
  exact updates

theorem addItself_works
    (ok : OwnersOk StringOk world sequences)
    (isOwner : world.owners id = some v)
    (isItems : sequences.items id = some items)
    (fits : FitsItself world id) :
    StringWorks (stringAppend (cStr v)) world.arena v
      (items ++ cText items) := by
  have isOk := ok.owners id v items isOwner isItems
  rcases isOk.data with ⟨isNone, _, isNil⟩ | ⟨b, isData, _, _⟩
  · apply stringAppend_works isOk isOk.cStr
    intro b isInside
    unfold cStr at isInside
    rw [isNone] at isInside
    cases isInside
  · apply stringAppend_self isOk
    rcases fits v isOwner _ isOk.cStr.cstrLen_eq with isZero | room
    · have room := isOk.room isData
      omega
    · exact room

theorem addOperand_works
    (ok : OwnersOk StringOk world sequences)
    (isOwner : world.owners id = some v)
    (isItems : sequences.items id = some items)
    (isText : operandText sequences operand = some chars)
    (exists_ : OperandExists world operand)
    (fits : operand = .of id → FitsItself world id) :
    ∃ later,
      addOperand world id operand = some later ∧
        OwnersOk StringOk later (sequences.set id (some (items ++ chars))) := by
  have isOk := ok.owners id v items isOwner isItems
  have works :
      ∃ text, operandPointer world operand = some text ∧
        StringWorks (stringAppend text) world.arena v (items ++ chars) := by
    cases operand with
    | null =>
        rw [← Option.some.inj isText, List.append_nil]
        exact ⟨.null, rfl, v, world.arena, rfl, isOk, OwnerEffect.refl⟩
    | text characters =>
        rw [← Option.some.inj isText]
        refine ⟨.outside characters, rfl,
          stringAppend_works isOk (isText_outside _ _) ?_⟩
        intro b isInside
        cases isInside
    | of other =>
        obtain ⟨w, theirs, isOther, isTheirs, otherOk⟩ :=
          stringItems ok exists_
        dsimp only [operandText] at isText
        rw [isTheirs] at isText
        rw [← Option.some.inj isText]
        refine ⟨cStr w, congrArg (Option.map cStr) isOther, ?_⟩
        by_cases same : other = id
        · subst same
          rw [isOther] at isOwner
          rw [isTheirs] at isItems
          rw [← Option.some.inj isOwner, ← Option.some.inj isItems]
          exact addItself_works ok isOther isTheirs (fits rfl)
        · exact stringAppend_works isOk otherOk.cStr
            (otherOk.textApart
              (ok.apart isOwner isOther (Ne.symm same)))
  obtain ⟨text, isPointer, works⟩ := works
  obtain ⟨later, updates, laterOk, _⟩ := stringUpdate_works ok isOwner works
  refine ⟨later, ?_, laterOk⟩
  unfold addOperand
  rw [isPointer, Option.bind_some]
  exact updates

theorem addToNew_works
    {middle : StringWorld}
    (operand : TextOperand)
    (ok : OwnersOk StringOk world sequences)
    (middleOk : OwnersOk StringOk middle (sequences.add (some items)))
    (others :
      ∀ place, place ≠ world.created →
        middle.owners place = world.owners place)
    (exists_ : OperandExists world operand)
    (isText : operandText sequences operand = some chars) :
    ∃ later,
      ((operandPointer world operand).bind fun text =>
          middle.update world.created (stringAppend text)) = some later ∧
        addOperand middle world.created operand = some later ∧
        OwnersOk StringOk later (sequences.add (some (items ++ chars))) := by
  have isItems :
      (sequences.add (some items)).items world.created = some items := by
    rw [ok.created]
    exact Function.update_self _ _ _
  have isThere := middleOk.same world.created
  rw [isItems] at isThere
  obtain ⟨v, isOwner⟩ := Option.isSome_iff_exists.mp isThere
  -- The operand is an older string, or none.
  have older :
      ∀ other, operand = .of other → other ≠ world.created := by
    rintro other rfl
    obtain ⟨w, isOther⟩ := Option.isSome_iff_exists.mp exists_
    exact Nat.ne_of_lt (ok.exists_lt isOther)
  have samePointer :
      operandPointer middle operand = operandPointer world operand := by
    cases operand with
    | null => rfl
    | text characters => rfl
    | of other =>
        dsimp only [operandPointer]
        rw [others other (older other rfl)]
  have stillExists : OperandExists middle operand := by
    cases operand with
    | null => trivial
    | text characters => trivial
    | of other =>
        dsimp only [OperandExists] at exists_ ⊢
        rw [others other (older other rfl)]
        exact exists_
  have sameText :
      operandText (sequences.add (some items)) operand = some chars := by
    rw [← isText]
    cases operand with
    | null => rfl
    | text characters => rfl
    | of other =>
        dsimp only [operandText]
        rw [Sequences.add_items_of_ne _ (ok.created ▸ older other rfl)]
  obtain ⟨later, adds, laterOk⟩ :=
    addOperand_works middleOk isOwner isItems sameText stillExists
      fun same => absurd rfl (older _ same)
  refine ⟨later, ?_, adds, ?_⟩
  · unfold addOperand at adds
    rw [samePointer] at adds
    exact adds
  · rw [ok.created, Sequences.add_set] at laterOk
    exact laterOk

theorem stringRelease_owners
    (ok : OwnersOk StringOk world sequences)
    (isOwner : world.owners id = some v) :
    ∃ later,
      world.update id stringRelease = some later ∧
        later.owners = Function.update world.owners id (some .empty) ∧
        OwnersOk StringOk later (sequences.set id (some [])) := by
  obtain ⟨items, _, isOk⟩ := ok.items isOwner
  obtain ⟨arena, returns, afterOk, effect⟩ := stringRelease_works isOk
  obtain ⟨updates, laterOk⟩ :=
    ok.update stringOk_represents isOwner returns afterOk effect
  exact ⟨_, updates, rfl, laterOk⟩

theorem stringTake_works
    (ok : OwnersOk StringOk world sequences)
    (isOwner : world.owners id = some .empty)
    (isOther : world.owners other = some w)
    (different : id ≠ other) :
    ∃ later,
      world.take id other = some later ∧
        OwnersOk StringOk later
          ((sequences.set id (sequences.items other)).set other
            (some [])) := by
  obtain ⟨theirs, isTheirs, _⟩ := ok.items isOther
  refine ⟨(world.set id (some w)).set other (some .empty), ?_, ?_⟩
  · unfold OwnerWorld.take
    rw [isOther]
    rfl
  · rw [isTheirs]
    exact ok.take stringOk_represents isOwner isOther isTheirs different

end Steps

end MyOS
