import Mathlib.Data.List.TakeWhile
import MyOS.LibcPrintfRendering

namespace MyOS

open Lib

/-!
# Printing to a stream

`vfprintf` renders into a buffer of its own and writes the string that it finds
there, without a look at what `write` answers.
-/

section Strings

variable {memory : Bytes} {p : Nat} {bytes : List UInt8}

theorem stringLength_eq
    {limit : Nat}
    (room : bytes.length < limit)
    (written :
      ∀ index, index < bytes.length + 1 →
        memory (p + index) = bytes.getD index 0) :
    stringLength memory p limit =
      (bytes.takeWhile fun c => decide (c ≠ 0)).length := by
  induction bytes generalizing p limit with
  | nil =>
      obtain ⟨limit, rfl⟩ := Nat.exists_eq_succ_of_ne_zero
        (Nat.ne_of_gt room)
      have isEnd : memory p = 0 := written 0 (Nat.zero_lt_succ _)
      exact if_pos isEnd
  | cons c bytes inductionHypothesis =>
      obtain ⟨limit, rfl⟩ := Nat.exists_eq_succ_of_ne_zero
        (Nat.ne_of_gt (Nat.lt_of_le_of_lt (Nat.zero_le _) room))
      have isFirst : memory p = c := written 0 (Nat.zero_lt_succ _)
      unfold stringLength
      by_cases isNull : c = 0
      · rw [if_pos (isFirst.trans isNull), isNull]
        rfl
      · have here : ¬ memory p = 0 := by
          rw [isFirst]
          exact isNull
        rw [if_neg here, List.takeWhile_cons_of_pos (by
          exact decide_eq_true isNull), List.length_cons]
        congr 1
        apply inductionHypothesis (Nat.lt_of_succ_lt_succ room)
        intro index inside
        have later := written (index + 1) (Nat.succ_lt_succ inside)
        rw [← Nat.add_assoc, Nat.add_right_comm] at later
        exact later

theorem slice_stringLength
    {limit : Nat}
    (room : bytes.length < limit) :
    (memory.put p (bytes.length + 1) (Bytes.ofList bytes)).slice p
        (stringLength
          (memory.put p (bytes.length + 1) (Bytes.ofList bytes)) p limit) =
      bytes.takeWhile fun c => decide (c ≠ 0) := by
  have written :
      ∀ index, index < bytes.length + 1 →
        memory.put p (bytes.length + 1) (Bytes.ofList bytes) (p + index) =
          bytes.getD index 0 := by
    intro index inside
    rw [Bytes.put_inside (Nat.le_add_right _ _) (Nat.add_lt_add_left inside _),
      Nat.add_sub_cancel_left]
    rfl
  rw [stringLength_eq room written]
  have prefixed := List.takeWhile_prefix (l := bytes) fun c => decide (c ≠ 0)
  generalize bytes.takeWhile (fun c => decide (c ≠ 0)) = taken at prefixed
  have shorter := prefixed.length_le
  unfold Bytes.slice
  apply List.ext_getElem
  · rw [List.length_map, List.length_range]
  · intro index inside inTaken
    have inBytes : index < bytes.length := Nat.lt_of_lt_of_le inTaken shorter
    rw [List.getElem_map, List.getElem_range,
      written index (Nat.lt_succ_of_lt inBytes),
      List.getD_eq_getElem?_getD, List.getElem?_eq_getElem inBytes]
    exact (prefixed.getElem inTaken).symm

end Strings

/-- The descriptor gets the rendering and the caller its length, or the write
has failed and the caller is told so. -/
def WritesRendering
    (bytes : List UInt8)
    (answer : Option Nat)
    (result : List UInt8 × Int) : Prop :=
  if answer = none then
    result.2 < 0
  else
    result.1 = bytes ∧ result.2 = bytes.length

section Streams

variable {fmt : List UInt8} {args : List PrintArg} {bytes : List UInt8}

theorem vfprintf_eq
    (rendered : rendering fmt args = some bytes)
    (memory : Bytes)
    (buf : Nat)
    (answer : Option Nat) :
    vfprintf memory buf fmt args answer =
      some (((bytes.take (PRINT_BUFFER - 1)).takeWhile
          fun c => decide (c ≠ 0)).take (answer.getD 0),
        wrapInt bytes.length) := by
  unfold vfprintf
  rw [vsnprintf_eq memory buf PRINT_BUFFER rendered, Option.map_some]
  dsimp only
  have kept :
      min (PRINT_BUFFER - 1) bytes.length =
        (bytes.take (PRINT_BUFFER - 1)).length := by
    rw [List.length_take]
  have room : (bytes.take (PRINT_BUFFER - 1)).length < PRINT_BUFFER := by
    rw [List.length_take]
    exact Nat.lt_of_le_of_lt (Nat.min_le_left _ _) (by decide)
  unfold truncated
  rw [if_neg (by decide), kept, slice_stringLength room]

theorem takeWhile_notNull
    (noNull : 0 ∉ bytes) :
    (bytes.takeWhile fun c => decide (c ≠ 0)) = bytes := by
  rw [List.takeWhile_eq_self_iff]
  intro c member
  apply decide_eq_true
  rintro rfl
  exact noNull member

/-- `vfprintf` writes the rendering and reports it exactly when the rendering
fits its buffer without a null byte and the write takes all of it; or when the
write fails and the length has turned negative. -/
theorem vfprintf_writes_iff
    (rendered : rendering fmt args = some bytes)
    (memory : Bytes)
    (buf : Nat)
    (answer : Option Nat) :
    (∃ result,
      vfprintf memory buf fmt args answer = some result ∧
        WritesRendering bytes answer result) ↔
      (bytes.length < PRINT_BUFFER ∧ 0 ∉ bytes ∧
        ∃ accepted, answer = some accepted ∧ bytes.length ≤ accepted) ∨
      answer = none ∧ wrapInt bytes.length < 0 := by
  rw [vfprintf_eq rendered]
  simp only [Option.some.injEq, exists_eq_left']
  unfold WritesRendering
  cases answer with
  | none =>
      rw [if_pos rfl]
      simp only [true_and, reduceCtorEq, false_and, exists_false, and_false,
        false_or]
  | some accepted =>
      rw [if_neg (Option.some_ne_none _)]
      simp only [Option.getD_some, Option.some.injEq, exists_eq_left',
        reduceCtorEq, false_and, or_false]
      constructor
      · rintro ⟨same, _⟩
        have inString :
            ∀ c ∈ bytes,
              c ∈ (bytes.take (PRINT_BUFFER - 1)).takeWhile
                fun c => decide (c ≠ 0) := by
          intro c member
          rw [← same] at member
          exact List.mem_of_mem_take member
        have lengths := congrArg List.length same
        rw [List.length_take] at lengths
        have string :=
          ((List.takeWhile_prefix (l := bytes.take (PRINT_BUFFER - 1))
            fun c => decide (c ≠ 0)).length_le).trans
              (List.length_take_le _ _)
        refine ⟨?_, ?_, ?_⟩
        · have small : PRINT_BUFFER - 1 < PRINT_BUFFER := by decide
          omega
        · intro isNull
          have kept := List.mem_takeWhile_imp (inString 0 isNull)
          exact of_decide_eq_true kept rfl
        · omega
      · rintro ⟨short, noNull, enough⟩
        have whole : bytes.take (PRINT_BUFFER - 1) = bytes :=
          List.take_of_length_le (Nat.le_sub_one_of_lt short)
        rw [whole, takeWhile_notNull noNull, List.take_of_length_le enough]
        refine ⟨rfl, wrapInt_of_short (Nat.lt_trans short (by decide))⟩

/-- A short rendering is written. -/
theorem vfprintf_writes_iff_word :
    (∃ result,
      vfprintf (fun _ => 0) 0 (textBytes ['o', 'k']) [] (some 2) =
          some result ∧
        WritesRendering (textBytes ['o', 'k']) (some 2) result) ↔
      ((textBytes ['o', 'k']).length < PRINT_BUFFER ∧
        0 ∉ textBytes ['o', 'k'] ∧
        ∃ accepted, some 2 = some accepted ∧
          (textBytes ['o', 'k']).length ≤ accepted) ∨
      (some 2 : Option Nat) = none ∧
        wrapInt (textBytes ['o', 'k']).length < 0 :=
  vfprintf_writes_iff rfl (fun _ => 0) 0 (some 2)

/-- A null character is counted, but not written. -/
theorem vfprintf_drops_null :
    rendering (textBytes ['%', 'c']) [.int 0] = some [0] ∧
      vfprintf (fun _ => 0) 0 (textBytes ['%', 'c']) [.int 0] (some 1) =
        some ([], 1) ∧
      ¬ WritesRendering [0] (some 1) ([], 1) := by
  refine ⟨by decide, by decide, ?_⟩
  unfold WritesRendering
  rw [if_neg (Option.some_ne_none _)]
  rintro ⟨same, _⟩
  cases same

end Streams

end MyOS
