import MyOS.Stdio

namespace MyOS

/-!
# Input arrives in its order

A careful call takes what it returns from the front of what the stream has
left, and from one call to the next nothing else is taken.
-/

namespace InputChannel

theorem ahead_skip
    (channel : InputChannel)
    (count : Nat) :
    (channel.skip count).ahead = channel.ahead.drop count := by
  simp only [skip, ahead, List.drop_drop]

theorem readCount_le
    (channel : InputChannel)
    (n limit : Nat) :
    channel.readCount n limit ≤ n ∧
      channel.readCount n limit ≤ channel.ahead.length := by
  unfold readCount
  split <;> omega

theorem readCount_one
    (channel : InputChannel)
    (limit : Nat) :
    channel.readCount 1 limit = min 1 channel.ahead.length := by
  unfold readCount
  rw [if_pos (by decide)]
  omega

end InputChannel

namespace InputStream

@[simp] theorem echo_channel
    (s : InputStream)
    (ch : UInt8) :
    (s.echo ch).channel = s.channel := by
  unfold echo
  split <;> rfl

@[simp] theorem echo_eof
    (s : InputStream)
    (ch : UInt8) :
    (s.echo ch).eof = s.eof := by
  unfold echo
  split <;> rfl

@[simp] theorem echo_hasUnget
    (s : InputStream)
    (ch : UInt8) :
    (s.echo ch).hasUnget = s.hasUnget := by
  unfold echo
  split <;> rfl

/-- The bytes are taken from the front, and the end flag tells the end. -/
structure Delivers
    (s : InputStream)
    (bytes : List UInt8)
    (after : InputStream) : Prop where
  remaining : s.remaining = bytes ++ after.remaining
  ends : after.eof = true → s.eof = true ∨ after.remaining = []
  content : after.channel.content = s.channel.content

namespace Delivers

theorem refl (s : InputStream) : s.Delivers [] s where
  remaining := rfl
  ends := Or.inl
  content := rfl

theorem trans
    {s middle after : InputStream}
    {first second : List UInt8}
    (one : s.Delivers first middle)
    (two : middle.Delivers second after) :
    s.Delivers (first ++ second) after where
  remaining := by
    rw [one.remaining, two.remaining, List.append_assoc]
  ends := by
    intro atEnd
    rcases two.ends atEnd with before | none
    · rcases one.ends before with earlier | none
      · exact Or.inl earlier
      · right
        have whole := two.remaining
        rw [none] at whole
        exact (List.append_eq_nil_iff.mp whole.symm).2
    · exact Or.inr none
  content := two.content.trans one.content

theorem ends_of_ends
    {s after : InputStream}
    {bytes : List UInt8}
    (delivers : s.Delivers bytes after)
    (told : s.eof = true → s.remaining = [])
    (atEnd : after.eof = true) :
    after.remaining = [] := by
  rcases delivers.ends atEnd with before | none
  · have whole := delivers.remaining
    rw [told before] at whole
    exact (List.append_eq_nil_iff.mp whole.symm).2
  · exact none

end Delivers

/-- How a careful `fgetc` ends. -/
inductive GetsByte
    (s : InputStream)
    (answer : ReadAnswer) :
    Option UInt8 → InputStream → Prop where
  | none
      {after : InputStream}
      (noUnget : s.hasUnget = false)
      (nothing : s.remaining = [] ∨ answer = .fails)
      (delivers : s.Delivers [] after) :
      GetsByte s answer none after
  | byte
      {c : UInt8}
      {after : InputStream}
      (found : s.hasUnget = true ∨ answer ≠ .fails)
      (noUnget : after.hasUnget = false)
      (delivers : s.Delivers [c] after) :
      GetsByte s answer (some c) after

theorem fgetc_spec
    {s : InputStream}
    {answer : ReadAnswer}
    (careful : StdioState.dropsNothing s answer = true) :
    GetsByte s answer (s.fgetc answer).1 (s.fgetc answer).2 := by
  unfold fgetc
  rcases unget : s.hasUnget with _ | _
  · simp only [Bool.false_eq_true, if_false]
    have start : s.remaining = s.channel.ahead := by
      simp [remaining, unget]
    cases answer with
    | fails =>
        refine .none unget (Or.inr rfl) ?_
        refine ⟨?_, Or.inl, rfl⟩
        simp [InputChannel.read, remaining, unget]
    | upTo limit =>
        simp only [InputChannel.read, InputChannel.readBytes,
          InputChannel.readCount_one]
        rcases ahead : s.channel.ahead with _ | ⟨c, rest⟩
        · refine .none unget (Or.inl (start.trans ahead)) ?_
          have same : (s.channel.skip 0) = s.channel := rfl
          simp only [List.length_nil, Nat.min_zero, same, List.take_nil]
          have left : s.remaining = [] := start.trans ahead
          refine ⟨?_, fun _ => Or.inr ?_, rfl⟩
          · simp [remaining, unget]
          · simp [remaining, ahead]
        · have one : min 1 (c :: rest).length = 1 := by
            simp
          simp only [one, List.take_succ_cons, List.take_zero]
          refine .byte (Or.inr (fun absurd => by cases absurd)) ?_ ?_
          · simp only [echo_hasUnget]
          · refine ⟨?_, ?_, ?_⟩
            · simp only [remaining, echo_hasUnget, echo_channel, unget,
                InputChannel.ahead_skip, ahead, Bool.false_eq_true, if_false]
              rfl
            · simp only [echo_eof]
              exact Or.inl
            · simp only [echo_channel]
              rfl
  · simp only [if_true]
    cases answer with
    | fails =>
        refine .byte (Or.inl unget) rfl ⟨?_, Or.inl, rfl⟩
        simp [InputChannel.read, remaining, unget]
    | upTo limit =>
        have empty : s.channel.ahead = [] := by
          simpa [StdioState.dropsNothing, unget] using careful
        refine .byte (Or.inl unget) rfl ⟨?_, Or.inl, rfl⟩
        simp [InputChannel.read, remaining, unget, InputChannel.ahead_skip,
          empty]

theorem dropsNothing_of_noUnget
    {s : InputStream}
    (noUnget : s.hasUnget = false)
    (answer : ReadAnswer) :
    StdioState.dropsNothing s answer = true := by
  cases answer <;> simp [StdioState.dropsNothing, noUnget]

theorem fgetsLoop_spec
    (answers : Nat → ReadAnswer)
    (left : Nat)
    (line : List UInt8)
    {s : InputStream}
    (careful :
      left = 0 ∨ StdioState.dropsNothing s (answers line.length) = true) :
    ∃ bytes,
      (fgetsLoop answers left line s).1 = line ++ bytes ∧
        s.Delivers bytes (fgetsLoop answers left line s).2 := by
  induction left generalizing line s with
  | zero =>
      exact ⟨[], (List.append_nil line).symm, .refl s⟩
  | succ left inductionHypothesis =>
      have first := fgetc_spec (careful.resolve_left (Nat.succ_ne_zero left))
      unfold fgetsLoop
      generalize s.fgetc (answers line.length) = result at first ⊢
      obtain ⟨found, after⟩ := result
      cases first with
      | none noUnget nothing delivers =>
          exact ⟨[], (List.append_nil line).symm, delivers⟩
      | @byte c _ isFound noUnget delivers =>
          simp only
          split
          · exact ⟨[c], rfl, delivers⟩
          · obtain ⟨bytes, whole, rest⟩ :=
              inductionHypothesis (line ++ [c])
                (Or.inr (dropsNothing_of_noUnget noUnget _))
            refine ⟨[c] ++ bytes, ?_, delivers.trans rest⟩
            rw [whole, List.append_assoc]

theorem fgets_spec
    {s : InputStream}
    {size : Int}
    {answers : Nat → ReadAnswer}
    (careful :
      size ≤ 1 ∨ StdioState.dropsNothing s (answers 0) = true) :
    s.Delivers ((s.fgets size answers).1.getD []) (s.fgets size answers).2 := by
  unfold fgets
  split
  · exact .refl s
  · obtain ⟨bytes, whole, delivers⟩ :=
      fgetsLoop_spec answers (size - 1).toNat [] (s := s) (by
        rcases careful with small | careful
        · exact Or.inl (by omega)
        · exact Or.inr careful)
    rw [List.nil_append] at whole
    rcases result : fgetsLoop answers (size - 1).toNat [] s with ⟨line, after⟩
    rw [result] at whole delivers
    simp only at whole delivers
    subst whole
    cases line with
    | nil => exact delivers
    | cons c line => exact delivers

theorem fetched_cons
    {answers : Nat → ReadAnswer}
    {hasUnget : Bool}
    {i : Nat}
    (found : hasUnget = true ∨ answers i ≠ .fails)
    (delim : Int)
    (c : UInt8)
    (rest : List UInt8) :
    StdioState.fetched answers delim hasUnget i (c :: rest) =
      if (c.toNat : Int) = delim then
        [c]
      else
        c :: StdioState.fetched answers delim false (i + 1) rest := by
  conv_lhs => unfold StdioState.fetched
  rcases hasUnget with _ | _
  · rcases answer : answers i with _ | limit
    · rcases found with absurd | fails
      · cases absurd
      · exact absurd answer fails
    · rfl
  · rfl

theorem getdelimLoop_spec
    {answers : Nat → ReadAnswer}
    {grows : Nat → Bool}
    {delim : Int}
    (fuel n : Nat)
    (line : List UInt8)
    {s : InputStream}
    (enough : s.remaining.length < fuel)
    (careful : StdioState.dropsNothing s (answers line.length) = true)
    (canGrow :
      StdioState.growsFor grows
        (StdioState.fetched answers delim s.hasUnget line.length
          s.remaining).length n line.length = true) :
    ∃ bytes atEof after,
      getdelimLoop answers grows delim fuel n line s =
          some (.line (line ++ bytes) atEof, after) ∧
        s.Delivers bytes after := by
  induction fuel generalizing n line s with
  | zero =>
      exact absurd enough (Nat.not_lt_zero _)
  | succ fuel inductionHypothesis =>
      have first := fgetc_spec careful
      unfold getdelimLoop
      generalize s.fgetc (answers line.length) = result at first ⊢
      obtain ⟨found, after⟩ := result
      cases first with
      | none noUnget nothing delivers =>
          refine ⟨[], true, after, ?_, delivers⟩
          rw [List.append_nil]
      | @byte c _ isFound noUnget delivers =>
          have whole : s.remaining = c :: after.remaining :=
            delivers.remaining
          rw [whole, fetched_cons isFound] at canGrow
          rw [whole, List.length_cons] at enough
          have later := dropsNothing_of_noUnget noUnget
            (answers (line ++ [c]).length)
          have less : after.remaining.length < fuel :=
            Nat.lt_of_succ_lt_succ enough
          have length : (line ++ [c]).length = line.length + 1 := by
            simp
          simp only
          by_cases isLast : (c.toNat : Int) = delim
          · rw [if_pos isLast] at canGrow
            simp only [if_pos isLast]
            refine ⟨[c], false, after, ?_, delivers⟩
            simp only [List.length_singleton, StdioState.growsFor] at canGrow
            split
            · next full =>
                rw [if_pos full, Bool.and_true] at canGrow
                rw [if_pos canGrow]
            · rfl
          · rw [if_neg isLast, List.length_cons] at canGrow
            simp only [if_neg isLast]
            simp only [StdioState.growsFor] at canGrow
            split
            · next full =>
                rw [if_pos full, Bool.and_eq_true] at canGrow
                rw [if_pos canGrow.1]
                obtain ⟨bytes, atEof, final, ends, rest⟩ :=
                  inductionHypothesis (n * 2 % sizeModulus) (line ++ [c])
                    less later (by rw [noUnget, length]; exact canGrow.2)
                refine ⟨[c] ++ bytes, atEof, final, ?_, delivers.trans rest⟩
                rw [ends, List.append_assoc]
            · next room =>
                rw [if_neg room] at canGrow
                obtain ⟨bytes, atEof, final, ends, rest⟩ :=
                  inductionHypothesis n (line ++ [c]) less later
                    (by rw [noUnget, length]; exact canGrow)
                refine ⟨[c] ++ bytes, atEof, final, ?_, delivers.trans rest⟩
                rw [ends, List.append_assoc]

theorem getdelim_spec
    {s : InputStream}
    {call : DelimCall}
    (careful : StdioState.getdelimCareful s call) :
    s.Delivers ((s.getdelim call).1.getD []) (s.getdelim call).2 := by
  unfold getdelim
  by_cases refused : (call.isNull ∨ call.n = 0) ∧ call.allocates = false
  · rw [if_pos refused]
    exact .refl s
  · rw [if_neg refused]
    obtain ⟨drops, canGrow⟩ := careful.resolve_left refused
    obtain ⟨bytes, atEof, after, ends, delivers⟩ :=
      getdelimLoop_spec s.delimFuel call.start [] (Nat.lt_succ_self _) drops
        canGrow
    rw [List.nil_append] at ends
    rw [ends]
    simp only
    split
    · next none =>
        rw [none.1] at delivers
        exact delivers
    · exact delivers

theorem fread_spec
    {s : InputStream}
    {size nmemb : Nat}
    {answer : ReadAnswer}
    (careful : StdioState.freadCareful s size nmemb answer) :
    s.Delivers
      ((s.fread size nmemb answer).1.take
        ((s.fread size nmemb answer).2.1 * size))
      (s.fread size nmemb answer).2.2 := by
  unfold fread
  unfold StdioState.freadCareful at careful
  dsimp only at careful ⊢
  generalize size * nmemb % sizeModulus = bytes at careful ⊢
  by_cases nothing : bytes = 0
  · simp only [if_pos nothing, List.take_nil]
    exact .refl s
  · rw [if_neg nothing]
    replace careful := careful.resolve_left nothing
    have length :
        (if s.hasUnget then [s.unget] else []).length =
          if s.hasUnget then 1 else 0 := by
      split <;> rfl
    by_cases slot : s.hasUnget = true ∧ bytes = 1
    · rw [if_pos slot] at careful
      subst careful
      simp only [slot.1, slot.2, if_true, List.length_singleton]
      refine ⟨?_, Or.inl, rfl⟩
      simp [remaining, slot.1]
    · rw [if_neg slot] at careful
      have short :
          ¬ (if s.hasUnget then [s.unget] else []).length = bytes := by
        rw [length]
        rcases unget : s.hasUnget with _ | _
        · simp only [Bool.false_eq_true, if_false]
          omega
        · simp only [if_true]
          exact fun one => slot ⟨unget, one.symm⟩
      rw [if_neg short]
      cases answer with
      | fails =>
          simp only at careful
          simp only [InputChannel.read, careful, Bool.false_eq_true, if_false,
            List.take_nil]
          refine ⟨?_, Or.inl, rfl⟩
          simp [remaining, careful]
      | upTo limit =>
          simp only [StdioState.freadStores] at careful
          simp only [InputChannel.read, InputChannel.readBytes, length]
          generalize isCount : s.channel.readCount
            (bytes - if s.hasUnget then 1 else 0) limit = count
            at careful ⊢
          have inside : count ≤ s.channel.ahead.length := by
            rw [← isCount]
            exact (s.channel.readCount_le _ _).2
          have stored :
              ((if s.hasUnget then [s.unget] else []) ++
                  s.channel.ahead.take count).length =
                (if s.hasUnget then 1 else 0) + count := by
            rw [List.length_append, length, List.length_take]
            omega
          rw [stored,
            Nat.div_mul_cancel (Nat.dvd_of_mod_eq_zero careful.1),
            List.take_of_length_le (Nat.le_of_eq stored)]
          refine ⟨?_, ?_, rfl⟩
          · simp only [remaining, InputChannel.ahead_skip,
              Bool.false_eq_true, if_false, List.nil_append]
            rw [List.append_assoc, List.take_append_drop]
          · intro atEnd
            simp only [Bool.or_eq_true, decide_eq_true_eq] at atEnd
            refine atEnd.imp id ?_
            intro isShort
            simp only [remaining, InputChannel.ahead_skip,
              Bool.false_eq_true, if_false, List.nil_append]
            exact List.drop_eq_nil_of_le (careful.2 isShort)

end InputStream

namespace StdioEvent

theorem replayAll_append
    (content : List UInt8)
    (first second : List StdioEvent)
    (remaining : List UInt8) :
    replayAll content (first ++ second) remaining =
      (replayAll content first remaining).bind (replayAll content second) := by
  induction first generalizing remaining with
  | nil =>
      rfl
  | cons event first inductionHypothesis =>
      simp only [List.cons_append, replayAll, Option.bind_assoc]
      congr 1
      funext left
      exact inductionHypothesis left

theorem replay_got
    (content bytes rest : List UInt8) :
    replayAll content [.got bytes] (bytes ++ rest) = some rest := by
  simp only [replayAll, replay, if_pos (List.prefix_append bytes rest),
    List.drop_left, Option.bind_some]

end StdioEvent

namespace StdioState

/-- What every careful call keeps. -/
structure Kept (channel : InputChannel) (s : StdioState) : Prop where
  losesNothing : s.LosesNothing channel
  content : s.stream.channel.content = channel.content

theorem Kept.delivers
    {channel : InputChannel}
    {s : StdioState}
    {bytes : List UInt8}
    {after : InputStream}
    (kept : s.Kept channel)
    (delivers : s.stream.Delivers bytes after) :
    Kept channel { stream := after, events := s.events ++ [.got bytes] } where
  losesNothing := {
    replays := by
      rw [StdioEvent.replayAll_append, kept.losesNothing.replays,
        Option.bind_some, delivers.remaining]
      exact StdioEvent.replay_got ..
    ends := delivers.ends_of_ends kept.losesNothing.ends
  }
  content := delivers.content.trans kept.content

theorem Kept.ungetc
    {channel : InputChannel}
    {s : StdioState}
    (kept : s.Kept channel)
    (c : Int) :
    Kept channel
      { stream := (s.stream.ungetc c).2
        events :=
          s.events ++ (s.stream.ungetc c).1.toList.map .pushed } := by
  unfold InputStream.ungetc
  by_cases refused : c = -1 ∨ s.stream.hasUnget = true
  · simp only [if_pos refused, Option.toList_none, List.map_nil,
      List.append_nil]
    exact kept
  · simp only [if_neg refused]
    rw [not_or, Bool.not_eq_true] at refused
    refine ⟨⟨?_, ?_⟩, kept.content⟩
    · rw [StdioEvent.replayAll_append, kept.losesNothing.replays]
      simp [StdioEvent.replayAll, StdioEvent.replay, InputStream.remaining,
        refused.2]
    · intro absurd
      cases absurd

theorem Kept.fseek
    {channel : InputChannel}
    {s : StdioState}
    {offset whence : Int}
    (kept : s.Kept channel)
    (careful : s.Careful (.fseek offset whence)) :
    Kept channel
      { stream := (s.stream.perform (.fseek offset whence)).2
        events :=
          s.events ++ (s.stream.perform (.fseek offset whence)).1 } := by
  rcases Option.eq_none_or_eq_some
    (s.stream.channel.seekTarget offset whence) with none | ⟨target, asked⟩
  · simp only [InputStream.perform, InputStream.fseek, InputChannel.lseek,
      none, Option.map_none, Bool.false_eq_true, if_false, List.append_nil]
    exact ⟨⟨kept.losesNothing.replays, kept.losesNothing.ends⟩, kept.content⟩
  · obtain ⟨noUnget, isFile, positive, bound⟩ := careful target asked
    have same : (target % (kernelIntModulus : Int)).toNat = target.toNat := by
      rw [Int.emod_eq_of_lt positive bound]
    simp only [InputStream.perform, InputStream.fseek, InputChannel.lseek,
      asked, Option.map_some, isFile, if_true, Option.toList_some, same]
    refine ⟨⟨?_, ?_⟩, kept.content⟩
    · rw [StdioEvent.replayAll_append, kept.losesNothing.replays]
      simp [StdioEvent.replayAll, StdioEvent.replay, InputStream.remaining,
        noUnget, positive, InputChannel.ahead, kept.content]
    · intro absurd
      cases absurd

theorem Kept.step
    {channel : InputChannel}
    {s after : StdioState}
    {call : StdioCall}
    (kept : s.Kept channel)
    (careful : s.Careful call)
    (taken : s.Step call after) :
    after.Kept channel := by
  rw [taken]
  have byte :
      ∀ answer, dropsNothing s.stream answer = true →
        s.stream.Delivers (s.stream.fgetc answer).1.toList
          (s.stream.fgetc answer).2 := by
    intro answer drops
    have ends := InputStream.fgetc_spec drops
    generalize s.stream.fgetc answer = result at ends ⊢
    obtain ⟨found, final⟩ := result
    cases ends with
    | none _ _ delivers => exact delivers
    | byte _ _ delivers => exact delivers
  cases call with
  | fgetc answer =>
      exact kept.delivers (byte answer careful)
  | getc answer =>
      exact kept.delivers (byte answer careful)
  | ungetc c =>
      exact kept.ungetc c
  | fread size nmemb answer =>
      exact kept.delivers (InputStream.fread_spec careful)
  | fgets size answers =>
      exact kept.delivers (InputStream.fgets_spec careful)
  | getdelim call =>
      exact kept.delivers (InputStream.getdelim_spec careful)
  | fseek offset whence =>
      exact kept.fseek careful

/--
In every run of careful calls on a stream, what has been returned are the
descriptor's bytes in their order, with every pushed-back byte returned next
and once, an `fseek` goes on at its target, and the end flag tells the end.
-/
theorem losesNothing_of_careful
    {channel : InputChannel}
    {echoes : Bool}
    {trace : List (StdioState × StdioCall)}
    {final : StdioState}
    (run : Lib.Run Step (opened channel echoes) trace final)
    (careful : Lib.Meets Careful trace) :
    final.LosesNothing channel := by
  have start : (opened channel echoes).Kept channel := {
    losesNothing := {
      replays := rfl
      ends := by
        intro absurd
        cases absurd
    }
    content := rfl
  }
  exact (Lib.Run.invariant start (fun kept meets taken =>
    kept.step meets taken) run careful).losesNothing

/-- The state after a list of calls. -/
def after (s : StdioState) (calls : List StdioCall) : StdioState :=
  calls.foldl
    (fun current call =>
      { stream := (current.stream.perform call).2
        events := current.events ++ (current.stream.perform call).1 })
    s

/-- A file of the two bytes `ab`. -/
def twoByteFile : InputChannel where
  content := [97, 98]
  off := 0
  isFile := true

/-- A byte is read, the stream goes back, and both bytes are read. -/
theorem losesNothing_of_careful_seek :
    ((opened twoByteFile false).after
        [.fgetc (.upTo 1), .fseek 0 0, .fread 1 2 (.upTo 2)]).events =
        [.got [97], .sought 0, .got [97, 98]] ∧
      ((opened twoByteFile false).after
        [.fgetc (.upTo 1), .fseek 0 0,
          .fread 1 2 (.upTo 2)]).LosesNothing twoByteFile := by
  refine ⟨by decide, ?_⟩
  have first :
      Lib.Run Step (opened twoByteFile false) _
        ((opened twoByteFile false).after [.fgetc (.upTo 1)]) :=
    Lib.Run.start.next
      (show Step (opened twoByteFile false) (.fgetc (.upTo 1)) _ from rfl)
  have second :=
    first.next
      (show Step _ (.fseek 0 0)
        ((opened twoByteFile false).after [.fgetc (.upTo 1), .fseek 0 0])
        from rfl)
  have third :=
    second.next
      (show Step _ (.fread 1 2 (.upTo 2))
        ((opened twoByteFile false).after
          [.fgetc (.upTo 1), .fseek 0 0, .fread 1 2 (.upTo 2)])
        from rfl)
  refine losesNothing_of_careful third ?_
  rw [Lib.Meets.snoc_iff, Lib.Meets.snoc_iff, Lib.Meets.snoc_iff]
  refine ⟨⟨⟨by simp [Lib.Meets], rfl⟩, ?_⟩, ?_⟩
  · intro target asked
    cases asked
    exact ⟨rfl, rfl, by decide, by decide⟩
  · right
    rw [if_neg (by decide)]
    exact ⟨by decide, fun isShort => absurd isShort (by decide)⟩

/--
`a` is read and pushed back; the next `fgetc` returns it again but has read
`b` first, which is never returned.
-/
theorem pushback_drops_next_byte :
    ((opened twoByteFile false).after
        [.fgetc (.upTo 1), .ungetc 97, .fgetc (.upTo 1),
          .fgetc (.upTo 1)]).events =
        [.got [97], .pushed 97, .got [97], .got []] ∧
      ¬ ((opened twoByteFile false).after
        [.fgetc (.upTo 1), .ungetc 97, .fgetc (.upTo 1),
          .fgetc (.upTo 1)]).LosesNothing twoByteFile := by
  refine ⟨by decide, ?_⟩
  intro loses
  exact absurd loses.replays (by decide)

end StdioState

end MyOS
