import MyOS.UserAccess

namespace MyOS

/-!
# The copy loops ask for the bytes they are given

Every loop of the kernel over user memory makes the accesses that its list of
requests describes and stops where the list is refused.  The loops that read
strings and pointers ask for what the user's memory says; they change none of
it.
-/

/-! ## Addresses in a page -/

theorem clearLow_eq
    {mask : Word}
    {count : Nat}
    (isMask : ∀ i, mask.getLsbD i = decide (i < count))
    (va : Word) :
    va &&& ~~~mask = (va >>> count) <<< count := by
  apply BitVec.eq_of_getLsbD_eq
  intro i bound
  simp only [BitVec.getLsbD_and, BitVec.getLsbD_not, BitVec.getLsbD_shiftLeft,
    BitVec.getLsbD_ushiftRight, isMask, bound]
  by_cases low : i < count
  · simp [low]
  · have back : count + (i - count) = i := by
      omega
    simp [low, back]

theorem pgrounddown_eq (va : Word) : PGROUNDDOWN va = (va >>> 12) <<< 12 := by
  have isMask (i : Nat) : (0xFFF : Word).getLsbD i = decide (i < 12) :=
    Nat.testBit_two_pow_sub_one 12 i
  exact clearLow_eq isMask va

theorem toNat_pgrounddown (va : Word) :
    (PGROUNDDOWN va).toNat = va.toNat / 4096 * 4096 := by
  have bound := va.isLt
  rw [pgrounddown_eq, BitVec.toNat_shiftLeft, BitVec.toNat_ushiftRight,
    Nat.shiftRight_eq_div_pow, Nat.shiftLeft_eq]
  simp only [Nat.reducePow] at bound ⊢
  omega

theorem pageOffset_eq (va : Word) : pageOffset va = va.toNat % 4096 := by
  have bound := va.isLt
  rw [pageOffset, BitVec.toNat_sub, toNat_pgrounddown]
  omega

theorem succ_in_page
    {va : Word}
    (inside : pageOffset va + 1 < 4096) :
    PGROUNDDOWN (va + 1) = PGROUNDDOWN va ∧
      pageOffset (va + 1) = pageOffset va + 1 := by
  have bound := va.isLt
  rw [pageOffset_eq] at inside
  have next : (va + 1).toNat = va.toNat + 1 := by
    rw [BitVec.toNat_add]
    have one : (1 : Word).toNat = 1 := rfl
    omega
  constructor
  · apply BitVec.eq_of_toNat_eq
    rw [toNat_pgrounddown, toNat_pgrounddown, next]
    omega
  · rw [pageOffset_eq, pageOffset_eq, next]
    omega

theorem maxva_le_pgrounddown (va : Word) :
    MAXVA ≤ (PGROUNDDOWN va).toNat ↔ MAXVA ≤ va.toNat := by
  have isMax : MAXVA = 67108864 * 4096 := rfl
  rw [toNat_pgrounddown, isMax]
  omega

namespace UserSpace

variable {space : UserSpace}

theorem lookup_congr
    {admits : Word → Bool}
    {va other : Word}
    (samePage : PGROUNDDOWN other = PGROUNDDOWN va) :
    space.lookup admits other = space.lookup admits va := by
  rw [lookup, lookup, samePage]

end UserSpace

/-! ## Rules for plans -/

namespace CopyResult.Follows

variable {Value Next : Type} {space : UserSpace}
variable {result : CopyResult Value} {s : CopyState} {plan next : Plan}

theorem request
    (request : UserRequest)
    (next : Plan)
    {continuation : Word → CopyState → CopyResult Value}
    (served :
      ∀ pte,
        space.lookup request.admits request.va = .granted pte →
          ∃ after,
            after.log = s.log ++ request.accesses pte ∧
              (continuation pte s).Follows space after next) :
    ((space.find request.admits request.va s).bind continuation).Follows
      space s
      { requests := request :: next.requests
        completes := next.completes } := by
  unfold UserSpace.find
  cases isLookup : space.lookup request.admits request.va with
  | panic =>
      refine {
        log := ?_
        panicked := ?_
        ok := ?_
      }
      all_goals
        simp [CopyResult.bind, CopyResult.state, CopyResult.panicked,
          UserSpace.serve, isLookup]
  | refused =>
      refine {
        log := ?_
        panicked := ?_
        ok := ?_
      }
      all_goals
        simp [CopyResult.bind, CopyResult.state, CopyResult.panicked,
          UserSpace.serve, isLookup]
  | granted pte =>
      obtain ⟨after, log, follows⟩ := served pte isLookup
      refine {
        log := ?_
        panicked := ?_
        ok := ?_
      }
      · simp only [CopyResult.bind, UserSpace.serve, isLookup]
        rw [follows.log, log, List.append_assoc]
      · simp only [CopyResult.bind, UserSpace.serve, isLookup]
        exact follows.panicked
      · simp only [CopyResult.bind, UserSpace.serve, isLookup]
        exact follows.ok

theorem map
    (follows : result.Follows space s plan)
    (compute : Value → Next) :
    (result.bind fun value s => .ok (compute value) s).Follows space s plan := by
  let nothing : Plan := { requests := [], completes := true }
  have joined :
      (result.bind fun value s => .ok (compute value) s).Follows space s
        (plan.andThen nothing) :=
    follows.bind fun value after _ => .value (compute value) after
  have same : plan.andThen nothing = plan := by
    unfold Plan.andThen
    split
    next completes =>
      have isTrue : nothing.completes = plan.completes := completes.symm
      rw [List.append_nil, isTrue]
    next =>
      rfl
  rwa [same] at joined

end CopyResult.Follows

namespace UserSpace

variable {space : UserSpace}

theorem accesses_byte
    (request : UserRequest)
    (single : request.more = 0)
    (pte : Word) :
    request.accesses pte =
      [{ write := request.write
         pte := pte
         offset := pageOffset request.va }] := by
  simp [UserRequest.accesses, single]

theorem fetchChunk_follows
    (n : Nat)
    (va : Word)
    (s : CopyState) :
    (space.fetchChunk n va s).Follows space s
      { requests := UserRequest.bytes false false n va
        completes := true } := by
  induction n generalizing va s with
  | zero =>
      exact .value _ s
  | succ n inductionHypothesis =>
      apply CopyResult.Follows.request
        { va := va, more := 0, checksUser := false, write := false }
        { requests := UserRequest.bytes false false n (va + 1)
          completes := true }
      intro pte _
      refine ⟨(s.load pte (pageOffset va)).2, ?_, ?_⟩
      · rw [accesses_byte _ rfl]
        rfl
      · exact (inductionHypothesis (va + 1) _).map _

theorem putBytes_follows
    (source : List UInt8)
    (va : Word)
    (s : CopyState) :
    (space.putBytes source va s).Follows space s
      { requests := UserRequest.bytes false true source.length va
        completes := true } := by
  induction source generalizing va s with
  | nil =>
      exact .value _ s
  | cons byte rest inductionHypothesis =>
      apply CopyResult.Follows.request
        { va := va, more := 0, checksUser := false, write := true }
        { requests := UserRequest.bytes false true rest.length (va + 1)
          completes := true }
      intro pte _
      refine ⟨s.store pte (pageOffset va) byte, ?_, ?_⟩
      · rw [accesses_byte _ rfl]
        rfl
      · exact inductionHypothesis (va + 1) _

theorem stores_log
    (pte : Word)
    (offset : Nat)
    (source : List UInt8)
    (s : CopyState) :
    (s.stores pte offset source).log =
      s.log ++ (List.range source.length).map fun index =>
        { write := true, pte := pte, offset := offset + index } := by
  induction source generalizing offset s with
  | nil =>
      simp [CopyState.stores]
  | cons byte rest inductionHypothesis =>
      rw [CopyState.stores, inductionHypothesis, List.length_cons,
        List.range_succ_eq_map]
      simp [CopyState.store, Function.comp_def, Nat.add_assoc,
        Nat.add_comm 1]

theorem bytes_add
    (checksUser write : Bool)
    (first second : Nat)
    (va : Word) :
    UserRequest.bytes checksUser write (first + second) va =
      UserRequest.bytes checksUser write first va ++
        UserRequest.bytes checksUser write second
          (va + BitVec.ofNat 64 first) := by
  induction first generalizing va with
  | zero =>
      simp [UserRequest.bytes]
  | succ first inductionHypothesis =>
      have next :
          va + 1 + BitVec.ofNat 64 first =
            va + BitVec.ofNat 64 (first + 1) := by
        rw [BitVec.add_assoc, BitVec.ofNat_add, BitVec.add_comm 1]
        rfl
      rw [Nat.add_right_comm, UserRequest.bytes, UserRequest.bytes,
        inductionHypothesis, next, List.cons_append]

theorem serve_page
    (checksUser write : Bool)
    {n : Nat}
    {va pte : Word}
    (inside : pageOffset va + n ≤ 4096)
    (granted :
      space.lookup (if checksUser then isUser else isValid) va =
        .granted pte) :
    space.serve (UserRequest.bytes checksUser write n va) =
      { accesses := (List.range n).map fun index =>
          { write := write, pte := pte, offset := pageOffset va + index }
        stop := .finished } := by
  induction n generalizing va with
  | zero =>
      rfl
  | succ n inductionHypothesis =>
      have head :
          space.lookup
            ({ va := va, more := 0, checksUser := checksUser,
               write := write } : UserRequest).admits va = .granted pte :=
        granted
      by_cases last : n = 0
      · subst last
        simp [UserRequest.bytes, serve, head, UserRequest.accesses]
      · have room : pageOffset va + 1 < 4096 := by
          omega
        obtain ⟨samePage, nextOffset⟩ := succ_in_page room
        have nextInside : pageOffset (va + 1) + n ≤ 4096 := by
          rw [nextOffset]
          omega
        have rest := inductionHypothesis nextInside
          ((lookup_congr samePage).trans granted)
        rw [UserRequest.bytes, serve, head, rest, nextOffset,
          List.range_succ_eq_map]
        simp [UserRequest.accesses, Function.comp_def, Nat.add_assoc,
          Nat.add_comm 1]

theorem serve_bytes_first
    (checksUser write : Bool)
    {n : Nat}
    {va : Word}
    (some : 0 < n)
    (notGranted :
      ∀ pte,
        space.lookup (if checksUser then isUser else isValid) va ≠
          .granted pte) :
    (space.serve (UserRequest.bytes checksUser write n va)).accesses = [] ∧
      ((space.serve (UserRequest.bytes checksUser write n va)).stop = .panic ↔
        space.lookup (if checksUser then isUser else isValid) va = .panic) ∧
      (space.serve (UserRequest.bytes checksUser write n va)).stop ≠
        .finished := by
  cases n with
  | zero =>
      exact absurd some (Nat.lt_irrefl 0)
  | succ n =>
      have head :
          ({ va := va, more := 0, checksUser := checksUser,
             write := write } : UserRequest).admits =
            if checksUser then isUser else isValid :=
        rfl
      rw [UserRequest.bytes, serve, head]
      dsimp only
      cases isLookup :
          space.lookup (if checksUser then isUser else isValid) va with
      | panic =>
          simp
      | refused =>
          simp
      | granted pte =>
          exact absurd isLookup (notGranted pte)

theorem copyoutTurns_follows
    (turns : Nat)
    (dstva : Word)
    (source : List UInt8)
    (enough : source.length ≤ turns)
    (s : CopyState) :
    (space.copyoutTurns turns dstva source s).Follows space s
      { requests := UserRequest.bytes true true source.length dstva
        completes := true } := by
  induction turns generalizing dstva source s with
  | zero =>
      have none : source = [] :=
        List.length_eq_zero_iff.mp (Nat.le_zero.mp enough)
      subst none
      exact .value _ s
  | succ turns inductionHypothesis =>
      unfold copyoutTurns
      by_cases none : source = []
      · rw [if_pos none, none]
        exact .value _ s
      rw [if_neg none]
      have some : 0 < source.length := List.length_pos_iff.mpr none
      unfold find
      cases isLookup : space.lookup isUser dstva with
      | panic =>
          have notGranted :
              ∀ pte,
                space.lookup (if true then isUser else isValid) dstva ≠
                  .granted pte := by
            simp [isLookup]
          obtain ⟨accesses, stop, unfinished⟩ :=
            serve_bytes_first true true some notGranted
          refine {
            log := ?_
            panicked := ?_
            ok := ?_
          }
          · simp [CopyResult.bind, CopyResult.state, accesses]
          · simp [CopyResult.bind, CopyResult.panicked, stop, isLookup]
          · simp [CopyResult.bind, unfinished]
      | refused =>
          have notGranted :
              ∀ pte,
                space.lookup (if true then isUser else isValid) dstva ≠
                  .granted pte := by
            simp [isLookup]
          obtain ⟨accesses, stop, unfinished⟩ :=
            serve_bytes_first true true some notGranted
          refine {
            log := ?_
            panicked := ?_
            ok := ?_
          }
          · simp [CopyResult.bind, CopyResult.state, accesses]
          · simp [CopyResult.bind, CopyResult.panicked, stop, isLookup]
          · simp [CopyResult.bind, unfinished]
      | granted pte =>
          have offset : pageOffset dstva < 4096 := by
            rw [pageOffset_eq]
            omega
          let n := min (4096 - pageOffset dstva) source.length
          have nLe : n ≤ source.length := Nat.min_le_right _ _
          have nPos : 0 < n := by
            simp only [n]
            omega
          have inside : pageOffset dstva + n ≤ 4096 := by
            simp only [n]
            omega
          have page := serve_page true true inside isLookup
          have rest := inductionHypothesis (dstva + BitVec.ofNat 64 n)
            (source.drop n) (by rw [List.length_drop]; omega)
            (s.stores pte (pageOffset dstva) (source.take n))
          have split :
              UserRequest.bytes true true source.length dstva =
                UserRequest.bytes true true n dstva ++
                  UserRequest.bytes true true (source.drop n).length
                    (dstva + BitVec.ofNat 64 n) := by
            rw [← bytes_add, List.length_drop]
            congr 1
            omega
          have whole :
              space.serve (UserRequest.bytes true true source.length dstva) =
                { accesses :=
                    (space.serve
                        (UserRequest.bytes true true n dstva)).accesses ++
                      (space.serve
                        (UserRequest.bytes true true (source.drop n).length
                          (dstva + BitVec.ofNat 64 n))).accesses
                  stop :=
                    (space.serve
                      (UserRequest.bytes true true (source.drop n).length
                        (dstva + BitVec.ofNat 64 n))).stop } := by
            rw [split, serve_append, if_pos]
            rw [page]
          refine {
            log := ?_
            panicked := ?_
            ok := ?_
          }
          · rw [whole, page]
            dsimp only [CopyResult.bind]
            rw [rest.log, stores_log, List.length_take, Nat.min_eq_left nLe,
              List.append_assoc]
          · rw [whole]
            exact rest.panicked
          · rw [whole]
            exact rest.ok

theorem copyout_follows
    (dstva : Word)
    (source : List UInt8)
    (s : CopyState) :
    (space.copyout dstva source s).Follows space s
      { requests := UserRequest.bytes true true source.length dstva
        completes := true } :=
  copyoutTurns_follows source.length dstva source (Nat.le_refl _) s

end UserSpace

/-! ## Strings and pointers in user memory -/

namespace UserSpace

variable (space : UserSpace) (memory : Word → UInt8)

/-- The user's byte at an address, zero where the user has none. -/
def byteAt (va : Word) : UInt8 :=
  match space.lookup isUser va with
  | .granted pte => memory (physical pte (pageOffset va))
  | _ => 0

/-- What `fetchaddr` reads at an address, zero where it reads nothing. -/
def wordAt (va : Word) : Word :=
  match space.lookup isUser va with
  | .granted pte =>
      doubleword ((List.range 8).map fun index =>
        memory (physical pte (pageOffset va + index)))
  | _ => 0

/-- The request for a character. -/
def characterRequest (va : Word) : UserRequest where
  va := va
  more := 0
  checksUser := true
  write := false

/-- The characters up to the terminating zero, or `max` without one. -/
def stringPlan : Nat → Word → Plan
  | 0, _ =>
      { requests := []
        completes := false }
  | max + 1, va =>
      if space.byteAt memory va = 0 then
        { requests := [characterRequest va]
          completes := true }
      else
        { requests := characterRequest va :: (stringPlan max (va + 1)).requests
          completes := (stringPlan max (va + 1)).completes }

/-- The request for a pointer. -/
def pointerRequest (va : Word) : UserRequest where
  va := va
  more := 7
  checksUser := true
  write := false

/-- A pointer, where the bound check of `fetchaddr` lets it pass. -/
def pointerPlan (addr : Word) : Plan :=
  if space.sz < addr + 8 then
    { requests := []
      completes := false }
  else
    { requests := [pointerRequest addr]
      completes := true }

variable {space memory}

theorem loads_eq
    (pte : Word)
    (offset n : Nat)
    (s : CopyState) :
    s.loads pte offset n =
      ((List.range n).map fun index =>
          s.memory (physical pte (offset + index)),
        { s with
          log := s.log ++ (List.range n).map fun index =>
            { write := false, pte := pte, offset := offset + index } }) := by
  induction n generalizing offset s with
  | zero =>
      simp [CopyState.loads]
  | succ n inductionHypothesis =>
      rw [CopyState.loads]
      simp only [inductionHypothesis, CopyState.load,
        List.range_succ_eq_map, List.map_cons, List.map_map,
        Function.comp_def, Nat.add_zero, Nat.succ_eq_add_one, Nat.add_assoc,
        Nat.add_comm 1, List.append_assoc, List.cons_append, List.nil_append]

theorem fetchstr_memory
    (max : Nat)
    (va : Word)
    (s : CopyState) :
    (space.fetchstr max va s).state.memory = s.memory := by
  induction max generalizing va s with
  | zero =>
      rfl
  | succ max inductionHypothesis =>
      unfold fetchstr find
      cases space.lookup isUser va with
      | panic =>
          rfl
      | refused =>
          rfl
      | granted pte =>
          have rest :=
            inductionHypothesis (va + 1) (s.load pte (pageOffset va)).2
          dsimp only [CopyResult.bind]
          split
          · rfl
          · cases isRest :
                space.fetchstr max (va + 1) (s.load pte (pageOffset va)).2
            all_goals
              rw [isRest] at rest
              exact rest

theorem fetchstr_follows
    (max : Nat)
    (va : Word)
    (s : CopyState) :
    (space.fetchstr max va s).Follows space s
      (space.stringPlan s.memory max va) := by
  induction max generalizing va s with
  | zero =>
      exact .error s
  | succ max inductionHypothesis =>
      unfold fetchstr stringPlan
      have character (pte : Word) :
          (s.load pte (pageOffset va)).2.log =
            s.log ++ (characterRequest va).accesses pte := by
        rw [accesses_byte _ rfl]
        rfl
      by_cases ends : space.byteAt s.memory va = 0
      · rw [if_pos ends]
        apply CopyResult.Follows.request (characterRequest va)
          { requests := [], completes := true }
        intro pte granted
        refine ⟨(s.load pte (pageOffset va)).2, character pte, ?_⟩
        have isZero : s.memory (physical pte (pageOffset va)) = 0 := by
          have isByte :
              space.byteAt s.memory va =
                s.memory (physical pte (pageOffset va)) := by
            have lookup : space.lookup isUser va = .granted pte := granted
            simp only [byteAt, lookup]
          rw [← isByte, ends]
        dsimp only [CopyState.load]
        rw [if_pos isZero]
        exact .value _ _
      · rw [if_neg ends]
        apply CopyResult.Follows.request (characterRequest va)
          (space.stringPlan s.memory max (va + 1))
        intro pte granted
        refine ⟨(s.load pte (pageOffset va)).2, character pte, ?_⟩
        have notZero : s.memory (physical pte (pageOffset va)) ≠ 0 := by
          have isByte :
              space.byteAt s.memory va =
                s.memory (physical pte (pageOffset va)) := by
            have lookup : space.lookup isUser va = .granted pte := granted
            simp only [byteAt, lookup]
          rw [← isByte]
          exact ends
        have rest :=
          inductionHypothesis (va + 1) (s.load pte (pageOffset va)).2
        dsimp only [CopyState.load] at rest ⊢
        rw [if_neg notZero]
        exact rest.map _

theorem fetchaddr_memory (addr : Word) (s : CopyState) :
    (space.fetchaddr addr s).state.memory = s.memory := by
  unfold fetchaddr find
  split
  · rfl
  · cases space.lookup isUser addr with
    | panic =>
        rfl
    | refused =>
        rfl
    | granted pte =>
        simp only [CopyResult.bind, loads_eq]
        rfl

theorem fetchaddr_value
    {addr pointer : Word}
    {s after : CopyState}
    (fetched : space.fetchaddr addr s = .ok pointer after) :
    pointer = space.wordAt s.memory addr := by
  unfold fetchaddr find at fetched
  split at fetched
  · cases fetched
  · cases isLookup : space.lookup isUser addr with
    | panic =>
        rw [isLookup] at fetched
        cases fetched
    | refused =>
        rw [isLookup] at fetched
        cases fetched
    | granted pte =>
        rw [isLookup] at fetched
        simp only [CopyResult.bind, loads_eq] at fetched
        cases fetched
        simp only [wordAt, isLookup]

theorem fetchaddr_follows (addr : Word) (s : CopyState) :
    (space.fetchaddr addr s).Follows space s (space.pointerPlan addr) := by
  unfold fetchaddr pointerPlan
  split
  · exact .error s
  · apply CopyResult.Follows.request (pointerRequest addr)
      { requests := [], completes := true }
    intro pte _
    rw [loads_eq]
    exact ⟨_, rfl, .value _ _⟩

end UserSpace

end MyOS
