import MyOS.PageTable

namespace MyOS

/-!
# User memory

A system call reaches the user's memory through the process's page table: it
rounds an address down, calls `walk`, tests bits of the entry and uses the
physical address in it.  The accesses made so are written to a log.  A list of
requests says which bytes a call asks for, in order; the loops of the kernel
are compared with the plain rule that serves requests until one is refused.

The pages of a page table are mapped by no page table, so that bytes copied to
the user change no entry.
-/

/-- A byte that the kernel reaches through an entry of the user's page table. -/
structure UserAccess where
  write : Bool
  pte : Word
  /-- Distance from the beginning of the page that the entry maps. -/
  offset : Nat
  deriving Repr, DecidableEq

/--
The access stays in a page that the user may access, and that the user may
write if the kernel writes.
-/
def UserAccess.confined (access : UserAccess) : Bool :=
  carries access.pte PTE_V && carries access.pte PTE_U &&
    (!access.write || carries access.pte PTE_W) &&
    decide (access.offset < 4096)

/-- Physical memory outside the page tables, and the accesses so far. -/
structure CopyState where
  memory : Word → UInt8
  log : List UserAccess

/-- What a part of a system call comes to: a value, -1, or a panic. -/
inductive CopyResult (Value : Type) where
  | ok (value : Value) (s : CopyState)
  | refused (s : CopyState)
  | panic (s : CopyState)

namespace CopyResult

variable {Value Next : Type}

/-- The state at the end. -/
def state : CopyResult Value → CopyState
  | ok _ s => s
  | refused s => s
  | panic s => s

/-- The kernel has panicked. -/
def panicked : CopyResult Value → Bool
  | panic _ => true
  | _ => false

/-- Go on where the first part has returned a value. -/
def bind
    (first : CopyResult Value)
    (next : Value → CopyState → CopyResult Next) : CopyResult Next :=
  match first with
  | ok value s => next value s
  | refused s => refused s
  | panic s => panic s

end CopyResult

/-- The address space of a process. -/
structure UserSpace where
  pagetable : Word
  /-- The doublewords of the page tables. -/
  table : Word → Word
  /-- `p->sz` -/
  sz : Word

/-- `*pte & PTE_V` -/
def isValid (pte : Word) : Bool :=
  carries pte PTE_V

/-- `(*pte & PTE_V) && (*pte & PTE_U)` -/
def isUser (pte : Word) : Bool :=
  carries pte PTE_V && carries pte PTE_U

/-- What `walk` and the test of an entry come to. -/
inductive Lookup where
  | panic
  | refused
  | granted (pte : Word)
  deriving Repr, DecidableEq

namespace UserSpace

variable (space : UserSpace)

/-- `walk(p->pagetable, PGROUNDDOWN(va), 0)` and the test of `*pte`. -/
def lookup (admits : Word → Bool) (va : Word) : Lookup :=
  let store : PageStore := { load := space.table, free := [] }
  match (store.walk false space.pagetable (PGROUNDDOWN va)).1 with
  | .outOfRange => .panic
  | .null => .refused
  | .entry address =>
      if admits (space.table address) then
        .granted (space.table address)
      else
        .refused

/-- The entry for an address, in a loop that returns -1 without it. -/
def find
    (admits : Word → Bool)
    (va : Word)
    (s : CopyState) : CopyResult Word :=
  match space.lookup admits va with
  | .panic => .panic s
  | .refused => .refused s
  | .granted pte => .ok pte s

end UserSpace

/-- The distance of an address from the beginning of its page. -/
def pageOffset (va : Word) : Nat :=
  (va - PGROUNDDOWN va).toNat

/-- The physical address of a byte behind an entry. -/
def physical (pte : Word) (offset : Nat) : Word :=
  PTE2PA pte + BitVec.ofNat 64 offset

namespace CopyState

/-- `*(char *)(pa + offset)` -/
def load (s : CopyState) (pte : Word) (offset : Nat) : UInt8 × CopyState :=
  (s.memory (physical pte offset),
    { s with
      log := s.log ++ [{ write := false, pte := pte, offset := offset }] })

/-- `*(char *)(pa + offset) = byte` -/
def store
    (s : CopyState)
    (pte : Word)
    (offset : Nat)
    (byte : UInt8) : CopyState where
  memory := Function.update s.memory (physical pte offset) byte
  log := s.log ++ [{ write := true, pte := pte, offset := offset }]

/-- The loads of `n` bytes from an offset on. -/
def loads
    (pte : Word)
    (offset : Nat) : Nat → CopyState → List UInt8 × CopyState
  | 0, s => ([], s)
  | n + 1, s =>
      let (byte, s) := s.load pte offset
      let (rest, s) := loads pte (offset + 1) n s
      (byte :: rest, s)

/-- `memmove` of bytes to an offset on. -/
def stores (pte : Word) (offset : Nat) : List UInt8 → CopyState → CopyState
  | [], s => s
  | byte :: rest, s => stores pte (offset + 1) rest (s.store pte offset byte)

end CopyState

/-!
## The loops
-/

namespace UserSpace

variable (space : UserSpace)

/-- The loop that copies `chunk` bytes from the user in `sys_write`. -/
def fetchChunk : Nat → Word → CopyState → CopyResult (List UInt8)
  | 0, _, s => .ok [] s
  | chunk + 1, user_addr, s =>
      (space.find isValid user_addr s).bind fun pte s =>
        let (byte, s) := s.load pte (pageOffset user_addr)
        (fetchChunk chunk (user_addr + 1) s).bind fun rest s =>
          .ok (byte :: rest) s

/--
The loop that stores bytes to the user in `piperead` and `sys_pipe`, and, one
key after the other, in `sys_read`.
-/
def putBytes : List UInt8 → Word → CopyState → CopyResult Unit
  | [], _, s => .ok () s
  | byte :: rest, user_addr, s =>
      (space.find isValid user_addr s).bind fun pte s =>
        putBytes rest (user_addr + 1) (s.store pte (pageOffset user_addr) byte)

/-- `copyout(pagetable, dstva, src, len)`, with as many turns as bytes. -/
def copyoutTurns : Nat → Word → List UInt8 → CopyState → CopyResult Unit
  | 0, _, _, s => .ok () s
  | turns + 1, dstva, src, s =>
      if src = [] then
        .ok () s
      else
        (space.find isUser dstva s).bind fun pte s =>
          let n := min (4096 - pageOffset dstva) src.length
          copyoutTurns turns (dstva + BitVec.ofNat 64 n) (src.drop n)
            (s.stores pte (pageOffset dstva) (src.take n))

/-- `copyout(pagetable, dstva, src, len)` -/
def copyout (dstva : Word) (src : List UInt8) (s : CopyState) : CopyResult Unit :=
  space.copyoutTurns src.length dstva src s

/-- `fetchstr(s, dst, max)`: the characters before the terminating zero. -/
def fetchstr : Nat → Word → CopyState → CopyResult (List UInt8)
  | 0, _, s => .refused s
  | max + 1, va, s =>
      (space.find isUser va s).bind fun pte s =>
        let (byte, s) := s.load pte (pageOffset va)
        if byte = 0 then
          .ok [] s
        else
          (fetchstr max (va + 1) s).bind fun rest s => .ok (byte :: rest) s

/-- The doubleword of eight bytes. -/
def doubleword (bytes : List UInt8) : Word :=
  bytes.foldr (fun byte rest => rest <<< 8 ||| BitVec.ofNat 64 byte.toNat) 0

/-- `fetchaddr(addr, ip)` -/
def fetchaddr (addr : Word) (s : CopyState) : CopyResult Word :=
  if space.sz < addr + 8 then
    .refused s
  else
    (space.find isUser addr s).bind fun pte s =>
      let (bytes, s) := s.loads pte (pageOffset addr) 8
      .ok (doubleword bytes) s

end UserSpace

/-!
## Requests
-/

/-- Bytes that the kernel asks for with one look at the page table. -/
structure UserRequest where
  va : Word
  /-- The bytes behind the first one. -/
  more : Nat
  /-- The loop tests `PTE_U` besides `PTE_V`. -/
  checksUser : Bool
  write : Bool
  deriving Repr, DecidableEq

namespace UserRequest

/-- The test that the loop makes. -/
def admits (request : UserRequest) : Word → Bool :=
  if request.checksUser then isUser else isValid

/-- The accesses of a request that has been granted. -/
def accesses (request : UserRequest) (pte : Word) : List UserAccess :=
  (List.range (request.more + 1)).map fun index =>
    { write := request.write
      pte := pte
      offset := pageOffset request.va + index }

/-- One request for each of `n` bytes. -/
def bytes (checksUser write : Bool) : Nat → Word → List UserRequest
  | 0, _ => []
  | n + 1, va =>
      { va := va
        more := 0
        checksUser := checksUser
        write := write } :: bytes checksUser write n (va + 1)

end UserRequest

/-- How a list of requests ends. -/
inductive Stop where
  | finished
  | refused
  | panic
  deriving Repr, DecidableEq

/-- What becomes of a list of requests. -/
structure Service where
  accesses : List UserAccess
  stop : Stop

/--
The requests of a part of a system call, and whether the part returns a value
when all of them have been granted.
-/
structure Plan where
  requests : List UserRequest
  completes : Bool

/-- One part after the other. -/
def Plan.andThen (first second : Plan) : Plan :=
  if first.completes then
    { requests := first.requests ++ second.requests
      completes := second.completes }
  else
    first

namespace UserSpace

variable (space : UserSpace)

/-- Requests are granted in order until the first that is not. -/
def serve : List UserRequest → Service
  | [] =>
      { accesses := []
        stop := .finished }
  | request :: rest =>
      match space.lookup request.admits request.va with
      | .panic =>
          { accesses := []
            stop := .panic }
      | .refused =>
          { accesses := []
            stop := .refused }
      | .granted pte =>
          { accesses := request.accesses pte ++ (serve rest).accesses
            stop := (serve rest).stop }

/-- A request that the kernel comes to: all before it have been granted. -/
def ComesTo (requests : List UserRequest) (request : UserRequest) : Prop :=
  ∃ earlier later,
    requests = earlier ++ request :: later ∧
      (space.serve earlier).stop = .finished

end UserSpace

/-- A part of a system call asks for the given bytes. -/
structure CopyResult.AsksFor
    {Value : Type}
    (result : CopyResult Value)
    (space : UserSpace)
    (s : CopyState)
    (requests : List UserRequest) : Prop where
  log : result.state.log = s.log ++ (space.serve requests).accesses
  panicked : result.panicked = true ↔ (space.serve requests).stop = .panic

/-- A part of a system call does what its plan says. -/
structure CopyResult.Follows
    {Value : Type}
    (result : CopyResult Value)
    (space : UserSpace)
    (s : CopyState)
    (plan : Plan) : Prop extends
    CopyResult.AsksFor result space s plan.requests where
  ok :
    (∃ value after, result = .ok value after) ↔
      (space.serve plan.requests).stop = .finished ∧ plan.completes = true

namespace UserSpace

variable {space : UserSpace}

theorem serve_append
    (space : UserSpace)
    (first second : List UserRequest) :
    space.serve (first ++ second) =
      if (space.serve first).stop = .finished then
        { accesses :=
            (space.serve first).accesses ++ (space.serve second).accesses
          stop := (space.serve second).stop }
      else
        space.serve first := by
  induction first with
  | nil =>
      rfl
  | cons request rest inductionHypothesis =>
      cases isLookup : space.lookup request.admits request.va with
      | panic =>
          simp [serve, isLookup]
      | refused =>
          simp [serve, isLookup]
      | granted pte =>
          simp only [List.cons_append, serve, isLookup, inductionHypothesis]
          split
          · simp only [List.append_assoc]
          · rfl

theorem lookup_panic_iff
    {admits : Word → Bool}
    {va : Word} :
    space.lookup admits va = .panic ↔ MAXVA ≤ (PGROUNDDOWN va).toNat := by
  let store : PageStore := { load := space.table, free := [] }
  have out :
      (store.walk false space.pagetable (PGROUNDDOWN va)).1 = .outOfRange ↔
        MAXVA ≤ (PGROUNDDOWN va).toNat :=
    PageStore.walk_outOfRange_iff
  rw [← out]
  simp only [lookup, store]
  split
  next isOut =>
    simp [isOut]
  next isNull =>
    simp [isNull]
  next address isEntry =>
    rw [isEntry]
    split
    all_goals simp

theorem mem_serve_iff
    {requests : List UserRequest}
    {access : UserAccess} :
    access ∈ (space.serve requests).accesses ↔
      ∃ request pte,
        space.ComesTo requests request ∧
          space.lookup request.admits request.va = .granted pte ∧
          access ∈ request.accesses pte := by
  induction requests with
  | nil =>
      constructor
      · intro member
        cases member
      · rintro ⟨request, _, ⟨earlier, later, isNil, _⟩, _⟩
        simp at isNil
  | cons head rest inductionHypothesis =>
      constructor
      · intro member
        cases isLookup : space.lookup head.admits head.va with
        | panic =>
            simp [serve, isLookup] at member
        | refused =>
            simp [serve, isLookup] at member
        | granted pte =>
            simp only [serve, isLookup, List.mem_append] at member
            rcases member with isHead | inRest
            · exact ⟨head, pte, ⟨[], rest, rfl, rfl⟩, isLookup, isHead⟩
            · obtain ⟨request, found, ⟨earlier, later, isRest, served⟩,
                granted, isAccess⟩ := inductionHypothesis.mp inRest
              refine ⟨request, found, ⟨head :: earlier, later, ?_, ?_⟩,
                granted, isAccess⟩
              · rw [isRest, List.cons_append]
              · simpa only [serve, isLookup] using served
      · rintro ⟨request, pte, ⟨earlier, later, isList, served⟩, granted,
          isAccess⟩
        rw [isList, serve_append, if_pos served]
        simp only [serve, granted, List.mem_append]
        exact Or.inr (Or.inl isAccess)

end UserSpace

namespace CopyResult.Follows

variable {Value Next : Type} {space : UserSpace}
variable {result : CopyResult Value} {s : CopyState} {plan next : Plan}

theorem value (value : Value) (s : CopyState) :
    (CopyResult.ok value s).Follows space s
      { requests := []
        completes := true } where
  log := (List.append_nil _).symm
  panicked := by
    simp [CopyResult.panicked, UserSpace.serve]
  ok := by
    simp [UserSpace.serve]

theorem error (s : CopyState) :
    (CopyResult.refused s : CopyResult Value).Follows space s
      { requests := []
        completes := false } where
  log := (List.append_nil _).symm
  panicked := by
    simp [CopyResult.panicked, UserSpace.serve]
  ok := by
    simp

theorem bind
    (first : result.Follows space s plan)
    {continuation : Value → CopyState → CopyResult Next}
    (second :
      ∀ value after,
        result = .ok value after →
          (continuation value after).Follows space after next) :
    (result.bind continuation).Follows space s (plan.andThen next) := by
  cases isResult : result with
  | ok value after =>
      have follows := second value after isResult
      obtain ⟨finished, completes⟩ := first.ok.mp ⟨value, after, isResult⟩
      have log := first.log
      rw [isResult] at log
      have log' : after.log = s.log ++ (space.serve plan.requests).accesses :=
        log
      have joined := space.serve_append plan.requests next.requests
      rw [if_pos finished] at joined
      unfold Plan.andThen
      rw [if_pos completes]
      refine {
        log := ?_
        panicked := ?_
        ok := ?_
      }
      · dsimp only [CopyResult.bind]
        rw [joined, follows.log, log', List.append_assoc]
      · dsimp only [CopyResult.bind]
        rw [joined, follows.panicked]
      · dsimp only [CopyResult.bind]
        rw [joined, follows.ok]
  | refused after =>
      have log := first.log
      have panicked := first.panicked
      have notOk := first.ok
      rw [isResult] at log panicked notOk
      have stopped :
          (space.serve (plan.andThen next).requests) =
            space.serve plan.requests := by
        unfold Plan.andThen
        split
        next completes =>
          rw [UserSpace.serve_append, if_neg]
          intro finished
          obtain ⟨_, _, isOk⟩ := notOk.mpr ⟨finished, completes⟩
          cases isOk
        next =>
          rfl
      have keeps :
          (space.serve plan.requests).stop = .finished →
            (plan.andThen next).completes = false := by
        intro finished
        have completes : plan.completes ≠ true := by
          intro completes
          obtain ⟨_, _, isOk⟩ := notOk.mpr ⟨finished, completes⟩
          cases isOk
        unfold Plan.andThen
        rw [if_neg completes]
        exact eq_false_of_ne_true completes
      refine {
        log := ?_
        panicked := ?_
        ok := ?_
      }
      · rw [stopped]
        exact log
      · rw [stopped]
        exact panicked
      · rw [stopped]
        constructor
        · rintro ⟨_, _, isOk⟩
          cases isOk
        · rintro ⟨finished, completes⟩
          rw [keeps finished] at completes
          cases completes
  | panic after =>
      have log := first.log
      have isPanic := first.panicked.mp (by rw [isResult]; rfl)
      have panicked := first.panicked
      rw [isResult] at log panicked
      have notFinished :
          (space.serve plan.requests).stop ≠ .finished := by
        rw [isPanic]
        decide
      have stopped :
          (space.serve (plan.andThen next).requests) =
            space.serve plan.requests := by
        unfold Plan.andThen
        split
        next completes =>
          rw [UserSpace.serve_append, if_neg notFinished]
        next =>
          rfl
      refine {
        log := ?_
        panicked := ?_
        ok := ?_
      }
      · rw [stopped]
        exact log
      · rw [stopped]
        exact panicked
      · rw [stopped]
        constructor
        · rintro ⟨_, _, isOk⟩
          cases isOk
        · rintro ⟨finished, _⟩
          exact (notFinished finished).elim

end CopyResult.Follows

end MyOS
