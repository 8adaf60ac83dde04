import MyOS.UserCalls

namespace MyOS

/-!
# User pointers and the page table

Which entries a system call goes through, and where its addresses stop, follow
from the list of bytes that the call asks for.  Some loops test only `PTE_V`,
no loop that writes tests `PTE_W`, `fetchaddr` reads eight bytes behind one
entry, and only `fetchaddr` bounds an address before it calls `walk`.
-/

namespace UserSpace

/--
What the kernel is asked for, where it gets it: loops that do not test `PTE_U`
are given pages that carry it, loops that write are given pages that carry
`PTE_W`, and the bytes end within the page.
-/
def Confines (space : UserSpace) (request : UserRequest) : Prop :=
  ∀ pte,
    space.lookup request.admits request.va = .granted pte →
      (request.checksUser = false → carries pte PTE_U = true) ∧
        (request.write = true → carries pte PTE_W = true) ∧
        pageOffset request.va + request.more < 4096

variable {space : UserSpace} {request : UserRequest} {pte : Word}

theorem admits_of_granted
    {admits : Word → Bool}
    {va : Word}
    (granted : space.lookup admits va = .granted pte) :
    admits pte = true := by
  simp only [lookup] at granted
  split at granted
  · cases granted
  · cases granted
  · split at granted
    next passes =>
      cases granted
      exact passes
    next =>
      cases granted

theorem valid_of_granted
    (granted : space.lookup request.admits request.va = .granted pte) :
    carries pte PTE_V = true := by
  have passes := admits_of_granted granted
  unfold UserRequest.admits at passes
  split at passes
  · exact (Bool.and_eq_true_iff.mp passes).1
  · exact passes

theorem user_of_granted
    (granted : space.lookup request.admits request.va = .granted pte)
    (checks : request.checksUser = true) :
    carries pte PTE_U = true := by
  have passes := admits_of_granted granted
  unfold UserRequest.admits at passes
  rw [if_pos checks] at passes
  exact (Bool.and_eq_true_iff.mp passes).2

theorem confined_iff
    (granted : space.lookup request.admits request.va = .granted pte) :
    (∀ access ∈ request.accesses pte, access.confined = true) ↔
      (request.checksUser = false → carries pte PTE_U = true) ∧
        (request.write = true → carries pte PTE_W = true) ∧
        pageOffset request.va + request.more < 4096 := by
  have valid := valid_of_granted granted
  constructor
  · intro confined
    have last := confined
      { write := request.write
        pte := pte
        offset := pageOffset request.va + request.more }
      (List.mem_map.mpr
        ⟨request.more, List.mem_range.mpr (Nat.lt_succ_self _), rfl⟩)
    simp only [UserAccess.confined, Bool.and_eq_true, Bool.or_eq_true,
      Bool.not_eq_true', decide_eq_true_eq] at last
    obtain ⟨⟨⟨_, user⟩, writable⟩, inside⟩ := last
    refine ⟨fun _ => user, ?_, inside⟩
    intro writes
    rcases writable with isRead | isWritable
    · rw [writes] at isRead
      cases isRead
    · exact isWritable
  · rintro ⟨user, writable, inside⟩ access member
    obtain ⟨index, inRange, isAccess⟩ := List.mem_map.mp member
    have bound := List.mem_range.mp inRange
    have isUser : carries pte PTE_U = true := by
      cases checks : request.checksUser with
      | false =>
          exact user checks
      | true =>
          exact user_of_granted granted checks
    rw [← isAccess]
    simp only [UserAccess.confined, Bool.and_eq_true, Bool.or_eq_true,
      Bool.not_eq_true', decide_eq_true_eq]
    refine ⟨⟨⟨valid, isUser⟩, ?_⟩, by omega⟩
    cases writes : request.write with
    | false =>
        exact Or.inl rfl
    | true =>
        exact Or.inr (writable writes)

end UserSpace

namespace UserProcess

/-- Memory before a call. -/
def untouched (memory : Word → UInt8) : CopyState where
  memory := memory
  log := []

/--
A system call goes only through entries with `PTE_V` and `PTE_U`, and writes
only through entries with `PTE_W`, exactly if each request that it comes to is
confined by what the caller has passed.
-/
theorem call_confined_iff
    (process : UserProcess)
    (answers : KernelAnswers)
    (call : UserCall)
    (memory : Word → UInt8) :
    (∀ access ∈ (process.call answers call (untouched memory)).state.log,
        access.confined = true) ↔
      ∀ request,
        process.ComesTo (process.requests answers memory call) request →
          process.Confines request := by
  have log := (process.call_asksFor answers call (untouched memory)).log
  have isLog :
      (process.call answers call (untouched memory)).state.log =
        (process.serve (process.requests answers memory call)).accesses := by
    rw [log]
    exact List.nil_append _
  rw [isLog]
  constructor
  · intro confined request comes pte granted
    apply (UserSpace.confined_iff granted).mp
    intro access member
    exact confined access
      (UserSpace.mem_serve_iff.mpr ⟨request, pte, comes, granted, member⟩)
  · intro confines access member
    obtain ⟨request, pte, comes, granted, isAccess⟩ :=
      UserSpace.mem_serve_iff.mp member
    exact (UserSpace.confined_iff granted).mpr
      (confines request comes pte granted) access isAccess

/-- The pages at the top of memory, as `kalloc` hands them out first. -/
def topPages : PageStore where
  load := fun _ => 0
  free :=
    (List.range 8).map fun index =>
      0x87FFF000 - BitVec.ofNat 64 (4096 * index)

/-- The kernel pages of the first process. -/
def firstPages : KernelPages where
  userret := 0x80000100
  uservec := 0x80000000
  trapframe := 0x87FF0000

/-- The first process; its descriptors are the console. -/
def firstProcess (root : Word) (table : Word → Word) : UserProcess where
  pagetable := root
  table := table
  sz := 0
  ofile := fun _ =>
    some
      { type := .console
        readable := true
        writable := true }
  cwd := [47, 0]

/-- Nothing to read, and every page taken. -/
def noAnswers : KernelAnswers where
  written := fun _ => -1
  keys := fun _ => none
  piped := none
  pieces := []
  descriptors := none
  zombie := none
  stat := []
  pending := []
  argvPages := fun _ => false
  envPages := fun _ => false
  result := -1

/-- `write(1, p->trapframe, 1)` -/
def writeTrapframe : UserCall :=
  .write 1 0x87FF0000 1

/-- A call goes through an entry that is not the user's. -/
def trespasses
    (built : Except Unit (Option Word × PageStore))
    (call : UserCall) : Bool :=
  match built with
  | .ok (some root, store) =>
      ((firstProcess root store.load).call noAnswers call
        (untouched fun _ => 0)).state.log.any fun access => !access.confined
  | _ => false

/-- `sys_write` hands the caller's trapframe to the console. -/
theorem write_reads_trapframe :
    ¬ ∀ (pages : KernelPages) (store after : PageStore) (root : Word)
        (process : UserProcess) (answers : KernelAnswers) (call : UserCall)
        (memory : Word → UInt8),
      procPagetable pages store = .ok (some root, after) →
        process.pagetable = root →
        process.table = after.load →
        ∀ access ∈ (process.call answers call (untouched memory)).state.log,
          access.confined = true := by
  intro law
  have wrong :
      trespasses (procPagetable firstPages topPages) writeTrapframe = true := by
    decide +kernel
  cases isBuilt : procPagetable firstPages topPages with
  | error reason =>
      rw [isBuilt] at wrong
      cases wrong
  | ok built =>
      obtain ⟨found, after⟩ := built
      rw [isBuilt] at wrong
      cases found with
      | none =>
          cases wrong
      | some root =>
          obtain ⟨access, member, outside⟩ := List.any_eq_true.mp wrong
          have confined := law firstPages topPages after root
            (firstProcess root after.load) noAnswers writeTrapframe
            (fun _ => 0) isBuilt rfl rfl access member
          rw [confined] at outside
          cases outside

end UserProcess

end MyOS
