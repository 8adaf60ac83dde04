import MyOS.KallocModel
import MyOS.Lib.Run

namespace MyOS

/-!
# The page allocator under timer preemption

System calls run with interrupts on, so `sys_trap_handler` can yield between
any two memory accesses of `kalloc` and `kfree` unless a spinlock is held.
Here each access to the list head and to a page's link is a step of its own.

Ghost components record which pages callers hold and how often the head has
been stored.  A call notes that number when it reads the page it will return,
or the head it will link to.
-/

/-- Where a process stands in a call of `kalloc` or `kfree`. -/
inductive CallState where
  | outside
  /-- About to load the head: `if (free_mem_list == 0)`. -/
  | kallocTest
  /-- About to load the head: `res = free_mem_list`. -/
  | kallocTake
  /-- About to load the head again for `free_mem_list->next`. -/
  | kallocHead (res since : Nat)
  /-- About to load the link of the page just read. -/
  | kallocNext (res head since : Nat)
  /-- About to store the head. -/
  | kallocStore (res next since : Nat)
  /-- About to return. -/
  | kallocReturn (res : Nat)
  /-- About to load the head for `tem->next = free_mem_list`. -/
  | kfreeHead (pa : Nat)
  /-- About to store the link of the freed page. -/
  | kfreeLink (pa head since : Nat)
  /-- About to store the head. -/
  | kfreeStore (pa since : Nat)
  deriving Repr, DecidableEq

/-- The page that only this call refers to: being freed, or just unlinked. -/
def CallState.page? : CallState → Option Nat
  | .kallocReturn res => some res
  | .kfreeHead pa => some pa
  | .kfreeLink pa _ _ => some pa
  | .kfreeStore pa _ => some pa
  | _ => none

/-- A call never remembers a store that has not happened. -/
def CallState.Past (stores : Nat) : CallState → Prop
  | .kallocHead _ since => since ≤ stores
  | .kallocNext _ _ since => since ≤ stores
  | .kallocStore _ _ since => since ≤ stores
  | .kfreeLink _ _ since => since ≤ stores
  | .kfreeStore _ since => since ≤ stores
  | _ => True

theorem CallState.Past.later
    {stores : Nat}
    {call : CallState}
    (past : call.Past stores) :
    call.Past (stores + 1) := by
  cases call <;> simp only [CallState.Past] at past ⊢ <;> omega

/-- A process inside the kernel, and whether it holds a spinlock there. -/
structure KernelThread where
  call : CallState
  locked : Bool
  deriving Repr, DecidableEq

/-- The allocator shared by all processes of the one CPU. -/
structure PreemptState where
  memory : PageMemory
  thread : Nat → KernelThread
  running : Nat
  held : Nat → Bool
  stores : Nat
  faulted : Bool

/-- What can happen next on the CPU. -/
inductive PreemptAction where
  | callKalloc (locked : Bool)
  | callKfree (pa : Nat) (locked : Bool)
  | access
  | writePage (pa value : Nat)
  | switchTo (process : Nat)
  deriving Repr, DecidableEq

namespace PreemptState

/-- The call of the running process. -/
def current (state : PreemptState) : CallState :=
  (state.thread state.running).call

/-- Move the running process to another point of its call. -/
def setCall (state : PreemptState) (call : CallState) : PreemptState :=
  { state with
    thread := Function.update state.thread state.running
      { state.thread state.running with call := call } }

/-- Enter a call, holding a spinlock or not. -/
def enter
    (state : PreemptState)
    (call : CallState)
    (locked : Bool) : PreemptState :=
  { state with
    thread := Function.update state.thread state.running
      { call := call, locked := locked } }

/-- Leave the call. -/
def leave (state : PreemptState) : PreemptState :=
  state.enter .outside false

/-- Store the list head. -/
def storeHead (state : PreemptState) (head : Nat) : PreemptState :=
  { state with
    memory := { state.memory with freeMemList := head }
    stores := state.stores + 1 }

/-- Store the first doubleword of a page. -/
def storeLink (state : PreemptState) (pa value : Nat) : PreemptState :=
  { state with
    memory := { state.memory with
      next := Function.update state.memory.next pa value } }

/-- Record that a caller got or gave up a page. -/
def setHeld (state : PreemptState) (pa : Nat) (held : Bool) : PreemptState :=
  { state with held := Function.update state.held pa held }

/-- The next memory access of the running process. -/
def access (state : PreemptState) : Option PreemptState :=
  match state.current with
  | .outside => none
  | .kallocTest =>
      if state.memory.freeMemList = 0 then
        some state.leave
      else
        some (state.setCall .kallocTake)
  | .kallocTake =>
      some (state.setCall
        (.kallocHead state.memory.freeMemList state.stores))
  | .kallocHead res since =>
      some (state.setCall (.kallocNext res state.memory.freeMemList since))
  | .kallocNext res head since =>
      -- The list may have run empty since the test: a null dereference.
      if head = 0 then
        some { state with faulted := true }
      else
        some (state.setCall
          (.kallocStore res (state.memory.next head) since))
  | .kallocStore res next _ =>
      some ((state.storeHead next).setCall (.kallocReturn res))
  | .kallocReturn res =>
      some (state.leave.setHeld res true)
  | .kfreeHead pa =>
      some (state.setCall
        (.kfreeLink pa state.memory.freeMemList state.stores))
  | .kfreeLink pa head since =>
      some ((state.storeLink pa head).setCall (.kfreeStore pa since))
  | .kfreeStore pa _ =>
      some (state.storeHead pa).leave

/--
One step of the machine.  Callers free only pages they hold, and write only
into pages they hold; the CPU is taken from a process that holds no spinlock.
-/
def step?
    (image : KernelImage)
    (state : PreemptState) :
    PreemptAction → Option PreemptState
  | .callKalloc locked =>
      if state.faulted = false ∧ state.current = .outside then
        some (state.enter .kallocTest locked)
      else
        none
  | .callKfree pa locked =>
      if state.faulted = false ∧ state.current = .outside ∧
          state.held pa = true then
        if image.validPage pa then
          some ((state.setHeld pa false).enter (.kfreeHead pa) locked)
        else
          some { state with faulted := true }
      else
        none
  | .access =>
      if state.faulted = false then
        state.access
      else
        none
  | .writePage pa value =>
      if state.faulted = false ∧ state.current = .outside ∧
          state.held pa = true then
        some (state.storeLink pa value)
      else
        none
  | .switchTo process =>
      if state.faulted = false ∧
          (state.thread state.running).locked = false then
        some { state with running := process }
      else
        none

/-- The step relation of the machine. -/
def Step (image : KernelImage) :
    PreemptState → PreemptAction → PreemptState → Prop :=
  fun state action next => state.step? image action = some next

/-- The machine after `kinit`, with every process outside the allocator. -/
def boot (memory : PageMemory) : PreemptState where
  memory := memory
  thread := fun _ => { call := .outside, locked := false }
  running := 0
  held := fun _ => false
  stores := 0
  faulted := false

/-- A page that some caller holds or some call refers to. -/
def InUse (state : PreemptState) (pa : Nat) : Prop :=
  state.held pa = true ∨
    ∃ process, (state.thread process).call.page? = some pa

/--
What the allocator promises: the list ends, holds each page at most once and
exactly the pages not in use, and a page about to be returned by `kalloc` is
held by nobody and named by no other call.
-/
structure FreeListIntact
    (image : KernelImage)
    (state : PreemptState) : Prop where
  list :
    ∃ pages,
      state.memory.FreeList pages ∧
        pages.Nodup ∧
        (∀ pa ∈ pages, image.validPage pa ∧ ¬ state.InUse pa) ∧
        ∀ pa, image.validPage pa → state.InUse pa ∨ pa ∈ pages
  returned :
    ∀ process pa,
      (state.thread process).call = .kallocReturn pa →
        state.held pa = false ∧
          ∀ other, other ≠ process →
            (state.thread other).call.page? ≠ some pa

/--
A store of the list head comes from a call that has seen the last store: no
other call has stored the head since this one read it.
-/
def SeesLastStore (state : PreemptState) : PreemptAction → Prop
  | .access =>
      match state.current with
      | .kallocStore _ _ since => since = state.stores
      | .kfreeStore _ since => since = state.stores
      | _ => True
  | _ => True

instance (state : PreemptState) (action : PreemptAction) :
    Decidable (SeesLastStore state action) := by
  unfold SeesLastStore
  split
  · split <;> infer_instance
  · infer_instance

/-- What the local values of a call mean while they are up to date. -/
def CallCurrent (state : PreemptState) : CallState → Prop
  | .kallocHead res since =>
      since = state.stores → res = state.memory.freeMemList
  | .kallocNext res head since =>
      since = state.stores →
        res = state.memory.freeMemList ∧ head = state.memory.freeMemList
  | .kallocStore res next since =>
      since = state.stores →
        res = state.memory.freeMemList ∧ res ≠ 0 ∧
          next = state.memory.next state.memory.freeMemList
  | .kfreeLink _ head since =>
      since = state.stores → head = state.memory.freeMemList
  | .kfreeStore pa since =>
      since = state.stores →
        state.memory.next pa = state.memory.freeMemList
  | _ => True

end PreemptState

end MyOS
