import MyOS.KallocPreemption

namespace MyOS.PreemptState

/-!
# When preemption leaves the free list intact

The invariant ties the local values of every call that has seen the last store
to the list.  Only the two stores of the head change the list; a store from a
call that has seen the last one acts as the undisturbed function would.
-/

/-- The invariant behind `FreeListIntact`. -/
structure Consistent
    (image : KernelImage)
    (state : PreemptState) : Prop where
  list :
    ∃ pages,
      state.memory.FreeList pages ∧
        (∀ pa ∈ pages, image.validPage pa ∧ ¬ state.InUse pa) ∧
        ∀ pa, image.validPage pa → state.InUse pa ∨ pa ∈ pages
  usedValid :
    ∀ pa, state.InUse pa → image.validPage pa
  exclusive :
    ∀ process pa,
      (state.thread process).call.page? = some pa →
        state.held pa = false ∧
          ∀ other, other ≠ process →
            (state.thread other).call.page? ≠ some pa
  current :
    ∀ process, CallCurrent state (state.thread process).call
  past :
    ∀ process, (state.thread process).call.Past state.stores

namespace Consistent

variable {image : KernelImage} {state : PreemptState}

theorem intact
    (consistent : Consistent image state) :
    FreeListIntact image state where
  list := by
    obtain ⟨pages, freeList, onlyFree, noneLost⟩ := consistent.list
    exact ⟨pages, freeList, freeList.nodup, onlyFree, noneLost⟩
  returned := by
    intro process pa returning
    exact consistent.exclusive process pa (by simp [returning, CallState.page?])

theorem head_free
    (consistent : Consistent image state)
    (nonempty : state.memory.freeMemList ≠ 0) :
    image.validPage state.memory.freeMemList ∧
      ¬ state.InUse state.memory.freeMemList := by
  obtain ⟨pages, freeList, onlyFree, _⟩ := consistent.list
  obtain ⟨rest, rfl, _⟩ := freeList.eq_cons nonempty
  exact onlyFree _ List.mem_cons_self

end Consistent

theorem boot_consistent
    {image : KernelImage}
    {memory : PageMemory}
    (booted : kinit image = some memory) :
    Consistent image (boot memory) := by
  obtain ⟨threaded, isThreaded, freeList⟩ := kinit_freeList image
  obtain rfl : threaded = memory :=
    Option.some.inj (isThreaded.symm.trans booted)
  have unused : ∀ pa, ¬ (boot threaded).InUse pa := by
    rintro pa (held | ⟨process, inCall⟩)
    · simp [boot] at held
    · simp [boot, CallState.page?] at inCall
  refine {
    list := ⟨image.pages.reverse, freeList, ?_, ?_⟩
    usedValid := fun pa used => (unused pa used).elim
    exclusive := ?_
    current := fun _ => True.intro
    past := fun _ => True.intro
  }
  · intro pa member
    exact ⟨KernelImage.mem_pages.mp (List.mem_reverse.mp member), unused pa⟩
  · intro pa valid
    exact Or.inr (List.mem_reverse.mpr (KernelImage.mem_pages.mpr valid))
  · intro process pa inCall
    simp [boot, CallState.page?] at inCall

/-- A process other than the running one refers to the page. -/
def OthersUse (state : PreemptState) (pa : Nat) : Prop :=
  ∃ process, process ≠ state.running ∧
    (state.thread process).call.page? = some pa

theorem inUse_iff
    {state : PreemptState}
    {pa : Nat} :
    state.InUse pa ↔
      state.held pa = true ∨ state.current.page? = some pa ∨
        state.OthersUse pa := by
  constructor
  · rintro (held | ⟨process, inCall⟩)
    · exact Or.inl held
    · by_cases isRunning : process = state.running
      · subst isRunning
        exact Or.inr (Or.inl inCall)
      · exact Or.inr (Or.inr ⟨process, isRunning, inCall⟩)
  · rintro (held | inCall | ⟨process, _, inCall⟩)
    · exact Or.inl held
    · exact Or.inr ⟨state.running, inCall⟩
    · exact Or.inr ⟨process, inCall⟩

section Entering

variable (state : PreemptState) (call : CallState) (locked : Bool)

@[simp] theorem enter_current :
    (state.enter call locked).current = call := by
  simp [PreemptState.enter, current]

@[simp] theorem enter_othersUse (pa : Nat) :
    (state.enter call locked).OthersUse pa ↔ state.OthersUse pa := by
  constructor
  · rintro ⟨process, notRunning, inCall⟩
    refine ⟨process, notRunning, ?_⟩
    have differ : process ≠ state.running := notRunning
    simpa [PreemptState.enter, differ] using inCall
  · rintro ⟨process, notRunning, inCall⟩
    refine ⟨process, notRunning, ?_⟩
    simpa [PreemptState.enter, notRunning] using inCall

theorem enter_other
    {process : Nat}
    (notRunning : process ≠ state.running) :
    (state.enter call locked).thread process = state.thread process := by
  simp [PreemptState.enter, notRunning]

theorem enter_running :
    ((state.enter call locked).thread state.running).call = call := by
  simp [PreemptState.enter]

theorem setCall_eq_enter :
    state.setCall call =
      state.enter call (state.thread state.running).locked :=
  rfl

end Entering

namespace Consistent

variable {image : KernelImage} {state : PreemptState}

theorem current_exclusive
    (consistent : Consistent image state)
    (pa : Nat)
    (inCall : state.current.page? = some pa) :
    state.held pa = false ∧ ¬ state.OthersUse pa := by
  obtain ⟨notHeld, notNamed⟩ :=
    consistent.exclusive state.running pa inCall
  refine ⟨notHeld, ?_⟩
  rintro ⟨process, notRunning, named⟩
  exact notNamed process notRunning named

theorem held_exclusive
    (consistent : Consistent image state)
    {pa : Nat}
    (held : state.held pa = true) :
    ∀ process, (state.thread process).call.page? ≠ some pa := by
  intro process inCall
  have notHeld := (consistent.exclusive process pa inCall).1
  rw [held] at notHeld
  exact Bool.noConfusion notHeld

theorem advance
    (consistent : Consistent image state)
    {call : CallState}
    {locked : Bool}
    (held : Nat → Bool)
    (sameUse :
      ∀ pa,
        (held pa = true ∨ call.page? = some pa ∨ state.OthersUse pa) ↔
          state.InUse pa)
    (othersNotHeld :
      ∀ pa, state.OthersUse pa → held pa = false)
    (named :
      ∀ pa, call.page? = some pa →
        held pa = false ∧ ¬ state.OthersUse pa)
    (upToDate : CallCurrent state call)
    (past : call.Past state.stores) :
    Consistent image
      { state.enter call locked with held := held } := by
  have used :
      ∀ pa,
        InUse { state.enter call locked with held := held } pa ↔
          state.InUse pa := by
    intro pa
    rw [← sameUse pa, inUse_iff]
    have here :
        PreemptState.current { state.enter call locked with held := held } =
          call :=
      enter_current state call locked
    have others :
        OthersUse { state.enter call locked with held := held } pa ↔
          state.OthersUse pa :=
      enter_othersUse state call locked pa
    rw [here, others]
  refine {
    list := ?_
    usedValid := fun pa inUse =>
      consistent.usedValid pa ((used pa).mp inUse)
    exclusive := ?_
    current := ?_
    past := ?_
  }
  · simp only [used]
    exact consistent.list
  · intro process pa inCall
    by_cases isRunning : process = state.running
    · subst isRunning
      have isNamed : call.page? = some pa := by
        rw [← enter_running state call locked]
        exact inCall
      obtain ⟨notHeld, notOthers⟩ := named pa isNamed
      refine ⟨notHeld, ?_⟩
      intro other notRunning inOther
      refine notOthers ⟨other, notRunning, ?_⟩
      rw [← enter_other state call locked notRunning]
      exact inOther
    · have inOld : (state.thread process).call.page? = some pa := by
        rw [← enter_other state call locked isRunning]
        exact inCall
      refine ⟨othersNotHeld pa ⟨process, isRunning, inOld⟩, ?_⟩
      intro other differs inOther
      by_cases otherRunning : other = state.running
      · subst otherRunning
        have isNamed : call.page? = some pa := by
          rw [← enter_running state call locked]
          exact inOther
        exact (named pa isNamed).2 ⟨process, isRunning, inOld⟩
      · refine (consistent.exclusive process pa inOld).2 other differs ?_
        rw [← enter_other state call locked otherRunning]
        exact inOther
  · intro process
    by_cases isRunning : process = state.running
    · subst isRunning
      have here := enter_running state call locked
      change CallCurrent state
        ((state.enter call locked).thread state.running).call
      rw [here]
      exact upToDate
    · change CallCurrent state
        ((state.enter call locked).thread process).call
      rw [enter_other state call locked isRunning]
      exact consistent.current process
  · intro process
    by_cases isRunning : process = state.running
    · subst isRunning
      change ((state.enter call locked).thread state.running).call.Past
        state.stores
      rw [enter_running]
      exact past
    · change ((state.enter call locked).thread process).call.Past
        state.stores
      rw [enter_other state call locked isRunning]
      exact consistent.past process

theorem enter
    (consistent : Consistent image state)
    (call : CallState)
    (samePage : call.page? = state.current.page?)
    (upToDate : CallCurrent state call)
    (past : call.Past state.stores)
    (locked : Bool) :
    Consistent image (state.enter call locked) := by
  have othersNotHeld :
      ∀ pa, state.OthersUse pa → state.held pa = false := by
    rintro pa ⟨process, _, inCall⟩
    exact (consistent.exclusive process pa inCall).1
  refine consistent.advance state.held ?_ othersNotHeld ?_
    upToDate past
  · intro pa
    rw [samePage, inUse_iff]
  · intro pa named
    rw [samePage] at named
    exact consistent.current_exclusive pa named

theorem storeLink
    (consistent : Consistent image state)
    {pa value : Nat}
    (used : state.InUse pa)
    (notStored :
      ∀ process since,
        (state.thread process).call = .kfreeStore pa since → False) :
    Consistent image (state.storeLink pa value) := by
  obtain ⟨pages, freeList, onlyFree, noneLost⟩ := consistent.list
  have notFree : pa ∉ pages := fun member => (onlyFree pa member).2 used
  refine {
    list := ⟨pages, freeList.update notFree value, onlyFree, noneLost⟩
    usedValid := consistent.usedValid
    exclusive := consistent.exclusive
    current := ?_
    past := consistent.past
  }
  intro process
  have before := consistent.current process
  change CallCurrent _ (state.thread process).call
  cases called : (state.thread process).call with
  | kallocStore res next since =>
      rw [called] at before
      intro fresh
      obtain ⟨isHead, notNull, isNext⟩ := before fresh
      have headFree := consistent.head_free (isHead ▸ notNull)
      have differ : state.memory.freeMemList ≠ pa := by
        rintro rfl
        exact headFree.2 used
      refine ⟨isHead, notNull, ?_⟩
      rw [isNext]
      exact (Function.update_of_ne differ _ _).symm
  | kfreeStore freed since =>
      rw [called] at before
      intro fresh
      have differ : freed ≠ pa := by
        rintro rfl
        exact notStored process since called
      have linked := before fresh
      change Function.update state.memory.next pa value freed = _
      rw [Function.update_of_ne differ]
      exact linked
  | kallocHead res since =>
      rw [called] at before
      exact before
  | kallocNext res head since =>
      rw [called] at before
      exact before
  | kfreeLink freed head since =>
      rw [called] at before
      exact before
  | _ =>
      exact True.intro

theorem stale_of_past
    (consistent : Consistent image state)
    {after : PreemptState}
    (stored : after.stores = state.stores + 1)
    (process : Nat) :
    CallCurrent after (state.thread process).call := by
  have past := consistent.past process
  cases called : (state.thread process).call <;>
    simp only [called, CallState.Past, CallCurrent] at past ⊢ <;>
    intro fresh <;> omega

theorem storeHead
    (consistent : Consistent image state)
    {head : Nat}
    {call : CallState}
    {locked : Bool}
    {pages : List Nat}
    (freeList :
      { state.memory with freeMemList := head : PageMemory }.FreeList pages)
    (onlyFree :
      ∀ pa ∈ pages,
        image.validPage pa ∧
          ¬ (state.held pa = true ∨ call.page? = some pa ∨
            state.OthersUse pa))
    (noneLost :
      ∀ pa, image.validPage pa →
        (state.held pa = true ∨ call.page? = some pa ∨
          state.OthersUse pa) ∨ pa ∈ pages)
    (named :
      ∀ pa, call.page? = some pa →
        image.validPage pa ∧ state.held pa = false ∧ ¬ state.OthersUse pa)
    (finished : ∀ any, CallCurrent any call ∧ call.Past any.stores) :
    Consistent image ((state.storeHead head).enter call locked) := by
  have used :
      ∀ pa,
        ((state.storeHead head).enter call locked).InUse pa ↔
          state.held pa = true ∨ call.page? = some pa ∨
            state.OthersUse pa := by
    intro pa
    rw [inUse_iff, enter_current, enter_othersUse]
    exact Iff.rfl
  have here :
      (((state.storeHead head).enter call locked).thread
        state.running).call = call :=
    enter_running (state.storeHead head) call locked
  refine {
    list := ⟨pages, freeList, ?_, ?_⟩
    usedValid := ?_
    exclusive := ?_
    current := ?_
    past := ?_
  }
  · simp only [used]
    exact onlyFree
  · simp only [used]
    exact noneLost
  · intro pa inUse
    rcases (used pa).mp inUse with held | inCall | others
    · exact consistent.usedValid pa (inUse_iff.mpr (Or.inl held))
    · exact (named pa inCall).1
    · exact consistent.usedValid pa (inUse_iff.mpr (Or.inr (Or.inr others)))
  · intro process pa inCall
    by_cases isRunning : process = state.running
    · subst isRunning
      rw [here] at inCall
      obtain ⟨_, notHeld, notOthers⟩ := named pa inCall
      refine ⟨notHeld, ?_⟩
      intro other notRunning inOther
      rw [enter_other (state.storeHead head) call locked notRunning]
        at inOther
      exact notOthers ⟨other, notRunning, inOther⟩
    · rw [enter_other (state.storeHead head) call locked isRunning] at inCall
      refine ⟨(consistent.exclusive process pa inCall).1, ?_⟩
      intro other differs inOther
      by_cases otherRunning : other = state.running
      · subst otherRunning
        rw [here] at inOther
        exact (named pa inOther).2.2 ⟨process, isRunning, inCall⟩
      · rw [enter_other (state.storeHead head) call locked otherRunning]
          at inOther
        exact (consistent.exclusive process pa inCall).2 other differs inOther
  · intro process
    by_cases isRunning : process = state.running
    · subst isRunning
      rw [here]
      exact (finished _).1
    · rw [enter_other (state.storeHead head) call locked isRunning]
      exact consistent.stale_of_past rfl process
  · intro process
    by_cases isRunning : process = state.running
    · subst isRunning
      rw [here]
      exact (finished _).2
    · rw [enter_other (state.storeHead head) call locked isRunning]
      exact CallState.Past.later (consistent.past process)

theorem kallocStore
    (consistent : Consistent image state)
    {res next since : Nat}
    (inCall : state.current = .kallocStore res next since)
    (fresh : since = state.stores) :
    Consistent image
      ((state.storeHead next).setCall (.kallocReturn res)) := by
  have upToDate := consistent.current state.running
  change CallCurrent state state.current at upToDate
  rw [inCall] at upToDate
  obtain ⟨rfl, notNull, rfl⟩ := upToDate fresh
  obtain ⟨pages, freeList, onlyFree, noneLost⟩ := consistent.list
  obtain ⟨rest, rfl, tail⟩ := freeList.eq_cons notNull
  have headFree := onlyFree _ List.mem_cons_self
  rw [inUse_iff] at headFree
  have headNotInRest := (List.nodup_cons.mp freeList.nodup).1
  rw [setCall_eq_enter]
  refine consistent.storeHead tail ?_ ?_ ?_
    (fun _ => ⟨True.intro, True.intro⟩)
  · intro pa member
    obtain ⟨valid, notUsed⟩ := onlyFree pa (List.mem_cons_of_mem _ member)
    refine ⟨valid, ?_⟩
    rintro (held | isHead | others)
    · exact notUsed (inUse_iff.mpr (Or.inl held))
    · simp only [CallState.page?, Option.some.injEq] at isHead
      subst isHead
      exact headNotInRest member
    · exact notUsed (inUse_iff.mpr (Or.inr (Or.inr others)))
  · intro pa valid
    rcases noneLost pa valid with used | member
    · rw [inUse_iff, inCall] at used
      rcases used with held | named | others
      · exact Or.inl (Or.inl held)
      · simp [CallState.page?] at named
      · exact Or.inl (Or.inr (Or.inr others))
    · rcases List.mem_cons.mp member with rfl | inRest
      · exact Or.inl (Or.inr (Or.inl rfl))
      · exact Or.inr inRest
  · intro pa named
    simp only [CallState.page?, Option.some.injEq] at named
    subst named
    refine ⟨headFree.1, ?_, fun others => headFree.2 (Or.inr (Or.inr others))⟩
    exact Bool.eq_false_iff.mpr fun held => headFree.2 (Or.inl held)

theorem kfreeStore
    (consistent : Consistent image state)
    {pa since : Nat}
    (inCall : state.current = .kfreeStore pa since)
    (fresh : since = state.stores) :
    Consistent image (state.storeHead pa).leave := by
  have upToDate := consistent.current state.running
  change CallCurrent state state.current at upToDate
  rw [inCall] at upToDate
  have linked := upToDate fresh
  have used : state.InUse pa :=
    inUse_iff.mpr (Or.inr (Or.inl (by rw [inCall]; rfl)))
  have valid := consistent.usedValid pa used
  obtain ⟨notHeld, notOthers⟩ :=
    consistent.current_exclusive pa (by rw [inCall]; rfl)
  obtain ⟨pages, freeList, onlyFree, noneLost⟩ := consistent.list
  have pushed :
      { state.memory with freeMemList := pa : PageMemory }.FreeList
        (pa :: pages) := by
    refine .cons valid.ne_zero ?_
    change Lib.Chain 0 state.memory.next (state.memory.next pa) pages
    rw [linked]
    exact freeList
  refine consistent.storeHead pushed ?_ ?_ ?_
    (fun _ => ⟨True.intro, True.intro⟩)
  · intro page member
    rcases List.mem_cons.mp member with rfl | inPages
    · refine ⟨valid, ?_⟩
      rintro (held | named | others)
      · rw [notHeld] at held
        exact Bool.noConfusion held
      · simp [CallState.page?] at named
      · exact notOthers others
    · obtain ⟨pageValid, notUsed⟩ := onlyFree page inPages
      refine ⟨pageValid, ?_⟩
      rintro (held | named | others)
      · exact notUsed (inUse_iff.mpr (Or.inl held))
      · simp [CallState.page?] at named
      · exact notUsed (inUse_iff.mpr (Or.inr (Or.inr others)))
  · intro page pageValid
    rcases noneLost page pageValid with pageUsed | member
    · rw [inUse_iff, inCall] at pageUsed
      rcases pageUsed with held | named | others
      · exact Or.inl (Or.inl held)
      · simp only [CallState.page?, Option.some.injEq] at named
        exact Or.inr (List.mem_cons.mpr (Or.inl named.symm))
      · exact Or.inl (Or.inr (Or.inr others))
    · exact Or.inr (List.mem_cons_of_mem _ member)
  · intro page named
    simp [CallState.page?] at named

theorem kallocReturn
    (consistent : Consistent image state)
    {res : Nat}
    (inCall : state.current = .kallocReturn res) :
    Consistent image (state.leave.setHeld res true) := by
  have exclusive :=
    consistent.current_exclusive res (by rw [inCall]; rfl)
  refine consistent.advance
    (Function.update state.held res true) ?_ ?_ ?_
    True.intro True.intro
  · intro pa
    rw [inUse_iff, inCall]
    by_cases isRes : pa = res
    · subst isRes
      simp [CallState.page?]
    · simp [CallState.page?, isRes, Ne.symm isRes]
  · rintro pa others
    have differ : pa ≠ res := by
      rintro rfl
      exact exclusive.2 others
    obtain ⟨process, _, named⟩ := others
    rw [Function.update_of_ne differ]
    exact (consistent.exclusive process pa named).1
  · intro pa named
    simp [CallState.page?] at named

theorem callKfree
    (consistent : Consistent image state)
    {pa : Nat}
    (outside : state.current = .outside)
    (held : state.held pa = true)
    (locked : Bool) :
    Consistent image
      ((state.setHeld pa false).enter (.kfreeHead pa) locked) := by
  have unnamed := consistent.held_exclusive held
  refine consistent.advance
    (Function.update state.held pa false) ?_ ?_ ?_
    True.intro True.intro
  · intro page
    rw [inUse_iff, outside]
    by_cases isPa : page = pa
    · subst isPa
      simp [CallState.page?, held]
    · simp [CallState.page?, isPa, Ne.symm isPa]
  · rintro page ⟨process, _, named⟩
    by_cases isPa : page = pa
    · subst isPa
      exact Function.update_self _ _ _
    · rw [Function.update_of_ne isPa]
      exact (consistent.exclusive process page named).1
  · intro page named
    simp only [CallState.page?, Option.some.injEq] at named
    subst named
    refine ⟨Function.update_self _ _ _, ?_⟩
    rintro ⟨process, _, alsoNamed⟩
    exact unnamed process alsoNamed

theorem kfreeLink
    (consistent : Consistent image state)
    {pa head since : Nat}
    (inCall : state.current = .kfreeLink pa head since) :
    Consistent image
      ((state.storeLink pa head).setCall (.kfreeStore pa since)) := by
  have upToDate := consistent.current state.running
  have notPast := consistent.past state.running
  change CallCurrent state state.current at upToDate
  change state.current.Past state.stores at notPast
  rw [inCall] at upToDate notPast
  have named : state.current.page? = some pa := by
    rw [inCall]
    rfl
  have linked :
      Consistent image (state.storeLink pa head) := by
    refine consistent.storeLink (inUse_iff.mpr (Or.inr (Or.inl named))) ?_
    intro process since' called
    by_cases isRunning : process = state.running
    · subst isRunning
      change state.current = _ at called
      rw [inCall] at called
      cases called
    · refine (consistent.current_exclusive _ named).2
        ⟨process, isRunning, ?_⟩
      rw [called]
      rfl
  refine linked.enter (.kfreeStore pa since) ?_ ?_ notPast _
  · exact named.symm
  · intro fresh
    change Function.update state.memory.next pa head pa = _
    rw [Function.update_self]
    exact upToDate fresh

theorem faulted
    (consistent : Consistent image state) :
    Consistent image { state with faulted := true } where
  list := consistent.list
  usedValid := consistent.usedValid
  exclusive := consistent.exclusive
  current := consistent.current
  past := consistent.past

theorem switchTo
    (consistent : Consistent image state)
    (process : Nat) :
    Consistent image { state with running := process } where
  list := consistent.list
  usedValid := consistent.usedValid
  exclusive := consistent.exclusive
  current := consistent.current
  past := consistent.past

theorem access
    (consistent : Consistent image state)
    (sees : SeesLastStore state .access)
    {after : PreemptState}
    (taken : state.access = some after) :
    Consistent image after := by
  have upToDate := consistent.current state.running
  have notPast := consistent.past state.running
  change CallCurrent state state.current at upToDate
  change state.current.Past state.stores at notPast
  cases called : state.current with
  | outside =>
      simp [PreemptState.access, called] at taken
  | kallocTest =>
      simp only [PreemptState.access, called] at taken
      split at taken
      · cases taken
        exact consistent.enter .outside (by rw [called]; rfl) True.intro True.intro _
      · cases taken
        exact consistent.enter .kallocTake (by rw [called]; rfl) True.intro True.intro _
  | kallocTake =>
      simp only [PreemptState.access, called] at taken
      cases taken
      exact consistent.enter (.kallocHead _ _) (by rw [called]; rfl) (fun _ => rfl)
        (Nat.le_refl _) _
  | kallocHead res since =>
      simp only [PreemptState.access, called] at taken
      cases taken
      rw [called] at upToDate notPast
      exact consistent.enter (.kallocNext _ _ _) (by rw [called]; rfl)
        (fun fresh => ⟨upToDate fresh, rfl⟩) notPast _
  | kallocNext res head since =>
      simp only [PreemptState.access, called] at taken
      split at taken
      · cases taken
        exact consistent.faulted
      · rename_i notNull
        cases taken
        rw [called] at upToDate notPast
        refine consistent.enter (.kallocStore _ _ _) (by rw [called]; rfl) ?_ notPast _
        intro fresh
        obtain ⟨isHead, headIs⟩ := upToDate fresh
        refine ⟨isHead, ?_, by rw [headIs]⟩
        rw [isHead, ← headIs]
        exact notNull
  | kallocStore res next since =>
      simp only [PreemptState.access, called] at taken
      cases taken
      simp only [SeesLastStore, called] at sees
      exact consistent.kallocStore called sees
  | kallocReturn res =>
      simp only [PreemptState.access, called] at taken
      cases taken
      exact consistent.kallocReturn called
  | kfreeHead pa =>
      simp only [PreemptState.access, called] at taken
      cases taken
      exact consistent.enter (.kfreeLink _ _ _) (by rw [called]; rfl) (fun _ => rfl)
        (Nat.le_refl _) _
  | kfreeLink pa head since =>
      simp only [PreemptState.access, called] at taken
      cases taken
      exact consistent.kfreeLink called
  | kfreeStore pa since =>
      simp only [PreemptState.access, called] at taken
      cases taken
      simp only [SeesLastStore, called] at sees
      exact consistent.kfreeStore called sees

theorem step
    (consistent : Consistent image state)
    {action : PreemptAction}
    (sees : SeesLastStore state action)
    {after : PreemptState}
    (taken : Step image state action after) :
    Consistent image after := by
  unfold Step at taken
  cases action with
  | callKalloc locked =>
      simp only [step?] at taken
      split at taken
      · rename_i enabled
        cases taken
        exact consistent.enter .kallocTest (by rw [enabled.2]; rfl) True.intro True.intro _
      · cases taken
  | callKfree pa locked =>
      simp only [step?] at taken
      split at taken
      · rename_i enabled
        split at taken
        · cases taken
          exact consistent.callKfree enabled.2.1 enabled.2.2 locked
        · cases taken
          exact consistent.faulted
      · cases taken
  | access =>
      simp only [step?] at taken
      split at taken
      · exact consistent.access sees taken
      · cases taken
  | writePage pa value =>
      simp only [step?] at taken
      split at taken
      · rename_i enabled
        cases taken
        refine consistent.storeLink (inUse_iff.mpr (Or.inl enabled.2.2)) ?_
        intro process since called
        refine consistent.held_exclusive enabled.2.2 process ?_
        rw [called]
        rfl
      · cases taken
  | switchTo process =>
      simp only [step?] at taken
      split at taken
      · cases taken
        exact consistent.switchTo process
      · cases taken

end Consistent

/--
In every run in which each store of the list head comes from a call that has
seen the last store, the free list stays intact.
-/
theorem freeListIntact_of_seesLastStore
    {image : KernelImage}
    {memory : PageMemory}
    (booted : kinit image = some memory)
    {trace : List (PreemptState × PreemptAction)}
    {final : PreemptState}
    (run : Lib.Run (Step image) (boot memory) trace final)
    (allSee : Lib.Meets SeesLastStore trace) :
    FreeListIntact image final := by
  have consistent : Consistent image final :=
    run.invariant (boot_consistent booted)
      (fun consistent sees taken => consistent.step sees taken) allSee
  exact consistent.intact

/-- A kernel image that leaves two pages to the allocator. -/
def twoPageImage : KernelImage where
  endAddress := PHYSTOP - 2 * PGSIZE
  linked := by decide

/-- The memory of `twoPageImage` after `kinit`. -/
def twoPageMemory : PageMemory :=
  (kinit twoPageImage).getD { freeMemList := 0, next := fun _ => 0 }

theorem twoPageImage_boots : kinit twoPageImage = some twoPageMemory := by
  obtain ⟨memory, booted, _⟩ := kinit_freeList twoPageImage
  rw [twoPageMemory, booted]
  rfl

/-- One process takes both pages and gives one back while another waits. -/
theorem freeListIntact_of_seesLastStore_twoPages :
    ∃ trace final,
      Lib.Run (Step twoPageImage) (boot twoPageMemory) trace final ∧
        Lib.Meets SeesLastStore trace ∧
        FreeListIntact twoPageImage final := by
  let actions : List PreemptAction :=
    .callKalloc false :: .access :: .switchTo 1 :: .switchTo 0 ::
      List.replicate 5 .access ++ .callKalloc true ::
      List.replicate 6 .access ++ .callKfree (PHYSTOP - PGSIZE) false ::
      List.replicate 3 .access
  have isSome :
      (Lib.runActions (Lib.guarded SeesLastStore (step? twoPageImage))
        (boot twoPageMemory) actions).isSome = true := by
    decide +kernel
  obtain ⟨final, accepted⟩ := Option.isSome_iff_exists.mp isSome
  obtain ⟨trace, run, allSee⟩ := Lib.runActions_guarded accepted
  exact ⟨trace, final, run, allSee,
    freeListIntact_of_seesLastStore twoPageImage_boots run allSee⟩

/--
A tick between the reads and the store of one `kalloc` lets a second `kalloc`
return the same page: the first is about to return a page that is held.
-/
theorem preempted_kalloc_returns_held_page :
    ¬ ∀ (image : KernelImage)
        (memory : PageMemory)
        (trace : List (PreemptState × PreemptAction))
        (final : PreemptState),
      kinit image = some memory →
        Lib.Run (Step image) (boot memory) trace final →
          FreeListIntact image final := by
  intro law
  let actions : List PreemptAction :=
    .callKalloc false :: List.replicate 4 .access ++ .switchTo 1 ::
      .callKalloc false :: List.replicate 6 .access ++ .switchTo 0 ::
      [.access]
  have handedOut :
      (Lib.runActions (step? twoPageImage) (boot twoPageMemory) actions).any
        (fun final =>
          final.held (PHYSTOP - PGSIZE) &&
            decide ((final.thread 0).call =
              .kallocReturn (PHYSTOP - PGSIZE))) = true := by
    decide +kernel
  obtain ⟨final, accepted, twice⟩ := (Option.any_eq_true _ _).mp handedOut
  simp only [Bool.and_eq_true, decide_eq_true_eq] at twice
  obtain ⟨trace, _, run⟩ := Lib.runActions_sound accepted
  have intact := law _ _ _ _ twoPageImage_boots run
  have notHeld := (intact.returned 0 _ twice.2).1
  rw [twice.1] at notHeld
  exact Bool.noConfusion notHeld

end MyOS.PreemptState
