import MyOS.LibcEnvironmentMap

namespace MyOS

open Lib

/-!
# Histories of the environment

What `getenv` returns is what the last successful call for the name has left,
whatever was called for other names in between.
-/

section Calls

variable {environ : EnvSlots} {entries : List (List UInt8)}
variable {name value : List UInt8}

theorem getenv_eq
    (table : EnvTable environ entries) :
    getenv environ (some name) = some (envMap entries name) := by
  unfold getenv envMap
  cases bad : badName (some name) with
  | true => rfl
  | false =>
      change Option.map _ (findEntry environ name (ENV_MAX + 1) 0) =
        some (entryValue entries name)
      rcases table.findEntry name with
        ⟨before, old, behind, rfl, others, isOld, finds⟩ | ⟨none, finds⟩
      · rw [finds, entryValue_split others isOld, Option.map_some,
          Option.bind_some, table.entry_at]
        rfl
      · rw [finds, entryValue_none none]
        rfl

/-- What a writer leaves: an error and no change, or success and a table of
which its name alone has changed. -/
def Writes
    (environ : EnvSlots)
    (entries : List (List UInt8))
    (name : List UInt8)
    (value : Option (List UInt8))
    (result : Int × EnvSlots) : Prop :=
  result = (-1, environ) ∨
    result.1 = 0 ∧
      ∃ after, EnvTable result.2 after ∧ Changes entries name value after

theorem EnvTable.put
    (table : EnvTable environ entries)
    (noNull : 0 ∉ name)
    (isName : badName (some name) = false)
    (none : ∀ entry ∈ entries, hasName entry name = false)
    (allocated : Bool) :
    Writes environ entries name (some value)
      (MyOS.addEntry environ allocated (envEntry name value)) := by
  rcases table.addEntry allocated (envEntry name value) with
    ⟨failed, same⟩ | ⟨success, isTable⟩
  · exact Or.inl (Prod.ext failed same)
  · exact Or.inr ⟨success, _, isTable, changes_add noNull isName none⟩

theorem setenv_spec
    (table : EnvTable environ entries)
    (noNull : 0 ∉ name)
    (isName : badName (some name) = false)
    (given : Option (List UInt8))
    (overwrite allocated : Bool) :
    ∃ result,
      setenv environ (some name) given overwrite allocated = some result ∧
        if overwrite = true ∨ envMap entries name = none then
          Writes environ entries name (some (given.getD [])) result
        else
          result = (0, environ) := by
  have isValue : envMap entries name = entryValue entries name := by
    unfold envMap
    rw [isName]
    rfl
  unfold setenv
  rw [isName]
  change ∃ result,
    Option.map _ (findEntry environ name (ENV_MAX + 1) 0) = some result ∧ _
  rw [isValue]
  rcases table.findEntry name with
    ⟨before, old, behind, rfl, others, isOld, finds⟩ | ⟨none, finds⟩
  · rw [finds, Option.map_some, entryValue_split others isOld]
    refine ⟨_, rfl, ?_⟩
    cases overwrite with
    | false =>
        rw [if_neg (by simp)]
        rfl
    | true =>
        rw [if_pos (Or.inl rfl)]
        cases allocated with
        | false => exact Or.inl rfl
        | true =>
            exact Or.inr ⟨rfl, _, table.replace,
              changes_replace noNull isName others isOld⟩
  · rw [finds, Option.map_some, entryValue_none none]
    refine ⟨_, rfl, ?_⟩
    rw [if_pos (Or.inr rfl)]
    exact table.put noNull isName none allocated

theorem unsetenv_spec
    (table : EnvTable environ entries)
    (noNull : 0 ∉ name)
    (isName : badName (some name) = false) :
    ∃ result,
      unsetenv environ (some name) = some result ∧
        Writes environ entries name none result := by
  obtain ⟨later, removes, isTable⟩ :=
    @EnvTable.remove environ [] name entries (ENV_MAX + 1) table
      (Nat.lt_succ_of_lt table.room)
  refine ⟨(0, later), ?_, Or.inr ⟨rfl, _, isTable,
    changes_remove noNull isName⟩⟩
  unfold unsetenv
  rw [isName]
  change Option.map _ (removeEntries name (ENV_MAX + 1) 0 environ) = _
  change removeEntries name (ENV_MAX + 1) 0 environ = _ at removes
  rw [removes]
  rfl

theorem badString_some
    {string : List UInt8}
    (accepted : badString (some string) = false) :
    badName (some (nameIn string)) = false ∧
      string =
        envEntry (nameIn string)
          (string.drop ((nameIn string).length + 1)) := by
  unfold badString at accepted
  simp only [Bool.or_eq_false_iff, Bool.not_eq_false', List.contains_iff_mem,
    List.isEmpty_eq_false_iff] at accepted
  have whole := List.takeWhile_append_dropWhile
    (p := fun c => decide (c ≠ EQUALS)) (l := string)
  constructor
  · rw [badName_some]
    refine ⟨accepted.2, fun isEquals => ?_⟩
    have kept := List.mem_takeWhile_imp isEquals
    exact of_decide_eq_true kept rfl
  · change nameIn string ++ _ = string at whole
    cases rest : string.dropWhile (fun c => decide (c ≠ EQUALS)) with
    | nil =>
        have all := List.dropWhile_eq_nil_iff.mp rest EQUALS accepted.1
        exact absurd rfl (of_decide_eq_true all)
    | cons c value =>
        have isEquals : c = EQUALS := by
          have head :=
            List.head_dropWhile_not (fun c => decide (c ≠ EQUALS))
              (l := string) (by rw [rest]; exact List.cons_ne_nil _ _)
          simp only [rest, List.head_cons] at head
          exact not_not.mp (of_decide_eq_false head)
        rw [rest, isEquals] at whole
        have dropped := @drop_envEntry (nameIn string) value
        change (nameIn string ++ EQUALS :: value).drop _ = value at dropped
        rw [whole] at dropped
        rw [dropped]
        exact whole.symm

theorem putenv_spec
    {string : List UInt8}
    (table : EnvTable environ entries)
    (noNull : 0 ∉ string)
    (accepted : badString (some string) = false) :
    ∃ result,
      putenv environ (some string) = some result ∧
        Writes environ entries (nameIn string)
          (some (string.drop ((nameIn string).length + 1))) result := by
  obtain ⟨isName, isEntry⟩ := badString_some accepted
  have nameNull : 0 ∉ nameIn string := fun isNull =>
    noNull ((List.takeWhile_prefix _).subset isNull)
  unfold putenv
  rw [accepted]
  change ∃ result,
    Option.map _ (findEntry environ (nameIn string) (ENV_MAX + 1) 0) =
      some result ∧ _
  rcases table.findEntry (nameIn string) with
    ⟨before, old, behind, rfl, others, isOld, finds⟩ | ⟨none, finds⟩
  · rw [finds, Option.map_some]
    refine ⟨_, rfl, Or.inr ⟨rfl, _, table.replace, ?_⟩⟩
    change Changes _ _ _ (before ++ string :: behind)
    conv => arg 4; rw [isEntry]
    exact changes_replace nameNull isName others isOld
  · rw [finds, Option.map_some]
    refine ⟨_, rfl, ?_⟩
    change Writes _ _ _ _ (addEntry environ true string)
    conv => arg 5; rw [isEntry]
    exact table.put nameNull isName none true

/-- The map is what the entries tell. -/
def Tells
    (entries : List (List UInt8))
    (map : List UInt8 → Option (List UInt8)) : Prop :=
  ∀ name, 0 ∉ name → envMap entries name = map name

/-- What a call leaves: an error changes nothing, and the map becomes what the
call with its result means. -/
def CallTells
    (environ : EnvSlots)
    (entries : List (List UInt8))
    (call : EnvCall) : Prop :=
  ∃ result later,
    envCall environ call = some (result, later) ∧
      (result = .status (-1) → later = environ) ∧
      ∃ after, EnvTable later after ∧
        ∀ map, Tells entries map → Tells after (applyEnv map (call, result))

theorem callTells_failed
    {call : EnvCall}
    (table : EnvTable environ entries)
    (fails : envCall environ call = some (.status (-1), environ)) :
    CallTells environ entries call := by
  refine ⟨_, _, fails, fun _ => rfl, entries, table, fun map tells => ?_⟩
  have same : applyEnv map (call, .status (-1)) = map := by
    cases call with
    | getenv name => rfl
    | setenv name given overwrite allocated => cases name <;> rfl
    | unsetenv name => cases name <;> rfl
    | putenv string => cases string <;> rfl
  rw [same]
  exact tells

theorem callTells_written
    {call : EnvCall}
    {given : Option (List UInt8)}
    {result : Int × EnvSlots}
    (table : EnvTable environ entries)
    (returns :
      envCall environ call = some (.status result.1, result.2))
    (writes : Writes environ entries name given result)
    (means :
      ∀ map, Tells entries map →
        applyEnv map (call, .status 0) = Function.update map name given) :
    CallTells environ entries call := by
  rcases writes with rfl | ⟨success, after, isTable, changes⟩
  · exact callTells_failed table returns
  · rw [success] at returns
    refine ⟨_, _, returns, fun failed => ?_, after, isTable,
      fun map tells => ?_⟩
    · rw [EnvResult.status.injEq] at failed
      exact absurd failed (by decide)
    · intro other otherNull
      rw [means map tells, changes other otherNull]
      by_cases isName : other = name
      · rw [isName, Function.update_self, Function.update_self]
      · rw [Function.update_of_ne isName, Function.update_of_ne isName]
        exact tells other otherNull

theorem callTells
    {call : EnvCall}
    (table : EnvTable environ entries)
    (proper : ProperCall call) :
    CallTells environ entries call := by
  cases call with
  | getenv name =>
      have returns :
          ∃ value, getenv environ name = some value := by
        cases name with
        | none => exact ⟨_, rfl⟩
        | some name => exact ⟨_, getenv_eq table⟩
      obtain ⟨value, returns⟩ := returns
      refine ⟨.value value, environ, ?_, fun _ => rfl, entries, table,
        fun map tells => tells⟩
      dsimp only [envCall]
      rw [returns]
      rfl
  | setenv name given overwrite allocated =>
      cases bad : badName name with
      | true =>
          apply callTells_failed table
          dsimp only [envCall, setenv]
          rw [bad]
          rfl
      | false =>
          cases name with
          | none => cases bad
          | some name =>
              have noNull := proper name rfl
              obtain ⟨result, returns, writes⟩ :=
                setenv_spec table noNull bad given overwrite allocated
              have called :
                  envCall environ
                      (.setenv (some name) given overwrite allocated) =
                    some (.status result.1, result.2) := by
                dsimp only [envCall]
                rw [returns]
                rfl
              by_cases sets : overwrite = true ∨ envMap entries name = none
              · rw [if_pos sets] at writes
                apply callTells_written table called writes
                intro map tells
                rw [tells name noNull] at sets
                exact if_pos sets
              · rw [if_neg sets] at writes
                rw [writes] at called
                refine ⟨_, _, called, fun _ => rfl, entries, table,
                  fun map tells => ?_⟩
                rw [tells name noNull] at sets
                have same :
                    applyEnv map
                        (.setenv (some name) given overwrite allocated,
                          .status 0) =
                      map := if_neg sets
                rw [same]
                exact tells
  | unsetenv name =>
      cases bad : badName name with
      | true =>
          apply callTells_failed table
          dsimp only [envCall, unsetenv]
          rw [bad]
          rfl
      | false =>
          cases name with
          | none => cases bad
          | some name =>
              obtain ⟨result, returns, writes⟩ :=
                unsetenv_spec table (proper name rfl) bad
              apply callTells_written table ?_ writes fun map tells => rfl
              dsimp only [envCall]
              rw [returns]
              rfl
  | putenv string =>
      cases bad : badString string with
      | true =>
          apply callTells_failed table
          dsimp only [envCall, putenv]
          rw [bad]
          rfl
      | false =>
          cases string with
          | none => cases bad
          | some string =>
              obtain ⟨result, returns, writes⟩ :=
                putenv_spec table (proper string rfl) bad
              apply callTells_written table ?_ writes fun map tells => rfl
              dsimp only [envCall]
              rw [returns]
              rfl

theorem EnvTable.step
    {action : EnvCall × EnvResult}
    {later : EnvSlots}
    (table : EnvTable environ entries)
    (step : EnvStep environ action later) :
    ∃ after, EnvTable later after ∧
      ∀ map, Tells entries map → Tells after (applyEnv map action) := by
  obtain ⟨proper, called⟩ := step
  obtain ⟨result, last, returns, _, after, isTable, means⟩ :=
    callTells table proper
  rw [called] at returns
  obtain ⟨isResult, rfl⟩ := Prod.mk.inj (Option.some.inj returns)
  rw [← isResult] at means
  exact ⟨after, isTable, means⟩

theorem EnvTable.run
    {trace : List (EnvSlots × (EnvCall × EnvResult))}
    {later : EnvSlots}
    (table : EnvTable environ entries)
    (run : Run EnvStep environ trace later) :
    ∃ after, EnvTable later after ∧
      Tells after (historyMap (envMap entries) trace) := by
  induction run with
  | start => exact ⟨entries, table, fun _ _ => rfl⟩
  | next earlier last inductionHypothesis =>
      obtain ⟨between, isTable, tells⟩ := inductionHypothesis
      obtain ⟨after, isLater, means⟩ := isTable.step last
      refine ⟨after, isLater, ?_⟩
      unfold historyMap at tells ⊢
      rw [List.foldl_append]
      exact means _ tells

end Calls

end MyOS
