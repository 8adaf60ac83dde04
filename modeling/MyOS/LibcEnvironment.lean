import Mathlib.Logic.Function.Basic
import MyOS.Lib.Run

namespace MyOS

open Lib

/-!
# The environment of the C library

`environ` is a table of strings with a null pointer behind the last one.  Names
are compared as prefixes, and entries are replaced, added and removed in place.
Strings are the bytes before their null byte.
-/

/-- Slots of the table. -/
def ENV_MAX : Nat := 32

/-- `environ[i]` -/
abbrev EnvSlots : Type := Nat → Option (List UInt8)

/-- The character between a name and its value. -/
def EQUALS : UInt8 := 61

/-- `strncmp` -/
def strncmp : List UInt8 → List UInt8 → Nat → Int
  | _, _, 0 => 0
  | [], [], _ + 1 => 0
  | a :: _, [], _ + 1 => a.toNat
  | [], b :: _, _ + 1 => -b.toNat
  | a :: as, b :: bs, n + 1 =>
      if a = b then
        strncmp as bs n
      else
        a.toNat - b.toNat

/-- The test of an entry for a name. -/
def hasName (entry name : List UInt8) : Bool :=
  strncmp entry name name.length = 0 && entry.getD name.length 0 = EQUALS

/-- The loop over the entries, up to the first with the name. -/
def findEntry
    (environ : EnvSlots)
    (name : List UInt8) : Nat → Nat → Option (Option Nat)
  | 0, _ => none
  | fuel + 1, i =>
      match environ i with
      | none => some none
      | some entry =>
          if hasName entry name then
            some (some i)
          else
            findEntry environ name fuel (i + 1)

/-- The loop over the slots, up to the first free one. -/
def freeSlot (environ : EnvSlots) : Nat → Nat → Option Nat
  | 0, _ => none
  | rounds + 1, i =>
      if environ i = none then
        some i
      else
        freeSlot environ rounds (i + 1)

/-- `!name || name[0] == '\0' || strchr(name, '=')` -/
def badName (name : Option (List UInt8)) : Bool :=
  match name with
  | none => true
  | some name => name.isEmpty || name.contains EQUALS

/-- `getenv` -/
def getenv
    (environ : EnvSlots)
    (name : Option (List UInt8)) : Option (Option (List UInt8)) :=
  if badName name then
    some none
  else
    (findEntry environ (name.getD []) (ENV_MAX + 1) 0).map fun found =>
      found.bind fun i =>
        (environ i).map fun entry => entry.drop ((name.getD []).length + 1)

/-- The entry of a name. -/
def envEntry (name value : List UInt8) : List UInt8 :=
  name ++ EQUALS :: value

/-- A new entry is put into the first free slot, with a null pointer behind. -/
def addEntry
    (environ : EnvSlots)
    (allocated : Bool)
    (entry : List UInt8) : Int × EnvSlots :=
  match freeSlot environ (ENV_MAX - 1) 0 with
  | none => (-1, environ)
  | some i =>
      if !allocated then
        (-1, environ)
      else
        (0, Function.update (Function.update environ i (some entry)) (i + 1)
          none)

/-- `setenv`; `allocated` tells whether `malloc` finds memory. -/
def setenv
    (environ : EnvSlots)
    (name value : Option (List UInt8))
    (overwrite allocated : Bool) : Option (Int × EnvSlots) :=
  if badName name then
    some (-1, environ)
  else
    let entry := envEntry (name.getD []) (value.getD [])
    (findEntry environ (name.getD []) (ENV_MAX + 1) 0).map fun found =>
      match found with
      | some i =>
          if !overwrite then
            (0, environ)
          else if !allocated then
            (-1, environ)
          else
            (0, Function.update environ i (some entry))
      | none => addEntry environ allocated entry

/-- The inner loop of `unsetenv`: the entries behind move up. -/
def shiftEntries : Nat → Nat → EnvSlots → Option EnvSlots
  | 0, _, _ => none
  | fuel + 1, j, environ =>
      match environ j with
      | none => some environ
      | some _ =>
          shiftEntries fuel (j + 1) (Function.update environ j (environ (j + 1)))

/-- The outer loop of `unsetenv`. -/
def removeEntries
    (name : List UInt8) : Nat → Nat → EnvSlots → Option EnvSlots
  | 0, _, _ => none
  | fuel + 1, i, environ =>
      match environ i with
      | none => some environ
      | some entry =>
          if hasName entry name then
            (shiftEntries (ENV_MAX + 1) i environ).bind fun shifted =>
              removeEntries name fuel i shifted
          else
            removeEntries name fuel (i + 1) environ

/-- `unsetenv` -/
def unsetenv
    (environ : EnvSlots)
    (name : Option (List UInt8)) : Option (Int × EnvSlots) :=
  if badName name then
    some (-1, environ)
  else
    (removeEntries (name.getD []) (ENV_MAX + 1) 0 environ).map fun later =>
      (0, later)

/-- The name in a string for `putenv`, up to its first `=`. -/
def nameIn (string : List UInt8) : List UInt8 :=
  string.takeWhile fun c => c ≠ EQUALS

/-- `!string || !(eq = strchr(string, '=')) || eq == string` -/
def badString (string : Option (List UInt8)) : Bool :=
  match string with
  | none => true
  | some string => !string.contains EQUALS || (nameIn string).isEmpty

/-- `putenv` -/
def putenv
    (environ : EnvSlots)
    (string : Option (List UInt8)) : Option (Int × EnvSlots) :=
  if badString string then
    some (-1, environ)
  else
    let entry := string.getD []
    (findEntry environ (nameIn entry) (ENV_MAX + 1) 0).map fun found =>
      match found with
      | some i => (0, Function.update environ i (some entry))
      | none => addEntry environ true entry

/-- A call of a program, with what `malloc` does in it. -/
inductive EnvCall where
  | getenv (name : Option (List UInt8))
  | setenv (name value : Option (List UInt8)) (overwrite allocated : Bool)
  | unsetenv (name : Option (List UInt8))
  | putenv (string : Option (List UInt8))
  deriving Repr, DecidableEq

/-- What a call returns. -/
inductive EnvResult where
  | value (value : Option (List UInt8))
  | status (status : Int)
  deriving Repr, DecidableEq

/-- A call. -/
def envCall
    (environ : EnvSlots) :
    EnvCall → Option (EnvResult × EnvSlots)
  | .getenv name =>
      (getenv environ name).map fun value => (.value value, environ)
  | .setenv name value overwrite allocated =>
      (setenv environ name value overwrite allocated).map fun result =>
        (.status result.1, result.2)
  | .unsetenv name =>
      (unsetenv environ name).map fun result => (.status result.1, result.2)
  | .putenv string =>
      (putenv environ string).map fun result => (.status result.1, result.2)

/-- The string that names what a call is about has no null byte in it. -/
def ProperCall : EnvCall → Prop
  | .getenv name => ∀ bytes, name = some bytes → 0 ∉ bytes
  | .setenv name _ _ _ => ∀ bytes, name = some bytes → 0 ∉ bytes
  | .unsetenv name => ∀ bytes, name = some bytes → 0 ∉ bytes
  | .putenv string => ∀ bytes, string = some bytes → 0 ∉ bytes

/-- A call and its result are a step. -/
def EnvStep
    (environ : EnvSlots)
    (action : EnvCall × EnvResult)
    (later : EnvSlots) : Prop :=
  ProperCall action.1 ∧ envCall environ action.1 = some (action.2, later)

/-- The table holds these entries and ends behind them. -/
structure EnvTable
    (environ : EnvSlots)
    (entries : List (List UInt8)) : Prop where
  room : entries.length < ENV_MAX
  slots : ∀ i, i ≤ entries.length → environ i = entries[i]?

/-- What the entries tell about a name. -/
def entryValue
    (entries : List (List UInt8))
    (name : List UInt8) : Option (List UInt8) :=
  (entries.find? fun entry => hasName entry name).map fun entry =>
    entry.drop (name.length + 1)

/-- The environment as a map; other strings name nothing. -/
def envMap
    (entries : List (List UInt8))
    (name : List UInt8) : Option (List UInt8) :=
  if badName (some name) then
    none
  else
    entryValue entries name

/-- What a call with its result means for the map. -/
def applyEnv
    (map : List UInt8 → Option (List UInt8)) :
    EnvCall × EnvResult → List UInt8 → Option (List UInt8)
  | (.setenv (some name) value overwrite _, .status 0) =>
      if overwrite ∨ map name = none then
        Function.update map name (some (value.getD []))
      else
        map
  | (.unsetenv (some name), .status 0) => Function.update map name none
  | (.putenv (some string), .status 0) =>
      Function.update map (nameIn string)
        (some (string.drop ((nameIn string).length + 1)))
  | _ => map

/-- The map behind a history. -/
def historyMap
    (map : List UInt8 → Option (List UInt8))
    (trace : List (EnvSlots × (EnvCall × EnvResult))) :
    List UInt8 → Option (List UInt8) :=
  trace.foldl (fun map entry => applyEnv map entry.2) map

end MyOS
