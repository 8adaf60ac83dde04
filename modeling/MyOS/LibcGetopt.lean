import MyOS.Lib.CString

namespace MyOS

open Lib

/-!
# Options of a command line

`getopt` reports the options of the words `argv` one by one.  Its state is a
word and a position inside it; the words are C strings, as many as `argc`.
Reading behind the null byte of a string is undefined.
-/

/-- `optind`, `optpos`, `optarg` and `optopt`. -/
structure GetoptState where
  optind : Int
  optpos : Nat
  optarg : Option CString
  optopt : UInt8
  deriving DecidableEq

/-- The state that a program begins with. -/
def GetoptState.start : GetoptState :=
  ⟨1, 1, none, 0⟩

/-- The next word. -/
def GetoptState.nextWord (s : GetoptState) (words : Nat) : GetoptState :=
  { s with optind := s.optind + words, optpos := 1 }

/-- The word is left where no character of it is. -/
def leaveWord
    (word : CString)
    (s : GetoptState) : Option GetoptState :=
  (word.charAt s.optpos).map fun c =>
    if c = 0 then s.nextWord 1 else s

/-- A character that is no option. -/
def getoptUnknown
    (word : CString)
    (s : GetoptState) : Option (Int × GetoptState) :=
  (leaveWord word s).map fun s => ('?'.toNat, s)

/-- An option that has an argument. -/
def getoptArgument
    (argv : List CString)
    (optstring word : CString)
    (opt : UInt8)
    (s : GetoptState) : Option (Int × GetoptState) :=
  (word.charAt s.optpos).bind fun c =>
    if c ≠ 0 then
      some (opt.toNat,
        { s with optarg := some (word.drop s.optpos) }.nextWord 1)
    else if s.optind + 1 < argv.length then
      some (opt.toNat,
        { s with optarg := argv[(s.optind + 1).toNat]? }.nextWord 2)
    else
      (optstring.charAt 0).map fun c =>
        (if c = ':'.toUInt8 then ':'.toNat else '?'.toNat, s)

/-- What `getopt` does with a character, by its place in `optstring`. -/
def getoptMatch
    (argv : List CString)
    (optstring word : CString)
    (opt : UInt8)
    (s : GetoptState) : Option Nat → Option (Int × GetoptState)
  | none => getoptUnknown word s
  | some place =>
      if opt = ':'.toUInt8 then
        getoptUnknown word s
      else
        (optstring.charAt (place + 1)).bind fun colon =>
          if colon = ':'.toUInt8 then
            getoptArgument argv optstring word opt s
          else
            (leaveWord word { s with optarg := none }).map fun s =>
              (opt.toNat, s)

/-- The state when a character has been read. -/
def GetoptState.read
    (s : GetoptState)
    (letter : UInt8) : GetoptState :=
  { s with optpos := s.optpos + 1, optopt := letter }

/-- What `getopt` does with the next character of a word. -/
def getoptLetter
    (argv : List CString)
    (optstring word : CString)
    (s : GetoptState) : Option (Int × GetoptState) :=
  (word.charAt s.optpos).bind fun opt =>
    getoptMatch argv optstring word opt (s.read opt) (strchr optstring opt)

/-- What `getopt` does with a word: `-1` is returned for one that is not an
option, and behind `--`. -/
def getoptWord
    (argv : List CString)
    (optstring word : CString)
    (s : GetoptState) : Option (Int × GetoptState) :=
  (word.charAt 0).bind fun first =>
    if first ≠ '-'.toUInt8 then
      some (-1, s)
    else
      (word.charAt 1).bind fun second =>
        if second = 0 then
          some (-1, s)
        else if word.bytes = ['-'.toUInt8, '-'.toUInt8] then
          some (-1, { s with optind := s.optind + 1 })
        else
          getoptLetter argv optstring word s

/-- `getopt`; `none` where it reads behind a string. -/
def getopt
    (argv : List CString)
    (optstring : CString)
    (s : GetoptState) : Option (Int × GetoptState) :=
  let s := if s.optind ≤ 0 then { s with optind := 1 } else s
  if s.optind ≥ argv.length then
    some (-1, s)
  else
    match argv[s.optind.toNat]? with
    | none => some (-1, s)
    | some word => getoptWord argv optstring word s

/-- What is to be reported: an option with its argument, a character that is no
option, or an option whose argument is missing. -/
inductive OptionEvent where
  | option (letter : UInt8) (argument : Option CString)
  | unknown (letter : UInt8)
  | missing (letter : UInt8)
  deriving DecidableEq

/-- The characters of `optstring` that are options. -/
def isOption (optstring : CString) (letter : UInt8) : Bool :=
  letter ∈ optstring.bytes ∧ letter ≠ ':'.toUInt8

/-- Options that have an argument. -/
def hasArgument (optstring : CString) (letter : UInt8) : Bool :=
  optstring.bytes[optstring.bytes.idxOf letter + 1]? = some ':'.toUInt8

/-- What is in a word of options, from a character on; last the option whose
argument would be the next word. -/
def optionLetters
    (optstring word : CString) :
    List UInt8 → Nat → List OptionEvent × Option UInt8
  | [], _ => ([], none)
  | letter :: rest, place =>
      if isOption optstring letter then
        if hasArgument optstring letter then
          if rest = [] then
            ([], some letter)
          else
            ([.option letter (some (word.drop (place + 1)))], none)
        else
          let more := optionLetters optstring word rest (place + 1)
          (.option letter none :: more.1, more.2)
      else
        let more := optionLetters optstring word rest (place + 1)
        (.unknown letter :: more.1, more.2)

/-- The options of words, and the number of words that they take up. -/
def optionWords
    (optstring : CString) :
    List CString → List OptionEvent × Nat
  | [] => ([], 0)
  | word :: words =>
      if word.bytes.head? ≠ some '-'.toUInt8 ∨ word.bytes.length = 1 then
        ([], 0)
      else if word.bytes = ['-'.toUInt8, '-'.toUInt8] then
        ([], 1)
      else
        match optionLetters optstring word (word.bytes.drop 1) 1, words with
        | (events, none), words =>
            let more := optionWords optstring words
            (events ++ more.1, more.2 + 1)
        | (events, some letter), [] => (events ++ [.missing letter], 1)
        | (events, some letter), argument :: words =>
            let more := optionWords optstring words
            (events ++ .option letter (some argument) :: more.1, more.2 + 2)

/-- A call has returned what reports an event. -/
def Reports
    (optstring : CString)
    (value : Int)
    (s : GetoptState) : OptionEvent → Prop
  | .option letter argument => value = letter.toNat ∧ s.optarg = argument
  | .unknown letter => value = '?'.toNat ∧ s.optopt = letter
  | .missing letter =>
      value =
          (if optstring.bytes.head? = some ':'.toUInt8 then ':'.toNat
          else '?'.toNat) ∧
        s.optopt = letter

/-- A call that reports an event. -/
def GetoptCall
    (argv : List CString)
    (optstring : CString)
    (s : GetoptState)
    (event : OptionEvent)
    (later : GetoptState) : Prop :=
  ∃ value : Int,
    getopt argv optstring s = some (value, later) ∧
      value ≠ -1 ∧
      Reports optstring value later event

end MyOS
