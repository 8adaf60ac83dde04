import Mathlib.Data.List.Forall2
import Mathlib.Data.List.TakeWhile
import Mathlib.Logic.Function.Basic
import MyOS.Param

namespace MyOS

/-!
# The shell's command lines

A line is cut into tokens, the tokens into stages at the pipes, and the child
of a stage takes the redirections out of the shared array of arguments.  The
grammar that the shell is meant to accept stands beside it.
-/

/-- Entries of the array of arguments. -/
def MAX_ARGS : Nat := 32

/-- Stages of a pipeline. -/
def MAX_STAGES : Nat := MAX_ARGS

/-- Bytes of the buffer for the tokens. -/
def TOKEN_BUF_SIZE : Nat := LINE_SIZE * 2

/-- The text of a token. -/
abbrev ShellWord : Type := List UInt8

/-- `argv`: the texts that its entries point to, or none for a null pointer. -/
abbrev Argv : Type := Nat → Option ShellWord

/-- `"|"` -/
def pipeToken : ShellWord := [124]

/-- `"<"` -/
def inputToken : ShellWord := [60]

/-- `">"` -/
def outputToken : ShellWord := [62]

/-- `">>"` -/
def appendToken : ShellWord := [62, 62]

/-- `is_space(c)` -/
def isSpace (c : UInt8) : Bool :=
  c = 32 || c = 9

/-- `is_operator(c)` -/
def isOperator (c : UInt8) : Bool :=
  c = 60 || c = 62 || c = 124

/-- `is_redirect_token(arg)` -/
def isRedirectToken (arg : ShellWord) : Bool :=
  arg = inputToken || arg = outputToken || arg = appendToken

/-- `is_control_token(arg)` -/
def isControlToken (arg : ShellWord) : Bool :=
  isRedirectToken arg || arg = pipeToken

section Tokens

/-- The inner loop of `parse_args` for a word: it, and what is left. -/
def wordLoop : Nat → ShellWord → ShellWord × Nat × ShellWord
  | out, [] => ([], out, [])
  | out, c :: line =>
      if isSpace c = false ∧ isOperator c = false ∧ out < TOKEN_BUF_SIZE - 1
      then
        let (word, after, rest) := wordLoop (out + 1) line
        (c :: word, after, rest)
      else
        ([], out, c :: line)

/-- A token of `parse_args` with the places of the buffer it takes. -/
def nextToken (out : Nat) : ShellWord → ShellWord × Nat × ShellWord
  | [] => ([], out, [])
  | c :: line =>
      if isOperator c then
        match line with
        | d :: rest =>
            if c = 62 ∧ d = 62 ∧ out + 1 < TOKEN_BUF_SIZE - 1 then
              ([c, d], out + 2, rest)
            else
              ([c], out + 1, d :: rest)
        | [] => ([c], out + 1, [])
      else
        wordLoop out (c :: line)

/-- The loop of `parse_args` with `left` more entries of `argv`. -/
def parseLoop : Nat → Nat → ShellWord → List ShellWord
  | 0, _, _ => []
  | left + 1, out, line =>
      if out < TOKEN_BUF_SIZE - 1 then
        match line.dropWhile isSpace with
        | [] => []
        | c :: rest =>
            let (token, after, behind) := nextToken out (c :: rest)
            token :: parseLoop left (after + 1) behind
      else
        []

/-- `parse_args(line, argv)` -/
def parseArgs (line : ShellWord) : List ShellWord :=
  parseLoop (MAX_ARGS - 1) 0 line

/-- The entries of `argv` behind `parse_args`. -/
def argvOf (tokens : List ShellWord) : Argv :=
  fun i => tokens[i]?

end Tokens

section Variables

/-- `"$PATH"` -/
def pathVariable : ShellWord := [36, 80, 65, 84, 72]

/-- `"$?"` -/
def statusVariable : ShellWord := [36, 63]

/-- `"PATH="` -/
def pathAssignment : ShellWord := [80, 65, 84, 72, 61]

/-- Bytes of the buffer for the value of `PATH`. -/
def PATH_SIZE : Nat := 128

/-- The decimal digits of a number, of which there are at most `count`. -/
def decimalDigits : Nat → Nat → ShellWord
  | 0, _ => []
  | count + 1, value =>
      (if value / 10 = 0 then [] else decimalDigits count (value / 10)) ++
        [UInt8.ofNat (48 + value % 10)]

/-- `status_to_str(status)` -/
def statusToStr (status : Int) : ShellWord :=
  if status < 0 then
    45 :: decimalDigits 12 status.natAbs
  else
    decimalDigits 12 status.natAbs

/-- The loop of `set_path_value` with room for the value in `next`. -/
def setPathLoop (pathValue : ShellWord) :
    Nat → ShellWord → ShellWord → ShellWord
  | 0, _, next => next
  | fuel + 1, value, next =>
      match value with
      | [] => next
      | c :: rest =>
          if next.length < PATH_SIZE - 1 then
            if pathVariable.isPrefixOf (c :: rest) then
              setPathLoop pathValue fuel ((c :: rest).drop 5)
                (next ++ pathValue.take (PATH_SIZE - 1 - next.length))
            else
              setPathLoop pathValue fuel rest (next ++ [c])
          else
            next

/-- `set_path_value(value)` -/
def setPathValue (pathValue value : ShellWord) : ShellWord :=
  setPathLoop pathValue (value.length + 1) value []

/-- The variables of the shell; no operator gets into the value of `PATH`. -/
structure ShellVariables where
  pathValue : ShellWord
  lastStatus : Int
  plain : ∀ c ∈ pathValue, isOperator c = false

/-- `expand_args(argc, argv)`, for one argument. -/
def ShellVariables.expand
    (vars : ShellVariables)
    (arg : ShellWord) : ShellWord :=
  if arg = pathVariable then
    vars.pathValue
  else if arg = statusVariable then
    statusToStr vars.lastStatus
  else
    arg

/-- `run_builtin(argc, argv, &status)`: none if the command is another one,
and otherwise the status and the value of `PATH`. -/
def runBuiltin
    (chdirs : ShellWord → Bool)
    (pathValue : ShellWord)
    (argc : Nat)
    (argv : Argv) : Option (Int × ShellWord) :=
  match argv 0 with
  | none => none
  | some name =>
      if pathAssignment.isPrefixOf name then
        if argc = 1 then
          some (0, setPathValue pathValue (name.drop 5))
        else
          some (1, pathValue)
      else if name = [101, 120, 112, 111, 114, 116] then
        if argc = 1 then
          some (0, pathValue)
        else
          match argv 1 with
          | some arg =>
              if argc = 2 ∧ pathAssignment.isPrefixOf arg then
                some (0, setPathValue pathValue (arg.drop 5))
              else
                some (1, pathValue)
          | none => some (1, pathValue)
      else if name = [80, 65, 84, 72] then
        some (0, pathValue)
      else if name = [99, 100] then
        match argv 1 with
        | some target =>
            if 2 ≤ argc then
              some (if chdirs target then 0 else 1, pathValue)
            else
              some (0, pathValue)
        | none => some (0, pathValue)
      else if name = [112, 119, 100] then
        some (0, pathValue)
      else
        none

end Variables

/-- How a file takes the place of a standard descriptor. -/
inductive RedirectOperator where
  | input
  | output
  | append
  deriving Repr, DecidableEq

/-- The operator's token. -/
def RedirectOperator.token : RedirectOperator → ShellWord
  | .input => inputToken
  | .output => outputToken
  | .append => appendToken

/-- A redirection: its operator and its file. -/
structure Redirection where
  operator : RedirectOperator
  path : ShellWord
  deriving Repr, DecidableEq

/-- The operator of a token, as `apply_redirections` tells it. -/
def redirectOperator? (arg : ShellWord) : Option RedirectOperator :=
  if arg = inputToken then
    some .input
  else if arg = outputToken then
    some .output
  else if arg = appendToken then
    some .append
  else
    none

section Stages

/-- The loop of `find_token`, from entry `i`. -/
def findTokenLoop (argv : Argv) (token : ShellWord) : Nat → Nat → Int
  | 0, _ => -1
  | fuel + 1, i =>
      match argv i with
      | none => -1
      | some arg =>
          if arg = token then i else findTokenLoop argv token fuel (i + 1)

/-- `find_token(argv, token)` -/
def findToken (argv : Argv) (token : ShellWord) : Int :=
  findTokenLoop argv token MAX_ARGS 0

/-- The loop of `split_pipeline`, from entry `i`; `stages` are where they start. -/
def splitLoop : Nat → Nat → Argv → List Nat → Option (Argv × List Nat)
  | 0, _, argv, stages => some (argv, stages)
  | fuel + 1, i, argv, stages =>
      match argv i with
      | none => some (argv, stages)
      | some arg =>
          if arg ≠ pipeToken then
            splitLoop fuel (i + 1) argv stages
          else if i = 0 ∨ argv (i + 1) = none ∨ MAX_STAGES ≤ stages.length then
            none
          else
            splitLoop fuel (i + 1) (Function.update argv i none)
              (stages ++ [i + 1])

/-- `split_pipeline(argv, stages)`; none is -1. -/
def splitPipeline (argv : Argv) : Option (Argv × List Nat) :=
  if argv 0 = none then
    some (argv, [])
  else
    splitLoop MAX_ARGS 0 argv [0]

/-- The loop of `validate_redirections`, from entry `i`. -/
def validateLoop (argv : Argv) : Nat → Nat → Bool
  | 0, _ => true
  | fuel + 1, i =>
      match argv i with
      | none => true
      | some arg =>
          if isRedirectToken arg then
            match argv (i + 1) with
            | none => false
            | some next =>
                if isControlToken next then
                  false
                else
                  validateLoop argv fuel (i + 1)
          else
            validateLoop argv fuel (i + 1)

/-- `validate_redirections(argv)` for the stage at `start`. -/
def validateRedirections (argv : Argv) (start : Nat) : Bool :=
  validateLoop argv MAX_ARGS start

/-- The loop of `remove_arg_pair`, from entry `i`. -/
def removeLoop : Nat → Nat → Argv → Argv
  | 0, _, argv => argv
  | fuel + 1, i, argv =>
      match argv (i + 2) with
      | some later => removeLoop fuel (i + 1) (Function.update argv i later)
      | none =>
          Function.update (Function.update argv i none) (i + 1) none

/-- `remove_arg_pair(argv, at)` -/
def removeArgPair (argv : Argv) (place : Nat) : Argv :=
  removeLoop MAX_ARGS place argv

/-- What the child of a stage does: the redirections that it tries, and the
arguments that it passes to `exec`. -/
structure ChildRun where
  redirections : List Redirection
  exec : Option (List ShellWord)
  deriving Repr, DecidableEq

/-- The arguments up to the null pointer. -/
def argvWords (argv : Argv) : Nat → Nat → List ShellWord
  | 0, _ => []
  | fuel + 1, i =>
      match argv i with
      | none => []
      | some arg => arg :: argvWords argv fuel (i + 1)

/-- `exec_command(argv)`: the arguments that `exec` is given, if any. -/
def execCommand (argv : Argv) (start : Nat) : Option (List ShellWord) :=
  if argv start = none then
    none
  else
    some (argvWords argv MAX_ARGS start)

/-- `apply_redirections(argv)` from entry `i`, and `exec_command` behind it;
`opens` says which redirections succeed. -/
def childLoop
    (opens : Redirection → Bool)
    (start : Nat) :
    Nat → Nat → Argv → List Redirection → ChildRun
  | 0, _, argv, done => ⟨done, execCommand argv start⟩
  | fuel + 1, i, argv, done =>
      match argv i with
      | none => ⟨done, execCommand argv start⟩
      | some arg =>
          match redirectOperator? arg with
          | none => childLoop opens start fuel (i + 1) argv done
          | some operator =>
              match argv (i + 1) with
              | none => ⟨done, none⟩
              | some path =>
                  if opens ⟨operator, path⟩ then
                    childLoop opens start fuel i (removeArgPair argv i)
                      (done ++ [⟨operator, path⟩])
                  else
                    ⟨done ++ [⟨operator, path⟩], none⟩

/-- What the child does for the stage at `start`. -/
def childRun
    (opens : Redirection → Bool)
    (argv : Argv)
    (start : Nat) : ChildRun :=
  childLoop opens start MAX_ARGS start argv []

end Stages

/-- How `dispatch_command` ends. -/
inductive Dispatch where
  /-- There is no token. -/
  | nothing
  /-- A command of the shell itself, with its arguments. -/
  | builtin (args : List ShellWord) (status : Int)
  /-- A message, and the status 1. -/
  | refused
  /-- Children are forked for the stages at these entries. -/
  | launch (argv : Argv) (stages : List Nat)

/-- `dispatch_command(argc, argv)` -/
def dispatchCommand
    (chdirs : ShellWord → Bool)
    (vars : ShellVariables)
    (args : List ShellWord) : Dispatch :=
  let argv := argvOf args
  if args.length = 0 then
    .nothing
  else
    match
      if findToken argv pipeToken < 0 ∧ findToken argv inputToken < 0 ∧
          findToken argv outputToken < 0 ∧ findToken argv appendToken < 0 then
        runBuiltin chdirs vars.pathValue args.length argv
      else
        none with
    | some (status, _) => .builtin args status
    | none =>
        match splitPipeline argv with
        | none => .refused
        | some (split, stages) =>
            if stages.all fun start => validateRedirections split start then
              .launch split stages
            else
              .refused

/-- A turn of `main`: the line is cut into tokens, expanded and dispatched. -/
def runLine
    (chdirs : ShellWord → Bool)
    (vars : ShellVariables)
    (line : ShellWord) : Dispatch :=
  dispatchCommand chdirs vars ((parseArgs line).map vars.expand)

/-- A part of a stage. -/
inductive StageItem where
  | word (text : ShellWord)
  | redirect (redirection : Redirection)
  deriving Repr, DecidableEq

namespace StageItem

/-- The tokens of a part. -/
def tokens : StageItem → List ShellWord
  | .word text => [text]
  | .redirect redirection => [redirection.operator.token, redirection.path]

/-- The word of a part is not an operator. -/
def isPlain : StageItem → Bool
  | .word text => !isControlToken text
  | .redirect redirection => !isControlToken redirection.path

/-- The word of a part that is not a redirection. -/
def word? : StageItem → Option ShellWord
  | .word text => some text
  | .redirect _ => none

/-- The redirection of a part that is one. -/
def redirect? : StageItem → Option Redirection
  | .word _ => none
  | .redirect redirection => some redirection

end StageItem

/-- The tokens of a stage. -/
def stageTokens (stage : List StageItem) : List ShellWord :=
  stage.flatMap StageItem.tokens

/-- The tokens are stages that are not empty, with pipes between them. -/
structure IsPipeline
    (tokens : List ShellWord)
    (stages : List (List StageItem)) : Prop where
  tokens : tokens = [pipeToken].intercalate (stages.map stageTokens)
  nonempty : ∀ stage ∈ stages, stage ≠ []
  plain : ∀ stage ∈ stages, ∀ item ∈ stage, item.isPlain = true

/-- The token sequences of the grammar. -/
def InGrammar (tokens : List ShellWord) : Prop :=
  ∃ stages, IsPipeline tokens stages

/-- Redirections from left to right, up to the first that fails. -/
def applyAll
    (opens : Redirection → Bool)
    (words : List ShellWord) :
    List Redirection → List Redirection → ChildRun
  | [], done => ⟨done, if words = [] then none else some words⟩
  | redirection :: rest, done =>
      if opens redirection then
        applyAll opens words rest (done ++ [redirection])
      else
        ⟨done ++ [redirection], none⟩

/-- What the child of a stage is meant to do. -/
def stageRun
    (opens : Redirection → Bool)
    (stage : List StageItem) : ChildRun :=
  applyAll opens (stage.filterMap StageItem.word?)
    (stage.filterMap StageItem.redirect?) []

/-- All the tokens of a line. -/
def tokensOf : Nat → ShellWord → List ShellWord
  | 0, _ => []
  | fuel + 1, line =>
      match line.dropWhile isSpace with
      | [] => []
      | c :: rest =>
          if isOperator c then
            if c = 62 ∧ rest.head? = some 62 then
              [c, 62] :: tokensOf fuel rest.tail
            else
              [c] :: tokensOf fuel rest
          else
            (c :: rest).takeWhile (fun d => !isSpace d && !isOperator d) ::
              tokensOf fuel
                ((c :: rest).dropWhile fun d => !isSpace d && !isOperator d)

/-- The token sequence of a line, with its variables expanded. -/
def lineTokens (vars : ShellVariables) (line : ShellWord) : List ShellWord :=
  (tokensOf line.length line).map vars.expand

/-- A child is started on the tokens of its stage and does what they say. -/
structure RunsStage
    (argv : Argv)
    (start : Nat)
    (stage : List StageItem) : Prop where
  tokens : argvWords argv MAX_ARGS start = stageTokens stage
  runs : ∀ opens, childRun opens argv start = stageRun opens stage

/--
The outcome is the one that the grammar asks for: children only for a line of
the grammar, each for its stage; nothing is dropped; every other line is
refused.
-/
structure FollowsGrammar
    (tokens : List ShellWord)
    (dispatch : Dispatch) : Prop where
  nothing : dispatch = .nothing → tokens = []
  builtin : ∀ args status, dispatch = .builtin args status → args = tokens
  launch :
    ∀ argv starts, dispatch = .launch argv starts →
      ∃ stages, IsPipeline tokens stages ∧
        List.Forall₂ (RunsStage argv) starts stages
  refuses : ¬ InGrammar tokens → dispatch = .refused
  accepts : dispatch = .refused → ¬ InGrammar tokens

/-- The runs of tokens between the pipes. -/
def pieces (tokens : List ShellWord) : List (List ShellWord) :=
  tokens.splitOn pipeToken

/-- A redirection operator is not followed by a word. -/
def dangles : List ShellWord → Bool
  | [] => false
  | token :: rest =>
      (isRedirectToken token &&
        match rest with
        | [] => true
        | next :: _ => isControlToken next) ||
      dangles rest

/-- The shell's checks fail: a pipe at an end, or a redirection without file. -/
def failsChecks (tokens : List ShellWord) : Bool :=
  tokens.head? = some pipeToken || tokens.getLast? = some pipeToken ||
    (pieces tokens).any dangles

/-- A piece is empty, or a redirection operator has no file. -/
def isMalformed (tokens : List ShellWord) : Bool :=
  (pieces tokens).any fun piece => piece.isEmpty || dangles piece

/--
Where all tokens fit into `argv`, no piece is empty unless the line fails the
checks; where they do not, the tokens that fit fail the checks, and the whole
line is not of the grammar.
-/
def TokensFit (tokens : List ShellWord) : Prop :=
  if tokens.length < MAX_ARGS then
    tokens = [] ∨ failsChecks tokens = true ∨ [] ∉ pieces tokens
  else
    failsChecks (tokens.take (MAX_ARGS - 1)) = true ∧
      isMalformed tokens = true

end MyOS
