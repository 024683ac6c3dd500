/-
  PropertyArchive.CommandLine.Arguments — what the words of a command line ask for.

  In front of the command stand options of the program, behind it those of the command
  and at most one file. `--json` and `--verbose` may stand in both places. An option that
  takes a value takes it behind `=` or from the next word, which must not look like an
  option; a word `--` ends the options. Words are read from left to right, and the first
  one that settles the request, or breaks a rule, decides.

  No option may be given twice in one place (`Given.raise`, `Given.choose`).
-/
import PropertyArchive.Archive.Options

namespace PropertyArchive

open Text

inductive UsageError where
  | missingCommand
  | unknownCommand (word : Text)
  | unknownOption (word : Text)
  | repeatedOption (word : Text)
  | missingValue (option : Text)
  | unexpectedValue (option : Text)
  | invalidValue (option value : Text)
  | emptyFile
  | secondFile (word : Text)
  deriving DecidableEq, Repr

def UsageError.message : UsageError → Text
  | missingCommand => "a command is missing"
  | unknownCommand word => "unknown command '" ++ word ++ "'"
  | unknownOption word => "unknown option '" ++ word ++ "'"
  | repeatedOption word => "option '" ++ word ++ "' is given twice"
  | missingValue option => "option '" ++ option ++ "' needs a value"
  | unexpectedValue option => "option '" ++ option ++ "' takes no value"
  | invalidValue option value => "'" ++ value ++ "' is no value of option '" ++ option ++ "'"
  | emptyFile => "the name of the file is empty"
  | secondFile word => "a second file '" ++ word ++ "'"

inductive Flag where
  | json
  | verbose
  | statements
  | readonlyIvar
  deriving DecidableEq, Repr

inductive Setting where
  | coder
  | decodeStyle
  | superInit
  deriving DecidableEq, Repr

inductive CommandName where
  | generate
  | inspect
  deriving DecidableEq, Repr

inductive Source where
  | file (name : Text)
  | standardInput
  deriving DecidableEq, Repr

inductive Command where
  | generate (options : CodeOptions) (onlyStatements : Bool)
  | inspect
  deriving DecidableEq, Repr

structure Invocation where
  json : Bool
  verbose : Bool
  command : Command
  source : Source
  deriving DecidableEq, Repr

inductive Request where
  | version
  | help
  | run (invocation : Invocation)
  deriving DecidableEq, Repr

/-! ## Names of options -/

def Flag.name : Flag → Text
  | json => "json"
  | verbose => "verbose"
  | statements => "statements"
  | readonlyIvar => "readonly-ivar"

def Setting.name : Setting → Text
  | coder => "coder"
  | decodeStyle => "decode-style"
  | superInit => "super-init"

def programFlags : List Flag := [.json, .verbose]

namespace CommandName

def name : CommandName → Text
  | generate => "generate"
  | inspect => "inspect"

def all : List CommandName := [generate, inspect]

def ofWord? (word : Text) : Option CommandName := all.find? (·.name = word)

def flags : CommandName → List Flag
  | generate => programFlags ++ [.statements, .readonlyIvar]
  | inspect => programFlags

def settings : CommandName → List Setting
  | generate => [.coder, .decodeStyle, .superInit]
  | inspect => []

end CommandName

def ObjectDecoding.ofWord? (word : Text) : Option ObjectDecoding :=
  if word = "plain" then some .plain
  else if word = "cast" then some .cast
  else if word = "secure" then some .secure
  else none

def BaseInitializer.ofWord? (word : Text) : Option BaseInitializer :=
  if word = "init" then some .plain
  else if word = "coder" then some .coder
  else none

/-! ## Shapes of words -/

inductive WordShape where
  /-- Ends the options. -/
  | endOfOptions
  /-- A long option with the value behind its equals sign, where there is one. -/
  | long (name : Text) (value : Option Text)
  /-- Short options behind one dash. -/
  | short (letters : Text)
  | plain
  deriving DecidableEq, Repr

/-- A lone dash is a plain word. -/
def WordShape.ofWord : Text → WordShape
  | '-' :: '-' :: [] => endOfOptions
  | '-' :: '-' :: option =>
    match cutAt '=' option with
    | none => long option none
    | some (name, value) => long name (some value)
  | '-' :: letter :: letters => short (letter :: letters)
  | _ => plain

/-! ## What was given -/

structure Given where
  flags : List Flag := []
  options : CodeOptions := {}
  settings : List Setting := []
  file : Option Text := none

namespace Given

def raise (g : Given) (f : Flag) : Except UsageError Given :=
  if f ∈ g.flags then .error (.repeatedOption f.name) else .ok { g with flags := f :: g.flags }

def change (o : CodeOptions) (s : Setting) (value : Text) : Except UsageError CodeOptions :=
  match s with
  | .coder => .ok { o with coder := value }
  | .decodeStyle =>
    match ObjectDecoding.ofWord? value with
    | none => .error (.invalidValue s.name value)
    | some decoding => .ok { o with decoding := decoding }
  | .superInit =>
    match BaseInitializer.ofWord? value with
    | none => .error (.invalidValue s.name value)
    | some initializer => .ok { o with initializer := initializer }

def choose (g : Given) (s : Setting) (value : Text) : Except UsageError Given :=
  if s ∈ g.settings then .error (.repeatedOption s.name)
  else (change g.options s value).map fun o => { g with options := o, settings := s :: g.settings }

def takeFile (g : Given) (word : Text) : Except UsageError Given :=
  if g.file.isSome then .error (.secondFile word)
  else if word = [] then .error .emptyFile
  else .ok { g with file := some word }

def takeFiles (g : Given) : List Text → Except UsageError Given
  | [] => .ok g
  | word :: words =>
    match g.takeFile word with
    | .error e => .error e
    | .ok g => g.takeFiles words

end Given

/-! ## Reading the words -/

def readShort (version : Bool) (g : Given) : Text → Except UsageError (Given ⊕ Request)
  | [] => .ok (.inl g)
  | letter :: letters =>
    if letter = 'v' then
      match g.raise .verbose with
      | .error e => .error e
      | .ok g => readShort version g letters
    else if letter = 'h' then .ok (.inr .help)
    else if letter = 'V' ∧ version then .ok (.inr .version)
    else .error (.unknownOption ['-', letter])

def readFlag (flags : List Flag) (g : Given) (name : Text) (value : Option Text) :
    Except UsageError (Given ⊕ Request) :=
  match flags.find? (·.name = name) with
  | some f => if value.isSome then .error (.unexpectedValue name) else (g.raise f).map .inl
  | none =>
    if name = "help" ∧ value = none then .ok (.inr .help) else .error (.unknownOption name)

def isValueWord (word : Text) : Bool := WordShape.ofWord word == .plain

def readCommand (c : CommandName) (g : Given) : List Text → Except UsageError (Given ⊕ Request)
  | [] => .ok (.inl g)
  | word :: words =>
    match WordShape.ofWord word with
    | .endOfOptions => (g.takeFiles words).map .inl
    | .plain =>
      match g.takeFile word with
      | .error e => .error e
      | .ok g => readCommand c g words
    | .short letters =>
      match readShort false g letters with
      | .error e => .error e
      | .ok (.inr request) => .ok (.inr request)
      | .ok (.inl g) => readCommand c g words
    | .long name value =>
      match c.settings.find? (·.name = name) with
      | none =>
        match readFlag c.flags g name value with
        | .error e => .error e
        | .ok (.inr request) => .ok (.inr request)
        | .ok (.inl g) => readCommand c g words
      | some s =>
        match value with
        | some v =>
          match g.choose s v with
          | .error e => .error e
          | .ok g => readCommand c g words
        | none =>
          match words with
          | [] => .error (.missingValue s.name)
          | v :: words =>
            if isValueWord v then
              match g.choose s v with
              | .error e => .error e
              | .ok g => readCommand c g words
            else .error (.missingValue s.name)

/-- The invocation of a command, given what stands in front of it and behind it. -/
def Invocation.ofGiven (c : CommandName) (before behind : Given) : Invocation where
  json := .json ∈ before.flags || .json ∈ behind.flags
  verbose := .verbose ∈ before.flags || .verbose ∈ behind.flags
  command :=
    match c with
    | .generate =>
      .generate { behind.options with readonlyToIvar := .readonlyIvar ∈ behind.flags } (.statements ∈ behind.flags)
    | .inspect => .inspect
  source := (behind.file.map Source.file).getD .standardInput

/-- The words from the start, with the program's options that were read so far. -/
def readProgram (g : Given) : List Text → Except UsageError Request
  | [] => .error .missingCommand
  | word :: words =>
    match WordShape.ofWord word with
    | .endOfOptions => .error .missingCommand
    | .plain =>
      match CommandName.ofWord? word with
      | some c =>
        match readCommand c {} words with
        | .error e => .error e
        | .ok (.inr request) => .ok request
        | .ok (.inl behind) => .ok (.run (.ofGiven c g behind))
      | none => if word = "help" then .ok .help else .error (.unknownCommand word)
    | .short letters =>
      match readShort true g letters with
      | .error e => .error e
      | .ok (.inr request) => .ok request
      | .ok (.inl g) => readProgram g words
    | .long name value =>
      if name = "version" ∧ value = none then .ok .version
      else
        match readFlag programFlags g name value with
        | .error e => .error e
        | .ok (.inr request) => .ok request
        | .ok (.inl g) => readProgram g words

def Request.ofWords (words : List Text) : Except UsageError Request := readProgram {} words

end PropertyArchive
