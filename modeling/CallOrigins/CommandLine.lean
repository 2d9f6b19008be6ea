import CallOrigins.Settings

/-!
# Command lines

A command line names a command and gives it options and one operand. Options stand before or
after the operand. The value of an option follows it or is attached to it, by an equals sign or
directly after a short name; a value that is not attached does not look like an option. After two
hyphens everything is an operand. An option is given once, except for the two that collect their
values.
-/

namespace CallOrigins

open Text

/-- How results are written. -/
inductive OutputFormat where
  | text
  | json
  | csv
  deriving DecidableEq, Repr

namespace OutputFormat

/-- The name of a format. -/
def name : OutputFormat → String
  | text => "text"
  | json => "json"
  | csv => "csv"

/-- The format with a name. -/
def ofName? (s : String) : Option OutputFormat :=
  [text, json, csv].find? (fun f => f.name == s)

end OutputFormat

/-- What both commands are told about the sources. -/
structure IndexOptions where
  /-- The directory of the project. -/
  dir : String := "."
  /-- The file of settings that is asked for. -/
  config : Option String := none
  /-- What is laid over the settings. -/
  overrides : Settings := {}
  deriving DecidableEq, Repr

/-- The search for the origins of a method. -/
structure CallersCommand where
  target : String
  index : IndexOptions
  format : OutputFormat
  /-- The file for the results. -/
  output : Option String
  deriving DecidableEq, Repr

/-- The list of the methods with a text in their name. -/
structure MethodsCommand where
  name : String
  index : IndexOptions
  /-- How many methods are listed; zero lists all. -/
  maxResults : Nat
  deriving DecidableEq, Repr

/-- A command. -/
inductive Command where
  | callers (c : CallersCommand)
  | methods (c : MethodsCommand)
  deriving DecidableEq, Repr

/-! ## Options -/

/-- The options of the commands. -/
inductive CommandOption where
  | dir
  | lib
  | libPattern
  | config
  | threads
  | hidden
  | noIgnore
  | logLevel
  | format
  | output
  | maxResults
  deriving DecidableEq, Repr

namespace CommandOption

/-- The long name. -/
def longName : CommandOption → String
  | dir => "dir"
  | lib => "lib"
  | libPattern => "lib-pattern"
  | config => "config"
  | threads => "threads"
  | hidden => "hidden"
  | noIgnore => "no-ignore"
  | logLevel => "log-level"
  | format => "format"
  | output => "output"
  | maxResults => "max-results"

/-- The short name. -/
def shortName? : CommandOption → Option Char
  | dir => some 'd'
  | threads => some 't'
  | format => some 'f'
  | output => some 'o'
  | _ => none

/-- Is it a flag, which has no value? -/
def isFlag : CommandOption → Bool
  | hidden | noIgnore => true
  | _ => false

/-- Can it be given several times? -/
def isRepeatable : CommandOption → Bool
  | lib | libPattern => true
  | _ => false

/-- The options of both commands. -/
def shared : List CommandOption :=
  [dir, lib, libPattern, config, threads, hidden, noIgnore, logLevel]

/-- The options of the search for origins. -/
def ofCallers : List CommandOption :=
  shared ++ [format, output]

/-- The options of the list of methods. -/
def ofMethods : List CommandOption :=
  shared ++ [maxResults]

end CommandOption

namespace CommandLine

/-! ## Taking arguments apart -/

/-- What was given: options with their values in order, a flag with an empty value, and
operands. -/
structure Given where
  options : List (CommandOption × String) := []
  operands : List String := []
  deriving DecidableEq, Repr

/-- Adds an option at the front. -/
def Given.withOption (g : Given) (o : CommandOption) (value : String) : Given :=
  { g with options := (o, value) :: g.options }

/-- Does an argument look like an option? A single hyphen does not. -/
def looksLikeOption (arg : String) : Bool :=
  startsWith ['-'] arg.toList && arg != "-"

/-- An argument, by its form. -/
inductive Form where
  /-- Two hyphens alone. -/
  | endOfOptions
  | operand
  /-- A long name, perhaps with a value after an equals sign. -/
  | long (name : String) (value : Option String)
  /-- A short name, perhaps with a value directly after it. -/
  | short (name : Char) (value : Option String)
  deriving DecidableEq, Repr

/-- The value that is attached to a short name; an equals sign at its front is dropped. -/
def attached : List Char → Option String
  | [] => none
  | '=' :: value => some (String.ofList value)
  | value => some (String.ofList value)

/-- The form of an argument. -/
def formOf (arg : String) : Form :=
  match arg.toList with
  | ['-', '-'] => .endOfOptions
  | '-' :: '-' :: rest =>
    match cutFirst '=' rest with
    | some (name, value) => .long (String.ofList name) (some (String.ofList value))
    | none => .long (String.ofList rest) none
  | '-' :: c :: rest => .short c (attached rest)
  | _ => .operand

/-- The option that an argument names among those that are allowed, with its attached value. -/
def named? (allowed : List CommandOption) : Form → Option (CommandOption × Option String)
  | .long name value => (allowed.find? (fun o => o.longName == name)).map (fun o => (o, value))
  | .short c value => (allowed.find? (fun o => o.shortName? == some c)).map (fun o => (o, value))
  | _ => none

/-- **Takes arguments apart.** -/
def takeApart (allowed : List CommandOption) : List String → Option Given
  | [] => some {}
  | arg :: rest =>
    match formOf arg with
    | .endOfOptions => some { operands := rest }
    | .operand =>
      (takeApart allowed rest).map (fun g => { g with operands := arg :: g.operands })
    | form =>
      match named? allowed form with
      | none => none
      | some (o, some value) =>
        if o.isFlag then none else (takeApart allowed rest).map (fun g => g.withOption o value)
      | some (o, none) =>
        if o.isFlag then (takeApart allowed rest).map (fun g => g.withOption o "")
        else
          match rest with
          | [] => none
          | value :: rest =>
            if looksLikeOption value then none
            else (takeApart allowed rest).map (fun g => g.withOption o value)

namespace Given

/-- The values of an option. -/
def values (g : Given) (o : CommandOption) : List String :=
  (g.options.filter (fun p => p.1 == o)).map Prod.snd

/-- The value of an option. -/
def value? (g : Given) (o : CommandOption) : Option String :=
  (g.values o).head?

/-- Was an option given? -/
def has (g : Given) (o : CommandOption) : Bool :=
  (g.value? o).isSome

/-- Is there an option that was given more often than it may be? -/
def repeatsOption (g : Given) (allowed : List CommandOption) : Bool :=
  allowed.any (fun o => !o.isRepeatable && 1 < (g.values o).length)

end Given

/-! ## Values -/

/-- A machine number, perhaps with a plus sign. -/
def readWord? (s : String) : Option Nat :=
  match s.toList with
  | '+' :: digits => Settings.wordOfText? (String.ofList digits)
  | _ => Settings.wordOfText? s

/-- A path, which is not empty. -/
def readPath? (s : String) : Option String :=
  if s.isEmpty then none else some s

/-- Reads a value that may be missing. -/
def optional? {α : Type} (read : String → Option α) : Option String → Option (Option α)
  | none => some none
  | some s => (read s).map some

/-- The options that both commands have. -/
def readIndexOptions? (g : Given) : Option IndexOptions := do
  let config ← optional? readPath? (g.value? .config)
  let threads ← optional? readWord? (g.value? .threads)
  return {
    dir := (g.value? .dir).getD "."
    config
    overrides := {
      libraryRoots := g.values .lib
      libraryPatterns := g.values .libPattern
      hidden := g.has .hidden
      noIgnore := g.has .noIgnore
      threads
      logLevel := g.value? .logLevel } }

/-- Takes the arguments of a command apart: its one operand and its options. -/
def readArguments? (allowed : List CommandOption) (args : List String) :
    Option (String × Given) := do
  let g ← takeApart allowed args
  if g.repeatsOption allowed then none
  else
    match g.operands with
    | [operand] => some (operand, g)
    | _ => none

/-- The arguments of the search for origins. -/
def readCallers? (args : List String) : Option CallersCommand := do
  let (target, g) ← readArguments? CommandOption.ofCallers args
  let index ← readIndexOptions? g
  let format ← optional? OutputFormat.ofName? (g.value? .format)
  let output ← optional? readPath? (g.value? .output)
  return { target, index, format := format.getD .text, output }

/-- The arguments of the list of methods. -/
def readMethods? (args : List String) : Option MethodsCommand := do
  let (name, g) ← readArguments? CommandOption.ofMethods args
  let index ← readIndexOptions? g
  let maxResults ← optional? readWord? (g.value? .maxResults)
  return { name, index, maxResults := maxResults.getD 50 }

/-- **The command of a command line**; `none` where it is not used as it should be. -/
def read? : List String → Option Command
  | "callers" :: args => (readCallers? args).map .callers
  | "methods" :: args => (readMethods? args).map .methods
  | _ => none

end CommandLine
end CallOrigins
