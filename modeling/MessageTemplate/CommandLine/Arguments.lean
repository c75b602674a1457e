import MessageTemplate.CommandLine.Path
import MessageTemplate.Message.Json

/-!
# Command-line arguments

Switches are given by a letter or by a word, and letters can share one hyphen.
The context option takes a value, attached or as the next argument. One other
argument, the template file, may be given, and everything behind `--` counts as
such.

A value stays *pending* until the next switch, the next other argument, or the
end: only then is it checked, and the first fault counts. A switch that is not
known, a second template file, and a value attached to a switch that takes none
are refused at once.
-/

namespace MessageTemplate
namespace CommandLine

/-- What the program is asked to do. -/
structure Arguments where
  nulls : Bool
  pretty : Bool
  verbose : Bool
  context : Option String
  input : Option String
deriving Repr, DecidableEq

namespace Arguments

/-- No argument at all. -/
def blank : Arguments := ⟨false, false, false, none, none⟩

def policy (arguments : Arguments) : NullPolicy := if arguments.nulls then .include else .omit

def layout (arguments : Arguments) : Json.Layout := if arguments.pretty then .pretty else .compact

/-- The template file. A hyphen in its place stands for standard input. -/
def inputPath (arguments : Arguments) : Option String :=
  arguments.input.filter fun path => !Path.isBareName "-" path

end Arguments

/-- Why arguments do not lead to a run. -/
inductive Refusal
  | unknownArgument | invalidValue | argumentConflict | tooManyValues
  | help | version
deriving Repr, DecidableEq

/-- What can stand behind a hyphen. -/
inductive Switch
  | nulls | pretty | verbose | context | help | version
deriving Repr, DecidableEq

namespace Switch

def letter : Switch → Char
  | nulls => 'n'
  | pretty => 'p'
  | verbose => 'v'
  | context => 'c'
  | help => 'h'
  | version => 'V'

def word : Switch → String
  | nulls => "nulls"
  | pretty => "pretty"
  | verbose => "verbose"
  | context => "context"
  | help => "help"
  | version => "version"

def all : List Switch := [nulls, pretty, verbose, context, help, version]

def ofLetter? (letter : Char) : Option Switch := all.find? fun switch => switch.letter == letter

def ofWord? (word : String) : Option Switch := all.find? fun switch => switch.word == word

end Switch

/-- A value that has not been checked yet. The context option may still wait for its value. -/
inductive Pending
  | context (value : Option String)
  | input (value : String)
deriving Repr, DecidableEq

/-- The arguments read so far. -/
structure Progress where
  arguments : Arguments
  pending : Option Pending
deriving Repr, DecidableEq

namespace Progress

/-- Settle the value of the context option: it is given once, and not empty. -/
def settleContext (progress : Progress) (value : String) : Except Refusal Progress :=
  if progress.arguments.context.isSome then .error .argumentConflict
  else if value = "" then .error .invalidValue
  else .ok { progress with arguments := { progress.arguments with context := some value } }

/-- Settle what is pending. -/
def settle (progress : Progress) : Except Refusal Progress :=
  let settled := { progress with pending := none }
  match progress.pending with
  | none => .ok settled
  | some (.context none) => .error .invalidValue
  | some (.context (some value)) => settled.settleContext value
  | some (.input value) =>
    if value = "" then .error .invalidValue
    else .ok { settled with arguments := { settled.arguments with input := some value } }

/-- Turn on a switch that is given once at most. -/
def turnOn (progress : Progress) (isOn : Bool) (on : Arguments → Arguments) :
    Except Refusal Progress :=
  if isOn then .error .argumentConflict
  else .ok { progress with arguments := on progress.arguments }

/-- Obey a switch without a value. -/
def obey (progress : Progress) (switch : Switch) : Except Refusal Progress := do
  let progress ← progress.settle
  let arguments := progress.arguments
  match switch with
  | .nulls => progress.turnOn arguments.nulls fun arguments => { arguments with nulls := true }
  | .pretty => progress.turnOn arguments.pretty fun arguments => { arguments with pretty := true }
  | .verbose =>
    progress.turnOn arguments.verbose fun arguments => { arguments with verbose := true }
  | .context => return { progress with pending := some (.context none) }
  | .help => throw .help
  | .version => throw .version

/-- Take a value that is attached to the context option. -/
def attachContext (progress : Progress) (value : List Char) : Except Refusal Progress := do
  (← progress.settle).settleContext (String.ofList value)

/-- Letters behind one hyphen. What follows the letter of the context option is its value, with or
without an equals sign. -/
def letters (progress : Progress) : List Char → Except Refusal Progress
  | [] => .ok progress
  | letter :: rest =>
    match Switch.ofLetter? letter with
    | none => .error .unknownArgument
    | some .context =>
      match rest with
      | [] => progress.obey .context
      | '=' :: value => progress.attachContext value
      | value => progress.attachContext value
    | some switch => do
      letters (← progress.obey switch) rest

/-- A word behind two hyphens, maybe with a value behind an equals sign. -/
def longWord (progress : Progress) (text : List Char) : Except Refusal Progress :=
  match Switch.ofWord? (String.ofList (text.takeWhile (· != '='))), text.dropWhile (· != '=') with
  | none, _ => .error .unknownArgument
  | some switch, [] => progress.obey switch
  | some .context, _ :: value => progress.attachContext value
  | some _, _ :: _ => .error .tooManyValues

/-- Whether a template file has been given, checked or not. -/
def hasInput (progress : Progress) : Bool :=
  match progress.pending with
  | some (.input _) => true
  | _ => progress.arguments.input.isSome

/-- An argument that is the template file. -/
def inputWord (progress : Progress) (word : String) : Except Refusal Progress := do
  if progress.hasInput then throw .unknownArgument
  return { ← progress.settle with pending := some (.input word) }

/-- An argument without hyphens, or a hyphen alone. -/
def plainWord (progress : Progress) (word : String) : Except Refusal Progress :=
  match progress.pending with
  | some (.context none) => .ok { progress with pending := some (.context (some word)) }
  | _ => progress.inputWord word

def word (progress : Progress) (word : String) : Except Refusal Progress :=
  match word.toList with
  | '-' :: '-' :: text => progress.longWord text
  | '-' :: letter :: rest => progress.letters (letter :: rest)
  | _ => progress.plainWord word

/-- Arguments behind `--`. -/
def inputWords (progress : Progress) : List String → Except Refusal Progress
  | [] => .ok progress
  | first :: rest => do
    inputWords (← progress.inputWord first) rest

def words (progress : Progress) : List String → Except Refusal Progress
  | [] => .ok progress
  | "--" :: rest => progress.inputWords rest
  | first :: rest => do
    words (← progress.word first) rest

end Progress

namespace Arguments

/-- Read the words behind the name of the program. -/
def ofWords (words : List String) : Except Refusal Arguments := do
  let progress ← Progress.words ⟨.blank, none⟩ words
  return (← progress.settle).arguments

/-- Take the context file from the environment if the arguments name none. -/
def withEnvironment (arguments : Arguments) (context : Option String) : Except Refusal Arguments :=
  match arguments.context, context with
  | none, some "" => .error .invalidValue
  | none, some path => .ok { arguments with context := some path }
  | _, _ => .ok arguments

end Arguments
end CommandLine
end MessageTemplate
