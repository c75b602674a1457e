import MessageTemplate.CommandLine.Arguments
import MessageTemplate.CommandLine.Report

/-!
# Running the command line

The context is loaded before the template is read. A context file that is named
must exist; otherwise one is looked for in the current directory and then in the
configuration directory of the user. The surroundings of a run (files, standard
input and the time) are a parameter, so that a run can be reasoned about without
an operating system.
-/

namespace MessageTemplate
namespace CommandLine

/-- What a run needs from its surroundings. -/
structure Host (m : Type → Type) where
  fileBytes : String → m (Except ReadFault ByteArray)
  fileExists : String → m Bool
  standardInput : m (Except ReadFault ByteArray)
  /-- The context file of the user, if there is a place for one. -/
  userContext : Option String
  clock : Calendar.Instant

def localContext : String := "context.json"

/-- The label of a template file: its name, or the whole path if that ends without one. -/
def fileLabel (path : String) : String := (Path.fileName? path).getD path

def standardInputLabel : String := "<stdin>"

/-- The text that bytes stand for. -/
def decodeText (bytes : Except ReadFault ByteArray) : Except ReadFault String := do
  match String.fromUTF8? (← bytes) with
  | some text => return text
  | none => throw .notText

section
variable {m : Type → Type} [Monad m]

/-- A step of a run, which may fail. -/
abbrev Step (m : Type → Type) := ExceptT RunFault m

/-- The context file to load, if any. -/
def contextPath (host : Host m) (arguments : Arguments) : m (Option String) := do
  if let some path := arguments.context then return some path
  else if ← host.fileExists localContext then return some localContext
  else
    match host.userContext with
    | some path => return if ← host.fileExists path then some path else none
    | none => return none

/-- The constants of a context file. -/
def loadContext (host : Host m) (path : String) : Step m (Table Value) := do
  match decodeText (← host.fileBytes path) with
  | .error fault => throw (.contextFile path fault)
  | .ok text =>
    match constantsOfText text with
    | .error fault => throw (.context fault)
    | .ok constants => return constants

def loadConstants (host : Host m) (arguments : Arguments) : Step m (Table Value) := do
  match ← (contextPath host arguments : m (Option String)) with
  | some path => loadContext host path
  | none => return .empty

/-- The template text and its label. -/
def readTemplate (host : Host m) (arguments : Arguments) : Step m (String × String) := do
  let (bytes, label) ← match arguments.inputPath with
    | some path => do pure (← host.fileBytes path, fileLabel path)
    | none => do pure (← host.standardInput, standardInputLabel)
  match decodeText bytes with
  | .ok source => return (source, label)
  | .error fault => throw (.input fault)

def ofStops {α : Type} : Except (Stop Failure) α → Step m α
  | .ok value => return value
  | .error stop => throw (.ofStop stop)

/-- The text of the document that the arguments ask for. -/
def documentText (host : Host m) (arguments : Arguments) : Step m String := do
  let constants ← loadConstants host arguments
  let (source, label) ← readTemplate host arguments
  let template ← ofStops (Template.compile Eval.ample label source constants host.clock)
  let document ← ofStops (template.render Eval.ample host.clock)
  return document.text arguments.policy arguments.layout

end

/-- How a run ends: its exit status, what it prints, and the line that it reports. -/
structure Outcome where
  status : UInt32
  output : String
  report : String
deriving Repr, DecidableEq

def usage : String :=
  "Usage: dmt [-n] [-p] [-c <FILE>] [-v] [<INPUT>]\n"

def versionText : String := "dmt 0.1.0\n"

namespace Outcome

def ofRefusal : Refusal → Outcome
  | .help => ⟨0, usage, ""⟩
  | .version => ⟨0, versionText, ""⟩
  | _ => ⟨2, "", usage⟩

def ofResult : Except RunFault String → Outcome
  | .ok text => ⟨0, text ++ "\n", ""⟩
  | .error fault => ⟨1, "", fault.line⟩

end Outcome

/-- A whole run, from the words behind the name of the program and the context file that the
environment names. -/
def run {m : Type → Type} [Monad m] (host : Host m) (words : List String)
    (environment : Option String) : m Outcome := do
  match Arguments.ofWords words >>= fun arguments => arguments.withEnvironment environment with
  | .error refusal => return .ofRefusal refusal
  | .ok arguments => return .ofResult (← (documentText host arguments).run)

end CommandLine
end MessageTemplate
