import MessageTemplate.Context
import MessageTemplate.Render

/-!
# What the command line reports

Everything that can go wrong in a run of the command line ends up in one line,
which starts with the name of the program.
-/

namespace MessageTemplate
namespace CommandLine

/-- Why a file or standard input cannot be read. -/
inductive ReadFault
  | notFound
  | notPermitted
  | notADirectory
  | isADirectory
  | nameTooLong
  | notText
  | other (reason : String)
deriving Repr, DecidableEq

namespace ReadFault

def message : ReadFault → String
  | notFound => "No such file or directory (os error 2)"
  | notPermitted => "Permission denied (os error 13)"
  | notADirectory => "Not a directory (os error 20)"
  | isADirectory => "Is a directory (os error 21)"
  | nameTooLong => "File name too long (os error 36)"
  | notText => "stream did not contain valid UTF-8"
  | other reason => reason

end ReadFault

/-- The message about a text that is not a context. -/
def contextMessage : ContextFault → String
  | .invalidJson => "invalid JSON: the text does not follow the grammar"
  | .notAnObject found => s!"top level must be an object, found {found}"

inductive RunFault
  /-- The context file cannot be read. -/
  | contextFile (path : String) (fault : ReadFault)
  | context (fault : ContextFault)
  /-- The template cannot be read. -/
  | input (fault : ReadFault)
  | template (failure : Failure)
  /-- The template did not come to an end. -/
  | exhausted

namespace RunFault

def message : RunFault → String
  | contextFile path fault => s!"context error: cannot read {path}: {fault.message}"
  | context fault => s!"context error: {contextMessage fault}"
  | input fault => s!"I/O error: {fault.message}"
  | template failure => failure.text
  | exhausted => "the template does not come to an end"

def ofStop : Stop Failure → RunFault
  | .failed failure => template failure
  | .exhausted => exhausted

/-- The line that is reported. -/
def line (fault : RunFault) : String := s!"dmt: {fault.message}\n"

end RunFault
end CommandLine
end MessageTemplate
