import MessageTemplate.CommandLine.Run
import Std.Time.DateTime.PlainDateTime
import Std.Time.DateTime.Timestamp

/-!
# The program

The outermost layer: it asks the operating system for files, standard input and
the time, and prints what the run says.
-/

namespace MessageTemplate
namespace CommandLine

/-- The current time of the system. -/
def systemInstant : IO Calendar.Instant := do
  let elapsed := (← Std.Time.Timestamp.now).toDurationSinceUnixEpoch
  let now := Std.Time.PlainDateTime.ofWallTime (Std.Time.WallTime.ofDuration elapsed)
  let date := Calendar.Date.of? now.year.toInt now.month.val.toNat now.day.val.toNat
  let time := Calendar.TimeOfDay.of? now.hour.val.toNat now.minute.val.toNat now.second.val.toNat
    now.nanosecond.val.toNat
  match date, time with
  | some date, some time => return ⟨date, time⟩
  | _, _ => throw (IO.userError "the clock shows no date")

/-- Whether the system reports the error with the given number; some of its calls negate it. -/
def hasNumber (code number : UInt32) : Bool := code = number || code = -number

def readFault (error : IO.Error) : ReadFault :=
  match error with
  | .noFileOrDirectory .. => .notFound
  | .permissionDenied .. => .notPermitted
  | .invalidArgument _ code _ =>
    if hasNumber code 36 then .nameTooLong else .other (toString error)
  | .inappropriateType _ code _ =>
    if hasNumber code 20 then .notADirectory
    else if hasNumber code 21 then .isADirectory
    else .other (toString error)
  | _ => .other (toString error)

def readSystemFile (path : String) : IO (Except ReadFault ByteArray) := do
  try
    return .ok (← IO.FS.readBinFile path)
  catch error => return .error (readFault error)

def systemFileExists (path : String) : IO Bool := do
  match ← readSystemFile path with
  | .error .notFound | .error .notADirectory | .error .nameTooLong => return false
  | _ => return true

/-- All bytes of a stream. -/
partial def readStream (stream : IO.FS.Stream) (bytes : ByteArray) : IO ByteArray := do
  let chunk ← stream.read 65536
  if chunk.isEmpty then return bytes else readStream stream (bytes ++ chunk)

def readStandardInput : IO (Except ReadFault ByteArray) := do
  try
    return .ok (← readStream (← IO.getStdin) .empty)
  catch error => return .error (readFault error)

/-- The context file of the user, in the configuration directory. -/
def systemUserContext : IO (Option String) := do
  let configured := (← IO.getEnv "XDG_CONFIG_HOME").filter fun path => path.startsWith "/"
  let home := ((← IO.getEnv "HOME").filter fun path => path ≠ "").map fun path => path ++ "/.config"
  return (configured.or home).map fun directory => directory ++ "/dmt/" ++ localContext

def systemHost : IO (Host IO) := do
  return {
    fileBytes := readSystemFile
    fileExists := systemFileExists
    standardInput := readStandardInput
    userContext := ← systemUserContext
    clock := ← systemInstant }

end CommandLine
end MessageTemplate

open MessageTemplate in
def main (words : List String) : IO UInt32 := do
  let outcome ← CommandLine.run (← CommandLine.systemHost) words (← IO.getEnv "DMT_CONTEXT")
  IO.print outcome.output
  IO.eprint outcome.report
  return outcome.status
