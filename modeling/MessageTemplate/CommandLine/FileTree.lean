import MessageTemplate.CommandLine.Run

/-!
# Files in memory

A tree of files as the surroundings of a run. A path is walked part by part, and
every part must lead on from a directory: a file that is not there stops the walk
even if the next part leads up again.
-/

namespace MessageTemplate
namespace CommandLine

/-- Files in memory, each by the names on the way to it from the root. Of two files in one place the
first counts. The places on the way to a file, and to the working directory, are directories. -/
structure FileTree where
  files : List (List String × ByteArray)
  workingDirectory : List String

namespace FileTree

/-- A tree with no files. -/
def empty (workingDirectory : List String) : FileTree := ⟨[], workingDirectory⟩

def file? (tree : FileTree) (place : List String) : Option ByteArray :=
  (tree.files.find? fun file => file.1 == place).map fun file => file.2

/-- Whether there is a file or a directory. -/
def isOccupied (tree : FileTree) (place : List String) : Bool :=
  place.isPrefixOf tree.workingDirectory || tree.files.any fun file => place.isPrefixOf file.1

/-- The place where a path starts. -/
def start (tree : FileTree) (path : String) : List String :=
  if Path.isAbsolute path then [] else tree.workingDirectory

/-- One part of a path, from the place of a directory. Above the root is the root. -/
def stepFrom (place : List String) (part : String) : List String :=
  if Path.isStill part then place
  else if Path.isUpward part then place.dropLast
  else place ++ [part]

/-- The number of bytes in a name is limited. -/
def longestName : Nat := 255

/-- The number of bytes in a path is limited. -/
def longestPath : Nat := 4095

/-- Walk the parts of a path, from a place that is occupied. -/
def walk (tree : FileTree) (place : List String) : List String → Except ReadFault (List String)
  | [] => .ok place
  | part :: rest =>
    if (tree.file? place).isSome then .error .notADirectory
    else if longestName < part.utf8ByteSize then .error .nameTooLong
    else if tree.isOccupied (stepFrom place part) then walk tree (stepFrom place part) rest
    else .error .notFound

/-- The place that a path leads to. -/
def locate (tree : FileTree) (path : String) : Except ReadFault (List String) :=
  if path = "" then .error .notFound
  else if longestPath < path.utf8ByteSize then .error .nameTooLong
  else tree.walk (tree.start path) (Path.parts path)

/-- The contents of the file that a path leads to. What is there without being a file is a
directory. -/
def fileBytes (tree : FileTree) (path : String) : Except ReadFault ByteArray := do
  match tree.file? (← tree.locate path) with
  | some bytes => return bytes
  | none => throw .isADirectory

def fileExists (tree : FileTree) (path : String) : Bool := (tree.locate path).isOk

/-- The place that a path leads to once the directories on the way to it have been made. -/
def destination (tree : FileTree) (path : String) : List String :=
  (Path.parts path).foldl stepFrom (tree.start path)

/-- Write a file, with the directories on the way to it. -/
def write (tree : FileTree) (path : String) (bytes : ByteArray) : FileTree :=
  { tree with files := (tree.destination path, bytes) :: tree.files }

/-- The tree as the surroundings of a run. -/
def host (tree : FileTree) (standardInput : ByteArray) (userContext : Option String)
    (clock : Calendar.Instant) : Host Id where
  fileBytes := tree.fileBytes
  fileExists := tree.fileExists
  standardInput := .ok standardInput
  userContext := userContext
  clock := clock

end FileTree
end CommandLine
end MessageTemplate
