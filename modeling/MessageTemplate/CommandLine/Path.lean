/-!
# Paths

A path is a text whose parts are separated by slashes. Empty parts and single
dots lead nowhere, and two dots lead to the directory above. The last part that
is a name is the name of the file.
-/

namespace MessageTemplate
namespace CommandLine
namespace Path

/-- The texts between the slashes. There is one more of them than there are slashes. -/
def splitSlashes : List Char → List (List Char)
  | [] => [[]]
  | c :: rest =>
    match c, splitSlashes rest with
    | '/', parts => [] :: parts
    | c, [] => [[c]]
    | c, part :: parts => (c :: part) :: parts

def parts (path : String) : List String := (splitSlashes path.toList).map String.ofList

/-- Whether a path starts at the root. -/
def isAbsolute (path : String) : Bool := path.toList.head? = some '/'

/-- Whether a part leads nowhere. -/
def isStill (part : String) : Bool := part == "" || part == "."

/-- Whether a part leads to the directory above. -/
def isUpward (part : String) : Bool := part == ".."

/-- The name of the file that a path leads to. A path that ends on the way up has none. -/
def fileName? (path : String) : Option String :=
  ((parts path).filter fun part => !isStill part).getLast?.filter fun part => !isUpward part

/-- Whether a path is a name by itself. Slashes and dots behind the name do not count, but a dot in
front of it does. -/
def isBareName (name path : String) : Bool :=
  match parts path with
  | [] => false
  | first :: rest => first == name && rest.all isStill

end Path
end CommandLine
end MessageTemplate
