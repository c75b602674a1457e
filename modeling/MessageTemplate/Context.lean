import MessageTemplate.Json.Reader
import MessageTemplate.Table
import MessageTemplate.Value.Basic

/-!
# Contexts

A context is a JSON object whose members become the constants of a template.
All its numbers are double-precision. Of members with the same key the last one
counts.
-/

namespace MessageTemplate

mutual

def Value.ofJson : Json → Value
  | .null => .null
  | .bool value => .bool value
  | .integer value => .number (Float.ofInt value)
  | .real value => .number value
  | .string value => .string value
  | .array items => .list (Value.ofJsonItems items)
  | .object members => .map (Table.ofList (Value.ofJsonMembers members)).entries

def Value.ofJsonItems : List Json → List Value
  | [] => []
  | item :: rest => Value.ofJson item :: Value.ofJsonItems rest

def Value.ofJsonMembers : List (String × Json) → List (String × Value)
  | [] => []
  | (key, value) :: rest => (key, Value.ofJson value) :: Value.ofJsonMembers rest

end

/-- The kinds of JSON value, as complaints name them. -/
def Json.kindName : Json → String
  | .null => "null"
  | .bool _ => "bool"
  | .integer _ | .real _ => "number"
  | .string _ => "string"
  | .array _ => "array"
  | .object _ => "object"

/-- Why a text is not a context. -/
inductive ContextFault
  | invalidJson
  | notAnObject (found : String)
deriving Repr, DecidableEq

/-- The constants of a context text. -/
def constantsOfText (text : String) : Except ContextFault (Table Value) :=
  match Json.ofText? text with
  | none => .error .invalidJson
  | some (.object members) => .ok (.ofList (Value.ofJsonMembers members))
  | some json => .error (.notAnObject json.kindName)

end MessageTemplate
