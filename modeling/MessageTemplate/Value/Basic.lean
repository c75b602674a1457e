import MessageTemplate.Calendar.Instant

/-!
# Values

The values that expressions compute. Integers have 64 bits and come from
marked literals and from operators on bits; all other numbers are
double-precision. The entries of a map stand in increasing order of their keys.
-/

namespace MessageTemplate

inductive Value
  | null
  | bool (value : Bool)
  | number (value : Float)
  | integer (value : Int64)
  | string (value : String)
  | list (items : List Value)
  | map (entries : List (String × Value))
  | instant (value : Calendar.Instant)

/-- The kinds of value, as complaints name them. -/
inductive Kind
  | null | bool | number | integer | string | list | map | instant
deriving Repr, DecidableEq

namespace Kind

def name : Kind → String
  | null => "null"
  | bool => "bool"
  | number => "number"
  | integer => "integer"
  | string => "string"
  | list => "list"
  | map => "map"
  | instant => "datetime"

end Kind

namespace Value

instance : Inhabited Value := ⟨null⟩

def kind : Value → Kind
  | null => .null
  | bool _ => .bool
  | number _ => .number
  | integer _ => .integer
  | string _ => .string
  | list _ => .list
  | map _ => .map
  | instant _ => .instant

end Value
end MessageTemplate
