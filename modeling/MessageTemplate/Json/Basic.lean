/-!
# JSON values

An integer that is written without point and exponent is kept exactly; every
other number is double-precision.
-/

namespace MessageTemplate

inductive Json
  | null
  | bool (value : Bool)
  | integer (value : Int)
  | real (value : Float)
  | string (value : String)
  | array (items : List Json)
  | object (members : List (String × Json))

namespace Json

def isNull : Json → Bool
  | null => true
  | _ => false

mutual

/-- Leave out the members of objects that are null, at every depth. Items of arrays stay. -/
def dropNulls : Json → Json
  | array items => array (dropNullsAll items)
  | object members => object (dropNullMembers members)
  | json => json

def dropNullsAll : List Json → List Json
  | [] => []
  | item :: rest => item.dropNulls :: dropNullsAll rest

def dropNullMembers : List (String × Json) → List (String × Json)
  | [] => []
  | (key, value) :: rest =>
    if value.isNull then dropNullMembers rest else (key, value.dropNulls) :: dropNullMembers rest

end

end Json
end MessageTemplate
