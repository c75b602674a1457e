import MessageTemplate.Calendar.Text
import MessageTemplate.Decimal.Shortest
import MessageTemplate.Value.Basic

/-!
# Values as text

The text of a value in a message and in concatenations. The null value has no
text of its own: it is empty inside other texts, and a message member that is
set to it is left alone (`text?`).
-/

namespace MessageTemplate
namespace Value

def boolText (value : Bool) : String := if value then "true" else "false"

def integerText (value : Int64) : String := String.ofList (Decimal.intDigits value.toInt)

mutual

/-- The text of a value inside another text. -/
def text : Value → String
  | null => ""
  | bool value => boolText value
  | number value => Decimal.text value
  | integer value => integerText value
  | string value => value
  | list items => "[" ++ ", ".intercalate (itemTexts items) ++ "]"
  | map entries => "\x7b" ++ ", ".intercalate (entryTexts entries) ++ "\x7d"
  | instant value => value.text .zero

def itemTexts : List Value → List String
  | [] => []
  | item :: rest => item.text :: itemTexts rest

def entryTexts : List (String × Value) → List String
  | [] => []
  | (key, value) :: rest => (key ++ ": " ++ value.text) :: entryTexts rest

end

/-- The text that a value puts into a message, unless it is null. -/
def text? : Value → Option String
  | null => none
  | value => some value.text

end Value
end MessageTemplate
