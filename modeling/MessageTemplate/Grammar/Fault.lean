import MessageTemplate.Grammar.Keyword
import MessageTemplate.Token.Basic

/-!
# Faults of a template's form

Reading stops at the first token that no rule of the grammar admits. A fault
says what was needed there, or which rule about names was broken.
-/

namespace MessageTemplate

/-- What a name stands for. -/
inductive NameRole
  | constant | function | parameter | loopVariable | assigned
deriving Repr, DecidableEq

namespace NameRole

def describe : NameRole → String
  | constant => "constant name"
  | function => "function name"
  | parameter => "parameter name"
  | loopVariable => "loop variable"
  | assigned => "variable name"

end NameRole

/-- What the grammar needs at some place. -/
inductive Expectation
  | symbol (symbol : Symbol)
  | keyword (keyword : Keyword)
  | name (role : NameRole)
  | propertyName
  | boolean
  | writeMode
  | expression
deriving Repr, DecidableEq

namespace Expectation

def describe : Expectation → String
  | symbol mark => (Token.symbol mark).describe
  | keyword reserved => s!"'{reserved.word}'"
  | name role => role.describe
  | propertyName => "property name"
  | boolean => "'true' or 'false'"
  | writeMode => "'=' or '+='"
  | expression => "expression"

end Expectation

/-- The things whose properties have names. -/
inductive PropertyOwner
  | embed | author | footer | field
deriving Repr, DecidableEq

namespace PropertyOwner

def name : PropertyOwner → String
  | embed => "embed"
  | author => "author"
  | footer => "footer"
  | field => "field"

end PropertyOwner

inductive SyntaxFault
  /-- Some token stands where another is needed. -/
  | expected (what : Expectation) (found : Token)
  /-- A reserved word stands where a name is needed. -/
  | reserved (word : String)
  /-- A constant is declared inside a statement. -/
  | nestedConstant
  | unknownProperty (owner : PropertyOwner) (name : String)
  /-- An expression would start with a token that no template contains. -/
  | stray (found : Token)
deriving Repr, DecidableEq

namespace SyntaxFault

def message : SyntaxFault → String
  | expected what found => s!"expected {what.describe}, found {found.describe}"
  | reserved word => s!"'{word}' is a reserved keyword"
  | nestedConstant => "constants may only be declared at the top level"
  | unknownProperty owner name => s!"unknown {owner.name} property '{name}'"
  | stray found => found.describe

instance : ToString SyntaxFault := ⟨message⟩

end SyntaxFault

/-- A fault with the place of the token that it concerns. -/
structure SyntaxError where
  fault : SyntaxFault
  position : Position
deriving Repr, DecidableEq

end MessageTemplate
