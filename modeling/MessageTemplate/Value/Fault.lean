import MessageTemplate.Calendar.Reading
import MessageTemplate.Decimal.Digits
import MessageTemplate.Diagnostic
import MessageTemplate.Value.Basic

/-!
# Causes of failure while a template runs
-/

namespace MessageTemplate

/-- Members of a message that cannot be null when they are written in order. -/
inductive RequiredMember
  | authorName | footerText | fieldTitle | fieldText
deriving Repr, DecidableEq

namespace RequiredMember

def name : RequiredMember → String
  | authorName => "embed.author.name"
  | footerText => "embed.footer.text"
  | fieldTitle => "embed.field.title"
  | fieldText => "embed.field.text"

end RequiredMember

inductive RuntimeFault
  /-- A value of one kind stands where another kind is needed. -/
  | coercion (found target : Kind)
  | undefinedVariable (name : String)
  | undefinedFunction (name : String)
  | notEnoughArguments (expected got : Nat)
  /-- A loop over the null value. -/
  | nullIterable
  /-- A loop over something that is not a list. -/
  | notEnumerable (found : Kind)
  | missing (member : RequiredMember)
  | timestamp (text : String) (fault : Calendar.TimestampFault)
deriving Repr, DecidableEq

namespace RuntimeFault

def natText (n : Nat) : String := String.ofList (Decimal.digits n)

def message : RuntimeFault → String
  | coercion found target => s!"cannot coerce {found.name} to {target.name}"
  | undefinedVariable name => s!"variable '{name}' is undefined"
  | undefinedFunction name => s!"function '{name}' is undefined"
  | notEnoughArguments expected got =>
    s!"not enough arguments; expected {natText expected}, got {natText got}"
  | nullIterable => "foreach target is null"
  | notEnumerable found => s!"value of type {found.name} is not enumerable"
  | missing member => s!"missing {member.name}"
  | timestamp text fault => s!"invalid timestamp '{text}': {fault.message}"

instance : ToString RuntimeFault := ⟨message⟩

end RuntimeFault

abbrev RuntimeError := Diagnostic RuntimeFault

end MessageTemplate
