/-!
# Places in a text

A `Position` counts lines from one and columns from zero; a column is a number
of characters. Only a line feed ends a line. A `Location` adds the label of the
text, so that places in different texts can be told apart.
-/

namespace MessageTemplate

/-- A place in a text. -/
structure Position where
  line : Nat
  column : Nat
deriving Repr, DecidableEq

namespace Position

/-- The first character of a text. -/
def start : Position := ⟨1, 0⟩

instance : Inhabited Position := ⟨start⟩

/-- The place after the character `c`. -/
def step (position : Position) (c : Char) : Position :=
  if c = '\n' then ⟨position.line + 1, 0⟩ else ⟨position.line, position.column + 1⟩

/-- The place after a whole piece of text. -/
def advance (position : Position) (text : List Char) : Position :=
  text.foldl step position

@[simp] theorem advance_nil (position : Position) : position.advance [] = position := rfl

@[simp] theorem advance_cons (position : Position) (c : Char) (text : List Char) :
    position.advance (c :: text) = (position.step c).advance text := rfl

end Position

/-- A place in the text with the label `file`. -/
structure Location where
  file : String
  position : Position
deriving Repr, DecidableEq

namespace Location

def text (location : Location) : String :=
  s!"file {location.file} in line {location.position.line}:{location.position.column}"

end Location
end MessageTemplate
