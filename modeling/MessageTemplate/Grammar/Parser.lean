import MessageTemplate.Grammar.Fault

/-!
# Reading a list of tokens

A parser takes tokens off the front of a list. Every list of tokens that comes
from a text ends with a token that no rule takes, so the rules never see the
empty list; there they answer as at the end of the input.

Rules that repeat do so once for each token at most. The number of tokens in
front of such a rule bounds its rounds, and since every round takes a token the
bound is never what ends it.
-/

namespace MessageTemplate

abbrev Parser := StateT (List Lexeme) (Except SyntaxError)

namespace Parser

variable {α : Type}

/-- The token in front. -/
def peek : Parser Token := do
  return ((← get).head?.map Lexeme.token).getD .endOfInput

/-- The place of the token in front. -/
def here : Parser Position := do
  return ((← get).head?.map Lexeme.position).getD .start

/-- Take the token in front. -/
def skip : Parser Unit := modify List.tail

def failAt (position : Position) (fault : SyntaxFault) : Parser α := throw ⟨fault, position⟩

/-- Refuse the token in front. -/
def fail (fault : SyntaxFault) : Parser α := do failAt (← here) fault

/-- Refuse the token in front because something else is needed. -/
def failExpecting (what : Expectation) : Parser α := do fail (.expected what (← peek))

/-- Take the token `token` if it is in front. -/
def accept (token : Token) : Parser Bool := do
  if (← peek) = token then
    skip
    return true
  else return false

/-- Take the given symbol, which must be in front. -/
def require (symbol : Symbol) : Parser Unit := do
  unless (← accept (.symbol symbol)) do failExpecting (.symbol symbol)

/-- Take the given reserved word, which must be in front. -/
def requireWord (keyword : Keyword) : Parser Unit := do
  unless (← accept (.ident keyword.word)) do failExpecting (.keyword keyword)

/-- Take a word that is not reserved. -/
def name (role : NameRole) : Parser String := do
  match ← peek with
  | .ident word =>
    match Keyword.ofWord? word with
    | some _ => fail (.reserved word)
    | none =>
      skip
      return word
  | _ => failExpecting (.name role)

/-- Take a word, reserved or not. -/
def propertyName : Parser String := do
  match ← peek with
  | .ident word =>
    skip
    return word
  | _ => failExpecting .propertyName

def boolean : Parser Bool := do
  if ← accept (.ident Keyword.truth.word) then return true
  else if ← accept (.ident Keyword.falsity.word) then return false
  else failExpecting .boolean

/-- Run a rule with a bound on its rounds: more than there are tokens. -/
def bounded (rule : Nat → Parser α) : Parser α := do
  rule ((← get).length + 1)

/-- One item and further ones, each after a comma. -/
def commaSeparatedWithin (item : Parser α) : Nat → Parser (List α)
  | 0 => return []
  | rounds + 1 => do
    let first ← item
    if ← accept (.symbol .comma) then
      return first :: (← commaSeparatedWithin item rounds)
    else return [first]

def commaSeparated (item : Parser α) : Parser (List α) := bounded (commaSeparatedWithin item)

/-- Items separated by commas, maybe none, up to the symbol `close`, which is taken. -/
def listUntil (item : Parser α) (close : Symbol) : Parser (List α) := do
  if ← accept (.symbol close) then return []
  else
    let items ← commaSeparated item
    require close
    return items

/-- Items up to a closing brace, which is taken. -/
def untilBraceWithin (item : Parser α) : Nat → Parser (List α)
  | 0 => return []
  | rounds + 1 => do
    match ← peek with
    | .symbol .braceClose =>
      skip
      return []
    | .endOfInput => failExpecting (.symbol .braceClose)
    | _ =>
      let first ← item
      return first :: (← untilBraceWithin item rounds)

def untilBrace (item : Parser α) : Parser (List α) := bounded (untilBraceWithin item)

/-- Items up to the end of the input. -/
def untilEndWithin (item : Parser α) : Nat → Parser (List α)
  | 0 => return []
  | rounds + 1 => do
    if (← peek) = .endOfInput then return []
    else
      let first ← item
      return first :: (← untilEndWithin item rounds)

def untilEnd (item : Parser α) : Parser (List α) := bounded (untilEndWithin item)

/-- The entries of an object: a property name, a colon and what `entry` reads for it. The last entry
may have a comma behind it. -/
def entriesWithin (entry : Position → String → Parser α) : Nat → Parser (List α)
  | 0 => return []
  | rounds + 1 => do
    if (← peek) = .symbol .braceClose then return []
    else
      let place ← here
      let key ← propertyName
      require .colon
      let first ← entry place key
      if ← accept (.symbol .comma) then
        return first :: (← entriesWithin entry rounds)
      else return [first]

/-- An object between braces. -/
def object (entry : Position → String → Parser α) : Parser (List α) := do
  require .braceOpen
  let entries ← bounded (entriesWithin entry)
  require .braceClose
  return entries

end Parser
end MessageTemplate
