import MessageTemplate.Source.Position

/-!
# Tokens

A template is read as a list of tokens, each with the place of its first
character. Words and literals keep the exact text they were written with; an
operator or punctuation mark is a `Symbol`, and its text is the symbol's
spelling. Reading never fails: a character that starts no token, and a string or
comment without its end, become tokens of their own.
-/

namespace MessageTemplate

/-- Operators, assignment marks and punctuation. -/
inductive Symbol
  | plus | minus | star | slash | percent | caret | bang | tilde | ampersand | pipe
  | doubleAmpersand | doublePipe | less | greater
  | assign | plusAssign
  | parenOpen | parenClose | braceOpen | braceClose | bracketOpen | bracketClose
  | comma | semicolon | colon | dot
deriving Repr, DecidableEq

namespace Symbol

/-- The characters a symbol is written with. -/
def letters : Symbol → List Char
  | plus => ['+']
  | minus => ['-']
  | star => ['*']
  | slash => ['/']
  | percent => ['%']
  | caret => ['^']
  | bang => ['!']
  | tilde => ['~']
  | ampersand => ['&']
  | pipe => ['|']
  | doubleAmpersand => ['&', '&']
  | doublePipe => ['|', '|']
  | less => ['<']
  | greater => ['>']
  | assign => ['=']
  | plusAssign => ['+', '=']
  | parenOpen => ['(']
  | parenClose => [')']
  | braceOpen => ['{']
  | braceClose => ['}']
  | bracketOpen => ['[']
  | bracketClose => [']']
  | comma => [',']
  | semicolon => [';']
  | colon => [':']
  | dot => ['.']

def spelling (symbol : Symbol) : String := String.ofList symbol.letters

/-- The symbol written with the single character `c`. -/
def ofChar? : Char → Option Symbol
  | '+' => some plus
  | '-' => some minus
  | '*' => some star
  | '/' => some slash
  | '%' => some percent
  | '^' => some caret
  | '!' => some bang
  | '~' => some tilde
  | '&' => some ampersand
  | '|' => some pipe
  | '<' => some less
  | '>' => some greater
  | '=' => some assign
  | '(' => some parenOpen
  | ')' => some parenClose
  | '{' => some braceOpen
  | '}' => some braceClose
  | '[' => some bracketOpen
  | ']' => some bracketClose
  | ',' => some comma
  | ';' => some semicolon
  | ':' => some colon
  | '.' => some dot
  | _ => none

/-- The symbol written with the two characters `c` and `d`. -/
def ofPair? : Char → Char → Option Symbol
  | '+', '=' => some plusAssign
  | '&', '&' => some doubleAmpersand
  | '|', '|' => some doublePipe
  | _, _ => none

theorem ofChar?_eq_some_iff {c : Char} {symbol : Symbol} :
    ofChar? c = some symbol ↔ symbol.letters = [c] := by
  constructor
  · intro h
    unfold ofChar? at h
    split at h <;> simp_all [letters] <;> subst h <;> rfl
  · intro h
    cases symbol <;> simp [letters] at h <;> subst h <;> rfl

theorem ofPair?_eq_some_iff {c d : Char} {symbol : Symbol} :
    ofPair? c d = some symbol ↔ symbol.letters = [c, d] := by
  constructor
  · intro h
    unfold ofPair? at h
    split at h <;> simp_all [letters] <;> subst h <;> rfl
  · intro h
    cases symbol <;> simp [letters] at h <;> obtain ⟨rfl, rfl⟩ := h <;> rfl

end Symbol

/-- What may be left open at the end of a text. -/
inductive Unfinished
  | stringLiteral | blockComment
deriving Repr, DecidableEq

namespace Unfinished

def name : Unfinished → String
  | stringLiteral => "string literal"
  | blockComment => "block comment"

end Unfinished

/-- The units of a template text. The literals and words hold their exact text. -/
inductive Token
  | number (raw : String)
  | string (raw : String)
  | hex (raw : String)
  | ident (raw : String)
  | symbol (symbol : Symbol)
  | unknown (c : Char)
  | unterminated (what : Unfinished)
  | endOfInput
deriving Repr, DecidableEq

namespace Token

/-- A token as it is named in a complaint about it. -/
def describe : Token → String
  | number raw | string raw | hex raw => s!"literal {raw}"
  | ident raw => s!"'{raw}'"
  | symbol mark => s!"'{mark.spelling}'"
  | unknown c => s!"unexpected character '{c}'"
  | unterminated what => s!"unterminated {what.name}"
  | endOfInput => "end of input"

end Token

/-- A token with the place of its first character. -/
structure Lexeme where
  token : Token
  position : Position
deriving Repr, DecidableEq

end MessageTemplate
