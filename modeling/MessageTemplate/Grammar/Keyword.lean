/-!
# Reserved words

These words name no variable, function, parameter or constant. The names of
embed properties are not among them.
-/

namespace MessageTemplate

inductive Keyword
  | constant | function | result | branch | otherwise | forLoop | foreach | among
  | whileLoop | doLoop | truth | falsity | text | attachment | embed | inline
deriving Repr, DecidableEq

namespace Keyword

def word : Keyword → String
  | constant => "const"
  | function => "function"
  | result => "return"
  | branch => "if"
  | otherwise => "else"
  | forLoop => "for"
  | foreach => "foreach"
  | among => "in"
  | whileLoop => "while"
  | doLoop => "do"
  | truth => "true"
  | falsity => "false"
  | text => "text"
  | attachment => "attachment"
  | embed => "embed"
  | inline => "inline"

def all : List Keyword :=
  [constant, function, result, branch, otherwise, forLoop, foreach, among,
    whileLoop, doLoop, truth, falsity, text, attachment, embed, inline]

/-- The reserved word spelled `word`. -/
def ofWord? (word : String) : Option Keyword := all.find? fun keyword => keyword.word == word

theorem word_of_ofWord? {word : String} {keyword : Keyword} (h : ofWord? word = some keyword) :
    keyword.word = word := by
  simpa using List.find?_some h

@[simp] theorem ofWord?_word (keyword : Keyword) : ofWord? keyword.word = some keyword := by
  cases keyword <;> decide

end Keyword
end MessageTemplate
