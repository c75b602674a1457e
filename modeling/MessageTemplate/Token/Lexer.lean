import MessageTemplate.Text.Blank
import MessageTemplate.Token.Basic

/-!
# Reading tokens

The text in front of a token, its *gap*, consists of blanks and of comments:
`//` up to the line feed, and `/*` up to the next `*/`. A token is then as long
as it can be. Both steps give back the text that they pass over together with
what is left, so that no character is lost, and the place of the next token
follows from the text passed over.
-/

namespace MessageTemplate

/-- Put characters in front of the first part of a split text. -/
def prependSplit (front : List Char) (split : Option (List Char × List Char)) :
    Option (List Char × List Char) :=
  split.map fun parts => (front ++ parts.1, parts.2)

/-- Where a character of a gap stands. -/
inductive GapPlace
  | between | lineComment | blockComment
deriving Repr, DecidableEq

/-- Split off the blanks and comments in front of a text; `none` if a block comment has no end. -/
def splitGap : GapPlace → List Char → Option (List Char × List Char)
  | .between, '/' :: '/' :: rest => prependSplit ['/', '/'] (splitGap .lineComment rest)
  | .between, '/' :: '*' :: rest => prependSplit ['/', '*'] (splitGap .blockComment rest)
  | .between, c :: rest =>
    if isBlank c then prependSplit [c] (splitGap .between rest) else some ([], c :: rest)
  | .lineComment, c :: rest =>
    prependSplit [c] (splitGap (if c = '\n' then .between else .lineComment) rest)
  | .blockComment, '*' :: '/' :: rest => prependSplit ['*', '/'] (splitGap .between rest)
  | .blockComment, c :: rest => prependSplit [c] (splitGap .blockComment rest)
  | .blockComment, [] => none
  | _, [] => some ([], [])

def isWordStart (c : Char) : Bool := c.isAlpha || c == '_'

def isWordPart (c : Char) : Bool := c.isAlphanum || c == '_'

/-- Split off the rest of a string literal up to its closing quote. A backslash takes the next
character with it, whatever that is; `none` if the text ends first. -/
def splitString (quote : Char) : List Char → Option (List Char × List Char)
  | [] => none
  | '\\' :: c :: rest => prependSplit ['\\', c] (splitString quote rest)
  | c :: rest => if c = quote then some ([c], rest) else prependSplit [c] (splitString quote rest)

/-- Split off the fraction of a number: a point counts only with a digit behind it. -/
def splitFraction : List Char → List Char × List Char
  | '.' :: d :: rest =>
    if d.isDigit then ('.' :: d :: rest.takeWhile Char.isDigit, rest.dropWhile Char.isDigit)
    else ([], '.' :: d :: rest)
  | text => ([], text)

/-- A token in front of a text: the token, the characters it consists of, and the text behind it. -/
structure Scan where
  token : Token
  text : List Char
  rest : List Char
deriving Repr, DecidableEq

namespace Scan

/-- The token that holds the characters `front` and all those behind it that satisfy `p`. -/
def run (kind : String → Token) (p : Char → Bool) (front rest : List Char) : Scan :=
  let text := front ++ rest.takeWhile p
  ⟨kind (String.ofList text), text, rest.dropWhile p⟩

/-- A literal that starts with the digit `d`. -/
def number (d : Char) (rest : List Char) : Scan :=
  let digits := d :: rest.takeWhile Char.isDigit
  let fraction := splitFraction (rest.dropWhile Char.isDigit)
  let text := digits ++ fraction.1
  ⟨.number (String.ofList text), text, fraction.2⟩

/-- An operator or punctuation mark, the longest that fits. -/
def mark (c : Char) (rest : List Char) : Scan :=
  match rest.head?.bind (Symbol.ofPair? c) with
  | some symbol => ⟨.symbol symbol, symbol.letters, rest.tail⟩
  | none =>
    match Symbol.ofChar? c with
    | some symbol => ⟨.symbol symbol, [c], rest⟩
    | none => ⟨.unknown c, [c], rest⟩

end Scan

/-- The token that starts with `c` and goes on in `rest`; `none` if it is a string without end. -/
def scanToken (c : Char) (rest : List Char) : Option Scan :=
  if c.isDigit then
    match c, rest with
    | '0', 'x' :: rest => some (.run .hex Char.isAlphanum ['0', 'x'] rest)
    | c, rest => some (.number c rest)
  else if c = '"' ∨ c = '\'' then
    (splitString c rest).map fun parts =>
      ⟨.string (String.ofList (c :: parts.1)), c :: parts.1, parts.2⟩
  else if c = '#' then some (.run .hex Char.isAlphanum ['#'] rest)
  else if isWordStart c then some (.run .ident isWordPart [c] rest)
  else some (.mark c rest)

theorem prependSplit_eq_some {front : List Char} {split : Option (List Char × List Char)}
    {first second : List Char} (h : prependSplit front split = some (first, second)) :
    ∃ body, split = some (body, second) ∧ first = front ++ body := by
  obtain ⟨⟨body, rest⟩, hsplit, heq⟩ := Option.map_eq_some_iff.1 h
  cases heq
  exact ⟨body, hsplit, rfl⟩

/-- The gap and what follows it make up the text. -/
theorem splitGap_append {place : GapPlace} {source gap rest : List Char}
    (h : splitGap place source = some (gap, rest)) : gap ++ rest = source := by
  fun_induction splitGap place source generalizing gap rest with
  | case3 c source h1 h2 hblank ih =>
    obtain ⟨body, hbody, rfl⟩ := prependSplit_eq_some h
    simp [ih hbody]
  | case4 c source h1 h2 hblank => simp_all
  | case8 => simp at h
  | case9 => simp_all
  | _ =>
    rename_i ih
    obtain ⟨body, hbody, rfl⟩ := prependSplit_eq_some h
    simp [ih hbody]

theorem splitString_append {quote : Char} {source body rest : List Char}
    (h : splitString quote source = some (body, rest)) : body ++ rest = source := by
  fun_induction splitString quote source generalizing body rest with
  | case1 => simp at h
  | case3 => cases h; rfl
  | _ =>
    rename_i ih
    obtain ⟨text, htext, rfl⟩ := prependSplit_eq_some h
    simp [ih htext]

theorem splitFraction_append (source : List Char) :
    (splitFraction source).1 ++ (splitFraction source).2 = source := by
  unfold splitFraction
  split
  · split <;> simp
  · rfl

theorem Scan.mark_append (c : Char) (rest : List Char) :
    (Scan.mark c rest).text ++ (Scan.mark c rest).rest = c :: rest := by
  unfold Scan.mark
  split
  · rename_i symbol h
    cases rest with
    | nil => simp at h
    | cons d rest =>
      have : symbol.letters = [c, d] := Symbol.ofPair?_eq_some_iff.1 (by simpa using h)
      simp [this]
  · split <;> simp

/-- The characters of a token and what follows it make up the text. -/
theorem scanToken_append {c : Char} {rest : List Char} {scan : Scan}
    (h : scanToken c rest = some scan) : scan.text ++ scan.rest = c :: rest := by
  unfold scanToken at h
  split at h
  · split at h <;> cases h
    · simp [Scan.run]
    · rename_i digit _ _
      simp [Scan.number, splitFraction_append]
  · split at h
    · obtain ⟨⟨body, tail⟩, hsplit, rfl⟩ := Option.map_eq_some_iff.1 h
      simp [splitString_append hsplit]
    · split at h
      · rename_i hash
        subst hash
        cases h
        simp [Scan.run]
      · split at h <;> cases h
        · simp [Scan.run]
        · exact Scan.mark_append c rest

theorem Scan.mark_text_ne_nil (c : Char) (rest : List Char) : (Scan.mark c rest).text ≠ [] := by
  unfold Scan.mark
  split
  · rename_i symbol _
    cases symbol <;> simp [Symbol.letters]
  · split <;> simp

/-- A token has at least one character. -/
theorem scanToken_text_ne_nil {c : Char} {rest : List Char} {scan : Scan}
    (h : scanToken c rest = some scan) : scan.text ≠ [] := by
  unfold scanToken at h
  split at h
  · split at h <;> cases h <;> simp [Scan.run, Scan.number]
  · split at h
    · obtain ⟨parts, _, rfl⟩ := Option.map_eq_some_iff.1 h
      simp
    · split at h
      · cases h
        simp [Scan.run]
      · split at h <;> cases h
        · simp [Scan.run]
        · exact Scan.mark_text_ne_nil c rest

theorem length_rest_lt {source gap rest : List Char} {c : Char} {scan : Scan}
    (hgap : splitGap .between source = some (gap, c :: rest))
    (hscan : scanToken c rest = some scan) : scan.rest.length < source.length := by
  have hsource := congrArg List.length (splitGap_append hgap)
  have htoken := congrArg List.length (scanToken_append hscan)
  have hpos := List.length_pos_iff.2 (scanToken_text_ne_nil hscan)
  simp only [List.length_append, List.length_cons] at hsource htoken
  omega

/-- The tokens of `source`, whose first character stands at `position`. The last one is the end of
the input or what is left open there; a comment without end has no token after it, and is reported
at the end of the text. -/
def lexemesFrom (position : Position) (source : List Char) : List Lexeme :=
  match _hgap : splitGap .between source with
  | none => [⟨.unterminated .blockComment, position.advance source⟩]
  | some (gap, []) => [⟨.endOfInput, position.advance gap⟩]
  | some (gap, c :: rest) =>
    let here := position.advance gap
    match _hscan : scanToken c rest with
    | none => [⟨.unterminated .stringLiteral, here⟩]
    | some scan => ⟨scan.token, here⟩ :: lexemesFrom (here.advance scan.text) scan.rest
termination_by source.length
decreasing_by exact length_rest_lt _hgap _hscan

/-- The tokens of a template text. -/
def lexemes (source : String) : List Lexeme := lexemesFrom .start source.toList

end MessageTemplate
