import Mathlib.Computability.Language
import MessageTemplate.Proofs.Token.Spelling

/-!
# The shapes of tokens

The texts of each kind of token are a regular language, which is written down
here without a word about reading. A token that is read has the shape of its
kind, and every row of tokens that have their shapes is read back from its text
(`reading_undoes_spelling`).
-/

namespace MessageTemplate

open scoped Computability

/-! ## Shapes -/

namespace Shape

/-- Single characters of a class. -/
def one (p : Char → Prop) : Language Char := {text | ∃ c, text = [c] ∧ p c}

/-- The characters from `low` to `high`. -/
def range (low high : Char) : Language Char := one fun c => low ≤ c ∧ c ≤ high

def digit : Language Char := range '0' '9'

def letter : Language Char := range 'A' 'Z' + range 'a' 'z'

/-- Digits, and a point with digits behind it if there is a fraction. -/
def number : Language Char := digit * digit∗ * (1 + {['.']} * (digit * digit∗))

/-- A mark with letters and digits behind it. -/
def hex : Language Char := ({['#']} + {['0', 'x']}) * (letter + digit)∗

def word : Language Char := (letter + {['_']}) * (letter + digit + {['_']})∗

/-- What stands between two quotes: characters other than the quote and the backslash, and
backslashes with any character behind them. -/
def body (quote : Char) : Language Char :=
  (one (fun c => c ≠ quote ∧ c ≠ '\\') + {['\\']} * one fun _ => True)∗

def string : Language Char :=
  {['"']} * body '"' * {['"']} + {['\'']} * body '\'' * {['\'']}

end Shape

namespace Token

/-- The texts of the tokens of the same kind; what belongs to no template has none. -/
def shape : Token → Language Char
  | number _ => Shape.number
  | string _ => Shape.string
  | hex _ => Shape.hex
  | ident _ => Shape.word
  | symbol mark => {mark.letters}
  | unknown _ | unterminated _ | endOfInput => 0

/-- The token is written as its kind demands. -/
def HasShape (token : Token) : Prop := token.letters ∈ token.shape

end Token

/-! ## Classes of characters -/

namespace Shape

variable {text : List Char}

theorem mem_just {other : List Char} : text ∈ ({other} : Language Char) ↔ text = other := Iff.rfl

theorem mem_one {p : Char → Prop} : text ∈ one p ↔ ∃ c, text = [c] ∧ p c := Iff.rfl

theorem one_add_one (p q : Char → Prop) : one p + one q = one fun c => p c ∨ q c := by
  ext text
  rw [Language.mem_add, mem_one, mem_one, mem_one, ← exists_or]
  exact exists_congr fun c => and_or_left.symm

theorem just_eq_one (c : Char) : ({[c]} : Language Char) = one (· = c) := by
  ext text
  simp [mem_just, mem_one]

theorem mem_one_kstar {p : Char → Prop} : text ∈ (one p)∗ ↔ ∀ c ∈ text, p c := by
  rw [Language.mem_kstar]
  constructor
  · rintro ⟨parts, rfl, hparts⟩ c hc
    obtain ⟨part, hpart, hc⟩ := List.mem_flatten.1 hc
    obtain ⟨d, rfl, hd⟩ := hparts part hpart
    rwa [List.mem_singleton.1 hc]
  · intro htext
    refine ⟨text.map fun c => [c], by simp [List.flatten_eq_flatMap, List.flatMap_map], ?_⟩
    rw [List.forall_mem_map]
    exact fun c hc => ⟨c, rfl, htext c hc⟩

/-- A character of one class with any number of another behind it. -/
theorem mem_one_mul_kstar {p q : Char → Prop} :
    text ∈ one p * (one q)∗ ↔ ∃ c rest, text = c :: rest ∧ p c ∧ ∀ d ∈ rest, q d := by
  simp only [Language.mem_mul, mem_one, mem_one_kstar]
  constructor
  · rintro ⟨_, ⟨c, rfl, hc⟩, rest, hrest, rfl⟩
    exact ⟨c, rest, rfl, hc, hrest⟩
  · rintro ⟨c, rest, rfl, hc, hrest⟩
    exact ⟨[c], ⟨c, rfl, hc⟩, rest, hrest, rfl⟩

theorem isDigit_iff (c : Char) : c.isDigit = true ↔ '0' ≤ c ∧ c ≤ '9' := by
  simp [Char.isDigit, Char.le_def]

theorem isAlpha_iff (c : Char) :
    c.isAlpha = true ↔ ('A' ≤ c ∧ c ≤ 'Z') ∨ ('a' ≤ c ∧ c ≤ 'z') := by
  simp [isAlpha_eq, Char.le_def]

theorem digit_eq : digit = one fun c => c.isDigit = true := by
  simp only [isDigit_iff]
  rfl

theorem letter_eq : letter = one fun c => c.isAlpha = true := by
  simp only [isAlpha_iff, letter, range, one_add_one]

theorem letter_add_digit : letter + digit = one fun c => c.isAlphanum = true := by
  simp only [letter_eq, digit_eq, one_add_one, Char.isAlphanum, Bool.or_eq_true]

theorem wordStart_eq : letter + {['_']} = one fun c => isWordStart c = true := by
  simp only [letter_eq, just_eq_one, one_add_one, isWordStart, Bool.or_eq_true, beq_iff_eq]

theorem wordPart_eq : letter + digit + {['_']} = one fun c => isWordPart c = true := by
  simp only [letter_add_digit, just_eq_one, one_add_one, isWordPart, Bool.or_eq_true, beq_iff_eq]

/-! ## The texts of each kind -/

theorem mem_digits : text ∈ digit * digit∗ ↔ text ≠ [] ∧ ∀ c ∈ text, c.isDigit = true := by
  rw [digit_eq, mem_one_mul_kstar]
  constructor
  · rintro ⟨c, rest, rfl, hc, hrest⟩
    exact ⟨by simp, List.forall_mem_cons.2 ⟨hc, hrest⟩⟩
  · rintro ⟨hne, htext⟩
    obtain ⟨c, rest, rfl⟩ := List.exists_cons_of_ne_nil hne
    obtain ⟨hc, hrest⟩ := List.forall_mem_cons.1 htext
    exact ⟨c, rest, rfl, hc, hrest⟩

theorem mem_number {raw : String} :
    raw.toList ∈ number ↔ Spelled (.number raw) raw.toList := by
  constructor
  · intro h
    obtain ⟨digits, hdigits, fraction, hfraction, hraw⟩ := Language.mem_mul.1 h
    obtain ⟨hne, hdigits⟩ := mem_digits.1 hdigits
    rw [← raw.ofList_toList, String.toList_ofList, ← hraw]
    rcases hfraction with rfl | hfraction
    · rw [List.append_nil]
      exact .whole hne hdigits
    · obtain ⟨_, rfl, part, hpart, rfl⟩ := Language.mem_mul.1 hfraction
      obtain ⟨hpartNe, hpart⟩ := mem_digits.1 hpart
      exact .decimal hne hdigits hpartNe hpart
  · intro h
    generalize raw.toList = text at h ⊢
    cases h with
    | whole hne hdigits =>
      rw [← text.append_nil]
      exact Language.append_mem_mul (mem_digits.2 ⟨hne, hdigits⟩) (.inl rfl)
    | decimal hne hdigits hpartNe hpart =>
      refine Language.append_mem_mul (mem_digits.2 ⟨hne, hdigits⟩) (.inr ?_)
      exact Language.append_mem_mul (a := ['.']) rfl (mem_digits.2 ⟨hpartNe, hpart⟩)

theorem mem_hex {raw : String} : raw.toList ∈ hex ↔ Spelled (.hex raw) raw.toList := by
  have hclass : ∀ text, text ∈ (letter + digit)∗ ↔ ∀ c ∈ text, c.isAlphanum = true := by
    intro text
    rw [letter_add_digit, mem_one_kstar]
  constructor
  · intro h
    obtain ⟨mark, hmark, body, hbody, hraw⟩ := Language.mem_mul.1 h
    rw [← raw.ofList_toList, String.toList_ofList, ← hraw]
    rcases hmark with rfl | rfl
    · exact .hash ((hclass body).1 hbody)
    · exact .hex ((hclass body).1 hbody)
  · intro h
    generalize raw.toList = text at h ⊢
    cases h with
    | hash hbody =>
      exact Language.append_mem_mul (a := ['#']) (.inl rfl) ((hclass _).2 hbody)
    | hex hbody =>
      exact Language.append_mem_mul (a := ['0', 'x']) (.inr rfl) ((hclass _).2 hbody)

theorem mem_word {raw : String} : raw.toList ∈ word ↔ Spelled (.ident raw) raw.toList := by
  rw [word, wordStart_eq, wordPart_eq, mem_one_mul_kstar]
  constructor
  · rintro ⟨c, rest, hraw, hc, hrest⟩
    rw [← raw.ofList_toList, String.toList_ofList, hraw]
    exact .word hc hrest
  · intro h
    generalize raw.toList = text at h ⊢
    cases h with
    | word hc hrest => exact ⟨_, _, rfl, hc, hrest⟩

/-- A unit in front of what stands between two quotes. -/
theorem append_mem_body {quote : Char} (front : List Char) {text : List Char}
    (hfront : front ∈ one (fun c => c ≠ quote ∧ c ≠ '\\') + {['\\']} * one fun _ => True)
    (htext : text ∈ body quote) : front ++ text ∈ body quote := by
  obtain ⟨parts, rfl, hparts⟩ := Language.mem_kstar.1 htext
  exact Language.join_mem_kstar (L := front :: parts) (List.forall_mem_cons.2 ⟨hfront, hparts⟩)

theorem mem_body {quote : Char} {text : List Char} : text ∈ body quote ↔ Quoted quote text := by
  constructor
  · intro h
    obtain ⟨parts, rfl, hparts⟩ := Language.mem_kstar.1 h
    clear h
    induction parts with
    | nil => exact .nil
    | cons part parts ih =>
      obtain ⟨hpart, hparts⟩ := List.forall_mem_cons.1 hparts
      have hrest := ih hparts
      rcases hpart with ⟨c, rfl, hquote, hescape⟩ | hpart
      · exact .char hescape hquote hrest
      · obtain ⟨_, rfl, _, ⟨c, rfl, -⟩, rfl⟩ := Language.mem_mul.1 hpart
        exact .escape c hrest
  · intro h
    induction h with
    | nil => exact Language.nil_mem_kstar _
    | escape c _ ih =>
      refine append_mem_body ['\\', c] (.inr ?_) ih
      exact Language.append_mem_mul (a := ['\\']) rfl ⟨c, rfl, trivial⟩
    | @char c _ hescape hquote _ ih =>
      exact append_mem_body [c] (.inl ⟨c, rfl, hquote, hescape⟩) ih

/-- A text between two quotes. -/
theorem mem_between {quote : Char} {text : List Char} :
    text ∈ ({[quote]} : Language Char) * body quote * {[quote]} ↔
      ∃ inside, text = quote :: (inside ++ [quote]) ∧ Quoted quote inside := by
  constructor
  · intro h
    obtain ⟨_, hfront, _, rfl, rfl⟩ := Language.mem_mul.1 h
    obtain ⟨_, rfl, inside, hinside, rfl⟩ := Language.mem_mul.1 hfront
    exact ⟨inside, by simp, mem_body.1 hinside⟩
  · rintro ⟨inside, rfl, hinside⟩
    exact Language.append_mem_mul (a := quote :: inside)
      (Language.append_mem_mul (a := [quote]) rfl (mem_body.2 hinside)) rfl

theorem mem_string {raw : String} : raw.toList ∈ string ↔ Spelled (.string raw) raw.toList := by
  rw [string, Language.mem_add, mem_between, mem_between]
  constructor
  · rintro (⟨inside, hraw, hinside⟩ | ⟨inside, hraw, hinside⟩) <;>
      rw [← raw.ofList_toList, String.toList_ofList, hraw]
    · exact .string (.inl rfl) hinside
    · exact .string (.inr rfl) hinside
  · intro h
    generalize raw.toList = text at h ⊢
    cases h with
    | string hquote hinside =>
      rcases hquote with rfl | rfl
      · exact .inl ⟨_, rfl, hinside⟩
      · exact .inr ⟨_, rfl, hinside⟩

end Shape

/-! ## Reading and spelling -/

/-- What has its shape is what can be spelled, characters that belong to no template apart. -/
theorem Token.hasShape_iff {token : Token} :
    token.HasShape ↔ Spelled token token.letters ∧ ∀ c, token ≠ .unknown c := by
  constructor
  · intro h
    cases token with
    | number raw => exact ⟨Shape.mem_number.1 h, by simp⟩
    | string raw => exact ⟨Shape.mem_string.1 h, by simp⟩
    | hex raw => exact ⟨Shape.mem_hex.1 h, by simp⟩
    | ident raw => exact ⟨Shape.mem_word.1 h, by simp⟩
    | symbol mark => exact ⟨.symbol mark, by simp⟩
    | unknown _ | unterminated _ | endOfInput => exact absurd h (Language.notMem_zero _)
  · rintro ⟨h, hknown⟩
    cases token with
    | number raw => exact Shape.mem_number.2 h
    | string raw => exact Shape.mem_string.2 h
    | hex raw => exact Shape.mem_hex.2 h
    | ident raw => exact Shape.mem_word.2 h
    | symbol mark => rfl
    | unknown c => exact absurd rfl (hknown c)
    | unterminated _ | endOfInput => cases h

/-- A row of tokens that have their shapes is read back from its text with single spaces in between,
and every literal or word that is read from any text has its shape. -/
theorem reading_undoes_spelling :
    (∀ row : List Token, (∀ token ∈ row, token.HasShape) →
      tokens (spell row) = row ++ [.endOfInput]) ∧
    ∀ source raw,
      (.number raw ∈ tokens source → raw.toList ∈ Shape.number) ∧
      (.hex raw ∈ tokens source → raw.toList ∈ Shape.hex) ∧
      (.ident raw ∈ tokens source → raw.toList ∈ Shape.word) ∧
      (.string raw ∈ tokens source → raw.toList ∈ Shape.string) := by
  constructor
  · intro row hrow
    exact tokens_spell fun token htoken => (Token.hasShape_iff.1 (hrow token htoken)).1.isStable
  · intro source raw
    have hspelled : ∀ token ∈ tokens source, token.isFinal = false →
        Spelled token token.letters := by
      intro token htoken hfinal
      obtain ⟨lexeme, hlexeme, rfl⟩ := List.mem_map.1 htoken
      have hstable : lexeme.token.IsStable := stable_of_mem_lexemesFrom hlexeme hfinal
      exact hstable.spelled
    exact ⟨fun h => Shape.mem_number.2 (hspelled _ h rfl),
      fun h => Shape.mem_hex.2 (hspelled _ h rfl), fun h => Shape.mem_word.2 (hspelled _ h rfl),
      fun h => Shape.mem_string.2 (hspelled _ h rfl)⟩

/-- Tokens that would be others without the spaces in between. -/
def tightRow : List Token :=
  [.number "1", .symbol .dot, .number "5", .symbol .slash, .symbol .slash, .symbol .star,
    .symbol .ampersand, .symbol .ampersand, .symbol .plus, .symbol .assign, .hex "0x", .ident "_a",
    .string "'\\'\"'"]

theorem reading_undoes_spelling_tightRow :
    (∀ token ∈ tightRow, token.HasShape) ∧
      tokens "1 . 5 / / * & & + = 0x _a '\\'\"'" = tightRow ++ [.endOfInput] ∧
      .string "'\\'\"'" ∈ tokens "0x'\\'\"'" ∧ "'\\'\"'".toList ∈ Shape.string := by
  have hrow : ∀ token ∈ tightRow, token.HasShape := by
    intro token htoken
    have hstable : ∀ token ∈ tightRow, tokensOf token.letters = [token, .endOfInput] := by
      decide +kernel
    have hsymbol : ∀ token ∈ tightRow, ∀ c, token ≠ .unknown c := by simp [tightRow]
    exact Token.hasShape_iff.2
      ⟨Token.IsStable.spelled (hstable token htoken), hsymbol token htoken⟩
  have htext : spell tightRow = "1 . 5 / / * & & + = 0x _a '\\'\"'" := by decide +kernel
  have hquoted : .string "'\\'\"'" ∈ tokens "0x'\\'\"'" := by decide +kernel
  rw [← htext]
  exact ⟨hrow, reading_undoes_spelling.1 tightRow hrow, hquoted,
    (reading_undoes_spelling.2 _ _).2.2.2 hquoted⟩

end MessageTemplate
