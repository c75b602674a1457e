import MessageTemplate.Proofs.Decimal.Digits
import MessageTemplate.Proofs.Resolution.Literal
import MessageTemplate.Proofs.SingleStatement

/-!
# Texts put together

A text statement with a chain of `+` that starts with a string literal puts the
texts of all its literals one behind the other. This holds from the characters
of the template to the content of the message: what stands between two quotes
arrives as it is, and of a marked literal the digits without leading zeros.
-/

namespace MessageTemplate

/-- A string literal: its quote, and what stands between the quotes. -/
structure QuotedText where
  quote : Char
  body : List Char
  isQuote : IsQuote quote
  quoted : Quoted quote body

/-- A marked literal: decimal digits of a number below `Literal.markedLimit`. -/
structure MarkedDigits where
  mark : String
  digits : List Char
  mark_mem : mark ∈ ["#", "0x"]
  ne_nil : digits ≠ []
  isDigit : ∀ c ∈ digits, c.isDigit = true
  small : Decimal.ofDigits digits ≤ 2147483647

/-- A literal in a chain. -/
inductive Piece
  | quoted (literal : QuotedText)
  | truth (value : Bool)
  | marked (literal : MarkedDigits)

namespace Piece

/-- The characters that the literal is written with. -/
def letters : Piece → List Char
  | quoted t => t.quote :: (t.body ++ [t.quote])
  | truth value => (if value then "true" else "false").toList
  | marked m => m.mark.toList ++ m.digits

/-- What the literal adds to the content. -/
def text : Piece → String
  | quoted t => String.ofList t.body
  | truth value => if value then "true" else "false"
  | marked m => String.ofList (Decimal.significant m.digits)

def literal : Piece → Literal
  | quoted t => .string (String.ofList (quoted t).letters)
  | truth value => .bool value
  | marked m => .hex (String.ofList (marked m).letters)

def value : Piece → Value
  | quoted t => .string (String.ofList t.body)
  | truth value => .bool value
  | marked m => .integer (Int64.ofNat (Decimal.ofDigits m.digits))

end Piece

/-! ## Reading the literals -/

section

variable {c : Char} {tail : List Char}

theorem Scans.tokensOf_eq {scan : Scan} (h : Scans c tail scan) (hblank : isBlank c = false)
    (hslash : c ≠ '/') : tokensOf (c :: tail) = scan.token :: tokensOf scan.rest :=
  tokensOf_token (splitGap_start_iff.2 ⟨hblank, fun hc => absurd hc hslash⟩) (scans_iff.1 h)

/-- A token that is a run of characters ends where none of its kind follows. -/
theorem Scans.tokensOf_run {kind : String → Token} {p : Char → Bool} {front body rest : List Char}
    (h : Scans c tail (.run kind p front (body ++ rest))) (hbody : ∀ d ∈ body, p d = true)
    (hrest : ∀ d ∈ rest.head?, p d = false) (hblank : isBlank c = false) (hslash : c ≠ '/') :
    tokensOf (c :: tail) = kind (String.ofList (front ++ body)) :: tokensOf rest := by
  rw [Scan.run, takeWhile_run_append hbody hrest, dropWhile_run_append hbody hrest] at h
  exact h.tokensOf_eq hblank hslash

end

theorem isAlphanum_of_isDigit {c : Char} (h : c.isDigit = true) : c.isAlphanum = true := by
  simp [Char.isAlphanum, h]

namespace Piece

/-- A literal is read as its token, unless what is behind it would go on with it. -/
theorem tokensOf_append (p : Piece) {rest : List Char}
    (hrest : ∀ c ∈ rest.head?, isWordPart c = false) :
    tokensOf (p.letters ++ rest) = p.literal.token :: tokensOf rest := by
  have halphanum : ∀ c ∈ rest.head?, c.isAlphanum = false := by
    intro c hc
    have hword := hrest c hc
    simp_all [isWordPart]
  cases p with
  | quoted t =>
    have hsplit := t.quoted.splitString t.isQuote.ne_escape rest
    have hscans := Scans.string t.isQuote hsplit
    have hstart : isBlank t.quote = false ∧ t.quote ≠ '/' := by
      rcases t.isQuote with h | h <;> rw [h] <;> decide
    have htokens := hscans.tokensOf_eq hstart.1 hstart.2
    simpa [letters, literal, Literal.token] using htokens
  | truth value =>
    cases value with
    | true =>
      have hscans : Scans 't' ("rue".toList ++ rest) _ := .word (by decide)
      exact hscans.tokensOf_run (by simp [isWordPart]) hrest (by decide) (by decide)
    | false =>
      have hscans : Scans 'f' ("alse".toList ++ rest) _ := .word (by decide)
      exact hscans.tokensOf_run (by simp [isWordPart]) hrest (by decide) (by decide)
  | marked m =>
    have hdigits : ∀ c ∈ m.digits, c.isAlphanum = true :=
      fun c hc => isAlphanum_of_isDigit (m.isDigit c hc)
    rcases List.mem_pair.1 m.mark_mem with hmark | hmark
    · have hscans := Scans.hash (m.digits ++ rest)
      have htokens := hscans.tokensOf_run hdigits halphanum (by decide) (by decide)
      simpa [letters, literal, Literal.token, hmark] using htokens
    · have hscans := Scans.marked (m.digits ++ rest)
      have htokens := hscans.tokensOf_run hdigits halphanum (by decide) (by decide)
      simpa [letters, literal, Literal.token, hmark] using htokens

theorem letters_token (p : Piece) : p.literal.token.letters = p.letters := by
  cases p with
  | quoted t => exact String.toList_ofList
  | truth value => cases value <;> rfl
  | marked m => exact String.toList_ofList

theorem isStable (p : Piece) : p.literal.token.IsStable := by
  have hnone : ∀ c ∈ ([] : List Char).head?, isWordPart c = false := by simp
  have htokens := p.tokensOf_append hnone
  rwa [List.append_nil, tokensOf_nil, ← p.letters_token] at htokens

theorem value_literal (p : Piece) : p.literal.value = .ok p.value := by
  cases p with
  | quoted t =>
    have hunquote : Literal.unquote (String.ofList (quoted t).letters) = String.ofList t.body := by
      simp [Literal.unquote, letters]
    rw [literal, Literal.value, hunquote, value]
  | truth value => rfl
  | marked m =>
    have hraw : (String.ofList (marked m).letters).toList = m.mark.toList ++ m.digits :=
      String.toList_ofList
    have hnumber := Decimal.natOfDigits?_eq_some_iff.2 ⟨m.ne_nil, m.isDigit, rfl⟩
    have hsmall : Decimal.ofDigits m.digits < Literal.markedLimit := Nat.lt_succ_of_le m.small
    rw [literal, Literal.value, Literal.markedInteger?_eq m.mark_mem hraw, hnumber,
      Option.bind_some, if_pos hsmall, value]

theorem text_value (p : Piece) : p.value.text = p.text := by
  cases p with
  | quoted t => rfl
  | truth value => rfl
  | marked m =>
    have hsmall := m.small
    have hvalue : (Int64.ofNat (Decimal.ofDigits m.digits)).toInt = Decimal.ofDigits m.digits :=
      Int64.toInt_ofNat_of_lt (by omega)
    rw [value, Value.text, Value.integerText, hvalue, Decimal.intDigits, if_neg (by omega),
      Int.natAbs_natCast, Decimal.digits_ofDigits m.isDigit, text]

end Piece

/-! ## Chains -/

/-- The chain that goes on from `left`, grouped from the left. -/
def chain (left : Expr Literal Unit) (rest : List Piece) : Expr Literal Unit :=
  rest.foldl (fun left p => .binary () .add left (.literal () p.literal)) left

/-- The tokens behind the first literal. -/
def chainRow (rest : List Piece) : List Token :=
  rest.flatMap fun p => [.symbol .plus, p.literal.token]

/-- The characters behind the first literal. -/
def chainLetters (rest : List Piece) : List Char :=
  rest.flatMap fun p => ' ' :: '+' :: ' ' :: p.letters

theorem tokensOf_chain (first : Piece) (rest : List Piece) :
    tokensOf (first.letters ++ (chainLetters rest ++ [';'])) =
      first.literal.token :: (chainRow rest ++ [.symbol .semicolon, .endOfInput]) := by
  induction rest generalizing first with
  | nil =>
    have hend : tokensOf [';'] = [.symbol .semicolon, .endOfInput] := by decide +kernel
    exact (first.tokensOf_append (by simp [chainLetters, isWordPart])).trans (congrArg _ hend)
  | cons p rest ih =>
    have hplus : ∀ more : List Char, tokensOf (' ' :: '+' :: ' ' :: more) =
        .symbol .plus :: tokensOf more := by
      intro more
      rw [tokensOf_blank isBlank_space]
      have hmark := (stable_symbol .plus).tokensOf_append isBlank_space more
      rw [tokensOf_blank isBlank_space] at hmark
      exact hmark
    -- The blank behind the first literal keeps it apart, whatever kind of literal it is.
    have hblank : ∀ more : List Char, ∀ c ∈ (' ' :: more).head?, isWordPart c = false := by
      intro more c hc
      obtain rfl := Option.some.inj hc
      decide
    have hfirst := first.tokensOf_append (hblank ('+' :: ' ' ::
      (p.letters ++ (chainLetters rest ++ [';']))))
    rw [hplus, ih] at hfirst
    simpa [chainLetters, chainRow] using hfirst

variable {left : Expr Literal Unit}

theorem chain_written {row : List Token} (h : left.Written BinaryOp.add.level row)
    (rest : List Piece) :
    (chain left rest).Written BinaryOp.add.level (row ++ chainRow rest) := by
  induction rest generalizing left row with
  | nil => rwa [chainRow, List.flatMap_nil, List.append_nil]
  | cons p rest ih =>
    have hnext := ih (.binary () .add le_rfl h (.literal () p.literal))
    rw [List.append_assoc] at hnext
    exact hnext

theorem chain_wellFormed (h : left.WellFormed) (rest : List Piece) :
    (chain left rest).WellFormed := by
  induction rest generalizing left with
  | nil => exact h
  | cons p rest ih =>
    exact ih (Expr.wellFormed_binary.2 ⟨h, Expr.wellFormed_literal.2 p.isStable⟩)

theorem chain_computes {call : Eval.Caller} {state : State} {text : String}
    (h : left.Computes call state (.string text)) (rest : List Piece) :
    (chain left rest).Computes call state
      (.string ((rest.map Piece.text).foldl (· ++ ·) text)) := by
  induction rest generalizing left text with
  | nil => exact h
  | cons p rest ih =>
    have hnext := h.add (.literal p.value_literal)
    rw [p.text_value] at hnext
    exact ih hnext

/-! ## The template -/

/-- The characters of a template with one chain. -/
def concatenationLetters (first : QuotedText) (rest : List Piece) : List Char :=
  (Token.ident "text").letters ++
    ' ' :: ((Piece.quoted first).letters ++ (chainLetters rest ++ [';']))

/-- The text of a template with one chain. -/
def concatenation (first : QuotedText) (rest : List Piece) : String :=
  String.ofList (concatenationLetters first rest)

theorem tokens_concatenation (first : QuotedText) (rest : List Piece) :
    tokens (concatenation first rest) =
      Keyword.text.token :: ([(Piece.quoted first).literal.token] ++ chainRow rest ++
        [.symbol .semicolon]) ++ [.endOfInput] := by
  have hword : (Token.ident "text").IsStable := stable_ident rfl
  have hread : tokensOf (concatenationLetters first rest) =
      .ident "text" :: (Piece.quoted first).literal.token ::
        (chainRow rest ++ [.symbol .semicolon, .endOfInput]) := by
    rw [concatenationLetters, hword.tokensOf_append isBlank_space, tokensOf_blank isBlank_space,
      tokensOf_chain]
  rw [tokens_eq, concatenation, String.toList_ofList, hread]
  have hrow : Keyword.text.token = .ident "text" := rfl
  simp only [hrow, List.cons_append, List.nil_append, List.append_assoc]

/-- The chain of a template with one chain. -/
def concatenationExpr (first : QuotedText) (rest : List Piece) : Expr Literal Unit :=
  chain (.literal () (Piece.quoted first).literal) rest

theorem concatenationExpr_written (first : QuotedText) (rest : List Piece) :
    (concatenationExpr first rest).Written Level.whole
      ([(Piece.quoted first).literal.token] ++ chainRow rest) :=
  (chain_written (.literal () _) rest).mono (by decide)

theorem concatenationExpr_wellFormed (first : QuotedText) (rest : List Piece) :
    (concatenationExpr first rest).WellFormed :=
  chain_wellFormed (Expr.wellFormed_literal.2 (Piece.quoted first).isStable) rest

theorem concatenationExpr_computes (first : QuotedText) (rest : List Piece)
    (call : Eval.Caller) (state : State) :
    (concatenationExpr first rest).Computes call state
      (.string (String.join ((Piece.quoted first :: rest).map Piece.text))) := by
  have hvalue : (Expr.literal () (Piece.quoted first).literal).Computes call state
      (.string (Piece.quoted first).text) := .literal (Piece.quoted first).value_literal
  have hchain := chain_computes hvalue rest
  have hjoin : String.join ((Piece.quoted first :: rest).map Piece.text) =
      (rest.map Piece.text).foldl (· ++ ·) (Piece.quoted first).text := by
    rw [List.map_cons, String.join, List.foldl_cons, String.empty_append]
  rwa [hjoin]

/-- The content of the message is made of the texts of all literals. -/
theorem concatenation_renders (first : QuotedText) (rest : List Piece) (allowance rounds : Nat)
    (name : String) (constants : Table Value) (compiled rendered : Calendar.Instant) :
    Template.outcome allowance rounds name (concatenation first rest) constants compiled rendered =
      .ok { Document.blank with
        content := some (String.join ((Piece.quoted first :: rest).map Piece.text)) } := by
  have hwell : (Stmt.text () (concatenationExpr first rest)).WellFormed := by
    refine Stmt.wellFormed_iff.2 ⟨⟨trivial, ?_⟩, by simp [Stmt.children]⟩
    simpa [Stmt.exprs] using concatenationExpr_wellFormed first rest
  exact Template.outcome_of_writes (.text () ⟨concatenationExpr_written first rest⟩) hwell
    (tokens_concatenation first rest)
    (.text rfl (concatenationExpr_computes first rest _ _)) allowance name compiled

/-- A quote of the other kind, a truth value and a number with zeros in front. -/
example :
    let first : QuotedText := ⟨'"', ['\'', 's'], .inl rfl,
      .char (by decide) (by decide) (.char (by decide) (by decide) .nil)⟩
    let seven : MarkedDigits := ⟨"#", ['0', '0', '7'], by decide, by decide, by simp, by decide⟩
    let rest : List Piece := [.truth true, .marked seven]
    concatenation first rest = "text \"'s\" + true + #007;" ∧
      String.join ((Piece.quoted first :: rest).map Piece.text) = "'strue7" := by
  decide +kernel

end MessageTemplate
