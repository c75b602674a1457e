import MessageTemplate.Proofs.Grammar.Soundness

/-!
# Completeness for expressions

Every phrase is read by the rule for its level, provided that what is behind it
does not go on with it. For a chain of operators the induction hypothesis is
about an unfinished run: the rule for the chain comes to the left operand with
enough rounds left.
-/

namespace MessageTemplate

/-! ## First tokens -/

/-- Can an expression start with the token? -/
def Token.startsExpr : Token → Bool
  | .number _ | .string _ | .hex _ => true
  | .ident word =>
    match Keyword.ofWord? word with
    | none | some .truth | some .falsity => true
    | some _ => false
  | .symbol .parenOpen | .symbol .bracketOpen => true
  | .symbol mark => (UnaryOp.ofSymbol? mark).isSome
  | .unknown _ | .unterminated _ | .endOfInput => false

/-- Can an expression of the level go on with the token? -/
def Token.continues (level : Nat) : Token → Bool
  | .symbol .parenOpen => true
  | .symbol mark => (BinaryOp.ofSymbol? mark).any fun op => op.level ≤ level
  | _ => false

theorem Token.ne_of_startsExpr {token other : Token} (h : token.startsExpr = true)
    (hother : other.startsExpr = false) : token ≠ other := by
  rintro rfl
  rw [h] at hother
  contradiction

theorem Token.continues_operator {op : BinaryOp} {level : Nat} :
    (Token.symbol op.symbol).continues level = decide (op.level ≤ level) := by
  cases op <;> rfl

theorem Token.continues_mono {token : Token} {level other : Nat} (hle : level ≤ other)
    (h : token.continues other = false) : token.continues level = false := by
  unfold Token.continues at h ⊢
  split at h
  · contradiction
  · rw [Option.any_eq_false_iff_get] at h ⊢
    intro hop
    have hlevel := h hop
    rw [decide_eq_false_iff_not] at hlevel ⊢
    exact fun hsmall => hlevel (hsmall.trans hle)
  · rfl

/-- Behind a power and behind an operand with its signs the same tokens matter. -/
theorem Token.continues_signed {token : Token} (h : token.continues Level.power = false) :
    token.continues Level.signed = false := by
  cases token with
  | symbol mark => cases mark <;> first | rfl | contradiction
  | _ => rfl

namespace Phrase

variable {level : Nat} {ls rest : List Lexeme} {value : SourceExpr}

theorem startsExpr (h : Phrase level ls value rest) : (headOf ls).startsExpr = true := by
  induction h with
  | literal value htoken =>
    rw [htoken.headOf_eq]
    cases value with
    | bool truth => cases truth <;> rfl
    | _ => rfl
  | var hname hfree | call hname hfree _ _ _ _ =>
    rw [hname.headOf_eq]
    simp [Token.startsExpr, hfree]
  | list hopen _ _ _ | paren hopen _ _ _ =>
    rw [hopen.headOf_eq]
    rfl
  | unary op hop _ _ =>
    rw [hop.headOf_eq]
    cases op <;> rfl
  | binary _ _ _ _ ih _ => exact ih
  | loosen _ ih => exact ih

theorem headOf_ne (h : Phrase level ls value rest) {token : Token}
    (htoken : token.startsExpr = false) : headOf ls ≠ token :=
  Token.ne_of_startsExpr h.startsExpr htoken

/-- Only operands with signs start with a sign. -/
theorem unsigned (h : Phrase level ls value rest) (hlevel : level ≤ Level.power) {symbol : Symbol}
    (hhead : headOf ls = .symbol symbol) : UnaryOp.ofSymbol? symbol = none := by
  induction h with
  | literal value htoken =>
    rw [htoken.headOf_eq] at hhead
    cases value with
    | bool truth => cases truth <;> cases hhead
    | _ => cases hhead
  | var hname _ | call hname _ _ _ _ _ =>
    rw [hname.headOf_eq] at hhead
    cases hhead
  | list hopen _ _ _ | paren hopen _ _ _ =>
    rw [hopen.headOf_eq] at hhead
    cases hhead
    rfl
  | unary => exact absurd hlevel (by decide)
  | binary op _ _ _ ih _ =>
    cases op with
    | power => exact ih (by decide) hhead
    | _ => exact absurd hlevel (by decide)
  | loosen _ ih => exact ih (Nat.le_of_succ_le hlevel) hhead

/-- A phrase that starts with a parenthesis has a phrase in it. -/
theorem exists_paren (h : Phrase level ls value rest) (hhead : headOf ls = .symbol .parenOpen) :
    ∃ mid inside next after, Takes (.symbol .parenOpen) ls mid ∧
      Phrase Level.whole mid inside next ∧ Takes (.symbol .parenClose) next after := by
  induction h with
  | literal value htoken =>
    rw [htoken.headOf_eq] at hhead
    cases value with
    | bool truth => cases truth <;> cases hhead
    | _ => cases hhead
  | var hname _ | call hname _ _ _ _ _ =>
    rw [hname.headOf_eq] at hhead
    cases hhead
  | list hopen _ _ _ =>
    rw [hopen.headOf_eq] at hhead
    cases hhead
  | paren hopen hvalue hclose _ => exact ⟨_, _, _, _, hopen, hvalue, hclose⟩
  | unary op hop _ _ =>
    rw [hop.headOf_eq] at hhead
    cases op <;> cases hhead
  | binary _ _ _ _ ih _ => exact ih hhead
  | loosen _ ih => exact ih hhead

/-- A phrase does not go beyond a word in front of `=`. -/
theorem rest_of_assign (h : Phrase level ls value rest) {word : String} {mid next : List Lexeme}
    (hword : Takes (.ident word) ls mid) (hassign : Takes (.symbol .assign) mid next) :
    rest = mid := by
  have hhead := hword.headOf_eq
  induction h with
  | literal _ htoken =>
    obtain ⟨_, rfl⟩ := hword
    obtain ⟨_, heq⟩ := htoken
    exact (List.cons.inj heq).2.symm
  | var hname _ =>
    obtain ⟨_, rfl⟩ := hword
    obtain ⟨_, heq⟩ := hname
    exact (List.cons.inj heq).2.symm
  | call hname _ hopen _ _ _ =>
    obtain ⟨_, rfl⟩ := hword
    obtain ⟨_, heq⟩ := hname
    obtain ⟨-, rfl⟩ := List.cons.inj heq
    have hfalse := hassign.headOf_eq.symm.trans hopen.headOf_eq
    cases hfalse
  | list hopen _ _ _ | paren hopen _ _ _ =>
    rw [hopen.headOf_eq] at hhead
    cases hhead
  | unary op hop _ _ =>
    rw [hop.headOf_eq] at hhead
    cases op <;> cases hhead
  | binary op _ hop _ ih _ =>
    obtain rfl := ih hword hhead
    have hfalse := hassign.headOf_eq.symm.trans hop.headOf_eq
    cases op <;> cases hfalse
  | loosen _ ih => exact ih hword hhead

end Phrase

namespace Parser

/-! ## Runs of the rules -/

/-- The rule for the expressions of a level, over the rules for what is inside. -/
def levelRule (budget : Nat) : Nat → Parser SourceExpr
  | 0 => primary (exprRulesAt budget)
  | 1 => power (exprRulesAt budget)
  | rank + 2 => tier budget (exprRulesAt budget) rank

/-- If the budget suffices and nothing behind goes on with it, the rule for the level reads this. -/
def IsRead (level : Nat) : Form SourceExpr := fun ls value rest =>
  ∀ budget, ls.length ≤ budget + 1 → (headOf rest).continues level = false →
    Yields (levelRule budget level) ls value rest

/-- The rule for chains of a rank comes to this left operand, with enough rounds left. -/
def IsReached (rank : Nat) : Form SourceExpr := fun ls left rest =>
  ∀ budget, ls.length ≤ budget + 1 → (headOf rest).continues (rank + 2) = false →
    ∃ rounds, budget + 1 + rest.length ≤ rounds + ls.length ∧
      tier budget (exprRulesAt budget) (rank + 1) ls =
        chainWithin (tier budget (exprRulesAt budget) rank) (rank + 1) rounds left rest

section

variable {level rank : Nat} {ls mid next rest : List Lexeme} {left right value : SourceExpr}

theorem operatorOf_none {token : Token} (h : token.continues (rank + 3) = false) :
    operatorOf (rank + 1) token = none := by
  rw [Option.eq_none_iff_forall_ne_some]
  intro op hop
  obtain ⟨rfl, hrank⟩ := operatorOf_eq_some_iff.1 hop
  rw [Token.continues_operator, (levels_of_rank hrank).1, decide_eq_false_iff_not] at h
  exact h le_rfl

/-- A chain ends in front of a token that does not go on with it. -/
theorem chainWithin_done {operand : Parser SourceExpr}
    (hrest : (headOf rest).continues (rank + 3) = false) (rounds : Nat) :
    Yields (chainWithin operand (rank + 1) rounds value) rest value rest := by
  cases rounds with
  | zero => exact .pure
  | succ rounds =>
    apply Yields.peek
    rw [operatorOf_none hrest]
    exact .pure

/-- A chain goes on with an operator of its rank. -/
theorem chainWithin_more {operand : Parser SourceExpr} {op : BinaryOp} (hrank : op.rank = rank + 1)
    (hop : Takes (.symbol op.symbol) mid next) (hoperand : Yields operand next right rest)
    (rounds : Nat) :
    chainWithin operand (rank + 1) (rounds + 1) left mid =
      chainWithin operand (rank + 1) rounds (.join op left right) rest := by
  obtain ⟨place, rfl⟩ := hop
  rw [chainWithin, run_peek_bind, headOf_cons, operatorOf_eq_some_iff.2 ⟨rfl, hrank⟩]
  change (operand >>= fun right =>
    chainWithin operand (rank + 1) rounds (.join op left right)) next = _
  rw [run_bind, hoperand]
  rfl

theorem IsReached.isRead (h : IsReached rank ls value rest) : IsRead (rank + 3) ls value rest := by
  intro budget hbudget hrest
  obtain ⟨rounds, -, hchain⟩ := h budget hbudget (Token.continues_mono (Nat.le_succ _) hrest)
  rw [levelRule, Yields, hchain]
  exact chainWithin_done hrest rounds

theorem IsRead.isReached (h : IsRead (rank + 2) ls value rest) (hlength : rest.length < ls.length) :
    IsReached rank ls value rest := by
  intro budget hbudget hrest
  refine ⟨budget, by omega, ?_⟩
  have hfirst := h budget hbudget hrest
  rw [levelRule, Yields] at hfirst
  rw [tier, chain, run_bind, hfirst]
  rfl

/-- One more operand. -/
theorem IsReached.step {op : BinaryOp} (hrank : op.rank = rank + 1)
    (hleft : IsReached rank ls left mid) (hmid : mid.length < ls.length)
    (hop : Takes (.symbol op.symbol) mid next) (hright : IsRead (rank + 2) next right rest)
    (hrest : rest.length < next.length) : IsReached rank ls (.join op left right) rest := by
  intro budget hbudget hend
  have hlength := hop.isBehind.length_lt
  have hstop : (headOf mid).continues (rank + 2) = false := by
    rw [hop.headOf_eq, Token.continues_operator, (levels_of_rank hrank).1, decide_eq_false_iff_not]
    omega
  obtain ⟨rounds, hrounds, hchain⟩ := hleft budget hbudget hstop
  obtain ⟨rounds, rfl⟩ : ∃ fewer, rounds = fewer + 1 := ⟨rounds - 1, by omega⟩
  refine ⟨rounds, by omega, hchain.trans ?_⟩
  have hoperand := hright budget (by omega) hend
  exact chainWithin_more hrank hop hoperand rounds

/-- What holds of an expression of a level: the rule reads it, and if the level has chains they
come to it. -/
def Reading (level : Nat) : Form SourceExpr := fun ls value rest =>
  IsRead level ls value rest ∧ ∀ rank, level = rank + 3 → IsReached rank ls value rest

theorem Reading.of_signed (hlevel : level ≤ Level.signed) (h : IsRead level ls value rest) :
    Reading level ls value rest :=
  ⟨h, fun rank hrank => absurd hlevel (hrank ▸ Nat.not_le.2 (by simp +arith))⟩

theorem Reading.of_reached (h : IsReached rank ls value rest) :
    Reading (rank + 3) ls value rest := by
  refine ⟨h.isRead, fun other hother => ?_⟩
  obtain rfl : rank = other := by omega
  exact h

/-- The rule for whole expressions, with a budget for the tokens in front. -/
theorem IsRead.whole (h : IsRead Level.whole ls value rest) (hbehind : IsBehind rest ls)
    {budget : Nat} (hbudget : ls.length ≤ budget)
    (hrest : (headOf rest).continues Level.whole = false) :
    Yields (exprRulesAt budget).whole ls value rest := by
  have hpos := hbehind.length_lt
  obtain ⟨budget, rfl⟩ : ∃ fewer, budget = fewer + 1 := ⟨budget - 1, by omega⟩
  exact h budget hbudget hrest

theorem IsRead.signed (h : IsRead Level.signed ls value rest) (hbehind : IsBehind rest ls)
    {budget : Nat} (hbudget : ls.length ≤ budget)
    (hrest : (headOf rest).continues Level.signed = false) :
    Yields (exprRulesAt budget).signed ls value rest := by
  have hpos := hbehind.length_lt
  obtain ⟨budget, rfl⟩ : ∃ fewer, budget = fewer + 1 := ⟨budget - 1, by omega⟩
  exact h budget hbudget hrest

/-- Expressions up to a closing mark. -/
theorem listUntil_whole_yields {item : Form SourceExpr} {close : Symbol} {values : List SourceExpr}
    {budget : Nat} (hclose : close = .bracketClose ∨ close = .parenClose)
    (hitem : ∀ ls value rest, item ls value rest → Phrase Level.whole ls value rest)
    (hread : ∀ ls value rest, item ls value rest → Reading Level.whole ls value rest)
    (h : Listed item close ls values rest) (hbudget : ls.length ≤ budget) :
    Yields (listUntil (exprRulesAt budget).whole close) ls values rest := by
  have hcomma : (Token.symbol .comma).continues Level.whole = false := rfl
  have hend : (Token.symbol close).continues Level.whole = false := by
    rcases hclose with rfl | rfl <;> rfl
  have hstart : (Token.symbol close).startsExpr = false := by
    rcases hclose with rfl | rfl <;> rfl
  have hne : close ≠ .comma := by
    rcases hclose with rfl | rfl <;> decide
  have hreads : ReadsAll (exprRulesAt budget).whole item
      (fun rest => (headOf rest).continues Level.whole = false) budget :=
    fun ls value rest hvalue hrest hlength =>
      (hread _ _ _ hvalue).1.whole (hitem _ _ _ hvalue).isBehind hlength hrest
  refine listUntil_yields hreads ?_ ?_ ?_ ?_ hne h hbudget
  · exact fun ls value rest hvalue => (hitem _ _ _ hvalue).isBehind
  · exact fun ls value rest hvalue => (hitem _ _ _ hvalue).headOf_ne hstart
  · exact fun ls next value rest htakes _ => htakes.headOf_eq ▸ hcomma
  · exact fun ls next htakes => htakes.headOf_eq ▸ hend

/-! ## The induction over phrases -/

theorem literal_isRead {literal : Literal} (h : Takes literal.token ls rest) :
    IsRead Level.primary ls (.literal (placeOf ls) literal) rest := by
  intro budget _ _
  refine .here (.peek ?_)
  rw [h.headOf_eq]
  cases literal with
  | bool truth => cases truth <;> exact .skip h .pure
  | _ => exact .skip h .pure

theorem var_isRead {name : String} (hname : Takes (.ident name) ls rest)
    (hfree : Keyword.ofWord? name = none) :
    IsRead Level.primary ls (.var (placeOf ls) name) rest := by
  intro budget _ hrest
  have hparen : headOf rest ≠ .symbol .parenOpen := by
    intro hhead
    rw [hhead] at hrest
    cases hrest
  refine .here (.peek ?_)
  rw [hname.headOf_eq]
  dsimp only
  rw [hfree]
  exact .skip hname (.refuse hparen .pure)

theorem list_isRead {item : Form SourceExpr} {items : List SourceExpr}
    (hopen : Takes (.symbol .bracketOpen) ls mid)
    (hitem : ∀ ls value rest, item ls value rest → Phrase Level.whole ls value rest)
    (hitems : Listed item .bracketClose mid items rest)
    (hread : ∀ ls value rest, item ls value rest → Reading Level.whole ls value rest) :
    IsRead Level.primary ls (.list (placeOf ls) items) rest := by
  intro budget hbudget _
  have hlength := hopen.isBehind.length_lt
  have hlist := listUntil_whole_yields (.inl rfl) hitem hread hitems (by omega : _ ≤ budget)
  refine .here (.peek ?_)
  rw [hopen.headOf_eq]
  exact .skip hopen (.bind hlist .pure)

theorem call_isRead {name : String} {item : Form SourceExpr} {arguments : List SourceExpr}
    (hname : Takes (.ident name) ls mid) (hfree : Keyword.ofWord? name = none)
    (hopen : Takes (.symbol .parenOpen) mid next)
    (hitem : ∀ ls value rest, item ls value rest → Phrase Level.whole ls value rest)
    (hitems : Listed item .parenClose next arguments rest)
    (hread : ∀ ls value rest, item ls value rest → Reading Level.whole ls value rest) :
    IsRead Level.primary ls (.call (placeOf ls) name arguments) rest := by
  intro budget hbudget _
  have hlength := (hopen.isBehind.trans hname.isBehind).length_lt
  have hlist := listUntil_whole_yields (.inr rfl) hitem hread hitems (by omega : _ ≤ budget)
  refine .here (.peek ?_)
  rw [hname.headOf_eq]
  dsimp only
  rw [hfree]
  exact .skip hname (.accept hopen (.bind hlist .pure))

theorem paren_isRead (hopen : Takes (.symbol .parenOpen) ls mid)
    (hvalue : Phrase Level.whole mid value next) (hclose : Takes (.symbol .parenClose) next rest)
    (hread : IsRead Level.whole mid value next) : IsRead Level.primary ls value rest := by
  intro budget hbudget _
  have hlength := hopen.isBehind.length_lt
  have hend : (headOf next).continues Level.whole = false := by
    rw [hclose.headOf_eq]
    rfl
  have hinside := hread.whole hvalue.isBehind (by omega : _ ≤ budget) hend
  refine .here (.peek ?_)
  rw [hopen.headOf_eq]
  exact .skip hopen (.bind hinside (.require hclose .pure))

theorem unary_isRead {op : UnaryOp} (hop : Takes (.symbol op.symbol) ls mid)
    (hoperand : Phrase Level.signed mid value rest) (hread : IsRead Level.signed mid value rest) :
    IsRead Level.signed ls (.unary (placeOf ls) op value) rest := by
  intro budget hbudget hrest
  have hlength := hop.isBehind.length_lt
  have hinside := hread.signed hoperand.isBehind (by omega : _ ≤ budget) hrest
  refine .here (.peek ?_)
  rw [hop.headOf_eq]
  dsimp only
  rw [UnaryOp.ofSymbol?_eq_some_iff.2 rfl]
  exact .skip hop (.bind hinside .pure)

theorem power_isRead (hleft : IsRead Level.primary ls left mid)
    (hop : Takes (.symbol .caret) mid next) (hright : Phrase Level.signed next right rest)
    (hread : IsRead Level.signed next right rest) (hlength : mid.length < ls.length) :
    IsRead Level.power ls (.join .power left right) rest := by
  intro budget hbudget hrest
  have hnext := hop.isBehind.length_lt
  have hbase : (headOf mid).continues Level.primary = false := by
    rw [hop.headOf_eq]
    rfl
  have hexponent := hread.signed hright.isBehind (by omega : _ ≤ budget)
    (Token.continues_signed hrest)
  exact .bind (hleft budget hbudget hbase) (.accept hop (.bind hexponent .pure))

theorem IsRead.power (h : IsRead Level.primary ls value rest) :
    IsRead Level.power ls value rest := by
  intro budget hbudget hrest
  have hcaret : headOf rest ≠ .symbol .caret := by
    intro hhead
    rw [hhead] at hrest
    cases hrest
  exact .bind (h budget hbudget (Token.continues_mono (Nat.zero_le _) hrest)) (.refuse hcaret .pure)

theorem IsRead.of_power (h : IsRead Level.power ls value rest)
    (hphrase : Phrase Level.power ls value rest) : IsRead Level.signed ls value rest := by
  intro budget hbudget hrest
  have hpower := h budget hbudget (Token.continues_mono (Nat.le_succ _) hrest)
  refine .here (.peek ?_)
  split
  · rename_i symbol hhead
    rw [hphrase.unsigned le_rfl hhead]
    exact hpower
  · exact hpower

theorem Reading.loosen (h : Reading level ls value rest) (hphrase : Phrase level ls value rest) :
    Reading (level + 1) ls value rest := by
  match level with
  | 0 => exact .of_signed (by decide) h.1.power
  | 1 => exact .of_signed le_rfl (h.1.of_power hphrase)
  | rank + 2 => exact .of_reached (h.1.isReached hphrase.isBehind.length_lt)

theorem Reading.binary {op : BinaryOp} (hleft : Phrase op.leftLevel ls left mid)
    (hop : Takes (.symbol op.symbol) mid next) (hright : Phrase op.rightLevel next right rest)
    (hreadLeft : Reading op.leftLevel ls left mid)
    (hreadRight : Reading op.rightLevel next right rest) :
    Reading op.level ls (.join op left right) rest := by
  have hmid := hleft.isBehind.length_lt
  match hrank : op.rank with
  | 0 =>
    obtain rfl : op = .power := by cases op <;> first | rfl | contradiction
    exact .of_signed (by decide) (power_isRead hreadLeft.1 hop hright hreadRight.1 hmid)
  | rank + 1 =>
    obtain ⟨hlevel, hleftLevel, hrightLevel⟩ := levels_of_rank hrank
    rw [hlevel]
    rw [hrightLevel] at hreadRight
    exact .of_reached (.step hrank (hreadLeft.2 rank hleftLevel) hmid hop hreadRight.1
      hright.isBehind.length_lt)

end

end Parser

theorem Phrase.reading {level : Nat} {ls rest : List Lexeme} {value : SourceExpr}
    (h : Phrase level ls value rest) : Parser.Reading level ls value rest := by
  induction h with
  | literal value htoken => exact .of_signed (by decide) (Parser.literal_isRead htoken)
  | var hname hfree => exact .of_signed (by decide) (Parser.var_isRead hname hfree)
  | list hopen hitem hitems ih =>
    exact .of_signed (by decide) (Parser.list_isRead hopen hitem hitems ih)
  | call hname hfree hopen hitem hitems ih =>
    exact .of_signed (by decide) (Parser.call_isRead hname hfree hopen hitem hitems ih)
  | paren hopen hvalue hclose ih =>
    exact .of_signed (by decide) (Parser.paren_isRead hopen hvalue hclose ih.1)
  | unary op hop hoperand ih => exact .of_signed le_rfl (Parser.unary_isRead hop hoperand ih.1)
  | binary op hleft hop hright ihleft ihright => exact .binary hleft hop hright ihleft ihright
  | loosen hvalue ih => exact ih.loosen hvalue

/-- An expression is read up to a token that does not go on with it. -/
theorem Phrase.yields {ls rest : List Lexeme} {value : SourceExpr} (h : Whole ls value rest)
    (hrest : (headOf rest).continues Level.whole = false) :
    Parser.Yields Parser.expr ls value rest :=
  .bounded (h.reading.1.whole h.isBehind (Nat.le_succ _) hrest)

end MessageTemplate
