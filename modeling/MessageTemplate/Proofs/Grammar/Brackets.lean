import MessageTemplate.Proofs.Grammar.PartForm

/-!
# Matching brackets

What the grammar reads as a whole has as many brackets opened as closed, and
never more closed than opened. So the bracket that closes a list can be found by
counting, whatever the list is a part of. Behind the list that a phrase starts
with, the phrase is over or goes on with an operator.
-/

namespace MessageTemplate

def Token.isBracket : Token → Bool
  | .symbol .bracketOpen | .symbol .bracketClose => true
  | _ => false

theorem UnaryOp.isBracket_symbol (op : UnaryOp) : (Token.symbol op.symbol).isBracket = false := by
  cases op <;> rfl

theorem BinaryOp.isBracket_symbol (op : BinaryOp) : (Token.symbol op.symbol).isBracket = false := by
  cases op <;> rfl

theorem Literal.isBracket_token (value : Literal) : value.token.isBracket = false := by
  cases value with
  | bool truth => cases truth <;> rfl
  | _ => rfl

/-- What comes behind the bracket that closes the `depth` inner ones and one more. -/
def behindBracket : Nat → List Lexeme → List Lexeme
  | _, [] => []
  | depth, ⟨.symbol .bracketOpen, _⟩ :: ls => behindBracket (depth + 1) ls
  | 0, ⟨.symbol .bracketClose, _⟩ :: ls => ls
  | depth + 1, ⟨.symbol .bracketClose, _⟩ :: ls => behindBracket depth ls
  | depth, _ :: ls => behindBracket depth ls

/-- The brackets in front of `rest` match each other. -/
def Balanced (ls rest : List Lexeme) : Prop :=
  ∀ depth, behindBracket depth ls = behindBracket depth rest

theorem Balanced.refl (ls : List Lexeme) : Balanced ls ls := fun _ => rfl

theorem Balanced.trans {ls mid rest : List Lexeme} (h : Balanced ls mid)
    (hrest : Balanced mid rest) : Balanced ls rest := fun depth => (h depth).trans (hrest depth)

namespace Takes

variable {token : Token} {ls mid next rest : List Lexeme}

theorem behindBracket_open (h : Takes (.symbol .bracketOpen) ls rest) (depth : Nat) :
    behindBracket depth ls = behindBracket (depth + 1) rest := by
  obtain ⟨place, rfl⟩ := h
  rw [behindBracket]

theorem behindBracket_close (h : Takes (.symbol .bracketClose) ls rest) :
    behindBracket 0 ls = rest := by
  obtain ⟨place, rfl⟩ := h
  rw [behindBracket]

theorem behindBracket_close_succ (h : Takes (.symbol .bracketClose) ls rest) (depth : Nat) :
    behindBracket (depth + 1) ls = behindBracket depth rest := by
  obtain ⟨place, rfl⟩ := h
  rw [behindBracket]

theorem balanced (h : Takes token ls rest) (hplain : token.isBracket = false) :
    Balanced ls rest := by
  obtain ⟨place, rfl⟩ := h
  intro depth
  rw [behindBracket] <;> intros <;> simp_all [Token.isBracket]

end Takes

/-- A list in brackets. -/
theorem balanced_bracketed {ls mid next rest : List Lexeme}
    (hopen : Takes (.symbol .bracketOpen) ls mid) (h : Balanced mid next)
    (hclose : Takes (.symbol .bracketClose) next rest) : Balanced ls rest := fun depth => by
  rw [hopen.behindBracket_open, h, hclose.behindBracket_close_succ]

/-! ## Lists -/

section

variable {α : Type} {item : Form α} {ls rest : List Lexeme}

theorem Separated.balanced {values : List α} (h : Separated item ls values rest)
    (hitem : ∀ ls value rest, item ls value rest → Balanced ls rest) : Balanced ls rest := by
  induction h with
  | one h => exact hitem _ _ _ h
  | more h hcomma _ ih => exact ((hitem _ _ _ h).trans (hcomma.balanced rfl)).trans ih

/-- The items of a list are balanced up to the symbol that closes it. -/
theorem Listed.exists_close {close : Symbol} {values : List α}
    (h : Listed item close ls values rest)
    (hitem : ∀ ls value rest, item ls value rest → Balanced ls rest) :
    ∃ mid, Balanced ls mid ∧ Takes (.symbol close) mid rest := by
  cases h with
  | none hclose => exact ⟨ls, .refl ls, hclose⟩
  | some hitems hclose => exact ⟨_, hitems.balanced hitem, hclose⟩

theorem Entries.balanced {entry : String → Form α} {values : List α}
    (h : Entries entry ls values rest)
    (hentry : ∀ word ls value rest, entry word ls value rest → Balanced ls rest) :
    Balanced ls rest := by
  have hpair {ls mid next : List Lexeme} {word : String} (hword : Takes (.ident word) ls mid)
      (hcolon : Takes (.symbol .colon) mid next) : Balanced ls next :=
    (hword.balanced rfl).trans (hcolon.balanced rfl)
  induction h with
  | none => exact .refl _
  | last hword hcolon h => exact (hpair hword hcolon).trans (hentry _ _ _ _ h)
  | more hword hcolon h hcomma _ ih =>
    have hfirst := (hpair hword hcolon).trans (hentry _ _ _ _ h)
    exact (hfirst.trans (hcomma.balanced rfl)).trans ih

end

/-! ## Expressions -/

namespace Phrase

variable {level : Nat} {ls rest : List Lexeme} {value : SourceExpr}

theorem balanced (h : Phrase level ls value rest) : Balanced ls rest := by
  induction h with
  | literal value htoken => exact htoken.balanced value.isBracket_token
  | var hname _ => exact hname.balanced rfl
  | list hopen _ hitems ih =>
    obtain ⟨next, hnext, hclose⟩ := hitems.exists_close ih
    exact balanced_bracketed hopen hnext hclose
  | call hname _ hopen _ hitems ih =>
    obtain ⟨next, hnext, hclose⟩ := hitems.exists_close ih
    have hinside := hnext.trans (hclose.balanced rfl)
    exact ((hname.balanced rfl).trans (hopen.balanced rfl)).trans hinside
  | paren hopen _ hclose ih =>
    exact ((hopen.balanced rfl).trans ih).trans (hclose.balanced rfl)
  | unary op hop _ ih => exact (hop.balanced op.isBracket_symbol).trans ih
  | binary op _ hop _ ihleft ihright =>
    exact (ihleft.trans (hop.balanced op.isBracket_symbol)).trans ihright
  | loosen _ ih => exact ih

/-- Behind the list that a phrase starts with, the phrase is over or goes on with an operator. -/
theorem behind_list (h : Phrase level ls value rest) (hhead : headOf ls = .symbol .bracketOpen) :
    ∃ mid, Takes (.symbol .bracketOpen) ls mid ∧ (behindBracket 0 mid = rest ∨
      ∃ op : BinaryOp, headOf (behindBracket 0 mid) = .symbol op.symbol) := by
  induction h with
  | literal value htoken =>
    have hplain := value.isBracket_token
    rw [← htoken.headOf_eq, hhead] at hplain
    contradiction
  | var hname _ | call hname _ _ _ _ _ =>
    rw [hname.headOf_eq] at hhead
    contradiction
  | list hopen hitem hitems ih =>
    obtain ⟨next, hnext, hclose⟩ := hitems.exists_close fun _ _ _ h => (hitem _ _ _ h).balanced
    exact ⟨_, hopen, .inl ((hnext 0).trans hclose.behindBracket_close)⟩
  | paren hopen _ _ _ =>
    rw [hopen.headOf_eq] at hhead
    contradiction
  | unary op hop _ _ =>
    rw [hop.headOf_eq] at hhead
    cases op <;> contradiction
  | binary op _ hop _ ih _ =>
    obtain ⟨mid, hopen, hover | hoperator⟩ := ih hhead
    · refine ⟨mid, hopen, .inr ⟨op, ?_⟩⟩
      rw [hover, hop.headOf_eq]
    · exact ⟨mid, hopen, .inr hoperator⟩
  | loosen _ ih => exact ih hhead

end Phrase

/-! ## Fields -/

theorem SettingForm.balanced {word : String} {ls rest : List Lexeme}
    {setting : FieldSetting SourceExpr} (h : SettingForm word ls setting rest) :
    Balanced ls rest := by
  cases h with
  | title hvalue => exact hvalue.balanced
  | text hvalue => exact hvalue.balanced
  | inline value hvalue => exact hvalue.balanced (Literal.isBracket_token _)

theorem FlowForm.balanced {ls rest : List Lexeme} {values : SourceExpr × SourceExpr × Bool}
    (h : FlowForm ls values rest) : Balanced ls rest := by
  obtain ⟨htitle, hcomma, htext, hinline⟩ := h
  have hboth := (htitle.balanced.trans (hcomma.balanced rfl)).trans htext.balanced
  cases hinline with
  | plain => exact hboth
  | marked hmark hword =>
    exact (hboth.trans (hmark.balanced rfl)).trans (hword.balanced rfl)

theorem FieldForm.balanced {ls rest : List Lexeme} {field : Parser.SourceField}
    (h : FieldForm ls field rest) : Balanced ls rest := by
  cases h with
  | object hsettings =>
    obtain ⟨hopen, hentries, hclose⟩ := hsettings
    have hinside := hentries.balanced fun _ _ _ _ => SettingForm.balanced
    exact ((hopen.balanced rfl).trans hinside).trans (hclose.balanced rfl)
  | tuple hopen hflow hclose =>
    exact ((hopen.balanced rfl).trans hflow.balanced).trans (hclose.balanced rfl)
  | flow hflow => exact hflow.balanced

end MessageTemplate
