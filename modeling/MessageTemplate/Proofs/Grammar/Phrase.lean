import MessageTemplate.Proofs.Tree.Printing

/-!
# The forms of expressions

A *form* relates a list of tokens, what a front of it stands for, and the tokens
behind that front. The forms below say what may be written, with the place that
each node gets; they know neither budgets nor what is looked at first.

An expression can stand at its level and at all looser ones; parentheses bring
any expression down to the tightest level.
-/

namespace MessageTemplate

abbrev Form (α : Type) := List Lexeme → α → List Lexeme → Prop

/-- The place of the first token. -/
def placeOf (ls : List Lexeme) : Position := (ls.head?.map Lexeme.position).getD .start

/-- The first token; as for the grammar, nothing is the end of the input. -/
def headOf (ls : List Lexeme) : Token := (ls.head?.map Lexeme.token).getD .endOfInput

/-- The token `token` stands in front of `rest`. -/
def Takes (token : Token) (ls rest : List Lexeme) : Prop := ∃ place, ls = ⟨token, place⟩ :: rest

@[simp] theorem placeOf_cons (lexeme : Lexeme) (ls : List Lexeme) :
    placeOf (lexeme :: ls) = lexeme.position := rfl

@[simp] theorem headOf_cons (lexeme : Lexeme) (ls : List Lexeme) :
    headOf (lexeme :: ls) = lexeme.token := rfl

theorem Takes.headOf_eq {token : Token} {ls rest : List Lexeme} (h : Takes token ls rest) :
    headOf ls = token := by
  obtain ⟨place, rfl⟩ := h
  rfl

/-- Some tokens in front of `rest` make up `ls`. -/
structure IsBehind (rest ls : List Lexeme) : Prop where
  suffix : rest <:+ ls
  length_lt : rest.length < ls.length

theorem IsBehind.trans {rest mid ls : List Lexeme} (hrest : IsBehind rest mid)
    (hmid : IsBehind mid ls) : IsBehind rest ls :=
  ⟨hrest.suffix.trans hmid.suffix, hrest.length_lt.trans hmid.length_lt⟩

theorem IsBehind.of_suffix {rest mid ls : List Lexeme} (hrest : IsBehind rest mid)
    (hmid : mid <:+ ls) : IsBehind rest ls :=
  ⟨hrest.suffix.trans hmid, hrest.length_lt.trans_le hmid.length_le⟩

theorem IsBehind.of_suffix_left {rest mid ls : List Lexeme} (hmid : IsBehind mid ls)
    (hrest : rest <:+ mid) : IsBehind rest ls :=
  ⟨hrest.trans hmid.suffix, hrest.length_le.trans_lt hmid.length_lt⟩

theorem Takes.isBehind {token : Token} {ls rest : List Lexeme} (h : Takes token ls rest) :
    IsBehind rest ls := by
  obtain ⟨place, rfl⟩ := h
  exact ⟨List.suffix_cons _ _, Nat.lt_succ_self _⟩

theorem Takes.mem {token : Token} {ls rest source : List Lexeme} (h : Takes token ls rest)
    (hls : ls <:+ source) : ⟨token, placeOf ls⟩ ∈ source := by
  obtain ⟨place, rfl⟩ := h
  exact hls.subset (by simp)

/-! ## Lists -/

section

variable {α : Type}

/-- One item and further ones, each behind a comma. -/
inductive Separated (item : Form α) : Form (List α)
  | one {ls rest value} (hitem : item ls value rest) : Separated item ls [value] rest
  | more {ls mid next rest value values} (hitem : item ls value mid)
      (hcomma : Takes (.symbol .comma) mid next) (hmore : Separated item next values rest) :
      Separated item ls (value :: values) rest

/-- Items separated by commas, maybe none, up to the symbol `close`. -/
inductive Listed (item : Form α) (close : Symbol) : Form (List α)
  | none {ls rest} (hclose : Takes (.symbol close) ls rest) : Listed item close ls [] rest
  | some {ls mid rest values} (hitems : Separated item ls values mid)
      (hclose : Takes (.symbol close) mid rest) : Listed item close ls values rest

/-- Items one after another, maybe none. -/
inductive Repeated (item : Form α) : Form (List α)
  | done {ls} : Repeated item ls [] ls
  | more {ls mid rest value values} (hitem : item ls value mid)
      (hmore : Repeated item mid values rest) : Repeated item ls (value :: values) rest

theorem Separated.isBehind {item : Form α} {ls values rest}
    (hitems : Separated item ls values rest)
    (h : ∀ ls value rest, item ls value rest → IsBehind rest ls) : IsBehind rest ls := by
  induction hitems with
  | one hitem => exact h _ _ _ hitem
  | more hitem hcomma _ ih => exact (ih.trans hcomma.isBehind).trans (h _ _ _ hitem)

theorem Listed.isBehind {item : Form α} {close : Symbol} {ls values rest}
    (hitems : Listed item close ls values rest)
    (h : ∀ ls value rest, item ls value rest → IsBehind rest ls) : IsBehind rest ls := by
  cases hitems with
  | none hclose => exact hclose.isBehind
  | some hitems hclose => exact hclose.isBehind.trans (hitems.isBehind h)

theorem Repeated.suffix {item : Form α} {ls values rest} (hitems : Repeated item ls values rest)
    (h : ∀ ls value rest, item ls value rest → IsBehind rest ls) : rest <:+ ls := by
  induction hitems with
  | done => exact List.suffix_refl _
  | more hitem _ ih => exact ih.trans (h _ _ _ hitem).suffix

/-- What holds of the items that are written somewhere in `source` holds of each item in a list. -/
theorem Separated.forall_mem {item : Form α} {p : α → Prop} {source : List Lexeme}
    {ls values rest} (hitems : Separated item ls values rest)
    (hbehind : ∀ ls value rest, item ls value rest → IsBehind rest ls)
    (hp : ∀ ls value rest, item ls value rest → ls <:+ source → p value) (hls : ls <:+ source) :
    ∀ value ∈ values, p value := by
  induction hitems with
  | one hitem => simpa using hp _ _ _ hitem hls
  | more hitem hcomma _ ih =>
    rw [List.forall_mem_cons]
    exact ⟨hp _ _ _ hitem hls,
      ih ((hcomma.isBehind.trans (hbehind _ _ _ hitem)).suffix.trans hls)⟩

theorem Listed.forall_mem {item : Form α} {close : Symbol} {p : α → Prop} {source : List Lexeme}
    {ls values rest} (hitems : Listed item close ls values rest)
    (hbehind : ∀ ls value rest, item ls value rest → IsBehind rest ls)
    (hp : ∀ ls value rest, item ls value rest → ls <:+ source → p value) (hls : ls <:+ source) :
    ∀ value ∈ values, p value := by
  cases hitems with
  | none _ => simp
  | some hitems _ => exact hitems.forall_mem hbehind hp hls

theorem Repeated.forall_mem {item : Form α} {p : α → Prop} {source : List Lexeme}
    {ls values rest} (hitems : Repeated item ls values rest)
    (hbehind : ∀ ls value rest, item ls value rest → IsBehind rest ls)
    (hp : ∀ ls value rest, item ls value rest → ls <:+ source → p value) (hls : ls <:+ source) :
    ∀ value ∈ values, p value := by
  induction hitems with
  | done => simp
  | more hitem _ ih =>
    rw [List.forall_mem_cons]
    exact ⟨hp _ _ _ hitem hls, ih ((hbehind _ _ _ hitem).suffix.trans hls)⟩

theorem Separated.first {item : Form α} {ls values rest} (h : Separated item ls values rest) :
    ∃ value mid, item ls value mid := by
  cases h with
  | one hitem => exact ⟨_, _, hitem⟩
  | more hitem _ _ => exact ⟨_, _, hitem⟩

/-- Where items start one after another there is an item or their end. -/
theorem Repeated.starts {item : Form α} {p : List Lexeme → Prop} {ls values rest}
    (h : Repeated item ls values rest) (hrest : p rest)
    (hitem : ∀ ls value rest, item ls value rest → p ls) : p ls := by
  cases h with
  | done => exact hrest
  | more hfirst _ => exact hitem _ _ _ hfirst

end

/-! ## Expressions -/

/-- The expressions of each level. The items of lists are described by any relation that implies
being a phrase: so an induction over phrases has its hypothesis for the items too. -/
inductive Phrase : Nat → Form SourceExpr
  | literal {ls rest} (value : Literal) (htoken : Takes value.token ls rest) :
      Phrase Level.primary ls (.literal (placeOf ls) value) rest
  | var {ls rest name} (hname : Takes (.ident name) ls rest) (hfree : Keyword.ofWord? name = none) :
      Phrase Level.primary ls (.var (placeOf ls) name) rest
  | list {ls mid rest items} {item : Form SourceExpr} (hopen : Takes (.symbol .bracketOpen) ls mid)
      (hitem : ∀ ls value rest, item ls value rest → Phrase Level.whole ls value rest)
      (hitems : Listed item .bracketClose mid items rest) :
      Phrase Level.primary ls (.list (placeOf ls) items) rest
  | call {ls mid next rest name arguments} {item : Form SourceExpr}
      (hname : Takes (.ident name) ls mid) (hfree : Keyword.ofWord? name = none)
      (hopen : Takes (.symbol .parenOpen) mid next)
      (hitem : ∀ ls value rest, item ls value rest → Phrase Level.whole ls value rest)
      (hitems : Listed item .parenClose next arguments rest) :
      Phrase Level.primary ls (.call (placeOf ls) name arguments) rest
  | paren {ls mid next rest value} (hopen : Takes (.symbol .parenOpen) ls mid)
      (hvalue : Phrase Level.whole mid value next)
      (hclose : Takes (.symbol .parenClose) next rest) :
      Phrase Level.primary ls value rest
  | unary {ls mid rest operand} (op : UnaryOp) (hop : Takes (.symbol op.symbol) ls mid)
      (hoperand : Phrase Level.signed mid operand rest) :
      Phrase Level.signed ls (.unary (placeOf ls) op operand) rest
  | binary {ls mid next rest left right} (op : BinaryOp) (hleft : Phrase op.leftLevel ls left mid)
      (hop : Takes (.symbol op.symbol) mid next) (hright : Phrase op.rightLevel next right rest) :
      Phrase op.level ls (.join op left right) rest
  | loosen {level ls rest value} (hvalue : Phrase level ls value rest) :
      Phrase (level + 1) ls value rest

namespace Phrase

variable {level : Nat} {ls rest : List Lexeme} {value : SourceExpr}

theorem mono (h : Phrase level ls value rest) {other : Nat} (hle : level ≤ other) :
    Phrase other ls value rest := by
  induction hle with
  | refl => exact h
  | step _ ih => exact .loosen ih

theorem isBehind (h : Phrase level ls value rest) : IsBehind rest ls := by
  induction h with
  | literal value htoken => exact htoken.isBehind
  | var hname _ => exact hname.isBehind
  | list hopen _ hitems ih => exact (hitems.isBehind ih).trans hopen.isBehind
  | call hname _ hopen _ hitems ih =>
    exact ((hitems.isBehind ih).trans hopen.isBehind).trans hname.isBehind
  | paren hopen _ hclose ih => exact (hclose.isBehind.trans ih).trans hopen.isBehind
  | unary op hop _ ih => exact ih.trans hop.isBehind
  | binary op _ hop _ ihleft ihright => exact (ihright.trans hop.isBehind).trans ihleft
  | loosen _ ih => exact ih

end Phrase

/-- Where the node of an expression stands in a source. -/
def Expr.StandsIn (source : List Lexeme) : SourceExpr → Prop
  | .literal place value => ⟨value.token, place⟩ ∈ source
  | .var place name | .call place name _ =>
    ⟨.ident name, place⟩ ∈ source ∧ Keyword.ofWord? name = none
  | .list place _ => ⟨.symbol .bracketOpen, place⟩ ∈ source
  | .unary place op _ => ⟨.symbol op.symbol, place⟩ ∈ source
  | .binary place _ left _ => place = left.place ∧ ∃ token, ⟨token, place⟩ ∈ source

theorem Expr.StandsIn.place_mem {source : List Lexeme} {e : SourceExpr} (h : e.StandsIn source) :
    ∃ token, ⟨token, e.place⟩ ∈ source := by
  cases e with
  | literal => exact ⟨_, h⟩
  | var => exact ⟨_, h.1⟩
  | list => exact ⟨_, h⟩
  | call => exact ⟨_, h.1⟩
  | unary => exact ⟨_, h⟩
  | binary => exact h.2

theorem Expr.self_mem_nodes {L P : Type} (e : Expr L P) : e ∈ e.nodes := by
  cases e <;> simp [Expr.nodes]

/-- Every node of a phrase stands at a token of its own kind. -/
theorem Phrase.standsIn {source ls rest : List Lexeme} {level : Nat} {value : SourceExpr}
    (h : Phrase level ls value rest) (hls : ls <:+ source) :
    ∀ node ∈ value.nodes, node.StandsIn source := by
  induction h with
  | literal value htoken =>
    rw [Expr.nodes, List.forall_mem_singleton]
    exact htoken.mem hls
  | var hname hfree =>
    rw [Expr.nodes, List.forall_mem_singleton]
    exact ⟨hname.mem hls, hfree⟩
  | list hopen hitem hitems ih =>
    have hmid := hopen.isBehind.suffix.trans hls
    have hinside :=
      hitems.forall_mem (fun ls value rest h => (hitem ls value rest h).isBehind) ih hmid
    rw [Expr.nodes, List.forall_mem_cons, Expr.nodesOfAll_eq, List.forall_mem_flatMap]
    exact ⟨hopen.mem hls, hinside⟩
  | call hname hfree hopen hitem hitems ih =>
    have hnext := (hopen.isBehind.trans hname.isBehind).suffix.trans hls
    have hinside :=
      hitems.forall_mem (fun ls value rest h => (hitem ls value rest h).isBehind) ih hnext
    rw [Expr.nodes, List.forall_mem_cons, Expr.nodesOfAll_eq, List.forall_mem_flatMap]
    exact ⟨⟨hname.mem hls, hfree⟩, hinside⟩
  | paren hopen _ _ ih => exact ih (hopen.isBehind.suffix.trans hls)
  | unary op hop _ ih =>
    rw [Expr.nodes, List.forall_mem_cons]
    exact ⟨hop.mem hls, ih (hop.isBehind.suffix.trans hls)⟩
  | @binary ls mid next rest left right op hleft hop _ ihleft ihright =>
    have hmid := hleft.isBehind.suffix.trans hls
    have hleftNodes := ihleft hls
    rw [Expr.join, Expr.nodes, List.forall_mem_cons, List.forall_mem_append]
    refine ⟨⟨rfl, (hleftNodes left left.self_mem_nodes).place_mem⟩, hleftNodes, ?_⟩
    exact ihright (hop.isBehind.suffix.trans hmid)
  | loosen _ ih => exact ih hls

end MessageTemplate
