import MessageTemplate.Proofs.Grammar.Running

/-!
# Soundness of the grammar

What the rules read has the forms it should have, by induction on the budget.
A statement that a rule has read is not in front of an `else` that could belong
to it.
-/

namespace MessageTemplate
namespace Parser

variable {source : List Lexeme}

/-! ## Expressions -/

/-- The rules read the expressions of their levels. -/
structure ExprRules.Read (source : List Lexeme) (rules : ExprRules) : Prop where
  whole : Reads source rules.whole Whole
  signed : Reads source rules.signed (Phrase Level.signed)

theorem listUntil_whole_reads {whole : Parser SourceExpr} (h : Reads source whole Whole)
    (close : Symbol) : Reads source (listUntil whole close) (Listed Whole close) :=
  listUntil_reads h (fun _ _ _ => Phrase.isBehind) close

section

variable {inner : ExprRules}

theorem primary_reads (hinner : inner.Read source) :
    Reads source (primary inner) (Phrase Level.primary) := by
  intro ls hls
  refine Gives.here (Gives.peek ?_)
  split
  · rename_i raw hhead
    exact .skip hls hhead rfl fun rest htoken hrest => .pure (.literal (.number raw) htoken) hrest
  · rename_i raw hhead
    exact .skip hls hhead rfl fun rest htoken hrest => .pure (.literal (.string raw) htoken) hrest
  · rename_i raw hhead
    exact .skip hls hhead rfl fun rest htoken hrest => .pure (.literal (.hex raw) htoken) hrest
  · rename_i word hhead
    split
    · rename_i hword
      obtain rfl := Keyword.word_of_ofWord? hword
      exact .skip hls hhead rfl fun rest htoken hrest => .pure (.literal (.bool true) htoken) hrest
    · rename_i hword
      obtain rfl := Keyword.word_of_ofWord? hword
      exact .skip hls hhead rfl fun rest htoken hrest => .pure (.literal (.bool false) htoken) hrest
    · exact .fail hls
    · rename_i hfree
      apply Gives.skip hls hhead rfl
      intro mid hname hmid
      refine .accept hmid rfl (fun next hopen hnext => ?_) fun _ => .pure (.var hname hfree) hmid
      apply (listUntil_whole_reads hinner.whole _ next hnext).bind
      intro arguments rest hitems hrest
      exact .pure (.call hname hfree hopen (fun _ _ _ h => h) hitems) hrest
  · rename_i hhead
    apply Gives.skip hls hhead rfl
    intro mid hopen hmid
    apply (listUntil_whole_reads hinner.whole _ mid hmid).bind
    intro items rest hitems hrest
    exact .pure (.list hopen (fun _ _ _ h => h) hitems) hrest
  · rename_i hhead
    apply Gives.skip hls hhead rfl
    intro mid hopen hmid
    apply (hinner.whole mid hmid).bind
    intro value next hvalue hnext
    apply (require_reads _ next hnext).bind
    intro _ rest hclose hrest
    exact .pure (.paren hopen hvalue hclose) hrest
  · exact .fail hls
  · exact .fail hls
  · exact .failExpecting hls

theorem power_reads (hinner : inner.Read source) :
    Reads source (power inner) (Phrase Level.power) := by
  intro ls hls
  apply (primary_reads hinner ls hls).bind
  intro base mid hbase hmid
  refine .accept hmid rfl (fun next hop hnext => ?_) fun _ => .pure (.loosen hbase) hmid
  apply (hinner.signed next hnext).bind
  intro exponent rest hexponent hrest
  exact .pure (.binary .power hbase hop hexponent) hrest

theorem signed_reads (hinner : inner.Read source) :
    Reads source (signed inner) (Phrase Level.signed) := by
  intro ls hls
  have hpower := (power_reads hinner ls hls).mono fun value rest h => Phrase.loosen h
  refine Gives.here (Gives.peek ?_)
  split
  · rename_i symbol hhead
    split
    · rename_i op hop
      obtain rfl := UnaryOp.ofSymbol?_eq_some_iff.1 hop
      apply Gives.skip hls hhead rfl
      intro mid hop hmid
      apply (hinner.signed mid hmid).bind
      intro operand rest hoperand hrest
      exact .pure (.unary op hop hoperand) hrest
    · exact hpower
  · exact hpower

/-- The levels of an operator of a rank above that of `^`. -/
theorem levels_of_rank {op : BinaryOp} {rank : Nat} (h : op.rank = rank + 1) :
    op.level = rank + 3 ∧ op.leftLevel = rank + 3 ∧ op.rightLevel = rank + 2 := by
  cases op with
  | power => exact absurd h.symm (Nat.succ_ne_zero _)
  | _ => simp_all [BinaryOp.level, BinaryOp.leftLevel, BinaryOp.rightLevel, BinaryOp.rank]

theorem operatorOf_eq_some_iff {rank : Nat} {token : Token} {op : BinaryOp} :
    operatorOf rank token = some op ↔ token = .symbol op.symbol ∧ op.rank = rank := by
  cases token with
  | symbol symbol =>
    rw [operatorOf, Option.filter_eq_some_iff, BinaryOp.ofSymbol?_eq_some_iff, beq_iff_eq,
      Token.symbol.injEq, @eq_comm _ symbol]
  | _ => simp [operatorOf]

theorem chainWithin_reads {operand : Parser SourceExpr} {rank : Nat}
    (hoperand : Reads source operand (Phrase (rank + 2))) {rounds : Nat} {left : SourceExpr}
    {ls mid : List Lexeme} (hleft : Phrase (rank + 3) ls left mid) (hmid : Remains source mid) :
    Gives source (chainWithin operand (rank + 1) rounds left) mid (Phrase (rank + 3) ls) := by
  induction rounds generalizing left mid with
  | zero => exact .pure hleft hmid
  | succ rounds ih =>
    apply Gives.peek
    split
    · rename_i op hop
      obtain ⟨hhead, hrank⟩ := operatorOf_eq_some_iff.1 hop
      obtain ⟨hlevel, hleftLevel, hrightLevel⟩ := levels_of_rank hrank
      apply Gives.skip hmid hhead rfl
      intro next hop hnext
      apply (hoperand next hnext).bind
      intro right rest hright hrest
      have hjoin : Phrase op.level ls (.join op left right) rest :=
        .binary op (hleftLevel ▸ hleft) hop (hrightLevel ▸ hright)
      exact ih (hlevel ▸ hjoin) hrest
    · exact .pure hleft hmid

theorem tier_reads (hinner : inner.Read source) (rounds rank : Nat) :
    Reads source (tier rounds inner rank) (Phrase (rank + 2)) := by
  induction rank with
  | zero => exact signed_reads hinner
  | succ rank ih =>
    intro ls hls
    apply (ih ls hls).bind
    intro first mid hfirst hmid
    exact chainWithin_reads ih (.loosen hfirst) hmid

end

theorem exprRulesAt_read (budget : Nat) : (exprRulesAt budget).Read source := by
  induction budget with
  | zero => exact ⟨fun _ hls => .failExpecting hls, fun _ hls => .failExpecting hls⟩
  | succ budget ih => exact ⟨tier_reads ih budget BinaryOp.loosest, signed_reads ih⟩

theorem expr_reads : Reads source expr Whole :=
  fun ls hls => .bounded ((exprRulesAt_read _).whole ls hls)

/-! ## Parts of an embed -/

theorem propertyKey_gives {K : Type} {ofWord? : String → Option K} {owner : PropertyOwner}
    {place : Position} {word : String} {ls : List Lexeme} (hplace : IsPlaceIn source place)
    (hls : Remains source ls) :
    Gives source (propertyKey owner ofWord? place word) ls
      fun key rest => ofWord? word = some key ∧ rest = ls := by
  unfold propertyKey
  split
  · rename_i key hkey
    exact .pure ⟨hkey, rfl⟩ hls
  · exact .failAt hplace

theorem sectionBody_reads {F K : Type} {owner : PropertyOwner} {ofWord? : String → Option K}
    {flow : Parser F} {form : Form F} (hflow : Reads source flow form) :
    Reads source (sectionBody owner ofWord? flow) (SectionForm ofWord? form) := by
  intro ls hls
  refine Gives.accept hls rfl (fun mid hdot hmid => ?_) fun _ => ?_
  · apply Gives.here
    apply (propertyName_reads mid hmid).bind
    intro word next hword hnext
    apply (propertyKey_gives hmid.isPlaceIn hnext).bind
    intro key _ hkey _
    obtain ⟨hkey, rfl⟩ := hkey
    apply (writeMode_reads _ hnext).bind
    intro mode after hmode hafter
    apply (expr_reads after hafter).bind
    intro value rest hvalue hrest
    exact .pure (.property hdot hword hkey hmode hvalue) hrest
  · refine (writeMode_reads ls hls).bind fun mode mid hmode hmid => .peek ?_
    split
    · refine Gives.bind (object_reads ?_ mid hmid) fun entries rest hentries hrest =>
        .pure (.object hmode hentries) hrest
      intro place word hplace ls hls
      apply (propertyKey_gives hplace hls).bind
      intro key _ hkey _
      obtain ⟨hkey, rfl⟩ := hkey
      exact (expr_reads _ hls).bind fun value rest hvalue hrest => .pure ⟨hkey, hvalue⟩ hrest
    · exact (hflow mid hmid).bind fun values rest hvalues hrest => .pure (.flow hmode hvalues) hrest

theorem nextInFlow_reads : Reads source nextInFlow (Following Whole) := by
  intro ls hls
  refine Gives.accept hls rfl (fun mid hcomma hmid => ?_) fun _ => .pure .none hls
  exact (expr_reads mid hmid).bind fun value rest hvalue hrest => .pure (.some hcomma hvalue) hrest

theorem authorFlow_reads : Reads source authorFlow AuthorFlowForm := by
  intro ls hls
  apply (expr_reads ls hls).bind
  intro name mid hname hmid
  apply (nextInFlow_reads mid hmid).bind
  intro url next hurl hnext
  cases hurl with
  | none => exact .pure (.name hname) hmid
  | some hcomma hvalue =>
    apply (nextInFlow_reads next hnext).bind
    intro icon rest hicon hrest
    exact .pure (.url hname (.some hcomma hvalue) hicon) hrest

theorem footerFlow_reads : Reads source footerFlow FooterFlowForm := by
  intro ls hls
  apply (expr_reads ls hls).bind
  intro text mid htext hmid
  exact (nextInFlow_reads mid hmid).bind fun icon rest hicon hrest => .pure ⟨htext, hicon⟩ hrest

theorem fieldSetting_reads : ReadsEntry source fieldSetting SettingForm := by
  intro place word hplace ls hls
  unfold fieldSetting
  split
  · exact (expr_reads ls hls).bind fun value rest hvalue hrest => .pure (.title hvalue) hrest
  · exact (expr_reads ls hls).bind fun value rest hvalue hrest => .pure (.text hvalue) hrest
  · exact (boolean_reads ls hls).bind fun value rest hvalue hrest =>
      .pure (.inline value hvalue) hrest
  · exact .failAt hplace

theorem inlineMark_reads : Reads source inlineMark InlineForm := by
  intro ls hls
  apply Gives.get
  split
  · rename_i comma word place rest
    split
    · rename_i hword
      subst hword
      obtain ⟨hcomma, hmid⟩ := hls.takes rfl rfl
      obtain ⟨hword, hrest⟩ : Takes Keyword.inline.token _ rest ∧ Remains source rest :=
        hmid.takes rfl rfl
      exact .set (.pure (.marked hcomma hword) hrest)
    · exact .pure .plain hls
  · exact .pure .plain hls

theorem fieldFlow_gives {place : Position} {ls : List Lexeme} (hls : Remains source ls) :
    Gives source (fieldFlow place) ls fun field rest =>
      ∃ title text inline, field = .flow place title text inline ∧
        FlowForm ls (title, text, inline) rest := by
  apply (expr_reads ls hls).bind
  intro title mid htitle hmid
  apply (require_reads _ mid hmid).bind
  intro _ next hcomma hnext
  apply (expr_reads next hnext).bind
  intro text after htext hafter
  apply (inlineMark_reads after hafter).bind
  intro inline rest hinline hrest
  exact .pure ⟨title, text, inline, rfl, htitle, hcomma, htext, hinline⟩ hrest

theorem fieldTuple_gives {ls : List Lexeme} (hls : Remains source ls) :
    Gives source (fieldTuple (placeOf ls)) ls fun field? rest =>
      field?.elim (rest = ls) fun field => FieldForm ls field rest := by
  apply Gives.get
  apply (require_reads _ ls hls).bind
  intro _ mid hopen hmid
  apply (expr_reads mid hmid).bind
  intro title next htitle hnext
  refine .accept hnext rfl (fun after hcomma hafter => ?_) fun _ => .set (.pure rfl hls)
  apply (expr_reads after hafter).bind
  intro text behind htext hbehind
  apply (inlineMark_reads behind hbehind).bind
  intro inline last hinline hlast
  apply (require_reads _ last hlast).bind
  intro _ rest hclose hrest
  exact .pure (.tuple hopen ⟨htitle, hcomma, htext, hinline⟩ hclose) hrest

theorem field_reads : Reads source field FieldForm := by
  intro ls hls
  have hflow : Gives source (fieldFlow (placeOf ls)) ls (FieldForm ls) := by
    refine (fieldFlow_gives hls).mono ?_
    rintro _ rest ⟨title, text, inline, rfl, hflow⟩
    exact .flow hflow
  refine Gives.here (Gives.peek ?_)
  split
  · apply (object_reads fieldSetting_reads ls hls).bind
    intro settings rest hsettings hrest
    exact .pure (.object hsettings) hrest
  · apply (fieldTuple_gives hls).bind
    intro field? rest hfield hrest
    cases field? with
    | some field => exact .pure hfield hrest
    | none =>
      obtain rfl : rest = ls := hfield
      exact hflow
  · exact hflow

theorem fieldsBody_reads : Reads source fieldsBody FieldsForm := by
  intro ls hls
  refine Gives.accept hls rfl (fun mid hdot hmid => ?_) fun _ => ?_
  · apply Gives.here
    apply (propertyName_reads mid hmid).bind
    intro word next hword hnext
    apply (writeMode_reads next hnext).bind
    intro mode after hmode hafter
    apply (fieldSetting_reads _ word hmid.isPlaceIn after hafter).bind
    intro setting rest hsetting hrest
    exact .pure (.property hdot hword hmode hsetting) hrest
  · apply (writeMode_reads ls hls).bind
    intro mode mid hmode hmid
    refine .accept hmid rfl (fun next hopen hnext => ?_) fun hhead => ?_
    · apply (commaSeparated_reads field_reads (fun _ _ _ => FieldForm.isBehind) next hnext).bind
      intro fields after hfields hafter
      apply (require_reads _ after hafter).bind
      intro _ rest hclose hrest
      exact .pure (.list hmode hopen hfields hclose) hrest
    · apply (field_reads mid hmid).bind
      intro field rest hfield hrest
      exact .pure (.part hmode hhead hfield) hrest

theorem partBody_reads : ReadsEntry source partBody PartForm := by
  intro place word hplace ls hls
  unfold partBody
  split
  · rename_i member hmember
    apply (require_reads _ ls hls).bind
    intro _ mid hassign hmid
    exact (expr_reads mid hmid).bind fun value rest hvalue hrest =>
      .pure (.member hmember hassign hvalue) hrest
  · split
    · apply (sectionBody_reads authorFlow_reads ls hls).bind
      intro written rest hbody hrest
      exact .pure (.author hbody) hrest
    · apply (sectionBody_reads footerFlow_reads ls hls).bind
      intro written rest hbody hrest
      exact .pure (.footer hbody) hrest
    · apply (fieldsBody_reads ls hls).bind
      intro written rest hbody hrest
      exact .pure (.fields (.inl rfl) hbody) hrest
    · apply (fieldsBody_reads ls hls).bind
      intro written rest hbody hrest
      exact .pure (.fields (.inr rfl) hbody) hrest
    · exact .failAt hplace

theorem embedPart_reads : Reads source embedPart EmbedPartForm := by
  intro ls hls
  apply Gives.here
  apply (propertyName_reads ls hls).bind
  intro word mid hword hmid
  apply (partBody_reads _ word hls.isPlaceIn mid hmid).bind
  intro body next hbody hnext
  apply (require_reads _ next hnext).bind
  intro _ rest hsemicolon hrest
  exact .pure ⟨hword, hbody, hsemicolon⟩ hrest

/-! ## Statements -/

/-- What a rule for statements reads: all of a conditional at its end, up to its `else`. -/
def Settled : Form SourceStmt := fun ls s rest =>
  Sentence ls s rest ∧ (s.isOpen = true → headOf rest ≠ Keyword.otherwise.token)

theorem simple_reads : Reads source simple SimpleForm := by
  intro ls hls
  refine Gives.here (Gives.get ?_)
  split
  · rename_i word place assignPlace more
    apply (name_reads _ _ hls).bind
    intro name mid hname hmid
    obtain ⟨⟨_, heq⟩, hfree⟩ := hname
    obtain ⟨hlexeme, rfl⟩ := List.cons.inj heq
    apply Gives.skip hmid rfl rfl
    intro next hassign hnext
    apply (expr_reads next hnext).bind
    intro value rest hvalue hrest
    exact .pure (.assign ⟨_, heq⟩ hfree hassign hvalue) hrest
  · exact (expr_reads ls hls).bind fun value rest hvalue hrest => .pure (.expr hvalue) hrest

theorem exprSemicolon_reads : Reads source exprSemicolon ClosedForm := by
  intro ls hls
  apply (expr_reads ls hls).bind
  intro value mid hvalue hmid
  exact (require_reads _ mid hmid).bind fun _ rest hclose hrest => .pure ⟨hvalue, hclose⟩ hrest

theorem parenthesized_reads : Reads source parenthesized ConditionForm := by
  intro ls hls
  apply (require_reads _ ls hls).bind
  intro _ mid hopen hmid
  apply (expr_reads mid hmid).bind
  intro value next hvalue hnext
  apply (require_reads _ next hnext).bind
  intro _ rest hclose hrest
  exact .pure ⟨hopen, hvalue, hclose⟩ hrest

theorem unlessAt_reads {α : Type} {stop : Symbol} {rule : Parser α} {form : Form α}
    (hrule : Reads source rule form) : Reads source (unlessAt stop rule) (Optional form) := by
  intro ls hls
  apply Gives.peek
  split
  · exact .pure .none hls
  · exact (hrule ls hls).bind fun value rest hvalue hrest => .pure (.some hvalue) hrest

theorem exprStmt_reads : Reads source exprStmt Settled := by
  intro ls hls
  apply (simple_reads ls hls).bind
  intro s mid hsimple hmid
  refine (require_reads _ mid hmid).bind fun _ rest hclose hrest =>
    .pure ⟨.simple hsimple hclose, ?_⟩ hrest
  cases hsimple <;> simp [Stmt.isOpen]

theorem embed_gives {place : Position} {ls : List Lexeme} (hls : Remains source ls) :
    Gives source (embed place) ls fun s rest =>
      ∃ parts, s = .embed place parts ∧ PartsForm ls parts rest := by
  refine .accept hls rfl (fun mid hdot hmid => ?_) fun _ => ?_
  · apply (embedPart_reads mid hmid).bind
    intro part rest hpart hrest
    exact .pure ⟨_, rfl, .single hdot hpart⟩ hrest
  · apply (require_reads _ ls hls).bind
    intro _ mid hopen hmid
    apply (untilBrace_reads embedPart_reads (fun _ _ _ => EmbedPartForm.isBehind) mid hmid).bind
    intro parts rest ⟨next, hparts, hclose⟩ hrest
    exact .pure ⟨_, rfl, .braces hopen hparts hclose⟩ hrest

section

variable {inner : Parser SourceStmt}

theorem Settled.isBehind {ls rest : List Lexeme} {s : SourceStmt} (h : Settled ls s rest) :
    IsBehind rest ls :=
  h.1.isBehind

theorem block_reads (hinner : Reads source inner Settled) :
    Reads source (block inner) (BlockForm Settled) := by
  intro ls hls
  apply Gives.here
  apply (require_reads _ ls hls).bind
  intro _ mid hopen hmid
  apply (untilBrace_reads hinner (fun _ _ _ => Settled.isBehind) mid hmid).bind
  intro body rest ⟨next, hbody, hclose⟩ hrest
  exact .pure ⟨hopen, hbody, hclose⟩ hrest

/-- A statement with its reserved word in front is not open unless it says so. -/
theorem Settled.of_closed {ls rest : List Lexeme} {s : SourceStmt} (h : Sentence ls s rest)
    (hclosed : s.isOpen = false) : Settled ls s rest :=
  ⟨h, fun hopen => absurd (hclosed.symm.trans hopen) Bool.false_ne_true⟩

theorem functionDeclaration_gives (hinner : Reads source inner Settled) {ls mid : List Lexeme}
    (hword : Takes Keyword.function.token ls mid) (hmid : Remains source mid) :
    Gives source (functionDeclaration inner (placeOf ls)) mid (Settled ls) := by
  apply Gives.here
  apply (name_reads _ mid hmid).bind
  intro name next hname hnext
  apply (require_reads _ next hnext).bind
  intro _ after hopen hafter
  apply (listUntil_reads (name_reads _) (fun _ _ _ h => h.1.isBehind) _ after hafter).bind
  intro parameters behind hparameters hbehind
  apply (block_reads hinner behind hbehind).bind
  intro body rest hbody hrest
  exact .pure (.of_closed (.function hword hname hopen hparameters (fun _ _ _ h => h.1) hbody) rfl)
    hrest

theorem branch_gives (hinner : Reads source inner Settled) {ls mid : List Lexeme}
    (hword : Takes Keyword.branch.token ls mid) (hmid : Remains source mid) :
    Gives source (branch inner (placeOf ls)) mid (Settled ls) := by
  apply (parenthesized_reads mid hmid).bind
  intro test next htest hnext
  apply (hinner next hnext).bind
  intro yes after hyes hafter
  refine .accept hafter rfl (fun behind helse hbehind => ?_) fun hhead => ?_
  · have hclosed : yes.isOpen = false := by
      by_contra hopen
      exact hyes.2 (by simpa using hopen) helse.headOf_eq
    apply (hinner behind hbehind).bind
    intro no rest hno hrest
    exact .pure ⟨.branchElse hword htest hyes.1 hclosed helse hno.1, hno.2⟩ hrest
  · exact .pure ⟨.branch hword htest hyes.1, fun _ => hhead⟩ hafter

theorem forLoop_gives (hinner : Reads source inner Settled) {ls mid : List Lexeme}
    (hword : Takes Keyword.forLoop.token ls mid) (hmid : Remains source mid) :
    Gives source (forLoop inner (placeOf ls)) mid (Settled ls) := by
  apply (require_reads _ mid hmid).bind
  intro _ next hopen hnext
  apply (unlessAt_reads simple_reads next hnext).bind
  intro init afterInit hinit hafterInit
  apply (require_reads _ _ hafterInit).bind
  intro _ toCheck hinitClose htoCheck
  apply (unlessAt_reads expr_reads toCheck htoCheck).bind
  intro check afterCheck hcheck hafterCheck
  apply (require_reads _ _ hafterCheck).bind
  intro _ toStep hcheckClose htoStep
  apply (unlessAt_reads simple_reads toStep htoStep).bind
  intro step afterStep hstep hafterStep
  apply (require_reads _ _ hafterStep).bind
  intro _ toBody hstepClose htoBody
  apply (hinner toBody htoBody).bind
  intro body rest hbody hrest
  exact .pure ⟨.forLoop hword hopen hinit hinitClose hcheck hcheckClose hstep hstepClose hbody.1,
    hbody.2⟩ hrest

theorem foreach_gives (hinner : Reads source inner Settled) {ls mid : List Lexeme}
    (hword : Takes Keyword.foreach.token ls mid) (hmid : Remains source mid) :
    Gives source (foreach inner (placeOf ls)) mid (Settled ls) := by
  apply (require_reads _ mid hmid).bind
  intro _ next hopen hnext
  apply (name_reads _ next hnext).bind
  intro name after hname hafter
  apply (requireWord_reads _ after hafter).bind
  intro _ toItems hamong htoItems
  apply (expr_reads toItems htoItems).bind
  intro iterable afterItems hiterable hafterItems
  apply (require_reads _ _ hafterItems).bind
  intro _ toBody hclose htoBody
  apply (hinner toBody htoBody).bind
  intro body rest hbody hrest
  exact .pure ⟨.foreach hword hopen hname hamong hiterable hclose hbody.1, hbody.2⟩ hrest

theorem whileLoop_gives (hinner : Reads source inner Settled) {ls mid : List Lexeme}
    (hword : Takes Keyword.whileLoop.token ls mid) (hmid : Remains source mid) :
    Gives source (whileLoop inner (placeOf ls)) mid (Settled ls) := by
  apply (parenthesized_reads mid hmid).bind
  intro test next htest hnext
  apply (hinner next hnext).bind
  intro body rest hbody hrest
  exact .pure ⟨.whileLoop hword htest hbody.1, hbody.2⟩ hrest

theorem doWhile_gives (hinner : Reads source inner Settled) {ls mid : List Lexeme}
    (hword : Takes Keyword.doLoop.token ls mid) (hmid : Remains source mid) :
    Gives source (doWhile inner (placeOf ls)) mid (Settled ls) := by
  apply (hinner mid hmid).bind
  intro body next hbody hnext
  apply (requireWord_reads _ next hnext).bind
  intro _ after hwhile hafter
  apply (parenthesized_reads after hafter).bind
  intro test behind htest hbehind
  apply (require_reads _ behind hbehind).bind
  intro _ rest hclose hrest
  exact .pure (.of_closed (.doWhile hword hbody.1 hwhile htest hclose) rfl) hrest

theorem keywordStmt_gives (hinner : Reads source inner Settled) {keyword : Keyword}
    {ls : List Lexeme} (hls : Remains source ls) (hhead : headOf ls = keyword.token) :
    Gives source (keywordStmt inner (placeOf ls) keyword) ls (Settled ls) := by
  unfold keywordStmt
  cases keyword with
  | constant => exact .fail hls
  | function => exact .skip hls hhead rfl fun _ hword => functionDeclaration_gives hinner hword
  | branch => exact .skip hls hhead rfl fun _ hword => branch_gives hinner hword
  | forLoop => exact .skip hls hhead rfl fun _ hword => forLoop_gives hinner hword
  | foreach => exact .skip hls hhead rfl fun _ hword => foreach_gives hinner hword
  | whileLoop => exact .skip hls hhead rfl fun _ hword => whileLoop_gives hinner hword
  | doLoop => exact .skip hls hhead rfl fun _ hword => doWhile_gives hinner hword
  | result =>
    apply Gives.skip hls hhead rfl
    intro mid hword hmid
    apply (exprSemicolon_reads mid hmid).bind
    intro value rest hvalue hrest
    exact .pure (.of_closed (.result hword hvalue) rfl) hrest
  | text =>
    apply Gives.skip hls hhead rfl
    intro mid hword hmid
    apply (exprSemicolon_reads mid hmid).bind
    intro value rest hvalue hrest
    exact .pure (.of_closed (.text hword hvalue) rfl) hrest
  | attachment =>
    apply Gives.skip hls hhead rfl
    intro mid hword hmid
    apply (exprSemicolon_reads mid hmid).bind
    intro value rest hvalue hrest
    exact .pure (.of_closed (.attachment hword hvalue) rfl) hrest
  | embed =>
    apply Gives.skip hls hhead rfl
    intro mid hword hmid
    refine (embed_gives hmid).mono ?_
    rintro _ rest ⟨parts, rfl, hparts⟩
    exact .of_closed (.embed hword hparts) rfl
  | _ => exact exprStmt_reads ls hls

theorem stmtRule_reads (hinner : Reads source inner Settled) :
    Reads source (stmtRule inner) Settled := by
  intro ls hls
  refine Gives.here (Gives.peek ?_)
  split
  · apply (block_reads hinner ls hls).mono
    intro s rest hblock
    obtain ⟨hopen, hbody, hclose⟩ := hblock
    exact .of_closed (.block (fun _ _ _ h => h.1) ⟨hopen, hbody, hclose⟩) rfl
  · rename_i hhead
    exact .skip hls hhead rfl fun rest hclose hrest => .pure (.of_closed (.empty hclose) rfl) hrest
  · rename_i word hhead
    split
    · rename_i keyword hword
      obtain rfl := Keyword.word_of_ofWord? hword
      exact keywordStmt_gives hinner hls hhead
    · exact exprStmt_reads ls hls
  · exact exprStmt_reads ls hls

end

theorem stmtRuleAt_reads (budget : Nat) : Reads source (stmtRuleAt budget) Settled := by
  induction budget with
  | zero => exact fun _ hls => .failExpecting hls
  | succ budget ih => exact stmtRule_reads ih

theorem item_reads : Reads source item ItemForm := by
  intro ls hls
  refine Gives.here (Gives.accept hls rfl (fun mid hword hmid => ?_) fun _ => ?_)
  · apply (name_reads _ mid hmid).bind
    intro name next hname hnext
    apply (require_reads _ next hnext).bind
    intro _ after hassign hafter
    apply (exprSemicolon_reads after hafter).bind
    intro value rest hvalue hrest
    exact .pure (.constant hword hname hassign hvalue) hrest
  · apply (Gives.bounded (stmtRuleAt_reads _ ls hls)).bind
    intro s rest hstmt hrest
    exact .pure (.stmt hstmt.1) hrest

end Parser

/-! ## Templates -/

/-- The last token of a text is one that no rule takes. -/
theorem lexemes_remain (source : String) : Parser.Remains (lexemes source) (lexemes source) := by
  refine ⟨List.suffix_refl _, ?_⟩
  unfold lexemes
  generalize source.toList = text
  generalize Position.start = position
  fun_induction lexemesFrom position text with
  | case4 position text gap c rest hgap here scan hscan ih =>
    obtain ⟨front, last, hfront, hlast⟩ := ih
    exact ⟨_ :: front, last, congrArg _ hfront, hlast⟩
  | _ => exact ⟨[], _, rfl, rfl⟩

/-- What is read from a text, if it can be read, and where a complaint about it points to. -/
theorem parseTemplate_gives (source : String) :
    (∀ items, parseTemplate source = .ok items → TemplateForm (lexemes source) items) ∧
      ∀ e, parseTemplate source = .error e → IsPlaceIn (lexemes source) e.position := by
  have houtcome := Parser.untilEndWithin_reads Parser.item_reads (fun _ _ _ => ItemForm.isBehind)
    (lexemes_remain source) (Nat.lt_succ_self _)
  have hparse : parseTemplate source = (Parser.untilEndWithin Parser.item
      ((lexemes source).length + 1) (lexemes source)).map Prod.fst := rfl
  rw [Parser.Gives] at houtcome
  rw [hparse]
  generalize Parser.untilEndWithin _ _ _ = result at houtcome ⊢
  cases houtcome with
  | ok hpost hrest =>
    refine ⟨?_, fun e he => by simp [Except.map] at he⟩
    rintro items ⟨⟩
    exact ⟨hpost.1, hpost.2⟩
  | error hplace =>
    refine ⟨fun items hitems => by simp [Except.map] at hitems, ?_⟩
    rintro e ⟨⟩
    exact hplace

end MessageTemplate
