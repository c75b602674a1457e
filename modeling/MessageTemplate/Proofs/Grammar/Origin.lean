import MessageTemplate.Proofs.Grammar.Sentence

/-!
# Where trees come from

A tree that is written in a source has its places there, and it is well formed
if the words and literals of the source are stable tokens. Each form takes at
least one token from the front, so what is inside a form is written in the same
source.
-/

namespace MessageTemplate

variable {ls rest source : List Lexeme}

/-! ## Forms are not empty -/

section

variable {α : Type}

theorem Entries.suffix {entry : String → Form α} {values : List α}
    (hentries : Entries entry ls values rest)
    (h : ∀ word ls value rest, entry word ls value rest → IsBehind rest ls) : rest <:+ ls := by
  induction hentries with
  | none => exact List.suffix_refl _
  | last hword hcolon hentry =>
    exact (((h _ _ _ _ hentry).trans hcolon.isBehind).trans hword.isBehind).suffix
  | more hword hcolon hentry hcomma _ ih =>
    have hfirst := ((h _ _ _ _ hentry).trans hcolon.isBehind).trans hword.isBehind
    exact ih.trans (hcomma.isBehind.trans hfirst).suffix

theorem Entries.forall_mem {entry : String → Form α} {p : α → Prop} {values : List α}
    (hentries : Entries entry ls values rest)
    (hbehind : ∀ word ls value rest, entry word ls value rest → IsBehind rest ls)
    (hp : ∀ word ls value rest, entry word ls value rest → ls <:+ source → p value)
    (hls : ls <:+ source) : ∀ value ∈ values, p value := by
  induction hentries with
  | none => simp
  | last hword hcolon hentry =>
    simpa using hp _ _ _ _ hentry ((hcolon.isBehind.trans hword.isBehind).suffix.trans hls)
  | more hword hcolon hentry hcomma _ ih =>
    have hnext := (hcolon.isBehind.trans hword.isBehind).suffix.trans hls
    have hrest := (hcomma.isBehind.trans (hbehind _ _ _ _ hentry)).suffix.trans hnext
    rw [List.forall_mem_cons]
    exact ⟨hp _ _ _ _ hentry hnext, ih hrest⟩

theorem ObjectForm.isBehind {entry : String → Form α} {values : List α}
    (hobject : ObjectForm entry ls values rest)
    (h : ∀ word ls value rest, entry word ls value rest → IsBehind rest ls) : IsBehind rest ls := by
  obtain ⟨hopen, hentries, hclose⟩ := hobject
  exact (hclose.isBehind.of_suffix (hentries.suffix h)).trans hopen.isBehind

theorem ObjectForm.forall_mem {entry : String → Form α} {p : α → Prop} {values : List α}
    (hobject : ObjectForm entry ls values rest)
    (hbehind : ∀ word ls value rest, entry word ls value rest → IsBehind rest ls)
    (hp : ∀ word ls value rest, entry word ls value rest → ls <:+ source → p value)
    (hls : ls <:+ source) : ∀ value ∈ values, p value := by
  obtain ⟨hopen, hentries, -⟩ := hobject
  exact hentries.forall_mem hbehind hp (hopen.isBehind.suffix.trans hls)

theorem Following.suffix {item : Form α} {value : Option α}
    (hfollowing : Following item ls value rest)
    (h : ∀ ls value rest, item ls value rest → IsBehind rest ls) : rest <:+ ls := by
  cases hfollowing with
  | none => exact List.suffix_refl _
  | some hcomma hitem => exact ((h _ _ _ hitem).trans hcomma.isBehind).suffix

theorem Optional.suffix {item : Form α} {value : Option α} (hoptional : Optional item ls value rest)
    (h : ∀ ls value rest, item ls value rest → IsBehind rest ls) : rest <:+ ls := by
  cases hoptional with
  | none => exact List.suffix_refl _
  | some hitem => exact (h _ _ _ hitem).suffix

end

theorem AuthorFlowForm.isBehind {flow : AuthorFlow SourceExpr} (h : AuthorFlowForm ls flow rest) :
    IsBehind rest ls := by
  cases h with
  | name hname => exact hname.isBehind
  | url hname hurl hicon =>
    have hurl := hurl.suffix fun _ _ _ => Phrase.isBehind
    exact hname.isBehind.of_suffix_left ((hicon.suffix fun _ _ _ => Phrase.isBehind).trans hurl)

theorem FooterFlowForm.isBehind {flow : FooterFlow SourceExpr} (h : FooterFlowForm ls flow rest) :
    IsBehind rest ls := by
  obtain ⟨htext, hicon⟩ := h
  exact htext.isBehind.of_suffix_left (hicon.suffix fun _ _ _ => Phrase.isBehind)

theorem SectionForm.isBehind {F K : Type} {ofWord? : String → Option K} {flow : Form F}
    {written : WriteMode × Section F K SourceExpr} (h : SectionForm ofWord? flow ls written rest)
    (hflow : ∀ ls value rest, flow ls value rest → IsBehind rest ls) : IsBehind rest ls := by
  cases h with
  | property hdot hword _ hmode hvalue =>
    exact ((hvalue.isBehind.trans hmode.isBehind).trans hword.isBehind).trans hdot.isBehind
  | object hmode hentries =>
    exact (hentries.isBehind fun _ _ _ _ h => h.2.isBehind).trans hmode.isBehind
  | flow hmode hvalues => exact (hflow _ _ _ hvalues).trans hmode.isBehind

theorem SettingForm.isBehind {word : String} {setting : FieldSetting SourceExpr}
    (h : SettingForm word ls setting rest) : IsBehind rest ls := by
  cases h with
  | title hvalue => exact hvalue.isBehind
  | text hvalue => exact hvalue.isBehind
  | inline _ hvalue => exact hvalue.isBehind

theorem InlineForm.suffix {inline : Bool} (h : InlineForm ls inline rest) : rest <:+ ls := by
  cases h with
  | plain => exact List.suffix_refl _
  | marked hcomma hword => exact (hword.isBehind.trans hcomma.isBehind).suffix

theorem FlowForm.isBehind {flow : SourceExpr × SourceExpr × Bool} (h : FlowForm ls flow rest) :
    IsBehind rest ls := by
  obtain ⟨htitle, hcomma, htext, hinline⟩ := h
  exact ((htext.isBehind.of_suffix_left hinline.suffix).trans hcomma.isBehind).trans htitle.isBehind

theorem FieldForm.isBehind {field : Parser.SourceField} (h : FieldForm ls field rest) :
    IsBehind rest ls := by
  cases h with
  | object hsettings => exact hsettings.isBehind fun _ _ _ _ => SettingForm.isBehind
  | tuple hopen hflow hclose => exact (hclose.isBehind.trans hflow.isBehind).trans hopen.isBehind
  | flow hflow => exact hflow.isBehind

theorem FieldsForm.isBehind {written : WriteMode × FieldsBody SourceExpr Position}
    (h : FieldsForm ls written rest) : IsBehind rest ls := by
  cases h with
  | property hdot hword hmode hsetting =>
    exact ((hsetting.isBehind.trans hmode.isBehind).trans hword.isBehind).trans hdot.isBehind
  | list hmode hopen hfields hclose =>
    have hinside := hfields.isBehind fun _ _ _ => FieldForm.isBehind
    exact ((hclose.isBehind.trans hinside).trans hopen.isBehind).trans hmode.isBehind
  | part hmode _ hfield => exact hfield.isBehind.trans hmode.isBehind

theorem PartForm.isBehind {word : String} {body : PartBody SourceExpr Position}
    (h : PartForm word ls body rest) : IsBehind rest ls := by
  cases h with
  | member _ hassign hvalue => exact hvalue.isBehind.trans hassign.isBehind
  | author hbody => exact hbody.isBehind fun _ _ _ => AuthorFlowForm.isBehind
  | footer hbody => exact hbody.isBehind fun _ _ _ => FooterFlowForm.isBehind
  | fields _ hbody => exact hbody.isBehind

theorem EmbedPartForm.isBehind {part : EmbedPart SourceExpr Position}
    (h : EmbedPartForm ls part rest) : IsBehind rest ls := by
  obtain ⟨hword, hbody, hsemicolon⟩ := h
  exact (hsemicolon.isBehind.trans hbody.isBehind).trans hword.isBehind

theorem SimpleForm.isBehind {s : SourceStmt} (h : SimpleForm ls s rest) : IsBehind rest ls := by
  cases h with
  | assign hname _ hassign hvalue =>
      exact (hvalue.isBehind.trans hassign.isBehind).trans hname.isBehind
  | expr hvalue => exact hvalue.isBehind

theorem ClosedForm.isBehind {value : SourceExpr} (h : ClosedForm ls value rest) :
    IsBehind rest ls := by
  obtain ⟨hvalue, hclose⟩ := h
  exact hclose.isBehind.trans hvalue.isBehind

theorem ConditionForm.isBehind {value : SourceExpr} (h : ConditionForm ls value rest) :
    IsBehind rest ls := by
  obtain ⟨hopen, hvalue, hclose⟩ := h
  exact (hclose.isBehind.trans hvalue.isBehind).trans hopen.isBehind

theorem BlockForm.isBehind {item : Form SourceStmt} {s : SourceStmt} (h : BlockForm item ls s rest)
    (hitem : ∀ ls value rest, item ls value rest → IsBehind rest ls) : IsBehind rest ls := by
  obtain ⟨hopen, hbody, hclose⟩ := h
  exact (hclose.isBehind.of_suffix (hbody.suffix hitem)).trans hopen.isBehind

theorem PartsForm.isBehind {parts : List (EmbedPart SourceExpr Position)}
    (h : PartsForm ls parts rest) : IsBehind rest ls := by
  cases h with
  | single hdot hpart => exact hpart.isBehind.trans hdot.isBehind
  | braces hopen hparts hclose =>
    have hinside := hparts.suffix fun _ _ _ => EmbedPartForm.isBehind
    exact (hclose.isBehind.of_suffix hinside).trans hopen.isBehind

theorem Sentence.isBehind {s : SourceStmt} (h : Sentence ls s rest) : IsBehind rest ls := by
  induction h with
  | empty hclose => exact hclose.isBehind
  | simple hsimple hclose => exact hclose.isBehind.trans hsimple.isBehind
  | block _ hblock ih => exact hblock.isBehind ih
  | function hword hname hopen hparameters _ hbody ih =>
    have hheader := (hparameters.isBehind fun _ _ _ h => h.1.isBehind).trans hopen.isBehind
    exact (((hbody.isBehind ih).trans hheader).trans hname.1.isBehind).trans hword.isBehind
  | result hword hvalue => exact hvalue.isBehind.trans hword.isBehind
  | branch hword htest _ ih => exact (ih.trans htest.isBehind).trans hword.isBehind
  | branchElse hword htest _ _ helse _ ihyes ihno =>
    exact (((ihno.trans helse.isBehind).trans ihyes).trans htest.isBehind).trans hword.isBehind
  | forLoop hword hopen hinit hinitClose hcheck hcheckClose hstep hstepClose _ ih =>
    have hstep := hstep.suffix fun _ _ _ => SimpleForm.isBehind
    have hcheck := hcheck.suffix fun _ _ _ => Phrase.isBehind
    have hinit := hinit.suffix fun _ _ _ => SimpleForm.isBehind
    have hbody := (ih.trans hstepClose.isBehind).of_suffix hstep
    have hrest := (hbody.trans hcheckClose.isBehind).of_suffix hcheck
    have hall := (hrest.trans hinitClose.isBehind).of_suffix hinit
    exact (hall.trans hopen.isBehind).trans hword.isBehind
  | foreach hword hopen hname hamong hiterable hclose _ ih =>
    have hitems := ((ih.trans hclose.isBehind).trans hiterable.isBehind).trans hamong.isBehind
    exact ((hitems.trans hname.1.isBehind).trans hopen.isBehind).trans hword.isBehind
  | whileLoop hword htest _ ih => exact (ih.trans htest.isBehind).trans hword.isBehind
  | doWhile hword _ hwhile htest hclose ih =>
    have htail := (hclose.isBehind.trans htest.isBehind).trans hwhile.isBehind
    exact (htail.trans ih).trans hword.isBehind
  | text hword hvalue => exact hvalue.isBehind.trans hword.isBehind
  | attachment hword hvalue => exact hvalue.isBehind.trans hword.isBehind
  | embed hword hparts => exact hparts.isBehind.trans hword.isBehind

theorem ItemForm.isBehind {i : SourceItem} (h : ItemForm ls i rest) : IsBehind rest ls := by
  cases h with
  | constant hword hname hassign hvalue =>
    exact ((hvalue.isBehind.trans hassign.isBehind).trans hname.1.isBehind).trans hword.isBehind
  | stmt hstmt => exact hstmt.isBehind

/-! ## Trees of a source -/

/-- All tokens but the last one are read back from their own characters. -/
def StableTokens (source : List Lexeme) : Prop :=
  ∀ lexeme ∈ source, lexeme.token.isFinal = false → lexeme.token.IsStable

/-- A token of the source stands at this place. -/
def IsPlaceIn (source : List Lexeme) (place : Position) : Prop :=
  ∃ lexeme ∈ source, lexeme.position = place

theorem Takes.isPlaceIn {token : Token} (h : Takes token ls rest) (hls : ls <:+ source) :
    IsPlaceIn source (placeOf ls) :=
  ⟨_, h.mem hls, rfl⟩

theorem IsBehind.isPlaceIn (h : IsBehind rest ls) (hls : ls <:+ source) :
    IsPlaceIn source (placeOf ls) := by
  cases ls with
  | nil => exact absurd h.length_lt (Nat.not_lt_zero _)
  | cons lexeme ls => exact ⟨lexeme, hls.subset (by simp), rfl⟩

/-- A well-formed expression with its places in a source. -/
structure Expr.IsFrom (source : List Lexeme) (e : SourceExpr) : Prop where
  wellFormed : e.WellFormed
  placed : ∀ node ∈ e.nodes, IsPlaceIn source node.place

structure EmbedPart.IsFrom (source : List Lexeme) (part : EmbedPart SourceExpr Position) :
    Prop where
  fits : part.body.Fits
  exprs : ∀ e ∈ part.exprs, e.IsFrom source
  placed : ∀ place ∈ part.marks, IsPlaceIn source place

/-- The same for a statement, without the statements inside it. -/
structure Stmt.NodeIsFrom (source : List Lexeme) (s : SourceStmt) : Prop where
  fits : s.Fits
  exprs : ∀ e ∈ s.exprs, e.IsFrom source
  placed : ∀ place ∈ s.marks, IsPlaceIn source place

def Stmt.IsFrom (source : List Lexeme) (s : SourceStmt) : Prop :=
  ∀ node ∈ s.nodes, node.NodeIsFrom source

inductive Item.IsFrom (source : List Lexeme) : SourceItem → Prop
  | constant {place name value} (hplace : IsPlaceIn source place) (hname : IsName name)
      (hvalue : value.IsFrom source) : Item.IsFrom source (.constant place name value)
  | stmt {s} (hstmt : s.IsFrom source) : Item.IsFrom source (.stmt s)

section

variable (hsource : StableTokens source)
include hsource

theorem NameForm.isName {name : String} (h : NameForm ls name rest) (hls : ls <:+ source) :
    IsName name :=
  ⟨isWord_of_stable (hsource _ (h.1.mem hls) rfl), h.2⟩

theorem Phrase.isFrom {level : Nat} {value : SourceExpr} (h : Phrase level ls value rest)
    (hls : ls <:+ source) : value.IsFrom source := by
  have hnodes := h.standsIn hls
  constructor
  · intro node hnode
    have hstands := hnodes node hnode
    cases node with
    | literal place value =>
      refine hsource _ hstands ?_
      cases value with
      | bool value => cases value <;> rfl
      | _ => rfl
    | var place name => exact ⟨isWord_of_stable (hsource _ hstands.1 rfl), hstands.2⟩
    | call place name arguments => exact ⟨isWord_of_stable (hsource _ hstands.1 rfl), hstands.2⟩
    | _ => trivial
  · intro node hnode
    obtain ⟨token, hmem⟩ := (hnodes node hnode).place_mem
    exact ⟨_, hmem, rfl⟩

theorem Following.isFrom {value : Option SourceExpr} (h : Following Whole ls value rest)
    (hls : ls <:+ source) : ∀ e ∈ value, e.IsFrom source := by
  cases h with
  | none => simp
  | some hcomma hitem =>
    simpa using hitem.isFrom hsource (hcomma.isBehind.suffix.trans hls)

theorem AuthorFlowForm.isFrom {flow : AuthorFlow SourceExpr} (h : AuthorFlowForm ls flow rest)
    (hls : ls <:+ source) : ∀ e ∈ flow.exprs, e.IsFrom source := by
  cases h with
  | name hname => simpa [AuthorFlow.exprs] using hname.isFrom hsource hls
  | url hname hurl hicon =>
    have hmid := hname.isBehind.suffix.trans hls
    have hnext := (hurl.suffix fun _ _ _ => Phrase.isBehind).trans hmid
    rw [AuthorFlow.exprs, List.forall_mem_cons, List.forall_mem_append]
    exact ⟨hname.isFrom hsource hls, by simpa using hurl.isFrom hsource hmid,
      by simpa using hicon.isFrom hsource hnext⟩

omit hsource in
theorem AuthorFlowForm.ordered {flow : AuthorFlow SourceExpr} (h : AuthorFlowForm ls flow rest) :
    flow.icon.isSome → flow.url.isSome := by
  cases h with
  | name _ => simp
  | url _ _ _ => simp

theorem FooterFlowForm.isFrom {flow : FooterFlow SourceExpr} (h : FooterFlowForm ls flow rest)
    (hls : ls <:+ source) : ∀ e ∈ flow.exprs, e.IsFrom source := by
  obtain ⟨htext, hicon⟩ := h
  rw [FooterFlow.exprs, List.forall_mem_cons]
  exact ⟨htext.isFrom hsource hls,
    by simpa using hicon.isFrom hsource (htext.isBehind.suffix.trans hls)⟩

theorem SectionForm.isFrom {F K : Type} {ofWord? : String → Option K} {flow : Form F}
    {flowExprs : F → List SourceExpr} {written : WriteMode × Section F K SourceExpr}
    (h : SectionForm ofWord? flow ls written rest)
    (hflow : ∀ ls values rest, flow ls values rest → ls <:+ source →
      ∀ e ∈ flowExprs values, e.IsFrom source)
    (hls : ls <:+ source) : ∀ e ∈ written.2.exprs flowExprs, e.IsFrom source := by
  cases h with
  | property hdot hword _ hmode hvalue =>
    have hafter := ((hmode.isBehind.trans hword.isBehind).trans hdot.isBehind).suffix.trans hls
    simpa [Section.exprs] using hvalue.isFrom hsource hafter
  | object hmode hentries =>
    have hentry := hentries.forall_mem (fun _ _ _ _ h => h.2.isBehind)
      (fun _ _ _ _ h hin => h.2.isFrom hsource hin) (hmode.isBehind.suffix.trans hls)
    simpa [Section.exprs] using fun e key hmem => hentry (key, e) hmem
  | flow hmode hvalues => exact hflow _ _ _ hvalues (hmode.isBehind.suffix.trans hls)

theorem SettingForm.isFrom {word : String} {setting : FieldSetting SourceExpr}
    (h : SettingForm word ls setting rest) (hls : ls <:+ source) :
    ∀ e ∈ setting.exprs, e.IsFrom source := by
  cases h with
  | title hvalue => simpa [FieldSetting.exprs] using hvalue.isFrom hsource hls
  | text hvalue => simpa [FieldSetting.exprs] using hvalue.isFrom hsource hls
  | inline _ _ => simp [FieldSetting.exprs]

theorem FlowForm.isFrom {title text : SourceExpr} {inline : Bool}
    (h : FlowForm ls (title, text, inline) rest) (hls : ls <:+ source) :
    title.IsFrom source ∧ text.IsFrom source := by
  obtain ⟨htitle, hcomma, htext, -⟩ := h
  exact ⟨htitle.isFrom hsource hls,
    htext.isFrom hsource ((hcomma.isBehind.trans htitle.isBehind).suffix.trans hls)⟩

theorem FieldForm.isFrom {field : Parser.SourceField} (h : FieldForm ls field rest)
    (hls : ls <:+ source) :
    (∀ e ∈ field.exprs, e.IsFrom source) ∧ IsPlaceIn source field.place := by
  have hplace := h.isBehind.isPlaceIn hls
  cases h with
  | object hsettings =>
    refine ⟨?_, hplace⟩
    rw [FieldSpec.exprs, List.forall_mem_flatMap]
    exact hsettings.forall_mem (fun _ _ _ _ => SettingForm.isBehind)
      (fun _ _ _ _ h hin => h.isFrom hsource hin) hls
  | tuple hopen hflow _ =>
    have hflow := hflow.isFrom hsource (hopen.isBehind.suffix.trans hls)
    exact ⟨by simpa [FieldSpec.exprs] using hflow, hplace⟩
  | flow hflow =>
    have hflow := hflow.isFrom hsource hls
    exact ⟨by simpa [FieldSpec.exprs] using hflow, hplace⟩

theorem FieldsForm.isFrom {mode : WriteMode} {body : FieldsBody SourceExpr Position}
    (h : FieldsForm ls (mode, body) rest) (hls : ls <:+ source) :
    (PartBody.fields mode body).Fits ∧ (∀ e ∈ body.exprs, e.IsFrom source) ∧
      ∀ spec ∈ body.specs, IsPlaceIn source spec.place := by
  cases h with
  | property hdot hword hmode hsetting =>
    have hafter := ((hmode.isBehind.trans hword.isBehind).trans hdot.isBehind).suffix.trans hls
    exact ⟨trivial, hsetting.isFrom hsource hafter, by simp [FieldsBody.specs]⟩
  | list hmode hopen hfields hclose =>
    have hinside := hfields.forall_mem (fun _ _ _ => FieldForm.isBehind)
      (fun _ _ _ h hin => h.isFrom hsource hin)
      ((hopen.isBehind.trans hmode.isBehind).suffix.trans hls)
    refine ⟨?_, ?_, fun spec hspec => (hinside spec hspec).2⟩
    · cases hfields <;> simp [PartBody.Fits]
    · rw [FieldsBody.exprs, List.forall_mem_flatMap]
      exact fun spec hspec => (hinside spec hspec).1
  | part hmode _ hfield =>
    have hfield := hfield.isFrom hsource (hmode.isBehind.suffix.trans hls)
    exact ⟨trivial, hfield.1, by simpa [FieldsBody.specs] using hfield.2⟩

theorem EmbedPartForm.isFrom {part : EmbedPart SourceExpr Position}
    (h : EmbedPartForm ls part rest) (hls : ls <:+ source) : part.IsFrom source := by
  have hplace := h.isBehind.isPlaceIn hls
  obtain ⟨hword, hbody, -⟩ := h
  have hmid := hword.isBehind.suffix.trans hls
  cases hbody with
  | member _ hassign hvalue =>
    have hvalue := hvalue.isFrom hsource (hassign.isBehind.suffix.trans hmid)
    exact ⟨trivial, by simpa [EmbedPart.exprs, PartBody.exprs] using hvalue,
      by simpa [EmbedPart.marks, PartBody.specs] using hplace⟩
  | author hbody =>
    refine ⟨?_, hbody.isFrom hsource (fun _ _ _ h => h.isFrom hsource) hmid,
      by simpa [EmbedPart.marks, PartBody.specs] using hplace⟩
    cases hbody with
    | flow _ hvalues => exact hvalues.ordered
    | _ => trivial
  | footer hbody =>
    exact ⟨trivial, hbody.isFrom hsource (fun _ _ _ h => h.isFrom hsource) hmid,
      by simpa [EmbedPart.marks, PartBody.specs] using hplace⟩
  | fields _ hbody =>
    obtain ⟨hfits, hexprs, hspecs⟩ := hbody.isFrom hsource hmid
    refine ⟨hfits, hexprs, ?_⟩
    rw [EmbedPart.marks, List.forall_mem_cons, List.forall_mem_map]
    exact ⟨hplace, hspecs⟩

theorem PartsForm.isFrom {parts : List (EmbedPart SourceExpr Position)}
    (h : PartsForm ls parts rest) (hls : ls <:+ source) : ∀ part ∈ parts, part.IsFrom source := by
  cases h with
  | single hdot hpart => simpa using hpart.isFrom hsource (hdot.isBehind.suffix.trans hls)
  | braces hopen hparts _ =>
    exact hparts.forall_mem (fun _ _ _ => EmbedPartForm.isBehind)
      (fun _ _ _ h hin => h.isFrom hsource hin) (hopen.isBehind.suffix.trans hls)

omit hsource in
/-- A statement with no place but its own. -/
theorem Stmt.NodeIsFrom.of_place {s : SourceStmt} (hmarks : s.marks = [s.place]) (hfits : s.Fits)
    (hexprs : ∀ e ∈ s.exprs, e.IsFrom source) (hplace : IsPlaceIn source s.place) :
    s.NodeIsFrom source := by
  refine ⟨hfits, hexprs, ?_⟩
  rw [hmarks, List.forall_mem_singleton]
  exact hplace

omit hsource in
/-- A statement without others inside it. -/
theorem Stmt.IsFrom.of_node {s : SourceStmt} (hnodes : s.nodes = [s]) (h : s.NodeIsFrom source) :
    s.IsFrom source := by
  rw [Stmt.IsFrom, hnodes, List.forall_mem_singleton]
  exact h

theorem SimpleForm.isFrom {s : SourceStmt} (h : SimpleForm ls s rest) (hls : ls <:+ source) :
    s.IsFrom source ∧ s.isSimple = true := by
  cases h with
  | assign hname hfree hassign hvalue =>
    have hvalue := hvalue.isFrom hsource ((hassign.isBehind.trans hname.isBehind).suffix.trans hls)
    have hfits := NameForm.isName hsource ⟨hname, hfree⟩ hls
    refine ⟨.of_node rfl (.of_place rfl hfits ?_ (hname.isPlaceIn hls)), rfl⟩
    exact List.forall_mem_singleton.2 hvalue
  | expr hvalue =>
    refine ⟨.of_node rfl (.of_place rfl trivial ?_ (hvalue.isBehind.isPlaceIn hls)), rfl⟩
    exact List.forall_mem_singleton.2 (hvalue.isFrom hsource hls)

theorem ClosedForm.isFrom {value : SourceExpr} (h : ClosedForm ls value rest)
    (hls : ls <:+ source) :
    value.IsFrom source := by
  obtain ⟨hvalue, -⟩ := h
  exact hvalue.isFrom hsource hls

theorem ConditionForm.isFrom {value : SourceExpr} (h : ConditionForm ls value rest)
    (hls : ls <:+ source) : value.IsFrom source := by
  obtain ⟨hopen, hvalue, -⟩ := h
  exact hvalue.isFrom hsource (hopen.isBehind.suffix.trans hls)

theorem Optional.isFrom {s : Option SourceStmt} (h : Optional SimpleForm ls s rest)
    (hls : ls <:+ source) :
    (∀ node ∈ Stmt.nodesOf? s, node.NodeIsFrom source) ∧ ∀ clause ∈ s, clause.isSimple = true := by
  cases h with
  | none => simp [Stmt.nodesOf?]
  | some hitem =>
    have hitem := hitem.isFrom hsource hls
    exact ⟨hitem.1, by simpa using hitem.2⟩

omit hsource in
/-- A block and the statements in it. -/
theorem BlockForm.isFrom {item : Form SourceStmt} {s : SourceStmt} (h : BlockForm item ls s rest)
    (hbehind : ∀ ls value rest, item ls value rest → IsBehind rest ls)
    (hitem : ∀ ls value rest, item ls value rest → ls <:+ source → value.IsFrom source)
    (hls : ls <:+ source) : s.IsFrom source ∧ s.isBlock = true := by
  obtain ⟨hopen, hbody, -⟩ := h
  have hinside := hbody.forall_mem hbehind hitem (hopen.isBehind.suffix.trans hls)
  refine ⟨?_, rfl⟩
  rw [Stmt.IsFrom, Stmt.nodes, List.forall_mem_cons, Stmt.nodesOfAll_eq, List.forall_mem_flatMap]
  exact ⟨.of_place rfl trivial (by simp [Stmt.exprs]) (hopen.isPlaceIn hls), hinside⟩

theorem Sentence.isFrom {s : SourceStmt} (h : Sentence ls s rest) (hls : ls <:+ source) :
    s.IsFrom source := by
  induction h with
  | empty hclose =>
    exact .of_node rfl (.of_place rfl trivial (by simp [Stmt.exprs]) (hclose.isPlaceIn hls))
  | simple hsimple _ => exact (hsimple.isFrom hsource hls).1
  | block hitem hblock ih =>
    exact (hblock.isFrom (fun _ _ _ h => (hitem _ _ _ h).isBehind) ih hls).1
  | function hword hname hopen hparameters hitem hbody ih =>
    have hmid := hword.isBehind.suffix.trans hls
    have hnext := hname.1.isBehind.suffix.trans hmid
    have hafter := hopen.isBehind.suffix.trans hnext
    have hnames : ∀ ls name rest, NameForm ls name rest → IsBehind rest ls :=
      fun _ _ _ h => h.1.isBehind
    have hbehind := (hparameters.isBehind hnames).suffix.trans hafter
    have hparameters :=
      hparameters.forall_mem hnames (fun _ _ _ h hin => h.isName hsource hin) hafter
    have hbody := hbody.isFrom (fun _ _ _ h => (hitem _ _ _ h).isBehind) ih hbehind
    rw [Stmt.IsFrom, Stmt.nodes, List.forall_mem_cons]
    refine ⟨⟨⟨hname.isName hsource hmid, hparameters, hbody.2⟩, by simp [Stmt.exprs], ?_⟩, hbody.1⟩
    simpa [Stmt.marks] using ⟨hword.isPlaceIn hls, hname.1.isPlaceIn hmid⟩
  | result hword hvalue =>
    have hvalue := hvalue.isFrom hsource (hword.isBehind.suffix.trans hls)
    refine .of_node rfl (.of_place rfl trivial ?_ (hword.isPlaceIn hls))
    exact List.forall_mem_singleton.2 hvalue
  | branch hword htest hyes ih =>
    have hmid := hword.isBehind.suffix.trans hls
    have htested := htest.isFrom hsource hmid
    have hyes := ih (htest.isBehind.suffix.trans hmid)
    rw [Stmt.IsFrom, Stmt.nodes, List.forall_mem_cons, List.forall_mem_append]
    refine ⟨.of_place rfl trivial ?_ (hword.isPlaceIn hls), hyes, by simp [Stmt.nodesOf?]⟩
    exact List.forall_mem_singleton.2 htested
  | branchElse hword htest hyes hclosed helse hno ihyes ihno =>
    have hmid := hword.isBehind.suffix.trans hls
    have hnext := htest.isBehind.suffix.trans hmid
    have hbehind := (helse.isBehind.trans hyes.isBehind).suffix.trans hnext
    have htested := htest.isFrom hsource hmid
    rw [Stmt.IsFrom, Stmt.nodes, List.forall_mem_cons, List.forall_mem_append]
    refine ⟨.of_place rfl hclosed ?_ (hword.isPlaceIn hls), ihyes hnext, ihno hbehind⟩
    exact List.forall_mem_singleton.2 htested
  | forLoop hword hopen hinit hinitClose hcheck hcheckClose hstep hstepClose hbody ih =>
    have hnext := (hopen.isBehind.trans hword.isBehind).suffix.trans hls
    have htoCheck := (hinitClose.isBehind.suffix.trans
      (hinit.suffix fun _ _ _ => SimpleForm.isBehind)).trans hnext
    have htoStep := (hcheckClose.isBehind.suffix.trans
      (hcheck.suffix fun _ _ _ => Phrase.isBehind)).trans htoCheck
    have htoBody := (hstepClose.isBehind.suffix.trans
      (hstep.suffix fun _ _ _ => SimpleForm.isBehind)).trans htoStep
    have hinit := hinit.isFrom hsource hnext
    have hstep := hstep.isFrom hsource htoStep
    rw [Stmt.IsFrom, Stmt.nodes, List.forall_mem_cons, List.forall_mem_append,
      List.forall_mem_append]
    refine ⟨.of_place rfl ⟨hinit.2, hstep.2⟩ ?_ (hword.isPlaceIn hls), ⟨hinit.1, hstep.1⟩,
      ih htoBody⟩
    cases hcheck with
    | none => simp [Stmt.exprs]
    | some hcheck => simpa [Stmt.exprs] using hcheck.isFrom hsource htoCheck
  | foreach hword hopen hname hamong hiterable hclose hbody ih =>
    have hnext := (hopen.isBehind.trans hword.isBehind).suffix.trans hls
    have hitems := (hamong.isBehind.trans hname.1.isBehind).suffix.trans hnext
    have hbody := (hclose.isBehind.trans hiterable.isBehind).suffix.trans hitems
    have hnamed := hname.isName hsource hnext
    rw [Stmt.IsFrom, Stmt.nodes, List.forall_mem_cons]
    refine ⟨.of_place rfl hnamed ?_ (hword.isPlaceIn hls), ih hbody⟩
    exact List.forall_mem_singleton.2 (hiterable.isFrom hsource hitems)
  | whileLoop hword htest hbody ih =>
    have hmid := hword.isBehind.suffix.trans hls
    have hbody := ih (htest.isBehind.suffix.trans hmid)
    rw [Stmt.IsFrom, Stmt.nodes, List.forall_mem_cons]
    refine ⟨.of_place rfl trivial ?_ (hword.isPlaceIn hls), hbody⟩
    exact List.forall_mem_singleton.2 (htest.isFrom hsource hmid)
  | doWhile hword hbody hwhile htest hclose ih =>
    have hmid := hword.isBehind.suffix.trans hls
    have hafter := (hwhile.isBehind.trans hbody.isBehind).suffix.trans hmid
    rw [Stmt.IsFrom, Stmt.nodes, List.forall_mem_cons]
    refine ⟨.of_place rfl trivial ?_ (hword.isPlaceIn hls), ih hmid⟩
    exact List.forall_mem_singleton.2 (htest.isFrom hsource hafter)
  | text hword hvalue =>
    have hvalue := hvalue.isFrom hsource (hword.isBehind.suffix.trans hls)
    refine .of_node rfl (.of_place rfl trivial ?_ (hword.isPlaceIn hls))
    exact List.forall_mem_singleton.2 hvalue
  | attachment hword hvalue =>
    have hvalue := hvalue.isFrom hsource (hword.isBehind.suffix.trans hls)
    refine .of_node rfl (.of_place rfl trivial ?_ (hword.isPlaceIn hls))
    exact List.forall_mem_singleton.2 hvalue
  | embed hword hparts =>
    have hparts := hparts.isFrom hsource (hword.isBehind.suffix.trans hls)
    refine .of_node rfl ⟨fun part hpart => (hparts part hpart).fits, ?_, ?_⟩
    · rw [Stmt.exprs, List.forall_mem_flatMap]
      exact fun part hpart => (hparts part hpart).exprs
    · rw [Stmt.marks, List.forall_mem_cons, List.forall_mem_flatMap]
      exact ⟨hword.isPlaceIn hls, fun part hpart => (hparts part hpart).placed⟩

theorem ItemForm.isFrom {i : SourceItem} (h : ItemForm ls i rest) (hls : ls <:+ source) :
    i.IsFrom source := by
  cases h with
  | constant hword hname hassign hvalue =>
    have hmid := hword.isBehind.suffix.trans hls
    have hafter := (hassign.isBehind.trans hname.1.isBehind).suffix.trans hmid
    exact .constant (hword.isPlaceIn hls) (hname.isName hsource hmid) (hvalue.isFrom hsource hafter)
  | stmt hstmt => exact .stmt (hstmt.isFrom hsource hls)

/-- All items of a template come from its source. -/
theorem TemplateForm.isFrom {items : SourceTemplate} (h : TemplateForm source items) :
    ∀ i ∈ items, i.IsFrom source := by
  obtain ⟨hitems, -⟩ := h
  exact hitems.forall_mem (fun _ _ _ => ItemForm.isBehind) (fun _ _ _ h hin => h.isFrom hsource hin)
    (List.suffix_refl _)

end

theorem Item.IsFrom.wellFormed {i : SourceItem} (h : i.IsFrom source) : i.WellFormed := by
  cases h with
  | constant _ hname hvalue => exact ⟨hname, hvalue.wellFormed⟩
  | stmt hstmt =>
    exact fun node hnode =>
      ⟨(hstmt node hnode).fits, fun e he => ((hstmt node hnode).exprs e he).wellFormed⟩

end MessageTemplate
