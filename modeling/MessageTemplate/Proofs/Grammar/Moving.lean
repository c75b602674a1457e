import MessageTemplate.Proofs.Grammar.Rendition
import MessageTemplate.Proofs.Token.Joining

/-!
# Templates one behind the other

A form says something about its own tokens only: whatever stands behind them can
be exchanged, and if the tokens move to other places then so do the nodes of the
tree (`Carries`, for each form). So two texts that are read can be put one behind
the other, and the items of both are read (`parse_join`).
-/

namespace MessageTemplate

/-- `holds` is true of the tokens in front of `rest` wherever they move and whatever stands behind
them. -/
def Moved (ls rest : List Lexeme)
    (holds : (Position → Position) → List Lexeme → List Lexeme → Prop) : Prop :=
  ∃ front, ls = front ++ rest ∧ ∀ f after, holds f (front.map (Lexeme.move f) ++ after) after

section

variable {ls mid rest : List Lexeme}
variable {holds other : (Position → Position) → List Lexeme → List Lexeme → Prop}

theorem Moved.mono (h : Moved ls rest holds)
    (himp : ∀ f ls rest, holds f ls rest → other f ls rest) : Moved ls rest other := by
  obtain ⟨front, hls, hmoved⟩ := h
  exact ⟨front, hls, fun f after => himp _ _ _ (hmoved f after)⟩

/-- Tokens one behind the other move together. -/
theorem Moved.append (hfirst : Moved ls mid holds) (hsecond : Moved mid rest other) :
    Moved ls rest fun f ls rest => ∃ mid, holds f ls mid ∧ other f mid rest := by
  obtain ⟨front, rfl, hfront⟩ := hfirst
  obtain ⟨back, rfl, hback⟩ := hsecond
  refine ⟨front ++ back, (List.append_assoc _ _ _).symm, fun f after => ?_⟩
  rw [List.map_append, List.append_assoc]
  exact ⟨_, hfront f _, hback f after⟩

theorem Moved.nil (h : ∀ f ls, holds f ls ls) : Moved ls ls holds :=
  ⟨[], rfl, fun f after => h f after⟩

/-- The first token stays the same, at its new place. -/
theorem Moved.first (h : Moved ls rest holds) (hbehind : IsBehind rest ls) :
    Moved ls rest fun f ls' rest' =>
      holds f ls' rest' ∧ placeOf ls' = f (placeOf ls) ∧ headOf ls' = headOf ls := by
  obtain ⟨front, rfl, hmoved⟩ := h
  cases front with
  | nil => exact absurd hbehind.length_lt (lt_irrefl _)
  | cons first front => exact ⟨first :: front, rfl, fun f after => ⟨hmoved f after, rfl, rfl⟩⟩

theorem Takes.moved {token : Token} (h : Takes token ls rest) :
    Moved ls rest fun f ls' rest' => Takes token ls' rest' ∧ placeOf ls' = f (placeOf ls) := by
  obtain ⟨place, rfl⟩ := h
  exact ⟨[⟨token, place⟩], rfl, fun f after => ⟨⟨f place, rfl⟩, rfl⟩⟩

end

/-- The tokens of a form make up the form `target` at any other places, for the same value with its
marks moved. -/
def Carries {α : Type} (form target : Form α) (view : (Position → Position) → α → α) : Prop :=
  ∀ ls value rest, form ls value rest →
    Moved ls rest fun f ls rest => target ls (view f value) rest

/-! ## Lists -/

section

variable {α : Type} {form target : Form α} {view : (Position → Position) → α → α}

theorem Separated.carries (h : Carries form target view) :
    Carries (Separated form) (Separated target) fun f => List.map (view f) := by
  intro ls values rest hitems
  induction hitems with
  | one hitem => exact (h _ _ _ hitem).mono fun _ _ _ => .one
  | more hitem hcomma _ ih =>
    refine ((h _ _ _ hitem).append (hcomma.moved.append ih)).mono ?_
    rintro f ls rest ⟨mid, hitem, next, ⟨hcomma, -⟩, hmore⟩
    exact .more hitem hcomma hmore

theorem Listed.carries (h : Carries form target view) (close : Symbol) :
    Carries (Listed form close) (Listed target close) fun f => List.map (view f) := by
  intro ls values rest hitems
  cases hitems with
  | none hclose => exact hclose.moved.mono fun _ _ _ hclose => .none hclose.1
  | some hitems hclose =>
    refine ((Separated.carries h _ _ _ hitems).append hclose.moved).mono ?_
    rintro f ls rest ⟨mid, hitems, hclose, -⟩
    exact .some hitems hclose

theorem Repeated.carries (h : Carries form target view) :
    Carries (Repeated form) (Repeated target) fun f => List.map (view f) := by
  intro ls values rest hitems
  induction hitems with
  | done => exact .nil fun _ _ => .done
  | more hitem _ ih =>
    refine ((h _ _ _ hitem).append ih).mono ?_
    rintro f ls rest ⟨mid, hitem, hmore⟩
    exact .more hitem hmore

theorem Repeated.append {ls mid rest : List Lexeme} {first second : List α}
    (hfirst : Repeated form ls first mid) (hsecond : Repeated form mid second rest) :
    Repeated form ls (first ++ second) rest := by
  induction hfirst with
  | done => exact hsecond
  | more hitem _ ih => exact .more hitem (ih hsecond)

theorem Following.carries (h : Carries form target view) :
    Carries (Following form) (Following target) fun f => Option.map (view f) := by
  intro ls value rest hfollowing
  cases hfollowing with
  | none => exact .nil fun _ _ => .none
  | some hcomma hitem =>
    refine (hcomma.moved.append (h _ _ _ hitem)).mono ?_
    rintro f ls rest ⟨mid, ⟨hcomma, -⟩, hitem⟩
    exact .some hcomma hitem

theorem Optional.carries (h : Carries form target view) :
    Carries (Optional form) (Optional target) fun f => Option.map (view f) := by
  intro ls value rest hoptional
  cases hoptional with
  | none => exact .nil fun _ _ => .none
  | some hitem => exact (h _ _ _ hitem).mono fun _ _ _ => .some

variable {entry : String → Form α}

theorem Entries.carries (h : ∀ name, Carries (entry name) (entry name) view) :
    Carries (Entries entry) (Entries entry) fun f => List.map (view f) := by
  intro ls values rest hentries
  induction hentries with
  | none => exact .nil fun _ _ => .none
  | last hword hcolon hentry =>
    refine (hword.moved.append (hcolon.moved.append (h _ _ _ _ hentry))).mono ?_
    rintro f ls rest ⟨mid, ⟨hword, -⟩, next, ⟨hcolon, -⟩, hentry⟩
    exact .last hword hcolon hentry
  | more hword hcolon hentry hcomma _ ih =>
    have hothers := (h _ _ _ _ hentry).append (hcomma.moved.append ih)
    refine (hword.moved.append (hcolon.moved.append hothers)).mono ?_
    rintro f ls rest ⟨mid, ⟨hword, -⟩, next, ⟨hcolon, -⟩, after, hentry, behind, ⟨hcomma, -⟩, hmore⟩
    exact .more hword hcolon hentry hcomma hmore

theorem ObjectForm.carries (h : ∀ name, Carries (entry name) (entry name) view) :
    Carries (ObjectForm entry) (ObjectForm entry) fun f => List.map (view f) := by
  rintro ls values rest ⟨hopen, hentries, hclose⟩
  have hinside := (Entries.carries h _ _ _ hentries).append hclose.moved
  refine (hopen.moved.append hinside).mono ?_
  rintro f ls rest ⟨mid, ⟨hopen, -⟩, next, hentries, hclose, -⟩
  exact ⟨hopen, hentries, hclose⟩

end

/-! ## Expressions -/

theorem Phrase.carries (level : Nat) : Carries (Phrase level) (Phrase level) Expr.mapPlace := by
  intro ls value rest h
  induction h with
  | literal value htoken =>
    refine htoken.moved.mono ?_
    rintro f ls rest ⟨htoken, hplace⟩
    rw [Expr.mapPlace, ← hplace]
    exact .literal value htoken
  | var hname hfree =>
    refine hname.moved.mono ?_
    rintro f ls rest ⟨hname, hplace⟩
    rw [Expr.mapPlace, ← hplace]
    exact .var hname hfree
  | list hopen hitem hitems ih =>
    refine (hopen.moved.append (Listed.carries ih _ _ _ _ hitems)).mono ?_
    rintro f ls rest ⟨mid, ⟨hopen, hplace⟩, hitems⟩
    rw [Expr.mapPlace, Expr.mapPlaces_eq, ← hplace]
    exact .list hopen (fun _ _ _ h => h) hitems
  | call hname hfree hopen hitem hitems ih =>
    have hinside := hopen.moved.append (Listed.carries ih _ _ _ _ hitems)
    refine (hname.moved.append hinside).mono ?_
    rintro f ls rest ⟨mid, ⟨hname, hplace⟩, next, ⟨hopen, -⟩, hitems⟩
    rw [Expr.mapPlace, Expr.mapPlaces_eq, ← hplace]
    exact .call hname hfree hopen (fun _ _ _ h => h) hitems
  | paren hopen hvalue hclose ih =>
    refine (hopen.moved.append (ih.append hclose.moved)).mono ?_
    rintro f ls rest ⟨mid, ⟨hopen, -⟩, next, hvalue, hclose, -⟩
    exact .paren hopen hvalue hclose
  | unary op hop hoperand ih =>
    refine (hop.moved.append ih).mono ?_
    rintro f ls rest ⟨mid, ⟨hop, hplace⟩, hoperand⟩
    rw [Expr.mapPlace, ← hplace]
    exact .unary op hop hoperand
  | binary op hleft hop hright ihleft ihright =>
    refine (ihleft.append (hop.moved.append ihright)).mono ?_
    rintro f ls rest ⟨mid, hleft, next, ⟨hop, -⟩, hright⟩
    rw [Expr.join, Expr.mapPlace, ← Expr.place_mapPlace f]
    exact .binary op hleft hop hright
  | loosen hvalue ih => exact ih.mono fun _ _ _ => .loosen

theorem Whole.carries : Carries Whole Whole Expr.mapPlace := Phrase.carries Level.whole

/-! ## Parts of an embed -/

theorem AuthorFlowForm.carries :
    Carries AuthorFlowForm AuthorFlowForm fun f => AuthorFlow.map (Expr.mapPlace f) := by
  intro ls values rest hflow
  cases hflow with
  | name hname => exact (Whole.carries _ _ _ hname).mono fun _ _ _ => .name
  | url hname hurl hicon =>
    have hothers := (Following.carries Whole.carries _ _ _ hurl).append
      (Following.carries Whole.carries _ _ _ hicon)
    refine ((Whole.carries _ _ _ hname).append hothers).mono ?_
    rintro f ls rest ⟨mid, hname, next, hurl, hicon⟩
    exact .url hname hurl hicon

theorem FooterFlowForm.carries :
    Carries FooterFlowForm FooterFlowForm fun f => FooterFlow.map (Expr.mapPlace f) := by
  rintro ls _ rest ⟨htext, hicon⟩
  have hothers := Following.carries Whole.carries _ _ _ hicon
  refine ((Whole.carries _ _ _ htext).append hothers).mono ?_
  rintro f ls rest ⟨mid, htext, hicon⟩
  exact ⟨htext, hicon⟩

theorem KeyedForm.carries {K : Type} (ofWord? : String → Option K) (word : String) :
    Carries (KeyedForm ofWord? word) (KeyedForm ofWord? word) fun f entry =>
      (entry.1, entry.2.mapPlace f) := by
  rintro ls entry rest ⟨hkey, hvalue⟩
  exact (Whole.carries _ _ _ hvalue).mono fun _ _ _ hvalue => ⟨hkey, hvalue⟩

theorem SectionForm.carries {F K : Type} {ofWord? : String → Option K} {flow : Form F}
    {view : (Position → Position) → F → F} (hflow : Carries flow flow view) :
    Carries (SectionForm ofWord? flow) (SectionForm ofWord? flow) fun f body =>
      (body.1, body.2.map (view f) (Expr.mapPlace f)) := by
  intro ls body rest hbody
  cases hbody with
  | property hdot hword hkey hmode hvalue =>
    have hinside := hword.moved.append (hmode.moved.append (Whole.carries _ _ _ hvalue))
    refine (hdot.moved.append hinside).mono ?_
    rintro f ls rest ⟨mid, ⟨hdot, -⟩, next, ⟨hword, -⟩, after, ⟨hmode, -⟩, hvalue⟩
    exact .property hdot hword hkey hmode hvalue
  | object hmode hentries =>
    have hobject := ObjectForm.carries (KeyedForm.carries ofWord?) _ _ _ hentries
    refine (hmode.moved.append hobject).mono ?_
    rintro f ls rest ⟨mid, ⟨hmode, -⟩, hentries⟩
    exact .object hmode hentries
  | flow hmode hvalues =>
    refine (hmode.moved.append (hflow _ _ _ hvalues)).mono ?_
    rintro f ls rest ⟨mid, ⟨hmode, -⟩, hvalues⟩
    exact .flow hmode hvalues

theorem SettingForm.carries (word : String) :
    Carries (SettingForm word) (SettingForm word) fun f => FieldSetting.map (Expr.mapPlace f) := by
  intro ls setting rest hsetting
  cases hsetting with
  | title hvalue => exact (Whole.carries _ _ _ hvalue).mono fun _ _ _ => .title
  | text hvalue => exact (Whole.carries _ _ _ hvalue).mono fun _ _ _ => .text
  | inline value hvalue => exact hvalue.moved.mono fun _ _ _ hvalue => .inline value hvalue.1

theorem InlineForm.carries : Carries InlineForm InlineForm fun _ => id := by
  intro ls inline rest hinline
  cases hinline with
  | plain => exact .nil fun _ _ => .plain
  | marked hcomma hword =>
    refine (hcomma.moved.append hword.moved).mono ?_
    rintro f ls rest ⟨mid, ⟨hcomma, -⟩, hword, -⟩
    exact .marked hcomma hword

theorem FlowForm.carries :
    Carries FlowForm FlowForm fun f flow =>
      (flow.1.mapPlace f, flow.2.1.mapPlace f, flow.2.2) := by
  rintro ls _ rest ⟨htitle, hcomma, htext, hinline⟩
  have hothers := (Whole.carries _ _ _ htext).append (InlineForm.carries _ _ _ hinline)
  refine ((Whole.carries _ _ _ htitle).append (hcomma.moved.append hothers)).mono ?_
  rintro f ls rest ⟨mid, htitle, next, ⟨hcomma, -⟩, after, htext, hinline⟩
  exact ⟨htitle, hcomma, htext, hinline⟩

/-- A field with its marks moved. -/
abbrev FieldSpec.moveTo (f : Position → Position) : Parser.SourceField → Parser.SourceField :=
  FieldSpec.map (Expr.mapPlace f) f

theorem FieldForm.carries : Carries FieldForm FieldForm FieldSpec.moveTo := by
  intro ls field rest hfield
  have hbehind := hfield.isBehind
  cases hfield with
  | object hsettings =>
    have hobject := ObjectForm.carries SettingForm.carries _ _ _ hsettings
    refine (hobject.first hbehind).mono ?_
    rintro f ls rest ⟨hsettings, hplace, -⟩
    rw [FieldSpec.moveTo, FieldSpec.map, ← hplace]
    exact .object hsettings
  | tuple hopen hflow hclose =>
    have hinside := (FlowForm.carries _ _ _ hflow).append hclose.moved
    refine (hopen.moved.append hinside).mono ?_
    rintro f ls rest ⟨mid, ⟨hopen, hplace⟩, next, hflow, hclose, -⟩
    rw [FieldSpec.moveTo, FieldSpec.map, ← hplace]
    exact .tuple hopen hflow hclose
  | flow hflow =>
    refine ((FlowForm.carries _ _ _ hflow).first hbehind).mono ?_
    rintro f ls rest ⟨hflow, hplace, -⟩
    rw [FieldSpec.moveTo, FieldSpec.map, ← hplace]
    exact .flow hflow

theorem FieldsForm.carries :
    Carries FieldsForm FieldsForm fun f written =>
      (written.1, written.2.map (Expr.mapPlace f) f) := by
  intro ls written rest hfields
  cases hfields with
  | property hdot hword hmode hsetting =>
    have hinside := hmode.moved.append (SettingForm.carries _ _ _ _ hsetting)
    refine (hdot.moved.append (hword.moved.append hinside)).mono ?_
    rintro f ls rest ⟨mid, ⟨hdot, -⟩, next, ⟨hword, -⟩, after, ⟨hmode, -⟩, hsetting⟩
    exact .property hdot hword hmode hsetting
  | list hmode hopen hfields hclose =>
    have hinside := (Separated.carries FieldForm.carries _ _ _ hfields).append hclose.moved
    refine (hmode.moved.append (hopen.moved.append hinside)).mono ?_
    rintro f ls rest ⟨mid, ⟨hmode, -⟩, next, ⟨hopen, -⟩, after, hfields, hclose, -⟩
    exact .list hmode hopen hfields hclose
  | part hmode hhead hfield =>
    have hinside := (FieldForm.carries _ _ _ hfield).first hfield.isBehind
    refine (hmode.moved.append hinside).mono ?_
    rintro f ls rest ⟨mid, ⟨hmode, -⟩, hfield, -, hsame⟩
    exact .part hmode (hsame ▸ hhead) hfield

theorem PartForm.carries (word : String) :
    Carries (PartForm word) (PartForm word) fun f => PartBody.map (Expr.mapPlace f) f := by
  intro ls body rest hbody
  cases hbody with
  | member hkey hassign hvalue =>
    refine (hassign.moved.append (Whole.carries _ _ _ hvalue)).mono ?_
    rintro f ls rest ⟨mid, ⟨hassign, -⟩, hvalue⟩
    exact .member hkey hassign hvalue
  | author hbody =>
    exact (SectionForm.carries AuthorFlowForm.carries _ _ _ hbody).mono fun _ _ _ => .author
  | footer hbody =>
    exact (SectionForm.carries FooterFlowForm.carries _ _ _ hbody).mono fun _ _ _ => .footer
  | fields hword hbody =>
    exact (FieldsForm.carries _ _ _ hbody).mono fun _ _ _ => .fields hword

/-- A part with its marks moved. -/
abbrev EmbedPart.moveTo (f : Position → Position) :
    EmbedPart SourceExpr Position → EmbedPart SourceExpr Position :=
  EmbedPart.map (Expr.mapPlace f) f

theorem EmbedPartForm.carries : Carries EmbedPartForm EmbedPartForm EmbedPart.moveTo := by
  rintro ls _ rest ⟨hword, hbody, hsemicolon⟩
  have hinside := (PartForm.carries _ _ _ _ hbody).append hsemicolon.moved
  refine (hword.moved.append hinside).mono ?_
  rintro f ls rest ⟨mid, ⟨hword, hplace⟩, next, hbody, hsemicolon, -⟩
  rw [EmbedPart.moveTo, EmbedPart.map, ← hplace]
  exact ⟨hword, hbody, hsemicolon⟩

/-! ## Statements -/

/-- A statement with its marks moved. -/
abbrev Stmt.moveTo (f : Position → Position) : SourceStmt → SourceStmt :=
  Stmt.map (Expr.mapPlace f) f

theorem SimpleForm.carries : Carries SimpleForm SimpleForm Stmt.moveTo := by
  intro ls s rest hsimple
  cases hsimple with
  | assign hname hfree hassign hvalue =>
    have hinside := hassign.moved.append (Whole.carries _ _ _ hvalue)
    refine (hname.moved.append hinside).mono ?_
    rintro f ls rest ⟨mid, ⟨hname, hplace⟩, next, ⟨hassign, -⟩, hvalue⟩
    rw [Stmt.moveTo, Stmt.map, ← hplace]
    exact .assign hname hfree hassign hvalue
  | expr hvalue =>
    refine ((Whole.carries _ _ _ hvalue).first hvalue.isBehind).mono ?_
    rintro f ls rest ⟨hvalue, hplace, -⟩
    rw [Stmt.moveTo, Stmt.map, ← hplace]
    exact .expr hvalue

theorem NameForm.carries : Carries NameForm NameForm fun _ => id := by
  rintro ls name rest ⟨hname, hfree⟩
  exact hname.moved.mono fun _ _ _ hname => ⟨hname.1, hfree⟩

theorem ClosedForm.carries : Carries ClosedForm ClosedForm Expr.mapPlace := by
  rintro ls _ rest ⟨hvalue, hclose⟩
  refine ((Whole.carries _ _ _ hvalue).append hclose.moved).mono ?_
  rintro f ls rest ⟨mid, hvalue, hclose, -⟩
  exact ⟨hvalue, hclose⟩

theorem ConditionForm.carries : Carries ConditionForm ConditionForm Expr.mapPlace := by
  rintro ls _ rest ⟨hopen, hvalue, hclose⟩
  have hinside := (Whole.carries _ _ _ hvalue).append hclose.moved
  refine (hopen.moved.append hinside).mono ?_
  rintro f ls rest ⟨mid, ⟨hopen, -⟩, next, hvalue, hclose, -⟩
  exact ⟨hopen, hvalue, hclose⟩

theorem BlockForm.carries {form target : Form SourceStmt} (h : Carries form target Stmt.moveTo) :
    Carries (BlockForm form) (BlockForm target) Stmt.moveTo := by
  rintro ls _ rest ⟨hopen, hbody, hclose⟩
  have hinside := (Repeated.carries h _ _ _ hbody).append hclose.moved
  refine (hopen.moved.append hinside).mono ?_
  rintro f ls rest ⟨mid, ⟨hopen, hplace⟩, next, hbody, hclose, -⟩
  rw [Stmt.moveTo, Stmt.map, Stmt.mapAll_eq, ← hplace]
  exact ⟨hopen, hbody, hclose⟩

theorem PartsForm.carries :
    Carries PartsForm PartsForm fun f => List.map (EmbedPart.moveTo f) := by
  intro ls parts rest hparts
  cases hparts with
  | single hdot hpart =>
    refine (hdot.moved.append (EmbedPartForm.carries _ _ _ hpart)).mono ?_
    rintro f ls rest ⟨mid, ⟨hdot, -⟩, hpart⟩
    exact .single hdot hpart
  | braces hopen hparts hclose =>
    have hinside := (Repeated.carries EmbedPartForm.carries _ _ _ hparts).append hclose.moved
    refine (hopen.moved.append hinside).mono ?_
    rintro f ls rest ⟨mid, ⟨hopen, -⟩, next, hparts, hclose, -⟩
    exact .braces hopen hparts hclose

theorem Sentence.carries : Carries Sentence Sentence Stmt.moveTo := by
  intro ls s rest h
  induction h with
  | empty hclose =>
    refine hclose.moved.mono fun f ls rest ⟨hclose, hplace⟩ => ?_
    rw [Stmt.moveTo, Stmt.map, ← hplace]
    exact .empty hclose
  | simple hsimple hclose =>
    refine ((SimpleForm.carries _ _ _ hsimple).append hclose.moved).mono ?_
    rintro f ls rest ⟨mid, hsimple, hclose, -⟩
    exact .simple hsimple hclose
  | block hitem hblock ih =>
    exact (BlockForm.carries ih _ _ _ hblock).mono fun _ _ _ => .block fun _ _ _ h => h
  | function hword hname hopen hparameters hitem hbody ih =>
    have hnamed := (NameForm.carries _ _ _ hname).first hname.1.isBehind
    have hinside := (Listed.carries NameForm.carries _ _ _ _ hparameters).append
      (BlockForm.carries ih _ _ _ hbody)
    refine (hword.moved.append (hnamed.append (hopen.moved.append hinside))).mono ?_
    rintro f ls rest ⟨mid, ⟨hword, hplace⟩, next, ⟨hname, hnamePlace, -⟩, after, ⟨hopen, -⟩, behind,
      hparameters, hbody⟩
    simp only [List.map_id] at hparameters
    rw [Stmt.moveTo, Stmt.map, ← hplace, ← hnamePlace]
    exact .function hword hname hopen hparameters (fun _ _ _ h => h) hbody
  | result hword hvalue =>
    refine (hword.moved.append (ClosedForm.carries _ _ _ hvalue)).mono ?_
    rintro f ls rest ⟨mid, ⟨hword, hplace⟩, hvalue⟩
    rw [Stmt.moveTo, Stmt.map, ← hplace]
    exact .result hword hvalue
  -- An `if` without `else` says nothing about what follows it, since no item starts with `else`.
  | branch hword htest hyes ih =>
    refine (hword.moved.append ((ConditionForm.carries _ _ _ htest).append ih)).mono ?_
    rintro f ls rest ⟨mid, ⟨hword, hplace⟩, next, htest, hyes⟩
    rw [Stmt.moveTo, Stmt.map, Stmt.map?, ← hplace]
    exact .branch hword htest hyes
  | branchElse hword htest hyes hclosed helse hno ihyes ihno =>
    have hinside := ihyes.append (helse.moved.append ihno)
    refine (hword.moved.append ((ConditionForm.carries _ _ _ htest).append hinside)).mono ?_
    rintro f ls rest ⟨mid, ⟨hword, hplace⟩, next, htest, after, hyes, behind, ⟨helse, -⟩, hno⟩
    rw [Stmt.moveTo, Stmt.map, Stmt.map?, ← hplace]
    exact .branchElse hword htest hyes ((Stmt.isOpen_map _ _ _).trans hclosed) helse hno
  | forLoop hword hopen hinit hinitClose hcheck hcheckClose hstep hstepClose hbody ih =>
    have hlast := (Optional.carries SimpleForm.carries _ _ _ hstep).append
      (hstepClose.moved.append ih)
    have hmiddle := (Optional.carries Whole.carries _ _ _ hcheck).append
      (hcheckClose.moved.append hlast)
    have hinside := (Optional.carries SimpleForm.carries _ _ _ hinit).append
      (hinitClose.moved.append hmiddle)
    refine (hword.moved.append (hopen.moved.append hinside)).mono ?_
    rintro f ls rest ⟨mid, ⟨hword, hplace⟩, next, ⟨hopen, -⟩, afterInit, hinit, toCheck,
      ⟨hinitClose, -⟩, afterCheck, hcheck, toStep, ⟨hcheckClose, -⟩, afterStep, hstep, toBody,
      ⟨hstepClose, -⟩, hbody⟩
    rw [Stmt.moveTo, Stmt.map, Stmt.map?_eq, Stmt.map?_eq, ← hplace]
    exact .forLoop hword hopen hinit hinitClose hcheck hcheckClose hstep hstepClose hbody
  | foreach hword hopen hname hamong hiterable hclose hbody ih =>
    have hlast := (Whole.carries _ _ _ hiterable).append (hclose.moved.append ih)
    have hinside := (NameForm.carries _ _ _ hname).append (hamong.moved.append hlast)
    refine (hword.moved.append (hopen.moved.append hinside)).mono ?_
    rintro f ls rest ⟨mid, ⟨hword, hplace⟩, next, ⟨hopen, -⟩, after, hname, toItems, ⟨hamong, -⟩,
      afterItems, hiterable, toBody, ⟨hclose, -⟩, hbody⟩
    rw [Stmt.moveTo, Stmt.map, ← hplace]
    exact .foreach hword hopen hname hamong hiterable hclose hbody
  | whileLoop hword htest hbody ih =>
    refine (hword.moved.append ((ConditionForm.carries _ _ _ htest).append ih)).mono ?_
    rintro f ls rest ⟨mid, ⟨hword, hplace⟩, next, htest, hbody⟩
    rw [Stmt.moveTo, Stmt.map, ← hplace]
    exact .whileLoop hword htest hbody
  | doWhile hword hbody hwhile htest hclose ih =>
    have hlast := (ConditionForm.carries _ _ _ htest).append hclose.moved
    refine (hword.moved.append (ih.append (hwhile.moved.append hlast))).mono ?_
    rintro f ls rest ⟨mid, ⟨hword, hplace⟩, next, hbody, after, ⟨hwhile, -⟩, behind, htest,
      hclose, -⟩
    rw [Stmt.moveTo, Stmt.map, ← hplace]
    exact .doWhile hword hbody hwhile htest hclose
  | text hword hvalue =>
    refine (hword.moved.append (ClosedForm.carries _ _ _ hvalue)).mono ?_
    rintro f ls rest ⟨mid, ⟨hword, hplace⟩, hvalue⟩
    rw [Stmt.moveTo, Stmt.map, ← hplace]
    exact .text hword hvalue
  | attachment hword hvalue =>
    refine (hword.moved.append (ClosedForm.carries _ _ _ hvalue)).mono ?_
    rintro f ls rest ⟨mid, ⟨hword, hplace⟩, hvalue⟩
    rw [Stmt.moveTo, Stmt.map, ← hplace]
    exact .attachment hword hvalue
  | embed hword hparts =>
    refine (hword.moved.append (PartsForm.carries _ _ _ hparts)).mono ?_
    rintro f ls rest ⟨mid, ⟨hword, hplace⟩, hparts⟩
    rw [Stmt.moveTo, Stmt.map, ← hplace]
    exact .embed hword hparts

/-! ## Templates -/

/-- An item with its marks moved. -/
def Item.moveTo (f : Position → Position) : SourceItem → SourceItem := Item.map (Expr.mapPlace f) f

theorem ItemForm.carries : Carries ItemForm ItemForm Item.moveTo := by
  intro ls i rest hitem
  cases hitem with
  | constant hword hname hassign hvalue =>
    have hinside := hassign.moved.append (ClosedForm.carries _ _ _ hvalue)
    refine (hword.moved.append ((NameForm.carries _ _ _ hname).append hinside)).mono ?_
    rintro f ls rest ⟨mid, ⟨hword, hplace⟩, next, hname, after, ⟨hassign, -⟩, hvalue⟩
    rw [Item.moveTo, Item.map, ← hplace]
    exact .constant hword hname hassign hvalue
  | stmt hstmt => exact (Sentence.carries _ _ _ hstmt).mono fun _ _ _ => .stmt

/-- The tokens of a text that is read, without the last one, are read in front of anything. -/
theorem exists_items_move {source : String} {items : SourceTemplate}
    (h : parseTemplate source = .ok items) :
    ∃ front place, lexemes source = front ++ [⟨.endOfInput, place⟩] ∧
      ∀ f after, Repeated ItemForm (front.map (Lexeme.move f) ++ after)
        (items.map (Item.moveTo f)) after := by
  obtain ⟨place, hitems, -⟩ := exists_template_run h
  obtain ⟨front, hfront, hmoved⟩ := Repeated.carries ItemForm.carries _ _ _ hitems
  exact ⟨front, place, hfront, hmoved⟩

/-- Items that stay where they are stay the same. -/
theorem map_moveTo_id {source : String} {items : SourceTemplate}
    (h : parseTemplate source = .ok items) : items.map (Item.moveTo id) = items := by
  obtain ⟨front, place, hfront, hmoved⟩ := exists_items_move h
  have hsame : front.map (Lexeme.move id) = front := List.map_id front
  -- The text has one tree, and moving nothing gives a tree of it.
  have hread : TemplateForm (lexemes source) (items.map (Item.moveTo id)) := by
    rw [hfront, ← hsame]
    exact ⟨hmoved id [⟨.endOfInput, place⟩], rfl⟩
  exact Except.ok.inj ((parseTemplate_eq_ok_iff.2 hread).symm.trans h)

/-- Two texts that are read are read one behind the other: first the items of the first text, then
those of the second one, each as many lines further down as the first text takes. -/
theorem parse_join {first second : String} {firstItems secondItems : SourceTemplate}
    (hfirst : parseTemplate first = .ok firstItems)
    (hsecond : parseTemplate second = .ok secondItems) :
    parseTemplate (first ++ "\n" ++ second) =
      .ok (firstItems ++
        secondItems.map (Item.moveTo (.down (1 + first.toList.count '\n')))) := by
  obtain ⟨front, place, hfront, hfirstMoved⟩ := exists_items_move hfirst
  obtain ⟨back, last, hback, hsecondMoved⟩ := exists_items_move hsecond
  have hjoined := lexemes_join hfront second
  rw [hback, List.map_append] at hjoined
  have hfirstRead := hfirstMoved id
  rw [map_moveTo_id hfirst] at hfirstRead
  have hread := (hfirstRead _).append (hsecondMoved (.down (1 + first.toList.count '\n'))
    [⟨.endOfInput, last.down (1 + first.toList.count '\n')⟩])
  rw [show front.map (Lexeme.move id) = front from List.map_id front] at hread
  rw [parseTemplate_eq_ok_iff, hjoined]
  exact ⟨hread, rfl⟩

theorem parse_comment : parseTemplate "// note" = .ok [] := by
  have hgap : splitGap .between "// note".toList = some ("// note".toList, []) := by decide
  have hlexemes : lexemes "// note" = [⟨.endOfInput, ⟨1, 7⟩⟩] := lexemesFrom_end hgap
  rw [parseTemplate_eq_ok_iff, hlexemes]
  exact ⟨.done, rfl⟩

/-- A comment that the end of the first text closes does not reach into the second one. -/
theorem parse_join_comment :
    ∃ items, parseTemplate "embed . field = ( a ) , b , inline ;" = .ok items ∧
      parseTemplate "// note\nembed . field = ( a ) , b , inline ;" =
        .ok (items.map (Item.moveTo (.down 1))) := by
  obtain ⟨items, hparse, -⟩ := templateWritten_looseRow.exists_parse wellFormed_titledField
    tokens_looseRow
  have hjoined := parse_join parse_comment hparse
  have htext : "// note" ++ "\n" ++ "embed . field = ( a ) , b , inline ;" =
      "// note\nembed . field = ( a ) , b , inline ;" := by decide +kernel
  have hlines : 1 + "// note".toList.count '\n' = 1 := by decide +kernel
  rw [htext, hlines, List.nil_append] at hjoined
  exact ⟨items, hparse, hjoined⟩

end MessageTemplate
