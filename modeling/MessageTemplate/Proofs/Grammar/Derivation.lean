import MessageTemplate.Proofs.Grammar.Sentence
import MessageTemplate.Proofs.Tree.Rendition
import MessageTemplate.Proofs.Tree.Stability

/-!
# Written trees have the forms of the grammar

Where a row of a well-formed tree stands in front of a list, that front has the
form of the tree, with its places filled in. The parentheses around an operand
are those that bring it down to the level its operator needs.
-/

namespace MessageTemplate

variable {P : Type}

/-! ## Rows in front of a list -/

/-- The tokens of the row stand in front of `rest`. -/
inductive Row : List Token → List Lexeme → List Lexeme → Prop
  | nil {ls} : Row [] ls ls
  | cons {token row ls mid rest} (htoken : Takes token ls mid) (hrow : Row row mid rest) :
      Row (token :: row) ls rest

namespace Row

variable {token : Token} {row first second : List Token} {ls rest : List Lexeme}

theorem of_cons (h : Row (token :: row) ls rest) :
    ∃ mid, Takes token ls mid ∧ Row row mid rest := by
  cases h with
  | cons htoken hrow => exact ⟨_, htoken, hrow⟩

theorem of_singleton (h : Row [token] ls rest) : Takes token ls rest := by
  obtain ⟨mid, htoken, hrow⟩ := h.of_cons
  cases hrow
  exact htoken

theorem of_append (h : Row (first ++ second) ls rest) :
    ∃ mid, Row first ls mid ∧ Row second mid rest := by
  induction first generalizing ls with
  | nil => exact ⟨ls, .nil, h⟩
  | cons token first ih =>
    obtain ⟨next, htoken, hrow⟩ := of_cons h
    obtain ⟨mid, hfirst, hsecond⟩ := ih hrow
    exact ⟨mid, .cons htoken hfirst, hsecond⟩

/-- A row and one more token. -/
theorem of_concat (h : Row (row ++ [token]) ls rest) :
    ∃ mid, Row row ls mid ∧ Takes token mid rest := by
  obtain ⟨mid, hrow, htoken⟩ := h.of_append
  exact ⟨mid, hrow, htoken.of_singleton⟩

theorem head?_eq (h : Row row ls rest) (hne : row ≠ []) : row.head? = some (headOf ls) := by
  cases h with
  | nil => exact absurd rfl hne
  | cons htoken _ => rw [htoken.headOf_eq, List.head?_cons]

theorem of_lexemes (front rest : List Lexeme) :
    Row (front.map Lexeme.token) (front ++ rest) rest := by
  induction front with
  | nil => exact .nil
  | cons lexeme front ih => exact .cons ⟨lexeme.position, rfl⟩ ih

end Row

/-- Wherever the row is in front, it has the form, for a value that looks like `result`. -/
def Derives {α γ : Type} (row : List Token) (form : Form α) (view : α → γ) (result : γ) : Prop :=
  ∀ ls rest, Row row ls rest → ∃ value, form ls value rest ∧ view value = result

/-! ## Lists -/

section

variable {α β γ : Type} {form : Form α} {view : α → γ} {goal : β → γ}
variable {values : List β} {rows : List (List Token)} {ls mid rest : List Lexeme}

/-- A relation between lists may use what holds of the members of the first. -/
theorem forall₂_imp_of_mem {R S : α → β → Prop} {first : List α} {second : List β}
    (hrel : List.Forall₂ R first second) (h : ∀ a ∈ first, ∀ b, R a b → S a b) :
    List.Forall₂ S first second :=
  ((List.forall₂_and_left _ _).2 ⟨h, hrel⟩).imp fun _ _ hboth => hboth.1 _ hboth.2

theorem separated_derives (hne : values ≠ [])
    (h : List.Forall₂ (fun value row => Derives row form view (goal value)) values rows) :
    Derives (commaRow rows) (Separated form) (List.map view) (values.map goal) := by
  induction h with
  | nil => exact absurd rfl hne
  | cons hfirst hvalues ih =>
    intro ls rest hrow
    cases hvalues with
    | nil =>
      rw [commaRow_singleton] at hrow
      obtain ⟨value, hvalue, hview⟩ := hfirst ls rest hrow
      exact ⟨[value], .one hvalue, by simp [hview]⟩
    | cons _ _ =>
      rw [commaRow_cons_cons] at hrow
      obtain ⟨mid, hrowFirst, hrow⟩ := hrow.of_append
      obtain ⟨next, hcomma, hrow⟩ := hrow.of_cons
      obtain ⟨value, hvalue, hview⟩ := hfirst ls mid hrowFirst
      obtain ⟨more, hmore, hviews⟩ := ih (by simp) next rest hrow
      exact ⟨value :: more, .more hvalue hcomma hmore, by rw [List.map_cons, hview, hviews]; rfl⟩

theorem exists_listed {close : Symbol}
    (h : List.Forall₂ (fun value row => Derives row form view (goal value)) values rows)
    (hrow : Row (commaRow rows) ls mid) (hclose : Takes (.symbol close) mid rest) :
    ∃ out, Listed form close ls out rest ∧ out.map view = values.map goal := by
  by_cases hne : values = []
  · subst hne
    cases h
    cases hrow
    exact ⟨[], .none hclose, rfl⟩
  · obtain ⟨out, hout, hviews⟩ := separated_derives hne h ls mid hrow
    exact ⟨out, .some hout hclose, hviews⟩

theorem repeated_derives
    (h : List.Forall₂ (fun value row => Derives row form view (goal value)) values rows) :
    Derives rows.flatten (Repeated form) (List.map view) (values.map goal) := by
  induction h with
  | nil =>
    intro ls rest hrow
    cases hrow
    exact ⟨[], .done, rfl⟩
  | cons hfirst _ ih =>
    intro ls rest hrow
    rw [List.flatten_cons] at hrow
    obtain ⟨mid, hrowFirst, hrow⟩ := hrow.of_append
    obtain ⟨value, hvalue, hview⟩ := hfirst ls mid hrowFirst
    obtain ⟨more, hmore, hviews⟩ := ih mid rest hrow
    exact ⟨value :: more, .more hvalue hmore, by rw [List.map_cons, hview, hviews]; rfl⟩

variable {entry : String → Form α} {word : β → String} {written : β → List Token → Prop}

/-- The entries of an object, with a comma behind the last one or without. -/
theorem entries_derives (h : List.Forall₂ (EntryWritten word written) values rows)
    (hentry : ∀ value ∈ values, ∀ row, written value row →
      Derives row (entry (word value)) view (goal value))
    {tail : List Token} (htail : tail = [] ∨ values ≠ [] ∧ tail = [.symbol .comma]) :
    Derives (commaRow rows ++ tail) (Entries entry) (List.map view) (values.map goal) := by
  induction h with
  | nil =>
    intro ls rest hrow
    obtain rfl : tail = [] := htail.elim id fun h => absurd rfl h.1
    cases hrow
    exact ⟨[], .none, rfl⟩
  | cons hfirst hvalues ih =>
    intro ls rest hrow
    rw [List.forall_mem_cons] at hentry
    obtain ⟨hwritten⟩ := hfirst
    cases hvalues with
    | nil =>
      rw [commaRow_singleton] at hrow
      obtain ⟨mid, hword, hrow⟩ := Row.of_cons hrow
      obtain ⟨next, hcolon, hrow⟩ := hrow.of_cons
      obtain ⟨after, hrow, hrowTail⟩ := hrow.of_append
      obtain ⟨value, hvalue, hview⟩ := hentry.1 _ hwritten next after hrow
      rcases htail with rfl | ⟨-, rfl⟩
      · cases hrowTail
        exact ⟨[value], .last hword hcolon hvalue, by simp [hview]⟩
      · exact ⟨[value], .more hword hcolon hvalue hrowTail.of_singleton .none, by simp [hview]⟩
    | cons _ _ =>
      rw [commaRow_cons_cons, List.append_assoc] at hrow
      obtain ⟨mid, hword, hrow⟩ := Row.of_cons hrow
      obtain ⟨next, hcolon, hrow⟩ := hrow.of_cons
      obtain ⟨after, hrowFirst, hrow⟩ := hrow.of_append
      obtain ⟨behind, hcomma, hrow⟩ := hrow.of_cons
      obtain ⟨value, hvalue, hview⟩ := hentry.1 _ hwritten next after hrowFirst
      have hmore := ih hentry.2 (htail.imp id fun h => ⟨by simp, h.2⟩)
      obtain ⟨more, hmore, hviews⟩ := hmore behind rest hrow
      exact ⟨value :: more, .more hword hcolon hvalue hcomma hmore,
        by rw [List.map_cons, hview, hviews]; rfl⟩

theorem object_derives {row : List Token} (h : ObjectWritten (EntryWritten word written) values row)
    (hentry : ∀ value ∈ values, ∀ row, written value row →
      Derives row (entry (word value)) view (goal value)) :
    Derives row (ObjectForm entry) (List.map view) (values.map goal) := by
  intro ls rest hrow
  cases h with
  | plain h =>
    obtain ⟨mid, hopen, hrow⟩ := Row.of_cons hrow
    obtain ⟨next, hrow, hclose⟩ := hrow.of_concat
    rw [← List.append_nil (commaRow _)] at hrow
    obtain ⟨out, hout, hviews⟩ := entries_derives h hentry (.inl rfl) mid next hrow
    exact ⟨out, ⟨hopen, hout, hclose⟩, hviews⟩
  | trailing hne h =>
    obtain ⟨mid, hopen, hrow⟩ := Row.of_cons hrow
    rw [List.append_cons] at hrow
    obtain ⟨next, hrow, hclose⟩ := hrow.of_concat
    obtain ⟨out, hout, hviews⟩ := entries_derives h hentry (.inr ⟨hne, rfl⟩) mid next hrow
    exact ⟨out, ⟨hopen, hout, hclose⟩, hviews⟩

end

/-! ## Expressions -/

namespace Expr

/-- The expression without its places. -/
def erase (e : Expr Literal P) : Expr Literal Unit := e.mapPlace fun _ => ()

theorem Written.derives {limit : Nat} {e : Expr Literal P} {row : List Token}
    (hwritten : e.Written limit row) (h : e.WellFormed) :
    Derives row (Phrase limit) erase e.erase := by
  induction hwritten with
  | literal place value =>
    intro ls rest hrow
    exact ⟨_, (Phrase.literal value hrow.of_singleton).mono (Nat.zero_le _), rfl⟩
  | var place name =>
    intro ls rest hrow
    have hfree : IsName name := (wellFormed_iff.1 h).1
    exact ⟨_, (Phrase.var hrow.of_singleton hfree.2).mono (Nat.zero_le _), rfl⟩
  | list place hitem hitems ih =>
    intro ls rest hrow
    have hinside := forall₂_imp_of_mem hitems fun e he row hrow =>
      ih e row hrow ((wellFormed_iff.1 h).2 e he)
    obtain ⟨mid, hopen, hrow⟩ := hrow.of_cons
    obtain ⟨next, hrow, hclose⟩ := hrow.of_concat
    obtain ⟨out, hout, hviews⟩ := exists_listed hinside hrow hclose
    refine ⟨_, (Phrase.list hopen (fun _ _ _ hitem => hitem) hout).mono (Nat.zero_le _), ?_⟩
    simp only [erase, mapPlace, mapPlaces_eq]
    exact congrArg (Expr.list ()) hviews
  | call place name hitem hitems ih =>
    intro ls rest hrow
    have hfree : IsName name := (wellFormed_iff.1 h).1
    have hinside := forall₂_imp_of_mem hitems fun e he row hrow =>
      ih e row hrow ((wellFormed_iff.1 h).2 e he)
    obtain ⟨mid, hname, hrow⟩ := hrow.of_cons
    obtain ⟨next, hopen, hrow⟩ := hrow.of_cons
    obtain ⟨after, hrow, hclose⟩ := hrow.of_concat
    obtain ⟨out, hout, hviews⟩ := exists_listed hinside hrow hclose
    refine ⟨_, (Phrase.call hname hfree.2 hopen (fun _ _ _ hitem => hitem) hout).mono
      (Nat.zero_le _), ?_⟩
    simp only [erase, mapPlace, mapPlaces_eq]
    exact congrArg (Expr.call () name) hviews
  | unary place op hlevel _ ih =>
    intro ls rest hrow
    obtain ⟨mid, hop, hrow⟩ := hrow.of_cons
    have hoperand := ih ((wellFormed_iff.1 h).2 _ (by simp [children]))
    obtain ⟨value, hvalue, hview⟩ := hoperand mid rest hrow
    exact ⟨_, (Phrase.unary op hop hvalue).mono hlevel, congrArg (Expr.unary () op) hview⟩
  | binary place op hlevel _ _ ihleft ihright =>
    intro ls rest hrow
    obtain ⟨mid, hrowLeft, hrow⟩ := hrow.of_append
    obtain ⟨next, hop, hrowRight⟩ := hrow.of_cons
    have hleft := ihleft ((wellFormed_iff.1 h).2 _ (by simp [children]))
    have hright := ihright ((wellFormed_iff.1 h).2 _ (by simp [children]))
    obtain ⟨first, hfirst, hviewFirst⟩ := hleft ls mid hrowLeft
    obtain ⟨second, hsecond, hviewSecond⟩ := hright next rest hrowRight
    exact ⟨_, (Phrase.binary op hfirst hop hsecond).mono hlevel,
      congrArg₂ (Expr.binary () op) hviewFirst hviewSecond⟩
  | paren _ ih =>
    intro ls rest hrow
    obtain ⟨mid, hopen, hrow⟩ := hrow.of_cons
    obtain ⟨next, hrow, hclose⟩ := hrow.of_concat
    obtain ⟨value, hvalue, hview⟩ := ih h mid next hrow
    exact ⟨value, (Phrase.paren hopen hvalue hclose).mono (Nat.zero_le _), hview⟩

end Expr

/-! ## Parts of an embed -/

section

variable {row : List Token}

theorem following_derives {value : Option (Expr Literal P)} {rows : List (List Token)}
    (hrows : List.Forall₂ (Expr.Written Level.whole) value.toList rows)
    (h : ∀ e ∈ value.toList, e.WellFormed) :
    Derives (rows.flatMap fun row => .symbol .comma :: row) (Following Whole)
      (Option.map Expr.erase) (value.map Expr.erase) := by
  intro ls rest hrow
  cases value with
  | none =>
    cases hrows
    cases hrow
    exact ⟨none, .none, rfl⟩
  | some e =>
    obtain ⟨row, _, hwritten, hnone, rfl⟩ := List.forall₂_cons_left_iff.1 hrows
    cases hnone
    rw [List.flatMap_singleton] at hrow
    obtain ⟨mid, hcomma, hrow⟩ := Row.of_cons hrow
    obtain ⟨out, hout, hview⟩ := hwritten.derives (h e (by simp)) mid rest hrow
    exact ⟨some out, .some hcomma hout, congrArg some hview⟩

theorem exists_forall₂_append {α β : Type} {R : α → β → Prop} {first second : List α}
    {third : List β} (h : List.Forall₂ R (first ++ second) third) :
    ∃ front back, third = front ++ back ∧ List.Forall₂ R first front ∧
      List.Forall₂ R second back := by
  refine ⟨third.take first.length, third.drop first.length, by simp, ?_, ?_⟩
  · simpa using List.forall₂_take first.length h
  · simpa using List.forall₂_drop first.length h

theorem AuthorFlow.derives {flow : AuthorFlow (Expr Literal P)}
    (hwritten : FlowWritten flow.exprs row) (hordered : flow.icon.isSome → flow.url.isSome)
    (h : ∀ e ∈ flow.exprs, e.WellFormed) :
    Derives row AuthorFlowForm (AuthorFlow.map Expr.erase) (flow.map Expr.erase) := by
  intro ls rest hrow
  obtain ⟨hrows⟩ := hwritten
  rw [exprs, List.forall_mem_cons, List.forall_mem_append] at h
  obtain ⟨first, _, hname, hothers, rfl⟩ := List.forall₂_cons_left_iff.1 hrows
  obtain ⟨urls, icons, rfl, hurls, hicons⟩ := exists_forall₂_append hothers
  rw [commaRow_cons, List.flatMap_append] at hrow
  obtain ⟨mid, hrowName, hrow⟩ := hrow.of_append
  obtain ⟨next, hrowUrl, hrowIcon⟩ := hrow.of_append
  obtain ⟨name, hname, hviewName⟩ := hname.derives h.1 ls mid hrowName
  obtain ⟨url, hurl, hviewUrl⟩ := following_derives hurls h.2.1 mid next hrowUrl
  obtain ⟨icon, hicon, hviewIcon⟩ := following_derives hicons h.2.2 next rest hrowIcon
  refine ⟨⟨name, url, icon⟩, ?_, by rw [map, map, hviewName, hviewUrl, hviewIcon]⟩
  cases hurl with
  | some hcomma hitem => exact .url hname (.some hcomma hitem) hicon
  | none =>
    obtain rfl : icon = none := by
      cases hflow : flow.url <;> cases hlast : flow.icon <;> simp_all
    cases hicon
    exact .name hname

theorem FooterFlow.derives {flow : FooterFlow (Expr Literal P)}
    (hwritten : FlowWritten flow.exprs row) (h : ∀ e ∈ flow.exprs, e.WellFormed) :
    Derives row FooterFlowForm (FooterFlow.map Expr.erase) (flow.map Expr.erase) := by
  intro ls rest hrow
  obtain ⟨hrows⟩ := hwritten
  rw [exprs, List.forall_mem_cons] at h
  obtain ⟨first, icons, htext, hicons, rfl⟩ := List.forall₂_cons_left_iff.1 hrows
  rw [commaRow_cons] at hrow
  obtain ⟨mid, hrowText, hrowIcon⟩ := hrow.of_append
  obtain ⟨text, htext, hviewText⟩ := htext.derives h.1 ls mid hrowText
  obtain ⟨icon, hicon, hviewIcon⟩ := following_derives hicons h.2 mid rest hrowIcon
  exact ⟨⟨text, icon⟩, ⟨htext, hicon⟩, by rw [map, map, hviewText, hviewIcon]⟩

theorem Section.Written.derives {F G H K : Type} {ofWord? : String → Option K} {word : K → String}
    {written : F → List Token → Prop} {form : Form G} {view : G → H} {goal : F → H}
    (flowExprs : F → List (Expr Literal P)) {mode : WriteMode} {body : Section F K (Expr Literal P)}
    (hwritten : body.Written word written mode row) (hword : ∀ key, ofWord? (word key) = some key)
    (hflow : ∀ values, body = .flow values → ∀ row, written values row →
      Derives row form view (goal values))
    (h : ∀ e ∈ body.exprs flowExprs, e.WellFormed) :
    Derives row (SectionForm ofWord? form)
      (fun written => (written.1, written.2.map view Expr.erase))
      (mode, body.map goal Expr.erase) := by
  intro ls rest hrow
  cases hwritten with
  | flow hvalues =>
    obtain ⟨mid, hmode, hrow⟩ := Row.of_cons hrow
    obtain ⟨out, hout, hview⟩ := hflow _ rfl _ hvalues mid rest hrow
    exact ⟨(mode, .flow out), .flow hmode hout, by simp only [map, hview]⟩
  | @object entries _ hentries =>
    obtain ⟨mid, hmode, hrow⟩ := Row.of_cons hrow
    have hentry : ∀ entry ∈ entries, ∀ row, entry.2.Written Level.whole row →
        Derives row (KeyedForm ofWord? (word entry.1))
          (fun written : K × SourceExpr => (written.1, written.2.erase))
          (entry.1, entry.2.erase) := by
      intro entry hentry row hvalue ls rest hrow
      have hwell := h _ (List.mem_map_of_mem hentry)
      obtain ⟨value, hvalue, hview⟩ := hvalue.derives hwell ls rest hrow
      exact ⟨(entry.1, value), ⟨hword entry.1, hvalue⟩, by simp only [hview]⟩
    obtain ⟨out, hout, hviews⟩ := object_derives hentries hentry mid rest hrow
    exact ⟨(mode, .object out), .object hmode hout, by simp only [map, hviews]⟩
  | @property key value _ hvalue =>
    obtain ⟨mid, hdot, hrow⟩ := Row.of_cons hrow
    obtain ⟨next, hkey, hrow⟩ := Row.of_cons hrow
    obtain ⟨after, hmode, hrow⟩ := Row.of_cons hrow
    obtain ⟨out, hout, hview⟩ := hvalue.derives (h value (by simp [exprs])) after rest hrow
    exact ⟨(mode, .property key out), .property hdot hkey (hword key) hmode hout,
      by simp only [map, hview]⟩

theorem FieldSetting.Written.derives {setting : FieldSetting (Expr Literal P)}
    (hwritten : setting.Written row) (h : ∀ e ∈ setting.exprs, e.WellFormed) :
    Derives row (SettingForm setting.word) (FieldSetting.map Expr.erase)
      (setting.map Expr.erase) := by
  intro ls rest hrow
  cases hwritten with
  | @title value _ hvalue =>
    obtain ⟨out, hout, hview⟩ := hvalue.derives (h value (by simp [exprs])) ls rest hrow
    exact ⟨.title out, .title hout, congrArg FieldSetting.title hview⟩
  | @text value _ hvalue =>
    obtain ⟨out, hout, hview⟩ := hvalue.derives (h value (by simp [exprs])) ls rest hrow
    exact ⟨.text out, .text hout, congrArg FieldSetting.text hview⟩
  | inline value => exact ⟨.inline value, .inline value hrow.of_singleton, rfl⟩

/-- A field without its places. -/
abbrev FieldSpec.erase (spec : FieldSpec (Expr Literal P) P) : FieldSpec (Expr Literal Unit) Unit :=
  spec.map Expr.erase fun _ => ()

theorem inline_derives (inline : Bool) : Derives (inlineRow inline) InlineForm id inline := by
  intro ls rest hrow
  cases inline with
  | false =>
    cases hrow
    exact ⟨false, .plain, rfl⟩
  | true =>
    obtain ⟨mid, hcomma, hrow⟩ := Row.of_cons hrow
    exact ⟨true, .marked hcomma hrow.of_singleton, rfl⟩

theorem fieldFlow_derives {title text : Expr Literal P} {inline : Bool}
    (hwritten : FieldFlowWritten title text inline row) (htitle : title.WellFormed)
    (htext : text.WellFormed) :
    Derives row FlowForm (fun flow => (flow.1.erase, flow.2.1.erase, flow.2.2))
      (title.erase, text.erase, inline) := by
  intro ls rest hrow
  obtain ⟨hrowTitle, hrowText⟩ := hwritten
  obtain ⟨next, hrow, hrowRest⟩ := Row.of_append hrow
  obtain ⟨after, hcomma, hrowRest⟩ := Row.of_cons hrowRest
  obtain ⟨behind, hrowSecond, hrowInline⟩ := Row.of_append hrowRest
  obtain ⟨title', htitle, hviewTitle⟩ := hrowTitle.derives htitle ls next hrow
  obtain ⟨text', htext, hviewText⟩ := hrowText.derives htext after behind hrowSecond
  obtain ⟨_, hinline, rfl⟩ := inline_derives inline behind rest hrowInline
  exact ⟨(title', text', _), ⟨htitle, hcomma, htext, hinline⟩,
    by simp only [hviewTitle, hviewText, id]⟩

theorem FieldSpec.Written.derives {spec : FieldSpec (Expr Literal P) P}
    (hwritten : spec.Written row) (h : ∀ e ∈ spec.exprs, e.WellFormed) :
    Derives row FieldForm FieldSpec.erase spec.erase := by
  intro ls rest hrow
  cases hwritten with
  | @tuple place title text inline _ hflow =>
    obtain ⟨mid, hopen, hrow⟩ := Row.of_cons hrow
    obtain ⟨next, hrow, hclose⟩ := hrow.of_concat
    obtain ⟨⟨title', text', inline'⟩, hform, hview⟩ :=
      fieldFlow_derives hflow (h title (by simp [exprs])) (h text (by simp [exprs])) mid next hrow
    simp only [Prod.mk.injEq] at hview
    obtain ⟨hviewTitle, hviewText, rfl⟩ := hview
    exact ⟨_, .tuple hopen hform hclose, by simp only [erase, map, hviewTitle, hviewText]⟩
  | @flow place title text inline _ hflow =>
    obtain ⟨⟨title', text', inline'⟩, hform, hview⟩ :=
      fieldFlow_derives hflow (h title (by simp [exprs])) (h text (by simp [exprs])) ls rest hrow
    simp only [Prod.mk.injEq] at hview
    obtain ⟨hviewTitle, hviewText, rfl⟩ := hview
    exact ⟨_, .flow hform, by simp only [erase, map, hviewTitle, hviewText]⟩
  | @object place settings _ hsettings =>
    rw [exprs, List.forall_mem_flatMap] at h
    obtain ⟨out, hout, hviews⟩ := object_derives hsettings
      (fun setting hsetting _ hwritten => hwritten.derives (h setting hsetting)) ls rest hrow
    exact ⟨_, .object hout, congrArg (FieldSpec.object ()) hviews⟩

theorem FieldsBody.Written.derives {mode : WriteMode} {body : FieldsBody (Expr Literal P) P}
    (hwritten : body.Written mode row) (hfits : (PartBody.fields mode body).Fits)
    (h : ∀ e ∈ body.exprs, e.WellFormed) :
    Derives row FieldsForm
      (fun written => (written.1, written.2.map Expr.erase fun _ => ()))
      (mode, body.map Expr.erase fun _ => ()) := by
  intro ls rest hrow
  cases hwritten with
  | @part field row hfield hhead =>
    obtain ⟨mid, hmode, hrow⟩ := Row.of_cons hrow
    obtain ⟨out, hout, hview⟩ := hfield.derives h mid rest hrow
    refine ⟨(mode, .part out), .part hmode (fun hbracket => hhead ?_) hout,
      by simp only [map, hview]⟩
    rw [hrow.head?_eq hfield.ne_nil, hbracket]
  | list hfields =>
    rw [exprs, List.forall_mem_flatMap] at h
    obtain ⟨mid, hmode, hrow⟩ := Row.of_cons hrow
    obtain ⟨next, hopen, hrow⟩ := Row.of_cons hrow
    obtain ⟨after, hrow, hclose⟩ := Row.of_concat hrow
    have hinside := forall₂_imp_of_mem hfields fun field hfield _ hwritten =>
      hwritten.derives (h field hfield)
    obtain ⟨out, hout, hviews⟩ := separated_derives hfits hinside next after hrow
    exact ⟨(mode, .list out), .list hmode hopen hout hclose, by simp only [map]; rw [hviews]⟩
  | property hsetting =>
    obtain ⟨mid, hdot, hrow⟩ := Row.of_cons hrow
    obtain ⟨next, hword, hrow⟩ := Row.of_cons hrow
    obtain ⟨after, hmode, hrow⟩ := Row.of_cons hrow
    obtain ⟨out, hout, hview⟩ := hsetting.derives h after rest hrow
    exact ⟨(mode, .property out), .property hdot hword hmode hout, by simp only [map, hview]⟩

/-- A part without its places. -/
abbrev EmbedPart.erase (part : EmbedPart (Expr Literal P) P) : EmbedPart (Expr Literal Unit) Unit :=
  part.map Expr.erase fun _ => ()

theorem EmbedPart.Written.derives {part : EmbedPart (Expr Literal P) P}
    (hwritten : part.Written row) (hfits : part.body.Fits) (h : ∀ e ∈ part.exprs, e.WellFormed) :
    Derives row EmbedPartForm EmbedPart.erase part.erase := by
  obtain ⟨place, body⟩ := part
  intro ls rest hrow
  obtain ⟨hbody⟩ := hwritten
  obtain ⟨next, hrow, hsemicolon⟩ := Row.of_concat hrow
  cases hbody with
  | @member key value _ hvalue =>
    obtain ⟨mid, hkey, hrow⟩ := Row.of_cons hrow
    obtain ⟨after, hassign, hrow⟩ := Row.of_cons hrow
    have hname : EmbedMember.ofName? key.name = some key := by cases key <;> decide
    have hwell := h value (by simp [exprs, PartBody.exprs])
    obtain ⟨out, hout, hview⟩ := hvalue.derives hwell after next hrow
    exact ⟨_, ⟨hkey, .member hname hassign hout, hsemicolon⟩,
      by simp only [erase, map, PartBody.map, hview]⟩
  | @author mode body _ hsection =>
    obtain ⟨mid, hword, hrow⟩ := Row.of_cons hrow
    have hkeys : ∀ key, AuthorKey.ofWord? (AuthorKey.word key) = some key := by
      intro key
      cases key <;> decide
    have hflow : ∀ values, body = .flow values → ∀ row, FlowWritten values.exprs row →
        Derives row AuthorFlowForm (AuthorFlow.map Expr.erase) (values.map Expr.erase) := by
      rintro values rfl row hwritten
      exact AuthorFlow.derives hwritten hfits h
    obtain ⟨⟨_, out⟩, hout, hview⟩ :=
      hsection.derives AuthorFlow.exprs hkeys hflow h mid next hrow
    obtain ⟨rfl, hsame⟩ := Prod.mk.inj hview
    exact ⟨_, ⟨hword, .author hout, hsemicolon⟩,
      congrArg (fun body => EmbedPart.mk () (.author _ body)) hsame⟩
  | @footer mode body _ hsection =>
    obtain ⟨mid, hword, hrow⟩ := Row.of_cons hrow
    have hkeys : ∀ key, FooterKey.ofWord? (FooterKey.word key) = some key := by
      intro key
      cases key <;> decide
    have hflow : ∀ values, body = .flow values → ∀ row, FlowWritten values.exprs row →
        Derives row FooterFlowForm (FooterFlow.map Expr.erase) (values.map Expr.erase) := by
      rintro values rfl row hwritten
      exact FooterFlow.derives hwritten h
    obtain ⟨⟨_, out⟩, hout, hview⟩ :=
      hsection.derives FooterFlow.exprs hkeys hflow h mid next hrow
    obtain ⟨rfl, hsame⟩ := Prod.mk.inj hview
    exact ⟨_, ⟨hword, .footer hout, hsemicolon⟩,
      congrArg (fun body => EmbedPart.mk () (.footer _ body)) hsame⟩
  | fields hname hfields =>
    obtain ⟨mid, hword, hrow⟩ := Row.of_cons hrow
    obtain ⟨⟨_, out⟩, hout, hview⟩ := hfields.derives hfits h mid next hrow
    obtain ⟨rfl, hsame⟩ := Prod.mk.inj hview
    exact ⟨_, ⟨hword, .fields hname hout, hsemicolon⟩,
      congrArg (fun body => EmbedPart.mk () (.fields _ body)) hsame⟩

end

end MessageTemplate
