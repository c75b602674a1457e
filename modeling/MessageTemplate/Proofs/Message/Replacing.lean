import MessageTemplate.Proofs.Evaluation.Answers
import MessageTemplate.Proofs.Evaluation.Reach

/-!
# Starting afresh

A part of an embed that starts its author, its footer or its fields afresh
leaves what the values of its expressions describe, and nothing else, whatever
was there before. Whole fields are an exception: the fields are removed before
the first of them is described, so what the functions that are called for them
add to the fields stays there.
-/

namespace MessageTemplate

namespace Script

variable {allowance : Nat} {state after : State}

theorem evaluates_editEmbed (edit : Embed → Embed) (state : State) :
    (editEmbed edit).Evaluates state [] ()
      (state.editDocument fun document => document.editEmbed edit) :=
  .act (.done _ _)

/-! ## Authors and footers -/

/-- All properties are evaluated before the embed is edited. -/
theorem evaluates_edits_editEmbed {K R : Type} {edit : K → String → R → R}
    {entries : List (K × Term)} {put : List (R → R) → Embed → Embed}
    (h : (edits allowance edit entries >>= fun edits => editEmbed (put edits)).run state =
      .ok () after) :
    ∃ values : List (K × Value),
      (edits allowance edit entries >>= fun edits => editEmbed (put edits)).Evaluates state
        (values.map Prod.snd) () after ∧
      values.map (fun entry => (entry.1, ())) = entries.map (fun entry => (entry.1, ())) ∧
      ∃ mid, after = State.editDocument mid fun document =>
        document.editEmbed (put (valueEdits edit values)) := by
  obtain ⟨edits, mid, hedits, hwrite⟩ := bind_run_inv h
  obtain ⟨-, rfl⟩ := EStateM.Result.ok.inj hwrite
  obtain ⟨values, hvalues, hform, rfl⟩ := evaluates_edits hedits
  exact ⟨values, hvalues.bind_nil (evaluates_editEmbed _ mid), hform, mid, rfl⟩

theorem exists_entry_of_key {K : Type} {values : List (K × Value)} {key : K}
    (h : values.map (fun entry => (entry.1, ())) = [(key, ())]) :
    ∃ value, values = [(key, value)] := by
  obtain ⟨entry, rfl, hentry⟩ := List.map_eq_singleton_iff.1 h
  exact ⟨entry.2, by rw [← (Prod.mk.inj hentry).1]⟩

theorem evaluates_writeAuthor {body : Section (AuthorFlow Term) AuthorKey Term}
    (h : (writeAuthor allowance .replace body).run state = .ok () after) :
    ∃ form : Section (AuthorFlow Value) AuthorKey Value, ∃ author,
      (writeAuthor allowance .replace body).Evaluates state (form.exprs AuthorFlow.exprs) () after ∧
      form.map (AuthorFlow.map fun _ => ()) (fun _ => ()) =
        body.map (AuthorFlow.map fun _ => ()) (fun _ => ()) ∧
      form.author? = some author ∧ after.document.embed.author = some author := by
  cases body with
  | flow flow =>
    obtain ⟨name, first, hname, hrest⟩ := bind_run_inv h
    obtain ⟨url, second, hurl, hmore⟩ := bind_run_inv hrest
    obtain ⟨icon, third, hicon, hwrite⟩ := bind_run_inv hmore
    obtain ⟨-, rfl⟩ := EStateM.Result.ok.inj hwrite
    obtain ⟨nameValue, hnameValue, hnameText⟩ := evaluates_requiredText hname
    obtain ⟨urlValue, hurlValue, hurlForm, rfl⟩ := evaluates_optionalText hurl
    obtain ⟨iconValue, hiconValue, hiconForm, rfl⟩ := evaluates_optionalText hicon
    refine ⟨.flow ⟨nameValue, urlValue, iconValue⟩, _, ?_, ?_, ?_, rfl⟩
    · exact hnameValue.bind (hurlValue.bind (hiconValue.bind_nil (evaluates_editEmbed _ third)))
    · rw [Section.map, Section.map, AuthorFlow.map, AuthorFlow.map, hurlForm, hiconForm]
    · rw [Section.author?, AuthorFlow.author?, hnameText]
      rfl
  | object entries =>
    obtain ⟨values, hvalues, hform, mid, rfl⟩ := evaluates_edits_editEmbed h
    exact ⟨.object values, _, hvalues, congrArg Section.object hform, rfl, rfl⟩
  | property key value =>
    obtain ⟨values, hvalues, hform, mid, rfl⟩ := evaluates_edits_editEmbed h
    obtain ⟨value, rfl⟩ := exists_entry_of_key hform
    exact ⟨.property key value, _, hvalues, rfl, rfl, rfl⟩

theorem evaluates_writeFooter {body : Section (FooterFlow Term) FooterKey Term}
    (h : (writeFooter allowance .replace body).run state = .ok () after) :
    ∃ form : Section (FooterFlow Value) FooterKey Value, ∃ footer,
      (writeFooter allowance .replace body).Evaluates state (form.exprs FooterFlow.exprs) () after ∧
      form.map (FooterFlow.map fun _ => ()) (fun _ => ()) =
        body.map (FooterFlow.map fun _ => ()) (fun _ => ()) ∧
      form.footer? = some footer ∧ after.document.embed.footer = some footer := by
  cases body with
  | flow flow =>
    obtain ⟨text, first, htext, hrest⟩ := bind_run_inv h
    obtain ⟨icon, second, hicon, hwrite⟩ := bind_run_inv hrest
    obtain ⟨-, rfl⟩ := EStateM.Result.ok.inj hwrite
    obtain ⟨textValue, htextValue, htextText⟩ := evaluates_requiredText htext
    obtain ⟨iconValue, hiconValue, hiconForm, rfl⟩ := evaluates_optionalText hicon
    refine ⟨.flow ⟨textValue, iconValue⟩, _, ?_, ?_, ?_, rfl⟩
    · exact htextValue.bind (hiconValue.bind_nil (evaluates_editEmbed _ second))
    · rw [Section.map, Section.map, FooterFlow.map, FooterFlow.map, hiconForm]
    · rw [Section.footer?, FooterFlow.footer?, htextText]
      rfl
  | object entries =>
    obtain ⟨values, hvalues, hform, mid, rfl⟩ := evaluates_edits_editEmbed h
    exact ⟨.object values, _, hvalues, congrArg Section.object hform, rfl, rfl⟩
  | property key value =>
    obtain ⟨values, hvalues, hform, mid, rfl⟩ := evaluates_edits_editEmbed h
    obtain ⟨value, rfl⟩ := exists_entry_of_key hform
    exact ⟨.property key value, _, hvalues, rfl, rfl, rfl⟩

/-! ## Fields -/

/-- Whenever a script comes to describe one of these fields, the fields of the document are still
the same when the description is over. -/
def KeepsFields (allowance : Nat) (script : Script Unit) (state : State)
    (specs : List (FieldSpec Term Location)) : Prop :=
  ∀ spec ∈ specs, ∀ (before : State) (next : Field → Script Unit),
    script.Comes state (.start (.field allowance spec) next) before →
      (Eval.after (Activity.field allowance spec).run before).document.embed.fields =
        before.document.embed.fields

/-- Each field is described and then put behind those that are there. -/
theorem evaluates_addFields {specs : List (FieldSpec Term Location)}
    (h : (specs.forM (addField allowance)).run state = .ok () after) :
    ∃ forms : List (FieldSpec Value Location), ∃ fields,
      (specs.forM (addField allowance)).Evaluates state (forms.flatMap FieldSpec.exprs) () after ∧
      forms.map (FieldSpec.map (fun _ => ()) id) = specs.map (FieldSpec.map (fun _ => ()) id) ∧
      forms.mapM FieldSpec.field? = some fields ∧
      (KeepsFields allowance (specs.forM (addField allowance)) state specs →
        after.document.embed.fields = state.document.embed.fields ++ fields) := by
  induction specs generalizing state with
  | nil =>
    obtain ⟨-, rfl⟩ := EStateM.Result.ok.inj h
    exact ⟨[], [], .done _ _, rfl, rfl, fun _ => (List.append_nil _).symm⟩
  | cons spec specs ih =>
    obtain ⟨field, mid, hfield, hrest⟩ := Eval.bind_inv h
    obtain ⟨forms, fields, hforms, hsames, hfields, hkept⟩ := ih hrest
    have hinside : (ofField allowance spec).run state = .ok field mid := by
      rw [Activity.run, run_ofField] at hfield
      exact Eval.located_inv hfield
    obtain ⟨form, hform, hsame, hone⟩ := evaluates_ofField hinside
    refine ⟨form :: forms, field :: fields, .field hform (.act hforms),
      congrArg₂ List.cons hsame hsames, ?_, ?_⟩
    · rw [List.mapM_cons, hone, hfields]
      rfl
    · intro hkeeps
      have hfirst := hkeeps spec (by simp) state _ (.here _ _)
      rw [Eval.after, hfield] at hfirst
      have hlast := hkept fun other hother before next hcomes =>
        hkeeps other (List.mem_cons_of_mem spec hother) before next (.behind hfield (.act hcomes))
      rw [hlast]
      change mid.document.embed.fields ++ [field] ++ fields = _
      rw [hfirst, List.append_assoc]
      rfl

theorem evaluates_writeFields {specs : List (FieldSpec Term Location)}
    (h : (writeFields allowance .replace specs).run state = .ok () after) :
    ∃ forms : List (FieldSpec Value Location), ∃ fields,
      (writeFields allowance .replace specs).Evaluates state (forms.flatMap FieldSpec.exprs) ()
        after ∧
      forms.map (FieldSpec.map (fun _ => ()) id) = specs.map (FieldSpec.map (fun _ => ()) id) ∧
      forms.mapM FieldSpec.field? = some fields ∧
      (KeepsFields allowance (writeFields allowance .replace specs) state specs →
        after.document.embed.fields = fields) := by
  have hadded : (specs.forM (addField allowance)).run (state.editDocument fun document =>
      document.editEmbed (Eval.clearFields .replace)) = .ok () after := h
  obtain ⟨forms, fields, hforms, hsames, hfields, hkept⟩ := evaluates_addFields hadded
  refine ⟨forms, fields, .act hforms, hsames, hfields, fun hkeeps => ?_⟩
  exact hkept fun spec hspec before next hcomes => hkeeps spec hspec before next (.act hcomes)

theorem evaluates_writeFieldsBody {body : FieldsBody Term Location}
    (h : (writeFieldsBody allowance .replace body).run state = .ok () after) :
    ∃ form : FieldsBody Value Location, ∃ fields,
      (writeFieldsBody allowance .replace body).Evaluates state form.exprs () after ∧
      form.map (fun _ => ()) id = body.map (fun _ => ()) id ∧ form.fields? = some fields ∧
      (KeepsFields allowance (writeFieldsBody allowance .replace body) state body.specs →
        after.document.embed.fields = fields) := by
  cases body with
  | part spec =>
    obtain ⟨forms, fields, hforms, hsames, hfields, hkept⟩ := evaluates_writeFields h
    obtain ⟨form, rfl, hsame⟩ := List.map_eq_singleton_iff.1 hsames
    rw [List.flatMap_singleton] at hforms
    exact ⟨.part form, fields, hforms, congrArg FieldsBody.part hsame, hfields, hkept⟩
  | list specs =>
    obtain ⟨forms, fields, hforms, hsames, hfields, hkept⟩ := evaluates_writeFields h
    exact ⟨.list forms, fields, hforms, congrArg FieldsBody.list hsames, hfields, hkept⟩
  | property setting =>
    obtain ⟨edit?, mid, hedit, hwrite⟩ := bind_run_inv h
    obtain ⟨-, rfl⟩ := EStateM.Result.ok.inj hwrite
    obtain ⟨form, hform, hsame, rfl⟩ := evaluates_fieldEdit? hedit
    exact ⟨.property form, _, hform.bind_nil (evaluates_editEmbed _ mid),
      congrArg FieldsBody.property hsame, rfl, fun _ => rfl⟩

end Script

/-! ## What is left -/

namespace Eval

/-- What was there before does not matter to a part that starts whole fields afresh. -/
theorem embedPart_clearFields (call : Caller) {here : Location} {body : FieldsBody Term Location}
    (hbody : ∀ setting, body ≠ .property setting) (state : State) :
    embedPart call ⟨here, .fields .replace body⟩ state =
      embedPart call ⟨here, .fields .replace body⟩
        (state.editDocument fun document => document.editEmbed (clearFields .replace)) := by
  cases body with
  | part spec => exact located_congr rfl
  | list specs => exact located_congr rfl
  | property setting => exact absurd rfl (hbody setting)

end Eval

theorem length_of_mapM_field? {forms : List (FieldSpec Value Location)} {fields : List Field}
    (h : forms.mapM FieldSpec.field? = some fields) : fields.length = forms.length := by
  induction forms generalizing fields with
  | nil =>
    obtain rfl := Option.some.inj h
    rfl
  | cons form forms ih =>
    rw [List.mapM_cons] at h
    obtain ⟨field, -, hmore⟩ := Option.bind_eq_some_iff.1 h
    obtain ⟨rest, hrest, hfields⟩ := Option.bind_eq_some_iff.1 hmore
    obtain rfl := Option.some.inj hfields
    exact congrArg Nat.succ (ih hrest)

/-- A part that starts its author, its footer or its fields afresh leaves what the values of its
expressions describe, as long as the fields of the document stay the same while whole fields are
described for it. A list of fields then leaves one field for each that it describes. What was there
before is gone in any case. -/
theorem replacing_leaves_described (allowance : Nat) {p : EmbedPart Term Location}
    {state after : State} (hreplaces : p.body.Replaces)
    (h : Eval.embedPart (Eval.callWithin allowance) p state = .ok () after) :
    (∃ (form : PartBody Value Location) (replacement : Embed → Embed), p.body.SameForm form ∧
        (Script.ofPart allowance p.body).Evaluates state form.exprs () after ∧
        form.replacement? = some replacement ∧
        (Script.KeepsFields allowance (.ofPart allowance p.body) state p.body.specs →
          replacement after.document.embed = after.document.embed ∧
          ∀ specs, p.body = .fields .replace (.list specs) →
            after.document.embed.fields.length = specs.length)) ∧
      ∀ body, p.body = .fields .replace body → (∀ setting, body ≠ .property setting) →
        Eval.embedPart (Eval.callWithin allowance) p (state.editDocument fun document =>
          document.editEmbed (Eval.clearFields .replace)) = .ok () after := by
  obtain ⟨here, body⟩ := p
  have hrun : (Script.ofPart allowance body).run state = .ok () after := by
    rw [Script.run_ofPart]
    exact Eval.located_inv h
  constructor
  · cases body with
    | member member value => contradiction
    | author mode body =>
      obtain rfl : mode = .replace := hreplaces
      obtain ⟨form, author, hform, hsame, hauthor, hleft⟩ := Script.evaluates_writeAuthor hrun
      refine ⟨.author .replace form, _, congrArg (PartBody.author _) hsame.symm, hform,
        congrArg (Option.map _) hauthor, fun _ => ⟨?_, ?_⟩⟩
      · exact congrArg (fun author => { after.document.embed with author := author }) hleft.symm
      · exact fun specs hspecs => nomatch hspecs
    | footer mode body =>
      obtain rfl : mode = .replace := hreplaces
      obtain ⟨form, footer, hform, hsame, hfooter, hleft⟩ := Script.evaluates_writeFooter hrun
      refine ⟨.footer .replace form, _, congrArg (PartBody.footer _) hsame.symm, hform,
        congrArg (Option.map _) hfooter, fun _ => ⟨?_, ?_⟩⟩
      · exact congrArg (fun footer => { after.document.embed with footer := footer }) hleft.symm
      · exact fun specs hspecs => nomatch hspecs
    | fields mode body =>
      obtain rfl : mode = .replace := hreplaces
      obtain ⟨form, fields, hform, hsame, hfields, hleft⟩ := Script.evaluates_writeFieldsBody hrun
      refine ⟨.fields .replace form, _, congrArg (PartBody.fields _) hsame.symm, hform,
        congrArg (Option.map _) hfields, fun hkeeps => ⟨?_, ?_⟩⟩
      · exact congrArg (fun fields => { after.document.embed with fields := fields })
          (hleft hkeeps).symm
      · rintro specs hspecs
        obtain ⟨-, rfl⟩ := PartBody.fields.inj hspecs
        cases form with
        | list forms =>
          rw [hleft hkeeps, length_of_mapM_field? hfields]
          simpa using congrArg List.length (FieldsBody.list.inj hsame)
        | part form => nomatch hsame
        | property form => nomatch hsame
  · rintro fields rfl hfields
    rw [← Eval.embedPart_clearFields _ hfields, h]

/-- A state in which there are two fields. -/
def twoFields : State :=
  (State.initial .empty .newMonth).editDocument fun document => document.editEmbed fun embed =>
    { embed with fields := [.blank, .blank] }

/-- A list of one field. -/
def oneField : EmbedPart Term Location := ⟨⟨"t", .start⟩, .fields .replace (.list [plainField "c"])⟩

theorem replacing_leaves_described_oneField :
    oneField.body.Replaces ∧ Script.KeepsFields 1 (.ofPart 1 oneField.body) twoFields
        oneField.body.specs ∧
      ∃ after form replacement,
        Eval.embedPart (Eval.callWithin 1) oneField twoFields = .ok () after ∧
        oneField.body.SameForm form ∧ form.replacement? = some replacement ∧
        replacement after.document.embed = after.document.embed ∧
        after.document.embed.fields.length = 1 := by
  obtain ⟨after, hrun⟩ : ∃ after, Eval.embedPart (Eval.callWithin 1) oneField twoFields =
      .ok () after := ⟨_, rfl⟩
  have hkeeps : Script.KeepsFields 1 (.ofPart 1 oneField.body) twoFields oneField.body.specs := by
    intro spec hspec before next _
    obtain rfl := List.mem_singleton.1 hspec
    rfl
  have hreplaces : oneField.body.Replaces := rfl
  obtain ⟨⟨form, replacement, hsame, -, hreplacement, hleft⟩, -⟩ :=
    replacing_leaves_described 1 hreplaces hrun
  obtain ⟨hembed, hlength⟩ := hleft hkeeps
  exact ⟨hreplaces, hkeeps, after, form, replacement, hrun, hsame, hreplacement, hembed,
    hlength _ rfl⟩

/-- A function that adds a field and answers with a text. -/
def addingField : Function :=
  ⟨"f", [], .code (.block ⟨"t", .start⟩
    [.embed ⟨"t", .start⟩ [⟨⟨"t", .start⟩, .fields .append (.part (plainField "a"))⟩],
      .result ⟨"t", .start⟩ (.literal ⟨"t", .start⟩ (.string "t"))]), none⟩

/-- The title of a new field is what the function answers. -/
def titledByCall : FieldSpec Term Location :=
  .flow ⟨"t", .start⟩ (.call ⟨"t", .start⟩ "f" [])
    (.literal ⟨"t", .start⟩ (.string "1")) false

/-- A list of fields does not always leave one field for each: a field that a function adds while
the list is described stays there. -/
theorem added_field_stays :
    ¬ ∀ (allowance : Nat) (here : Location) (specs : List (FieldSpec Term Location))
      (state after : State), Eval.embedPart (Eval.callWithin allowance)
        ⟨here, .fields .replace (.list specs)⟩ state = .ok () after →
        after.document.embed.fields.length = specs.length := by
  intro h
  obtain ⟨after, hrun⟩ : ∃ after, Eval.embedPart (Eval.callWithin 2)
      ⟨⟨"t", .start⟩, .fields .replace (.list [titledByCall])⟩
      ((State.initial .empty .newMonth).editChain fun chain => chain.declare addingField) =
        .ok () after := ⟨_, rfl⟩
  have hlength := h _ _ _ _ _ hrun
  obtain rfl := (EStateM.Result.ok.inj hrun).2
  exact absurd hlength (by decide)

end MessageTemplate
