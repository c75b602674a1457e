import MessageTemplate.Proofs.Evaluation.Bare
import MessageTemplate.Proofs.Evaluation.Settling
import Mathlib.Data.List.Forall2
import Mathlib.Data.List.Induction

/-!
# Fields in order

Whole fields are put behind each other in the order in which they are described,
up to the first one that cannot be described. A field that is described by its
properties has the last text that is given for each of them.
-/

namespace MessageTemplate

/-! ## What a field is described to be -/

namespace FieldSetting

/-- A property with its value in place of the expression. -/
inductive Evaluates (call : Eval.Caller) (state : State) :
    FieldSetting Term → FieldSetting Value → State → Prop
  | title {e : Term} {value : Value} {after : State}
      (h : Eval.term call e state = .ok value after) :
      Evaluates call state (.title e) (.title value) after
  | text {e : Term} {value : Value} {after : State}
      (h : Eval.term call e state = .ok value after) :
      Evaluates call state (.text e) (.text value) after
  | inline (value : Bool) : Evaluates call state (.inline value) (.inline value) state

/-- The title that a property gives, unless it is null. -/
def title? : FieldSetting Value → Option String
  | .title value => value.text?
  | _ => none

def text? : FieldSetting Value → Option String
  | .text value => value.text?
  | _ => none

def inline? : FieldSetting Value → Option Bool
  | .inline value => some value
  | _ => none

end FieldSetting

/-- The last title, the last text and the last flag that are given. -/
def Field.ofSettings (values : List (FieldSetting Value)) : Field :=
  ⟨(values.filterMap FieldSetting.title?).getLast?.getD "",
    (values.filterMap FieldSetting.text?).getLast?.getD "",
    (values.filterMap FieldSetting.inline?).getLast?.getD false⟩

/-- The field that is described for a state which the description leaves alone. -/
inductive FieldSpec.Describes (call : Eval.Caller) (state : State) :
    FieldSpec Term Location → Field → Prop
  | flow {here : Location} {title text : Term} {inline : Bool} {titleValue textValue : Value}
      {field : Field} (htitle : Eval.term call title state = .ok titleValue state)
      (htext : Eval.term call text state = .ok textValue state)
      (htitleText : titleValue.text? = some field.title)
      (htextText : textValue.text? = some field.text) (hinline : field.inline = inline) :
      Describes call state (.flow here title text inline) field
  | object {here : Location} {settings : List (FieldSetting Term)}
      {values : List (FieldSetting Value)}
      (h : List.Forall₂ (fun setting value => setting.Evaluates call state value state)
        settings values) :
      Describes call state (.object here settings) (.ofSettings values)

/-- Later properties win, and null ones are skipped. -/
theorem Field.applyEdits_eq (values : List (FieldSetting Value)) :
    Eval.applyEdits (values.flatMap fun value => value.edit?.toList) .blank =
      ofSettings values := by
  induction values using List.reverseRecOn with
  | nil => rfl
  | append_singleton values value ih =>
    rw [List.flatMap_append, List.flatMap_singleton, Eval.applyEdits, List.foldl_append]
    change List.foldl _ (Eval.applyEdits _ _) _ = _
    rw [ih]
    cases value with
    | title value | text value =>
      cases hvalue : value.text? <;>
        simp [ofSettings, FieldSetting.edit?, FieldSetting.title?, FieldSetting.text?,
          FieldSetting.inline?, hvalue]
    | inline value =>
      simp [ofSettings, FieldSetting.edit?, FieldSetting.title?, FieldSetting.text?,
        FieldSetting.inline?]

namespace Eval

variable {call : Caller} {state after : State}

theorem text?_eq_ok_iff {e : Term} {text : Option String} :
    text? call e state = .ok text after ↔
      ∃ value, term call e state = .ok value after ∧ value.text? = text := by
  constructor
  · intro h
    obtain ⟨value, mid, hvalue, hrest⟩ := bind_inv h
    obtain ⟨rfl, rfl⟩ := EStateM.Result.ok.inj hrest
    exact ⟨value, hvalue, rfl⟩
  · rintro ⟨value, hvalue, rfl⟩
    rw [text?, Run.bind_of_ok hvalue]
    rfl

theorem requiredText_eq_ok_iff {member : RequiredMember} {e : Term} {text : String} :
    requiredText call member e state = .ok text after ↔
      ∃ value, term call e state = .ok value after ∧ value.text? = some text := by
  rw [← text?_eq_ok_iff]
  constructor
  · intro h
    obtain ⟨text?, mid, htext, hrest⟩ := bind_inv h
    cases text? with
    | none => contradiction
    | some given =>
      obtain ⟨rfl, rfl⟩ := EStateM.Result.ok.inj hrest
      exact htext
  · intro h
    rw [requiredText, Run.bind_of_ok h]
    rfl

theorem mapText_eq_ok_iff {α : Type} {e : Term} {f : String → α} {answer : Option α} :
    (do return (← text? call e).map f : Eval (Option α)) state = .ok answer after ↔
      ∃ value, term call e state = .ok value after ∧ value.text?.map f = answer := by
  constructor
  · intro h
    obtain ⟨text, mid, htext, hrest⟩ := bind_inv h
    obtain ⟨rfl, rfl⟩ := EStateM.Result.ok.inj hrest
    obtain ⟨value, hvalue, rfl⟩ := text?_eq_ok_iff.1 htext
    exact ⟨value, hvalue, rfl⟩
  · rintro ⟨value, hvalue, rfl⟩
    rw [Run.bind_of_ok (text?_eq_ok_iff.2 ⟨value, hvalue, rfl⟩)]
    rfl

theorem fieldEdit?_eq_ok_iff {setting : FieldSetting Term} {edit? : Option (Field → Field)} :
    fieldEdit? call setting state = .ok edit? after ↔
      ∃ value, setting.Evaluates call state value after ∧ value.edit? = edit? := by
  constructor
  · intro h
    cases setting with
    | title e =>
      obtain ⟨value, hvalue, rfl⟩ := mapText_eq_ok_iff.1 h
      exact ⟨_, .title hvalue, rfl⟩
    | text e =>
      obtain ⟨value, hvalue, rfl⟩ := mapText_eq_ok_iff.1 h
      exact ⟨_, .text hvalue, rfl⟩
    | inline value =>
      obtain ⟨rfl, rfl⟩ := EStateM.Result.ok.inj h
      exact ⟨_, .inline value, rfl⟩
  · rintro ⟨value, hvalue, rfl⟩
    cases hvalue with
    | title h => exact mapText_eq_ok_iff.2 ⟨_, h, rfl⟩
    | text h => exact mapText_eq_ok_iff.2 ⟨_, h, rfl⟩
    | inline value => rfl

/-- Without calls nothing that is described changes the state. -/
theorem fieldEdits_eq_ok_iff {settings : List (FieldSetting Term)} {edits : List (Field → Field)}
    (hfree : ∀ e ∈ settings.flatMap FieldSetting.exprs, e.IsCallFree) :
    fieldEdits call settings state = .ok edits state ↔
      ∃ values, List.Forall₂ (fun setting value => setting.Evaluates call state value state)
        settings values ∧ (values.flatMap fun value => value.edit?.toList) = edits := by
  induction settings generalizing edits with
  | nil =>
    constructor
    · intro h
      obtain ⟨rfl, -⟩ := EStateM.Result.ok.inj h
      exact ⟨[], .nil, rfl⟩
    · rintro ⟨values, hvalues, rfl⟩
      cases hvalues
      rfl
  | cons setting settings ih =>
    rw [List.flatMap_cons, List.forall_mem_append] at hfree
    constructor
    · intro h
      obtain ⟨edit?, mid, hedit, hrest⟩ := bind_inv h
      obtain ⟨others, last, hothers, hlast⟩ := bind_inv hrest
      obtain ⟨rfl, rfl⟩ := EStateM.Result.ok.inj hlast
      have hframe : Keeps (fun before after => after = before) (fieldEdit? call setting) :=
        (isCompositional_keeps isFrame_eq).fieldEdit? fun e he state =>
          after_term_of_isCallFree (hfree.1 e he) state
      obtain rfl := hframe.of_ok hedit
      obtain ⟨value, hvalue, rfl⟩ := fieldEdit?_eq_ok_iff.1 hedit
      obtain ⟨values, hvalues, rfl⟩ := (ih hfree.2).1 hothers
      exact ⟨value :: values, .cons hvalue hvalues, List.flatMap_cons⟩
    · rintro ⟨_, hall, rfl⟩
      obtain ⟨value, values, hvalue, hvalues, rfl⟩ := List.forall₂_cons_left_iff.1 hall
      rw [fieldEdits, Run.bind_of_ok (fieldEdit?_eq_ok_iff.2 ⟨value, hvalue, rfl⟩),
        Run.bind_of_ok ((ih hfree.2).2 ⟨values, hvalues, rfl⟩), List.flatMap_cons]
      rfl

theorem field_eq_ok_iff {spec : FieldSpec Term Location} {f : Field}
    (hfree : ∀ e ∈ spec.exprs, e.IsCallFree) :
    field call spec state = .ok f state ↔ spec.Describes call state f := by
  constructor
  · intro h
    cases spec with
    | flow here title text inline =>
      obtain ⟨titleText, mid, htitle, hrest⟩ := bind_inv (located_inv h)
      obtain ⟨textText, last, htext, hlast⟩ := bind_inv hrest
      obtain ⟨rfl, rfl⟩ := EStateM.Result.ok.inj hlast
      obtain ⟨titleValue, htitleValue, htitleText⟩ := requiredText_eq_ok_iff.1 htitle
      obtain ⟨textValue, htextValue, htextText⟩ := requiredText_eq_ok_iff.1 htext
      obtain rfl := eq_of_term_of_isCallFree (hfree title (by simp [FieldSpec.exprs])) htitleValue
      exact .flow htitleValue htextValue htitleText htextText rfl
    | object here settings =>
      obtain ⟨edits, mid, hedits, hlast⟩ := bind_inv (located_inv h)
      obtain ⟨rfl, rfl⟩ := EStateM.Result.ok.inj hlast
      obtain ⟨values, hvalues, rfl⟩ := (fieldEdits_eq_ok_iff hfree).1 hedits
      rw [Field.applyEdits_eq]
      exact .object hvalues
  · intro h
    cases h with
    | @flow _ title text _ titleValue textValue _ htitle htext htitleText htextText hinline =>
      apply located_of_ok
      rw [Run.bind_of_ok (requiredText_eq_ok_iff.2 ⟨titleValue, htitle, htitleText⟩),
        Run.bind_of_ok (requiredText_eq_ok_iff.2 ⟨textValue, htext, htextText⟩), ← hinline]
      rfl
    | @object here settings values hvalues =>
      apply located_of_ok
      rw [Run.bind_of_ok ((fieldEdits_eq_ok_iff hfree).2 ⟨values, hvalues, rfl⟩),
        Field.applyEdits_eq]
      rfl

/-- A field is described in the same way with every document, or with none. -/
theorem settled_field {spec : FieldSpec Term Location} (hfree : ∀ e ∈ spec.exprs, e.IsCallFree)
    (state : State) : Settled (· = id) state (field call spec) :=
  (isCompositional_settled isChangeKind_none).field
    (fun e he => settled_term isChangeKind_none (hfree e he)) state

/-! ## Rows of fields -/

end Eval

/-- The fields that a statement goes on with. -/
def WriteMode.kept (fields : List Field) : WriteMode → List Field
  | .replace => []
  | .append => fields

/-- Put fields behind those that a statement goes on with. No embed is made for nothing. -/
def Document.putFields (mode : WriteMode) (fields : List Field) (document : Document) : Document :=
  if mode = .append ∧ fields = [] then document
  else document.editEmbed fun embed => { embed with fields := mode.kept embed.fields ++ fields }

theorem Document.addField_putFields (mode : WriteMode) (fields : List Field) (field : Field)
    (document : Document) :
    (document.putFields mode fields).editEmbed (fun embed => embed.addField field) =
      document.putFields mode (fields ++ [field]) := by
  have hmore : ¬ (mode = .append ∧ fields ++ [field] = []) := by simp
  by_cases hnone : mode = .append ∧ fields = []
  · obtain ⟨rfl, rfl⟩ := hnone
    rfl
  · rw [putFields, if_neg hnone, editEmbed_editEmbed, putFields, if_neg hmore]
    simp only [Embed.addField, List.append_assoc]

namespace Eval

variable {call : Caller} {state : State}

theorem addField_of_describes {mode : WriteMode} {spec : FieldSpec Term Location} {f : Field}
    (hfree : ∀ e ∈ spec.exprs, e.IsCallFree) (h : spec.Describes call state f)
    (written : List Field) (document : Document) :
    addField call spec { state with document := document.putFields mode written } =
      .ok () { state with document := document.putFields mode (written ++ [f]) } := by
  have hsettled : Settled (· = id) state (field call spec) := settled_field hfree state
  obtain ⟨outcome, hrun, hother⟩ := hsettled.run_eq (document.putFields mode written)
  rw [(field_eq_ok_iff hfree).2 h] at hrun
  cases outcome with
  | error stop => contradiction
  | ok value =>
    obtain ⟨rfl, -⟩ := EStateM.Result.ok.inj hrun
    rw [addField, Run.bind_of_ok hother, ← Document.addField_putFields]
    rfl

theorem addField_of_not_describes {spec : FieldSpec Term Location}
    (hfree : ∀ e ∈ spec.exprs, e.IsCallFree) (h : ∀ f, ¬ spec.Describes call state f)
    (document : Document) :
    ∃ stop, addField call spec { state with document } = .error stop { state with document } := by
  have hsettled : Settled (· = id) state (field call spec) := settled_field hfree state
  obtain ⟨outcome, hrun, hother⟩ := hsettled.run_eq document
  cases outcome with
  | ok value => exact absurd ((field_eq_ok_iff hfree).1 hrun) (h value)
  | error stop => exact ⟨stop, Run.bind_of_error hother⟩

/-- Fields that are described are put behind each other. -/
theorem forM_addField {mode : WriteMode} {specs : List (FieldSpec Term Location)}
    {fields : List Field} (hfree : ∀ spec ∈ specs, ∀ e ∈ spec.exprs, e.IsCallFree)
    (h : List.Forall₂ (FieldSpec.Describes call state) specs fields) (written : List Field)
    (document : Document) :
    specs.forM (addField call) { state with document := document.putFields mode written } =
      .ok () { state with document := document.putFields mode (written ++ fields) } := by
  induction h generalizing written with
  | nil =>
    rw [List.append_nil]
    rfl
  | @cons spec f specs fields hspec hspecs ih =>
    rw [List.forall_mem_cons] at hfree
    have hrest := ih hfree.2 (written ++ [f])
    rw [List.append_assoc, List.singleton_append] at hrest
    exact (Run.bind_of_ok (addField_of_describes hfree.1 hspec written document)).trans hrest

/-- The first field that cannot be described is the end, and those before it stay. -/
theorem forM_addField_of_not_describes {mode : WriteMode}
    {front rest : List (FieldSpec Term Location)} {spec : FieldSpec Term Location}
    {fields : List Field}
    (hfree : ∀ other ∈ front ++ spec :: rest, ∀ e ∈ other.exprs, e.IsCallFree)
    (hfields : List.Forall₂ (FieldSpec.Describes call state) front fields)
    (hspec : ∀ f, ¬ spec.Describes call state f) (document : Document) :
    ∃ stop, (front ++ spec :: rest).forM (addField call)
        { state with document := document.putFields mode [] } =
      .error stop { state with document := document.putFields mode fields } := by
  rw [List.forall_mem_append, List.forall_mem_cons] at hfree
  obtain ⟨stop, hstop⟩ := addField_of_not_describes hfree.2.1 hspec (document.putFields mode fields)
  refine ⟨stop, ?_⟩
  rw [List.forM_eq_forM, List.forM_append]
  exact (Run.bind_of_ok (forM_addField hfree.1 hfields [] document)).trans (Run.bind_of_error hstop)

/-- The fields are removed first, if at all, and then the new ones are put there. -/
theorem writeFieldsBody_eq (call : Caller) (mode : WriteMode) {body : FieldsBody Term Location}
    (h : ∀ setting, body ≠ .property setting) (state : State) :
    writeFieldsBody call mode body state = body.specs.forM (addField call)
      { state with document := state.document.putFields mode [] } := by
  cases body with
  | part spec => cases mode <;> rfl
  | list specs => cases mode <;> rfl
  | property setting => exact absurd rfl (h setting)

end Eval

theorem FieldsBody.mem_exprs {body : FieldsBody Term Location} {spec : FieldSpec Term Location}
    (hspec : spec ∈ body.specs) {e : Term} (he : e ∈ spec.exprs) : e ∈ body.exprs := by
  cases body with
  | part field =>
    obtain rfl := List.mem_singleton.1 hspec
    exact he
  | list fields => exact List.mem_flatMap.2 ⟨spec, hspec, he⟩
  | property setting => contradiction

/-- Whole fields without calls are put behind those that the statement goes on with, in the order
in which they are described. The first one that cannot be described ends the statement, and those
before it stay. The property of a field, put to what is there, changes the last field, or makes one
if there is none. -/
theorem fields_in_order (call : Eval.Caller) (here : Location) (state : State) :
    (∀ (mode : WriteMode) (body : FieldsBody Term Location),
      (∀ setting, body ≠ .property setting) → (∀ e ∈ body.exprs, e.IsCallFree) →
      (∀ fields, List.Forall₂ (FieldSpec.Describes call state) body.specs fields →
        Eval.embedPart call ⟨here, .fields mode body⟩ state =
          .ok () (state.editDocument fun document => document.putFields mode fields)) ∧
      ∀ front spec rest fields, body.specs = front ++ spec :: rest →
        List.Forall₂ (FieldSpec.Describes call state) front fields →
        (∀ f, ¬ spec.Describes call state f) →
        ∃ stop, Eval.embedPart call ⟨here, .fields mode body⟩ state =
          .error stop (state.editDocument fun document => document.putFields mode fields)) ∧
    ∀ (setting : FieldSetting Term) (after : State),
      Eval.embedPart call ⟨here, .fields .append (.property setting)⟩ state = .ok () after →
      ∃ value mid, setting.Evaluates call state value mid ∧
        after = State.editDocument mid fun document => document.editEmbed fun embed =>
          { embed with fields := embed.fields.dropLast ++
              [value.edit?.getD id (embed.fields.getLast?.getD .blank)] } := by
  refine ⟨fun mode body hbody hfree => ?_, fun setting after hrun => ?_⟩
  · have hwrites := Eval.writeFieldsBody_eq call mode hbody state
    have hspecs : ∀ spec ∈ body.specs, ∀ e ∈ spec.exprs, e.IsCallFree :=
      fun spec hspec e he => hfree e (FieldsBody.mem_exprs hspec he)
    refine ⟨fun fields hfields => ?_, fun front spec rest fields hbody hfields hspec => ?_⟩
    · exact Eval.located_of_ok (hwrites.trans (Eval.forM_addField hspecs hfields [] state.document))
    · rw [hbody] at hwrites hspecs
      obtain ⟨stop, hstop⟩ :=
        Eval.forM_addField_of_not_describes hspecs hfields hspec state.document
      exact ⟨_, Eval.located_of_error (hwrites.trans hstop)⟩
  · obtain ⟨edit?, mid, hedit, hwrite⟩ := Eval.bind_inv (Eval.located_inv hrun)
    obtain ⟨-, rfl⟩ := EStateM.Result.ok.inj hwrite
    obtain ⟨value, hvalue, rfl⟩ := Eval.fieldEdit?_eq_ok_iff.1 hedit
    exact ⟨value, mid, hvalue, rfl⟩

/-- A field whose title is the constant `n`. -/
def titledByConstant : FieldSpec Term Location :=
  .flow ⟨"t", .start⟩ (.var ⟨"t", .start⟩ "n") (.literal ⟨"t", .start⟩ (.string "b")) false

/-- The first of these fields is written, and the second one is not. -/
def untitledSecond : FieldsBody Term Location := .list [plainField "a", titledByConstant]

theorem fields_in_order_untitledSecond :
    (∀ setting, untitledSecond ≠ .property setting) ∧
      (∀ e ∈ untitledSecond.exprs, e.IsCallFree) ∧
      untitledSecond.specs = [plainField "a"] ++ [titledByConstant] ∧
      List.Forall₂ (FieldSpec.Describes (Eval.callWithin 1) nullConstant) [plainField "a"]
        [⟨"a", "a", false⟩] ∧
      (∀ f, ¬ titledByConstant.Describes (Eval.callWithin 1) nullConstant f) ∧
      ∃ stop, Eval.embedPart (Eval.callWithin 1) ⟨⟨"t", .start⟩, .fields .append untitledSecond⟩
        nullConstant = .error stop
          (nullConstant.editDocument fun document =>
            document.putFields .append [⟨"a", "a", false⟩]) := by
  have hbody : ∀ setting, untitledSecond ≠ .property setting := by simp [untitledSecond]
  have hfree : ∀ e ∈ untitledSecond.exprs, e.IsCallFree := by
    simp [untitledSecond, plainField, titledByConstant, FieldsBody.exprs, FieldSpec.exprs,
      Expr.IsCallFree, Expr.nodes, Expr.isCall]
  have hfields : List.Forall₂ (FieldSpec.Describes (Eval.callWithin 1) nullConstant)
      [plainField "a"] [⟨"a", "a", false⟩] := .cons (.flow rfl rfl rfl rfl rfl) .nil
  have hspec : ∀ f, ¬ titledByConstant.Describes (Eval.callWithin 1) nullConstant f := by
    intro f h
    cases h with
    | flow htitle _ htitleText =>
      obtain ⟨rfl, -⟩ := EStateM.Result.ok.inj htitle
      contradiction
  have hfails := ((fields_in_order (Eval.callWithin 1) ⟨"t", .start⟩ nullConstant).1 .append
    untitledSecond hbody hfree).2
  exact ⟨hbody, hfree, rfl, hfields, hspec, hfails _ _ _ _ rfl hfields hspec⟩

end MessageTemplate
