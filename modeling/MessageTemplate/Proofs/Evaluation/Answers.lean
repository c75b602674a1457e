import MessageTemplate.Proofs.Evaluation.Activity
import MessageTemplate.Proofs.Message.Described

/-!
# The values that a part is written from

While a part of an embed is written, its expressions are evaluated one after
another. `Script.Evaluates` lists their values. What a script computes from them
is what the values describe when they stand in place of the expressions.
-/

namespace MessageTemplate

namespace Eval

variable {α β : Type}

/-- What a run computes in two steps it computes by way of a state in between. -/
theorem bind_inv {run : Eval α} {next : α → Eval β} {state after : State} {result : β}
    (h : (run >>= next) state = .ok result after) :
    ∃ value mid, run state = .ok value mid ∧ next value mid = .ok result after := by
  cases hrun : run state with
  | ok value mid => exact ⟨value, mid, rfl, (Run.bind_of_ok hrun).symm.trans h⟩
  | error stop mid =>
    rw [Run.bind_of_error hrun] at h
    contradiction

theorem located_inv {here : Location} {run : Eval α} {state after : State} {value : α}
    (h : located here run state = .ok value after) : run state = .ok value after := by
  cases hrun : run state with
  | ok result mid => exact (located_of_ok hrun).symm.trans h
  | error stop mid =>
    rw [located_of_error hrun] at h
    contradiction

end Eval

namespace Script

/-- A script runs to its end and evaluates expressions on the way, also inside of the fields that it
describes. These are their values, in order, and what the script answers. -/
inductive Evaluates : {α : Type} → Script α → State → List Value → α → State → Prop
  | done {α : Type} (answer : α) (state : State) : Evaluates (.done answer) state [] answer state
  | look {α : Type} {next : State → Script α} {state after : State} {values : List Value}
      {answer : α} (h : Evaluates (next state) state values answer after) :
      Evaluates (.look next) state values answer after
  | act {α : Type} {effect : Effect} {next : Script α} {state after : State} {values : List Value}
      {answer : α} (h : Evaluates next (effect.apply state) values answer after) :
      Evaluates (.act effect next) state values answer after
  | term {α : Type} {allowance : Nat} {e : Term} {next : Value → Script α} {value : Value}
      {state mid after : State} {values : List Value} {answer : α}
      (hrun : (Activity.term allowance e).run state = .ok value mid)
      (h : Evaluates (next value) mid values answer after) :
      Evaluates (.start (.term allowance e) next) state (value :: values) answer after
  | field {α : Type} {allowance : Nat} {spec : FieldSpec Term Location} {next : Field → Script α}
      {field : Field} {state mid after : State} {inner values : List Value} {answer : α}
      (hinside : Evaluates (.ofField allowance spec) state inner field mid)
      (h : Evaluates (next field) mid values answer after) :
      Evaluates (.start (.field allowance spec) next) state (inner ++ values) answer after

variable {α β : Type} {allowance : Nat} {state after : State}

/-- The values are the ones that the run computes. -/
theorem Evaluates.run_eq {script : Script α} {values : List Value} {answer : α}
    (h : script.Evaluates state values answer after) : script.run state = .ok answer after := by
  induction h with
  | done => rfl
  | look _ ih => exact ih
  | act _ ih => exact ih
  | term hrun _ ih => exact (Run.bind_of_ok hrun).trans ih
  | @field _ allowance spec _ field before mid _ _ _ _ _ _ hfield ih =>
    have hrun : (Activity.field allowance spec).run before = .ok field mid :=
      (congrFun (run_ofField allowance spec) before).trans (Eval.located_of_ok hfield)
    exact (Run.bind_of_ok hrun).trans ih

theorem Evaluates.bind {script : Script α} {next : α → Script β} {mid : State}
    {values more : List Value} {answer : α} {result : β}
    (h : script.Evaluates state values answer mid)
    (hnext : (next answer).Evaluates mid more result after) :
    (script >>= next).Evaluates state (values ++ more) result after := by
  change (script.bind next).Evaluates state (values ++ more) result after
  induction h with
  | done => exact hnext
  | look _ ih => exact .look (ih hnext)
  | act _ ih => exact .act (ih hnext)
  | term hrun _ ih => exact .term hrun (ih hnext)
  | field hinside _ _ ih =>
    rw [List.append_assoc]
    exact .field hinside (ih hnext)

/-- What follows may evaluate nothing. -/
theorem Evaluates.bind_nil {script : Script α} {next : α → Script β} {mid : State}
    {values : List Value} {answer : α} {result : β} (h : script.Evaluates state values answer mid)
    (hnext : (next answer).Evaluates mid [] result after) :
    (script >>= next).Evaluates state values result after := by
  have hbind := h.bind hnext
  rwa [List.append_nil] at hbind

theorem Evaluates.bind_pure {script : Script α} {values : List Value} {answer : α}
    (h : script.Evaluates state values answer after) (f : α → β) :
    (script >>= fun answer => pure (f answer)).Evaluates state values (f answer) after :=
  h.bind_nil (.done _ _)

theorem bind_run_inv {script : Script α} {next : α → Script β} {result : β}
    (h : (script >>= next).run state = .ok result after) :
    ∃ answer mid, script.run state = .ok answer mid ∧ (next answer).run mid = .ok result after := by
  rw [run_bind] at h
  exact Eval.bind_inv h

/-! ## Texts -/

theorem evaluates_text? {e : Term} {answer : Option String}
    (h : (text? allowance e).run state = .ok answer after) :
    ∃ value, (text? allowance e).Evaluates state [value] answer after ∧ value.text? = answer := by
  obtain ⟨value, mid, hrun, hrest⟩ := Eval.bind_inv h
  obtain ⟨rfl, rfl⟩ := EStateM.Result.ok.inj hrest
  exact ⟨value, .term hrun (.done _ _), rfl⟩

theorem evaluates_requiredText {member : RequiredMember} {e : Term} {answer : String}
    (h : (requiredText allowance member e).run state = .ok answer after) :
    ∃ value, (requiredText allowance member e).Evaluates state [value] answer after ∧
      value.text? = some answer := by
  obtain ⟨text, mid, htext, hrest⟩ := bind_run_inv h
  obtain ⟨value, hvalue, rfl⟩ := evaluates_text? htext
  cases hnull : value.text? with
  | none =>
    rw [hnull] at hrest
    contradiction
  | some text =>
    rw [hnull] at hrest hvalue
    obtain ⟨rfl, rfl⟩ := EStateM.Result.ok.inj hrest
    exact ⟨value, hvalue.bind (.done _ _), hnull⟩

theorem evaluates_optionalText {e? : Option Term} {answer : Option String}
    (h : (optionalText allowance e?).run state = .ok answer after) :
    ∃ value? : Option Value,
      (optionalText allowance e?).Evaluates state value?.toList answer after ∧
      value?.map (fun _ => ()) = e?.map (fun _ => ()) ∧ value?.bind Value.text? = answer := by
  cases e? with
  | none =>
    obtain ⟨rfl, rfl⟩ := EStateM.Result.ok.inj h
    exact ⟨none, .done _ _, rfl, rfl⟩
  | some e =>
    obtain ⟨value, hvalue, htext⟩ := evaluates_text? h
    exact ⟨some value, hvalue, rfl, htext⟩

theorem evaluates_edits {K R : Type} {edit : K → String → R → R} {entries : List (K × Term)}
    {answer : List (R → R)} (h : (edits allowance edit entries).run state = .ok answer after) :
    ∃ values : List (K × Value),
      (edits allowance edit entries).Evaluates state (values.map Prod.snd) answer after ∧
      values.map (fun entry => (entry.1, ())) = entries.map (fun entry => (entry.1, ())) ∧
      valueEdits edit values = answer := by
  induction entries generalizing state answer with
  | nil =>
    obtain ⟨rfl, rfl⟩ := EStateM.Result.ok.inj h
    exact ⟨[], .done _ _, rfl, rfl⟩
  | cons entry entries ih =>
    obtain ⟨key, e⟩ := entry
    obtain ⟨text, mid, htext, hrest⟩ := bind_run_inv h
    obtain ⟨others, last, hothers, hdone⟩ := bind_run_inv hrest
    obtain ⟨rfl, rfl⟩ := EStateM.Result.ok.inj hdone
    obtain ⟨value, hvalue, rfl⟩ := evaluates_text? htext
    obtain ⟨values, hvalues, hform, rfl⟩ := ih hothers
    exact ⟨(key, value) :: values, hvalue.bind (hvalues.bind_pure _),
      congrArg ((key, ()) :: ·) hform, rfl⟩

/-! ## Fields -/

theorem evaluates_fieldEdit? {setting : FieldSetting Term} {answer : Option (Field → Field)}
    (h : (fieldEdit? allowance setting).run state = .ok answer after) :
    ∃ form : FieldSetting Value,
      (fieldEdit? allowance setting).Evaluates state form.exprs answer after ∧
      form.map (fun _ => ()) = setting.map (fun _ => ()) ∧ form.edit? = answer := by
  cases setting with
  | title e =>
    obtain ⟨text, mid, htext, hrest⟩ := bind_run_inv h
    obtain ⟨rfl, rfl⟩ := EStateM.Result.ok.inj hrest
    obtain ⟨value, hvalue, rfl⟩ := evaluates_text? htext
    exact ⟨.title value, hvalue.bind (.done _ _), rfl, rfl⟩
  | text e =>
    obtain ⟨text, mid, htext, hrest⟩ := bind_run_inv h
    obtain ⟨rfl, rfl⟩ := EStateM.Result.ok.inj hrest
    obtain ⟨value, hvalue, rfl⟩ := evaluates_text? htext
    exact ⟨.text value, hvalue.bind (.done _ _), rfl, rfl⟩
  | inline value =>
    obtain ⟨rfl, rfl⟩ := EStateM.Result.ok.inj h
    exact ⟨.inline value, .done _ _, rfl, rfl⟩

theorem evaluates_fieldEdits {settings : List (FieldSetting Term)} {answer : List (Field → Field)}
    (h : (fieldEdits allowance settings).run state = .ok answer after) :
    ∃ forms : List (FieldSetting Value),
      (fieldEdits allowance settings).Evaluates state (forms.flatMap FieldSetting.exprs) answer
        after ∧
      forms.map (FieldSetting.map fun _ => ()) = settings.map (FieldSetting.map fun _ => ()) ∧
      forms.flatMap (fun form => form.edit?.toList) = answer := by
  induction settings generalizing state answer with
  | nil =>
    obtain ⟨rfl, rfl⟩ := EStateM.Result.ok.inj h
    exact ⟨[], .done _ _, rfl, rfl⟩
  | cons setting settings ih =>
    obtain ⟨edit?, mid, hedit, hrest⟩ := bind_run_inv h
    obtain ⟨others, last, hothers, hdone⟩ := bind_run_inv hrest
    obtain ⟨rfl, rfl⟩ := EStateM.Result.ok.inj hdone
    obtain ⟨form, hform, hsame, rfl⟩ := evaluates_fieldEdit? hedit
    obtain ⟨forms, hforms, hsames, rfl⟩ := ih hothers
    exact ⟨form :: forms, hform.bind (hforms.bind_pure _), congrArg₂ List.cons hsame hsames, rfl⟩

theorem evaluates_ofField {spec : FieldSpec Term Location} {answer : Field}
    (h : (ofField allowance spec).run state = .ok answer after) :
    ∃ form : FieldSpec Value Location,
      (ofField allowance spec).Evaluates state form.exprs answer after ∧
      form.map (fun _ => ()) id = spec.map (fun _ => ()) id ∧ form.field? = some answer := by
  cases spec with
  | flow here title text inline =>
    obtain ⟨titleText, mid, htitle, hrest⟩ := bind_run_inv h
    obtain ⟨textText, last, htext, hdone⟩ := bind_run_inv hrest
    obtain ⟨rfl, rfl⟩ := EStateM.Result.ok.inj hdone
    obtain ⟨titleValue, htitleValue, htitleText⟩ := evaluates_requiredText htitle
    obtain ⟨textValue, htextValue, htextText⟩ := evaluates_requiredText htext
    refine ⟨.flow here titleValue textValue inline, htitleValue.bind (htextValue.bind_pure _), rfl,
      ?_⟩
    rw [FieldSpec.field?, htitleText, htextText]
    rfl
  | object here settings =>
    obtain ⟨edits, mid, hedits, hdone⟩ := bind_run_inv h
    obtain ⟨rfl, rfl⟩ := EStateM.Result.ok.inj hdone
    obtain ⟨forms, hforms, hsame, rfl⟩ := evaluates_fieldEdits hedits
    exact ⟨.object here forms, hforms.bind_pure _, congrArg (FieldSpec.object here) hsame, rfl⟩

end Script
end MessageTemplate
