import MessageTemplate.Proofs.Evaluation.Blame

/-!
# What an activity changes

Each kind of activity changes the state in a few ways of its own: a statement
assigns, declares or records, a message statement edits the document, and a part
of an embed edits the first embed. Everything else that happens to the state
happens in the activities that it reaches, so what holds of these few changes
holds of a whole run.
-/

namespace MessageTemplate

/-! ## The changes of one activity -/

/-- The effects that an activity has on its own, not those of the activities that it starts. -/
inductive Activity.Changes : Activity → Effect → Prop
  | assign {allowance rounds : Nat} {here : Location} {name : String} {e : Term} (value : Value) :
      Changes (.stmt allowance rounds (.assign here name e)) (.assign name value)
  | item {allowance rounds : Nat} {here : Location} {name : String} {e : Term} {body : Code}
      (value : Value) :
      Changes (.stmt allowance rounds (.foreach here name e body)) (.assign name value)
  | declare {allowance rounds : Nat} {s : Code} {f : Function} (h : s.declared? = some f) :
      Changes (.stmt allowance rounds s) (.declare f)
  | record {allowance rounds : Nat} {here : Location} {e : Term} (value : Value) :
      Changes (.stmt allowance rounds (.result here e)) (.record value)
  | clock {allowance : Nat} {f : Function} {arguments : List Value}
      {enough : f.parameters.length ≤ arguments.length} (h : f.body = .clock)
      (time : Calendar.Instant) :
      Changes (.call allowance f arguments enough) (.record (.instant time))
  | content {allowance rounds : Nat} {here : Location} {e : Term} (text : String) :
      Changes (.stmt allowance rounds (.text here e))
        (.edit fun document => { document with content := some text })
  | attach {allowance rounds : Nat} {here : Location} {e : Term} (url : String) :
      Changes (.stmt allowance rounds (.attachment here e))
        (.edit fun document => document.attach url)
  | part {allowance : Nat} {p : EmbedPart Term Location} {edit : Embed → Embed}
      (h : p.body.Edits edit) :
      Changes (.part allowance p) (.edit fun document => document.editEmbed edit)

namespace Script

variable {α β : Type} {p : Effect → Prop}

theorem Comes.trans {script middle rest : Script α} {state mid after : State}
    (h : script.Comes state middle mid) (hrest : middle.Comes mid rest after) :
    script.Comes state rest after := by
  induction h with
  | here script state => exact hrest
  | look _ ih => exact .look (ih hrest)
  | act _ ih => exact .act (ih hrest)
  | behind hrun _ ih => exact .behind hrun (ih hrest)

/-- All effects of a script satisfy a condition, whatever it finds in the state and whatever it is
answered. -/
def Acts (p : Effect → Prop) : Script α → Prop
  | done _ | fail _ | exhaust => True
  | look next => ∀ state, (next state).Acts p
  | act effect next => p effect ∧ next.Acts p
  | start _ next => ∀ value, (next value).Acts p

/-- A script changes nothing on its own. -/
def IsSilent (script : Script α) : Prop := script.Acts fun _ => False

namespace Acts

theorem mono {q : Effect → Prop} {script : Script α} (h : script.Acts p)
    (himp : ∀ effect, p effect → q effect) : script.Acts q := by
  induction script with
  | done value => trivial
  | fail fault => trivial
  | exhaust => trivial
  | look next ih => exact fun state => ih state (h state)
  | act effect next ih => exact ⟨himp effect h.1, ih h.2⟩
  | start activity next ih => exact fun value => ih value (h value)

theorem bind {script : Script α} {next : α → Script β} (h : script.Acts p)
    (hnext : ∀ value, (next value).Acts p) : (script >>= next).Acts p := by
  change (script.bind next).Acts p
  induction script with
  | done value => exact hnext value
  | fail fault => trivial
  | exhaust => trivial
  | look rest ih => exact fun state => ih state (h state)
  | act effect rest ih => exact ⟨h.1, ih h.2⟩
  | start activity rest ih => exact fun value => ih value (h value)

theorem map {script : Script α} (h : script.Acts p) (f : α → β) : (f <$> script).Acts p :=
  bind h fun _ => trivial

theorem perform {effect : Effect} (h : p effect) : (perform effect).Acts p := ⟨h, trivial⟩

/-- Wherever a run comes to, the effects that are left satisfy the condition. -/
theorem of_comes {script rest : Script α} (h : script.Acts p) {state after : State}
    (hcomes : script.Comes state rest after) : rest.Acts p := by
  induction hcomes with
  | here script state => exact h
  | look _ ih => exact ih (h _)
  | act _ ih => exact ih h.2
  | behind _ _ ih => exact ih (h _)

theorem ofExcept (result : Except RuntimeFault α) : (ofExcept result).Acts p := by
  cases result <;> trivial

theorem forM {values : List α} {next : α → Script PUnit}
    (h : ∀ value ∈ values, (next value).Acts p) : (values.forM next).Acts p := by
  induction values with
  | nil => trivial
  | cons value values ih =>
    rw [List.forall_mem_cons] at h
    exact bind h.1 fun _ => ih h.2

theorem repeatWhile {test : Script Bool} {body : Script Unit} (htest : test.Acts p)
    (hbody : body.Acts p) (rounds : Nat) : (repeatWhile test body rounds).Acts p := by
  induction rounds with
  | zero => trivial
  | succ rounds ih =>
    apply bind htest
    intro goes
    cases goes with
    | false => trivial
    | true => exact bind hbody fun _ => ih

end Acts

theorem IsSilent.acts {script : Script α} (h : script.IsSilent) : script.Acts p :=
  h.mono fun _ => False.elim

/-! ## Expressions -/

section

variable (allowance : Nat)

theorem evaluate_silent (e : Term) : (evaluate allowance e).IsSilent := fun _ => trivial

theorem terms_silent (values : List Term) : (terms allowance values).IsSilent := by
  induction values with
  | nil => trivial
  | cons e values ih => exact .bind (evaluate_silent allowance e) fun _ => .bind ih fun _ => trivial

theorem call_silent (f : Function) (arguments : List Value) :
    (call allowance f arguments).IsSilent := by
  cases allowance with
  | zero => trivial
  | succ allowance =>
    rw [call]
    split
    · exact fun _ => trivial
    · trivial

theorem ofOption_silent (fault : RuntimeFault) (value? : Option α) :
    (ofOption fault value?).IsSilent := by
  cases value? <;> trivial

theorem ofTerm_silent (e : Term) : (ofTerm allowance e).IsSilent := by
  cases e with
  | literal here value => trivial
  | var here name => exact fun _ => ofOption_silent _ _
  | list here items => exact .bind (terms_silent allowance items) fun _ => trivial
  | call here name arguments =>
    apply Acts.bind (terms_silent allowance arguments)
    intro values state
    exact .bind (ofOption_silent _ _) fun f => call_silent allowance f values
  | unary here op operand => exact fun _ => .ofExcept _
  | binary here op left right => exact fun _ _ => .ofExcept _

theorem condition_silent (value : Term) : (condition allowance value).IsSilent :=
  fun _ => .ofExcept _

/-! ## Parts of an embed -/

theorem text?_silent (value : Term) : (text? allowance value).IsSilent := fun _ => trivial

theorem requiredText_silent (member : RequiredMember) (value : Term) :
    (requiredText allowance member value).IsSilent := by
  apply Acts.bind (text?_silent allowance value)
  intro text
  cases text <;> trivial

theorem optionalText_silent (value : Option Term) : (optionalText allowance value).IsSilent := by
  cases value with
  | none => trivial
  | some value => exact text?_silent allowance value

theorem edits_silent {K R : Type} (edit : K → String → R → R) (entries : List (K × Term)) :
    (edits allowance edit entries).IsSilent := by
  induction entries with
  | nil => trivial
  | cons entry entries ih =>
    exact .bind (text?_silent allowance entry.2) fun _ => .bind ih fun _ => trivial

theorem fieldEdit?_silent (setting : FieldSetting Term) :
    (fieldEdit? allowance setting).IsSilent := by
  cases setting with
  | title value => exact .map (text?_silent allowance value) _
  | text value => exact .map (text?_silent allowance value) _
  | inline value => trivial

theorem fieldEdits_silent (settings : List (FieldSetting Term)) :
    (fieldEdits allowance settings).IsSilent := by
  induction settings with
  | nil => trivial
  | cons setting settings ih =>
    exact .bind (fieldEdit?_silent allowance setting) fun _ => .bind ih fun _ => trivial

theorem ofField_silent (spec : FieldSpec Term Location) : (ofField allowance spec).IsSilent := by
  cases spec with
  | flow here title text inline =>
    apply Acts.bind (requiredText_silent allowance _ title)
    intro _
    exact .bind (requiredText_silent allowance _ text) fun _ => trivial
  | object here settings => exact .map (fieldEdits_silent allowance settings) _

variable {allowance}

theorem acts_editEmbed {edit : Embed → Embed}
    (h : p (.edit fun document => document.editEmbed edit)) : (editEmbed edit).Acts p :=
  .perform h

theorem acts_writeFields {mode : WriteMode} {specs : List (FieldSpec Term Location)}
    (hclear : mode = .replace →
      p (.edit fun document => document.editEmbed (Eval.clearFields .replace)))
    (hadd : ∀ field, p (.edit fun document => document.editEmbed fun embed =>
      embed.addField field)) :
    (writeFields allowance mode specs).Acts p := by
  have hspecs : (specs.forM (addField allowance)).Acts p :=
    .forM fun _ _ field => acts_editEmbed (hadd field)
  cases mode with
  | replace => exact .bind (acts_editEmbed (hclear rfl)) fun _ => hspecs
  | append => exact hspecs

/-- A part of an embed edits the first embed in one of its own ways. -/
theorem acts_ofPart {body : PartBody Term Location}
    (h : ∀ edit, body.Edits edit → p (.edit fun document => document.editEmbed edit)) :
    (ofPart allowance body).Acts p := by
  cases body with
  | member member value =>
    intro value
    change ((ofExcept (Eval.memberEdit member value)) >>= _).Acts p
    cases hedit : Eval.memberEdit member value with
    | error fault => trivial
    | ok edit? =>
      cases edit? with
      | none => trivial
      | some edit => exact acts_editEmbed (h edit (.member hedit))
  | author mode body =>
    have hentries : ∀ entries, (writeAuthorEntries allowance mode entries).Acts p := by
      intro entries
      apply Acts.bind (edits_silent allowance Eval.authorEdit entries).acts
      intro edits
      cases mode with
      | replace => exact acts_editEmbed (h _ (.newAuthor edits))
      | append => exact acts_editEmbed (h _ (.author edits))
    cases body with
    | flow flow =>
      apply Acts.bind (requiredText_silent allowance _ flow.name).acts
      intro name
      apply Acts.bind (optionalText_silent allowance flow.url).acts
      intro url
      apply Acts.bind (optionalText_silent allowance flow.icon).acts
      intro icon
      exact acts_editEmbed (h _ (.authorFlow ⟨name, url, icon⟩))
    | object entries => exact hentries entries
    | property key value => exact hentries [(key, value)]
  | footer mode body =>
    have hentries : ∀ entries, (writeFooterEntries allowance mode entries).Acts p := by
      intro entries
      apply Acts.bind (edits_silent allowance Eval.footerEdit entries).acts
      intro edits
      cases mode with
      | replace => exact acts_editEmbed (h _ (.newFooter edits))
      | append => exact acts_editEmbed (h _ (.footer edits))
    cases body with
    | flow flow =>
      apply Acts.bind (requiredText_silent allowance _ flow.text).acts
      intro text
      apply Acts.bind (optionalText_silent allowance flow.icon).acts
      intro icon
      exact acts_editEmbed (h _ (.footerFlow ⟨text, icon⟩))
    | object entries => exact hentries entries
    | property key value => exact hentries [(key, value)]
  | fields mode body =>
    have hfields : ∀ specs, (writeFields allowance mode specs).Acts p := fun specs =>
      acts_writeFields (fun hmode => h _ (by subst hmode; exact .clear body))
        fun field => h _ (.addField field)
    cases body with
    | part spec => exact hfields [spec]
    | list specs => exact hfields specs
    | property setting =>
      apply Acts.bind (fieldEdit?_silent allowance setting).acts
      intro edit
      exact acts_editEmbed (h _ (.lastField (edit.getD id)))

/-! ## Statements -/

theorem acts_execute {rounds : Nat} (s : Code) : (execute allowance rounds s).Acts p :=
  fun _ => trivial

theorem acts_stmt? {rounds : Nat} (s? : Option Code) : (stmt? allowance rounds s?).Acts p := by
  cases s? with
  | none => trivial
  | some s => exact acts_execute s

end

end Script

namespace Activity

open Script

theorem stmt_acts (allowance rounds : Nat) (s : Code) :
    (ofStmt allowance rounds s).Acts (Changes (.stmt allowance rounds s)) := by
  cases s with
  | empty here => trivial
  | block here body => exact .forM fun s _ => acts_execute s
  | assign here name value => exact fun value => .perform (.assign value)
  | expr here value => exact fun _ => trivial
  | function here name namePlace parameters body => exact .perform (.declare rfl)
  | result here value => exact fun value => .perform (.record value)
  | branch here test yes no =>
    apply Acts.bind (condition_silent allowance test).acts
    intro goes
    cases goes with
    | false => exact acts_stmt? no
    | true => exact acts_execute yes
  | forLoop here init check step body =>
    apply Acts.bind (acts_stmt? init)
    intro _
    cases check with
    | none => trivial
    | some check =>
      apply Acts.repeatWhile (condition_silent allowance check).acts
      exact .bind (acts_execute body) fun _ => acts_stmt? step
  | foreach here name iterable body =>
    intro value
    apply Acts.bind (.ofExcept (Eval.enumerate value))
    intro items
    exact .forM fun item _ => .bind (.perform (.item item)) fun _ => acts_execute body
  | whileLoop here test body =>
    exact .repeatWhile (condition_silent allowance test).acts (acts_execute body) rounds
  | doWhile here body test =>
    intro _
    exact .repeatWhile (condition_silent allowance test).acts (acts_execute body) rounds
  | text here value =>
    apply Acts.bind (text?_silent allowance value).acts
    intro text
    cases text with
    | none => trivial
    | some text => exact .perform (.content text)
  | attachment here value =>
    apply Acts.bind (text?_silent allowance value).acts
    intro url
    cases url with
    | none => trivial
    | some url => exact .perform (.attach url)
  | embed here parts => exact .forM fun _ _ _ => trivial

/-- An activity has no effects but its own. -/
theorem script_acts (activity : Activity) : activity.script.Acts activity.Changes := by
  cases activity with
  | term allowance e => exact (ofTerm_silent allowance e).acts
  | stmt allowance rounds s => exact stmt_acts allowance rounds s
  | part allowance p => exact acts_ofPart fun edit hedit => .part hedit
  | field allowance spec => exact (ofField_silent allowance spec).acts
  | call allowance f arguments enough =>
    cases hbody : f.body with
    | code body =>
      rw [script, hbody]
      exact fun _ _ => trivial
    | clock =>
      rw [script, hbody]
      exact fun state => ⟨.clock hbody state.clock, fun _ => trivial⟩
  | program allowance code => exact .forM fun s _ => acts_execute s

/-! ## The changes of a run -/

variable {outer activity inner : Activity} {state before after : State} {effect : Effect}

/-- What a run does is a change of an activity that it reaches. -/
theorem Does.changes (h : outer.Does state effect before) :
    ∃ (activity : Activity) (start : State), outer.Reaches state activity start ∧
      activity.Changes effect := by
  obtain ⟨activity, start, next, hreaches, hcomes⟩ := h
  exact ⟨activity, start, hreaches, (activity.script_acts.of_comes hcomes).1⟩

theorem Does.of_reaches (hreaches : outer.Reaches state activity before) {mid : State}
    (h : activity.Does before effect mid) : outer.Does state effect mid := by
  obtain ⟨inner, start, next, hinner, hcomes⟩ := h
  exact ⟨inner, start, next, hreaches.trans hinner, hcomes⟩

/-! ## The document of a run -/

theorem document_bound (names : List String) (values : List Value) (state : State) :
    (Eval.bound names values state).document = state.document := by
  induction names generalizing values state with
  | nil => cases values <;> rfl
  | cons name names ih =>
    cases values with
    | nil => rfl
    | cons value values => exact ih values _

theorem document_opened (activity : Activity) (state : State) :
    (activity.opened state).document = state.document := by
  unfold opened
  split
  · rfl
  · exact document_bound _ _ _

theorem document_closed (activity : Activity) (state : State) :
    (activity.closed state).document = state.document := by
  unfold closed
  split <;> rfl

/-- All edits that a run does take the document to one in the relation. -/
def EditsWithin (R : Document → Document → Prop) (outer : Activity) (state : State) : Prop :=
  ∀ (change : Document → Document) (mid : State), outer.Does state (.edit change) mid →
    R mid.document (change mid.document)

theorem EditsWithin.of_reaches {R : Document → Document → Prop} (h : outer.EditsWithin R state)
    (hreaches : outer.Reaches state activity before) : activity.EditsWithin R before :=
  fun change mid hdoes => h change mid (hdoes.of_reaches hreaches)

section

variable {R : Document → Document → Prop} (hrefl : ∀ document, R document document)
  (htrans : ∀ {a b c}, R a b → R b c → R a c)

include hrefl

theorem EditsWithin.step (h : activity.EditsWithin R state) {next : Script activity.Answer}
    (hcomes : activity.script.Comes (activity.opened state) (.act effect next) before) :
    R before.document (effect.apply before).document := by
  cases effect with
  | edit change => exact h change before ⟨activity, state, next, .self, hcomes⟩
  | _ => exact hrefl _

include htrans

/-- The rest of a script, wherever a run has come to. -/
theorem EditsWithin.rest (h : activity.EditsWithin R state)
    (hinner : ∀ inner : Activity, inner.IsUnder activity → ∀ state, inner.EditsWithin R state →
      R state.document (Eval.after inner.run state).document) {rest : Script activity.Answer}
    (hcomes : activity.script.Comes (activity.opened state) rest before) :
    R before.document (Eval.after rest.run before).document := by
  induction rest generalizing before with
  | done value => exact hrefl _
  | fail fault => exact hrefl _
  | exhaust => exact hrefl _
  | look next ih => exact ih _ (hcomes.trans (.look (.here _ _)))
  | act effect next ih =>
    exact htrans (h.step hrefl hcomes) (ih (hcomes.trans (.act (.here _ _))))
  | start inner next ih =>
    have hunder : inner.IsUnder activity := (obeys_of_comes_true hcomes).1.1
    have hmid := hinner inner hunder before (h.of_reaches (.inside .self hcomes))
    cases hrun : inner.run before with
    | ok value mid =>
      rw [Eval.after, hrun] at hmid
      rw [Script.run, Eval.after_bind_of_ok hrun]
      exact htrans hmid (ih value (hcomes.trans (.behind hrun (.here _ _))))
    | error stop mid =>
      rw [Eval.after, hrun] at hmid
      rw [Script.run, Eval.after, Run.bind_of_error hrun]
      exact hmid

/-- What holds of the edits holds of the whole run, however it ends. -/
theorem EditsWithin.run (h : activity.EditsWithin R state) :
    R state.document (Eval.after activity.run state).document := by
  induction activity using Activity.induct generalizing state with
  | step activity ih =>
    have hscript := h.rest hrefl htrans (fun inner hunder state => ih inner hunder) (.here _ _)
    rw [document_opened] at hscript
    rw [after_run, document_closed]
    exact hscript

/-- From one step of a script that a run has come to up to another. -/
theorem EditsWithin.comes (h : activity.EditsWithin R state) {script rest : Script activity.Answer}
    {mid : State} (hfront : activity.script.Comes (activity.opened state) script mid)
    (hcomes : script.Comes mid rest before) : R mid.document before.document := by
  induction hcomes with
  | here script mid => exact hrefl _
  | look _ ih => exact ih (hfront.trans (.look (.here _ _)))
  | act _ ih => exact htrans (h.step hrefl hfront) (ih (hfront.trans (.act (.here _ _))))
  | behind hrun _ ih =>
    have hinner := (h.of_reaches (.inside .self hfront)).run hrefl htrans
    rw [Eval.after, hrun] at hinner
    exact htrans hinner (ih (hfront.trans (.behind hrun (.here _ _))))

/-- Up to an activity that is reached. -/
theorem EditsWithin.reaches (h : outer.EditsWithin R state)
    (hreaches : outer.Reaches state activity before) : R state.document before.document := by
  induction hreaches with
  | self => exact hrefl _
  | inside hmiddle hcomes ih =>
    have hstep := (h.of_reaches hmiddle).comes hrefl htrans (.here _ _) hcomes
    rw [document_opened] at hstep
    exact htrans ih hstep

end

end Activity
end MessageTemplate
