import MessageTemplate.Proofs.Evaluation.Nesting
import MessageTemplate.Proofs.Value.Refusal

/-!
# What scripts may do

The rules for a script say with which faults it may fail, which functions it may
declare when those that it finds are of the same kind, and which activities it
may start. The script of an activity fails only with the faults of its own node,
and starts only what is under the activity; if all places inside it satisfy a
condition, so do those of all that it starts and declares.
-/

namespace MessageTemplate

/-- Rules for what a script may do. -/
structure Rules where
  mayFail : RuntimeFault → Prop
  function : Function → Prop
  starts : Activity → Prop

/-- All functions that the scopes declare satisfy a condition. -/
def State.Declares (p : Function → Prop) (state : State) : Prop :=
  ∀ scope ∈ state.chain.scopes, ∀ name f, scope.functions.get? name = some f → p f

/-- An effect declares nothing but what satisfies a condition. -/
def Effect.Declares (p : Function → Prop) : Effect → Prop
  | declare f => p f
  | _ => True

namespace Script

variable {α β : Type} {rules : Rules}

/-- A script obeys rules, provided that the functions that it finds are allowed. -/
def Obeys (rules : Rules) : Script α → Prop
  | done _ | exhaust => True
  | fail fault => rules.mayFail fault
  | look next => ∀ state : State, state.Declares rules.function → (next state).Obeys rules
  | act effect next => effect.Declares rules.function ∧ next.Obeys rules
  | start activity next => rules.starts activity ∧ ∀ value, (next value).Obeys rules

namespace Obeys

theorem pure (value : α) : (pure value : Script α).Obeys rules := trivial

theorem bind {script : Script α} {next : α → Script β} (h : script.Obeys rules)
    (hnext : ∀ value, (next value).Obeys rules) : (script >>= next).Obeys rules := by
  change (script.bind next).Obeys rules
  induction script with
  | done value => exact hnext value
  | fail fault => exact h
  | exhaust => trivial
  | look rest ih => exact fun state hstate => ih state (h state hstate)
  | act effect rest ih => exact ⟨h.1, ih h.2⟩
  | start activity rest ih => exact ⟨h.1, fun value => ih value (h.2 value)⟩

theorem map {script : Script α} (h : script.Obeys rules) (f : α → β) : (f <$> script).Obeys rules :=
  bind h fun value => pure (f value)

theorem perform {effect : Effect} (h : effect.Declares rules.function) :
    (perform effect).Obeys rules := ⟨h, trivial⟩

theorem ofExcept {result : Except RuntimeFault α} (h : Refuses rules.mayFail result) :
    (ofExcept result).Obeys rules := by
  cases result with
  | ok value => trivial
  | error fault => exact h fault rfl

theorem forM {values : List α} {next : α → Script PUnit}
    (h : ∀ value ∈ values, (next value).Obeys rules) :
    (values.forM next).Obeys rules := by
  induction values with
  | nil => trivial
  | cons value values ih =>
    rw [List.forall_mem_cons] at h
    exact bind h.1 fun _ => ih h.2

theorem repeatWhile {test : Script Bool} {body : Script Unit} (htest : test.Obeys rules)
    (hbody : body.Obeys rules) (rounds : Nat) : (repeatWhile test body rounds).Obeys rules := by
  induction rounds with
  | zero => trivial
  | succ rounds ih =>
    apply bind htest
    intro goes
    cases goes with
    | false => trivial
    | true => exact bind hbody fun _ => ih

end Obeys

/-! ## Expressions -/

section

variable {allowance : Nat}

theorem obeys_evaluate {e : Term} (he : rules.starts (.term allowance e)) :
    (evaluate allowance e).Obeys rules := ⟨he, fun _ => trivial⟩

theorem obeys_terms {values : List Term} (h : ∀ e ∈ values, rules.starts (.term allowance e)) :
    (terms allowance values).Obeys rules := by
  induction values with
  | nil => trivial
  | cons e values ih =>
    rw [List.forall_mem_cons] at h
    apply Obeys.bind (obeys_evaluate h.1)
    intro value
    exact .bind (ih h.2) fun _ => .pure _

theorem obeys_text? {value : Term} (h : rules.starts (.term allowance value)) :
    (text? allowance value).Obeys rules :=
  .bind (obeys_evaluate h) fun _ => .pure _

theorem obeys_optionalText {value : Option Term}
    (h : ∀ e ∈ value.toList, rules.starts (.term allowance e)) :
    (optionalText allowance value).Obeys rules := by
  cases value with
  | none => trivial
  | some value => exact obeys_text? (h value (by simp))

theorem obeys_edits {K R : Type} (edit : K → String → R → R) {entries : List (K × Term)}
    (h : ∀ e ∈ entries.map Prod.snd, rules.starts (.term allowance e)) :
    (edits allowance edit entries).Obeys rules := by
  induction entries with
  | nil => trivial
  | cons entry entries ih =>
    rw [List.map_cons, List.forall_mem_cons] at h
    apply Obeys.bind (obeys_text? h.1)
    intro text
    exact .bind (ih h.2) fun _ => .pure _

theorem obeys_editEmbed (edit : Embed → Embed) : (editEmbed edit).Obeys rules := .perform trivial

theorem obeys_writeContent {value : Term} (h : rules.starts (.term allowance value)) :
    (writeContent allowance value).Obeys rules := by
  apply Obeys.bind (obeys_text? h)
  intro text
  cases text with
  | none => trivial
  | some text => exact .perform trivial

theorem obeys_attach {value : Term} (h : rules.starts (.term allowance value)) :
    (attach allowance value).Obeys rules := by
  apply Obeys.bind (obeys_text? h)
  intro url
  cases url with
  | none => trivial
  | some url => exact .perform trivial

theorem obeys_fieldEdit? {setting : FieldSetting Term}
    (h : ∀ e ∈ setting.exprs, rules.starts (.term allowance e)) :
    (fieldEdit? allowance setting).Obeys rules := by
  cases setting with
  | title value => exact .map (obeys_text? (h value (by simp [FieldSetting.exprs]))) _
  | text value => exact .map (obeys_text? (h value (by simp [FieldSetting.exprs]))) _
  | inline value => trivial

theorem obeys_fieldEdits {settings : List (FieldSetting Term)}
    (h : ∀ e ∈ settings.flatMap FieldSetting.exprs, rules.starts (.term allowance e)) :
    (fieldEdits allowance settings).Obeys rules := by
  induction settings with
  | nil => trivial
  | cons setting settings ih =>
    rw [List.flatMap_cons, List.forall_mem_append] at h
    apply Obeys.bind (obeys_fieldEdit? h.1)
    intro edit
    exact .bind (ih h.2) fun _ => .pure _

theorem obeys_writeFields {mode : WriteMode} {specs : List (FieldSpec Term Location)}
    (h : ∀ spec ∈ specs, rules.starts (.field allowance spec)) :
    (writeFields allowance mode specs).Obeys rules := by
  have hspecs : (specs.forM (addField allowance)).Obeys rules := by
    apply Obeys.forM
    intro spec hspec
    exact ⟨h spec hspec, fun _ => obeys_editEmbed _⟩
  cases mode with
  | replace => exact .bind (obeys_editEmbed _) fun _ => hspecs
  | append => exact hspecs

/-! ## What may fail -/

theorem obeys_read {name : String} (hfail : rules.mayFail (.undefinedVariable name)) :
    (read name).Obeys rules := by
  intro state _
  change (ofOption _ (state.read? name)).Obeys rules
  cases state.read? name with
  | none => exact hfail
  | some value => trivial

theorem obeys_condition (hfail : ∀ fault : RuntimeFault, fault.IsNoTruth → rules.mayFail fault)
    {value : Term} (h : rules.starts (.term allowance value)) :
    (condition allowance value).Obeys rules :=
  .bind (obeys_evaluate h) fun value => .ofExcept (value.isTrue_refuses.mono hfail)

theorem obeys_requiredText {member : RequiredMember} (hfail : rules.mayFail (.missing member))
    {value : Term} (h : rules.starts (.term allowance value)) :
    (requiredText allowance member value).Obeys rules := by
  apply Obeys.bind (obeys_text? h)
  intro text
  cases text with
  | none => exact hfail
  | some text => trivial

theorem obeys_writeMember
    (hfail : ∀ fault : RuntimeFault, fault.IsMemberFault → rules.mayFail fault)
    {member : EmbedMember} {value : Term} (h : rules.starts (.term allowance value)) :
    (writeMember allowance member value).Obeys rules := by
  apply Obeys.bind (obeys_evaluate h)
  intro value
  apply Obeys.bind (.ofExcept ((Eval.memberEdit_refuses member value).mono hfail))
  intro edit
  cases edit with
  | none => trivial
  | some edit => exact obeys_editEmbed edit

theorem obeys_writeAuthor (hfail : rules.mayFail (.missing .authorName)) {mode : WriteMode}
    {body : Section (AuthorFlow Term) AuthorKey Term}
    (h : ∀ e ∈ body.exprs AuthorFlow.exprs, rules.starts (.term allowance e)) :
    (writeAuthor allowance mode body).Obeys rules := by
  cases body with
  | flow flow =>
    apply Obeys.bind (obeys_requiredText hfail (h _ (by simp [Section.exprs, AuthorFlow.exprs])))
    intro name
    apply Obeys.bind (obeys_optionalText fun e he =>
      h e (by simp [Section.exprs, AuthorFlow.exprs, List.mem_append, he]))
    intro url
    apply Obeys.bind (obeys_optionalText fun e he =>
      h e (by simp [Section.exprs, AuthorFlow.exprs, List.mem_append, he]))
    intro icon
    exact obeys_editEmbed _
  | object entries => exact .bind (obeys_edits _ h) fun _ => obeys_editEmbed _
  | property key value => exact .bind (obeys_edits _ h) fun _ => obeys_editEmbed _

theorem obeys_writeFooter (hfail : rules.mayFail (.missing .footerText)) {mode : WriteMode}
    {body : Section (FooterFlow Term) FooterKey Term}
    (h : ∀ e ∈ body.exprs FooterFlow.exprs, rules.starts (.term allowance e)) :
    (writeFooter allowance mode body).Obeys rules := by
  cases body with
  | flow flow =>
    apply Obeys.bind (obeys_requiredText hfail (h _ (by simp [Section.exprs, FooterFlow.exprs])))
    intro text
    apply Obeys.bind (obeys_optionalText fun e he =>
      h e (by simp [Section.exprs, FooterFlow.exprs, he]))
    intro icon
    exact obeys_editEmbed _
  | object entries => exact .bind (obeys_edits _ h) fun _ => obeys_editEmbed _
  | property key value => exact .bind (obeys_edits _ h) fun _ => obeys_editEmbed _

theorem obeys_ofField (htitle : rules.mayFail (.missing .fieldTitle))
    (htext : rules.mayFail (.missing .fieldText)) {spec : FieldSpec Term Location}
    (h : ∀ e ∈ spec.exprs, rules.starts (.term allowance e)) :
    (ofField allowance spec).Obeys rules := by
  cases spec with
  | flow here title text inline =>
    apply Obeys.bind (obeys_requiredText htitle (h title (by simp [FieldSpec.exprs])))
    intro titleText
    apply Obeys.bind (obeys_requiredText htext (h text (by simp [FieldSpec.exprs])))
    intro textText
    exact .pure _
  | object here settings => exact .map (obeys_fieldEdits h) _

/-- The faults that a part of an embed can have of its own. -/
def PartFault : PartBody Term Location → RuntimeFault → Prop
  | .member _ _, fault => fault.IsMemberFault
  | .author _ _, fault => fault = .missing .authorName
  | .footer _ _, fault => fault = .missing .footerText
  | .fields _ _, _ => False

theorem obeys_ofPart {body : PartBody Term Location}
    (hfail : ∀ fault, PartFault body fault → rules.mayFail fault)
    (hexprs : ∀ e ∈ body.exprs, rules.starts (.term allowance e))
    (hspecs : ∀ spec ∈ body.specs, rules.starts (.field allowance spec)) :
    (ofPart allowance body).Obeys rules := by
  cases body with
  | member member value => exact obeys_writeMember hfail (hexprs value (by simp [PartBody.exprs]))
  | author mode body => exact obeys_writeAuthor (hfail _ rfl) hexprs
  | footer mode body => exact obeys_writeFooter (hfail _ rfl) hexprs
  | fields mode body =>
    cases body with
    | part spec => exact obeys_writeFields hspecs
    | list specs => exact obeys_writeFields hspecs
    | property setting => exact .bind (obeys_fieldEdit? hexprs) fun _ => obeys_editEmbed _

end

end Script

/-! ## The scripts of activities -/

theorem State.Declares.function? {p : Function → Prop} {state : State} (hstate : state.Declares p)
    {name : String} {f : Function} (hsystem : ∀ f, systemFunction? name = some f → p f)
    (hf : state.function? name = some f) : p f := by
  rw [State.function?, Option.or_eq_some_iff] at hf
  rcases hf with hfound | ⟨-, hfound⟩
  · obtain ⟨scope, hscope, hget⟩ := List.exists_of_findSome?_eq_some hfound
    exact hstate scope hscope name f hget
  · exact hsystem f hfound

theorem Function.marked_of_system {p : Location → Prop} {name : String} {f : Function}
    (h : systemFunction? name = some f) : f.Marked p := by
  rw [systemFunction?] at h
  split at h
  · rw [← Option.some.inj h]
    intro body hbody
    contradiction
  · contradiction

namespace Activity

variable {p : Location → Prop}

/-- The condition holds of all places inside an activity. -/
def Marked (p : Location → Prop) : Activity → Prop
  | .term _ e => e.Marked p
  | .stmt _ _ s => s.Marked p
  | .part _ inner => inner.Marked p
  | .field _ spec => spec.Marked p
  | .call _ f _ _ => f.Marked p
  | .program _ code => ∀ s ∈ code, Stmt.Marked p s

/-- The faults that a node can have of its own, not those of what is inside it. -/
def Raises : Activity → RuntimeFault → Prop
  | .term _ (.var _ name), fault => fault = .undefinedVariable name
  | .term _ (.call _ name _), fault =>
    fault = .undefinedFunction name ∨ ∃ expected got, fault = .notEnoughArguments expected got
  | .term _ (.unary _ _ _), fault | .term _ (.binary _ _ _ _), fault => fault.IsCoercion
  | .stmt _ _ (.branch _ _ _ _), fault | .stmt _ _ (.forLoop _ _ _ _ _), fault
  | .stmt _ _ (.whileLoop _ _ _), fault | .stmt _ _ (.doWhile _ _ _), fault => fault.IsNoTruth
  | .stmt _ _ (.foreach _ _ _ _), fault => fault.IsNoList
  | .part _ inner, fault => Script.PartFault inner.body fault
  | .field _ _, fault => fault = .missing .fieldTitle ∨ fault = .missing .fieldText
  | _, _ => False

/-- What can fail by itself has a place. -/
theorem Raises.isSome_place? {activity : Activity} {fault : RuntimeFault}
    (h : activity.Raises fault) :
    ∃ here, activity.place? = some here := by
  cases activity with
  | term allowance e => exact ⟨_, rfl⟩
  | stmt allowance rounds s => cases s <;> first | contradiction | exact ⟨_, rfl⟩
  | part allowance part => exact ⟨_, rfl⟩
  | field allowance spec => exact ⟨_, rfl⟩
  | call allowance f arguments enough => contradiction
  | program allowance code => contradiction

/-- The function that an activity calls. -/
def callee? : Activity → Option Function
  | .call _ f _ _ => some f
  | _ => none

/-- An activity that satisfies a condition hands it on to all that it starts, provided that the
functions of the scopes satisfy another one, as those do that it declares itself. -/
structure HandsOn (q : Activity → Prop) (r : Function → Prop) : Prop where
  inside : ∀ {outer inner : Activity}, inner.IsUnder outer → q outer → inner.callee? = none →
    q inner
  called : ∀ {f : Function}, r f → ∀ (allowance : Nat) (arguments : List Value)
    (enough : f.parameters.length ≤ arguments.length), q (.call allowance f arguments enough)
  system : ∀ {name : String} {f : Function}, systemFunction? name = some f →
    ∀ (allowance : Nat) (arguments : List Value)
      (enough : f.parameters.length ≤ arguments.length), q (.call allowance f arguments enough)
  declared : ∀ {allowance rounds : Nat} {s : Code} {f : Function}, q (.stmt allowance rounds s) →
    s.declared? = some f → r f

/-- The rules for the script of an activity that hands on a condition. -/
def rulesOf (q : Activity → Prop) (r : Function → Prop) (activity : Activity) : Rules where
  mayFail := activity.Raises
  function := r
  starts := fun inner => inner.IsUnder activity ∧ q inner

/-- The rules for the script of an activity whose places satisfy a condition. -/
def rules (p : Location → Prop) (activity : Activity) : Rules :=
  activity.rulesOf (Marked p) (Function.Marked p)

theorem Marked.place {activity : Activity} (h : activity.Marked p) {here : Location}
    (hplace : activity.place? = some here) : p here := by
  cases activity with
  | term allowance e =>
    obtain rfl := Option.some.inj hplace
    exact (Expr.marked_iff.1 h).1
  | stmt allowance rounds s =>
    have hs := (Stmt.marked_iff.1 h).1.marks s.place s.place_mem_marks
    cases s <;> first | contradiction | (obtain rfl := Option.some.inj hplace; exact hs)
  | part allowance part =>
    obtain rfl := Option.some.inj hplace
    exact EmbedPart.Marked.marks h _ (by simp [EmbedPart.marks])
  | field allowance spec =>
    obtain rfl := Option.some.inj hplace
    exact FieldSpec.Marked.place h
  | call allowance f arguments enough => contradiction
  | program allowance code => contradiction

namespace HandsOn

variable {q : Activity → Prop} {r : Function → Prop} (h : HandsOn q r)

include h

theorem function? {state : State} (hstate : state.Declares r) {name : String} {f : Function}
    (hf : state.function? name = some f) (allowance : Nat) (arguments : List Value)
    (enough : f.parameters.length ≤ arguments.length) : q (.call allowance f arguments enough) := by
  have hcalled : state.Declares fun f => ∀ allowance arguments enough,
      q (.call allowance f arguments enough) :=
    fun scope hscope name f hget => h.called (hstate scope hscope name f hget)
  exact hcalled.function? (fun f => h.system) hf allowance arguments enough

theorem script_obeys_term {allowance : Nat} {e : Term} (hq : q (.term allowance e)) :
    (Script.ofTerm allowance e).Obeys ((term allowance e).rulesOf q r) := by
  have hchild : ∀ child ∈ e.children,
      ((term allowance e).rulesOf q r).starts (.term allowance child) :=
    fun child hchild => ⟨.operand hchild, h.inside (.operand hchild) hq rfl⟩
  cases e with
  | literal here value => trivial
  | var here name => exact Script.obeys_read rfl
  | list here items => exact .map (Script.obeys_terms hchild) _
  | call here name arguments =>
    apply Script.Obeys.bind (Script.obeys_terms hchild)
    intro values state hstate
    change (Script.ofOption _ (state.function? name) >>= fun f =>
      Script.call allowance f values).Obeys _
    cases hf : state.function? name with
    | none => exact .inl rfl
    | some f =>
      cases allowance with
      | zero => trivial
      | succ allowance =>
        change (Script.call (allowance + 1) f values).Obeys _
        rw [Script.call]
        split
        · exact ⟨⟨.call, h.function? hstate hf _ _ _⟩, fun _ => trivial⟩
        · exact .inr ⟨_, _, rfl⟩
  | unary here op operand =>
    apply Script.Obeys.bind (Script.obeys_evaluate (hchild operand (by simp [Expr.children])))
    exact fun value => .ofExcept (op.apply_refuses value)
  | binary here op left right =>
    apply Script.Obeys.bind (Script.obeys_evaluate (hchild left (by simp [Expr.children])))
    intro leftValue
    apply Script.Obeys.bind (Script.obeys_evaluate (hchild right (by simp [Expr.children])))
    exact fun rightValue => .ofExcept (op.apply_refuses leftValue rightValue)

theorem script_obeys_stmt {allowance rounds : Nat} {s : Code} (hq : q (.stmt allowance rounds s)) :
    (Script.ofStmt allowance rounds s).Obeys ((stmt allowance rounds s).rulesOf q r) := by
  have hexpr : ∀ e ∈ s.exprs, ((stmt allowance rounds s).rulesOf q r).starts (.term allowance e) :=
    fun e he => ⟨.expr he, h.inside (.expr he) hq rfl⟩
  have hchild : ∀ child ∈ s.children,
      (Script.execute allowance rounds child).Obeys ((stmt allowance rounds s).rulesOf q r) :=
    fun child hchild => ⟨⟨.child hchild, h.inside (.child hchild) hq rfl⟩, fun _ => trivial⟩
  have hchild? : ∀ child? : Option Code, (∀ child ∈ child?.toList, child ∈ s.children) →
      (Script.stmt? allowance rounds child?).Obeys ((stmt allowance rounds s).rulesOf q r) := by
    intro child? hmem
    cases child? with
    | none => trivial
    | some child => exact hchild child (hmem child (by simp))
  cases s with
  | empty here => trivial
  | block here body => exact .forM hchild
  | assign here name value =>
    exact .bind (Script.obeys_evaluate (hexpr value (by simp [Stmt.exprs]))) fun _ =>
      .perform trivial
  | expr here value =>
    exact .map (Script.obeys_evaluate (hexpr value (by simp [Stmt.exprs]))) _
  | function here name namePlace parameters body =>
    exact .perform (h.declared hq rfl)
  | result here value =>
    exact .bind (Script.obeys_evaluate (hexpr value (by simp [Stmt.exprs]))) fun _ =>
      .perform trivial
  | branch here test yes no =>
    apply Script.Obeys.bind
      (Script.obeys_condition (fun _ => id) (hexpr test (by simp [Stmt.exprs])))
    intro goes
    cases goes with
    | false => exact hchild? no fun child hmem => by simp_all [Stmt.children]
    | true => exact hchild yes (by simp [Stmt.children])
  | forLoop here init check step body =>
    have hstep := hchild? step fun child hmem => by simp_all [Stmt.children]
    apply Script.Obeys.bind (hchild? init fun child hmem => by simp_all [Stmt.children])
    intro _
    cases check with
    | none => trivial
    | some check =>
      apply Script.Obeys.repeatWhile
        (Script.obeys_condition (fun _ => id) (hexpr check (by simp [Stmt.exprs])))
      exact .bind (hchild body (by simp [Stmt.children])) fun _ => hstep
  | foreach here name iterable body =>
    apply Script.Obeys.bind (Script.obeys_evaluate (hexpr iterable (by simp [Stmt.exprs])))
    intro value
    apply Script.Obeys.bind (.ofExcept (Eval.enumerate_refuses value))
    intro items
    apply Script.Obeys.forM
    intro item _
    exact .bind (.perform trivial) fun _ => hchild body (by simp [Stmt.children])
  | whileLoop here test body =>
    apply Script.Obeys.repeatWhile
      (Script.obeys_condition (fun _ => id) (hexpr test (by simp [Stmt.exprs])))
    exact hchild body (by simp [Stmt.children])
  | doWhile here body test =>
    have hbody := hchild body (by simp [Stmt.children])
    apply Script.Obeys.bind hbody
    intro _
    exact .repeatWhile (Script.obeys_condition (fun _ => id) (hexpr test (by simp [Stmt.exprs])))
      hbody _
  | text here value => exact Script.obeys_writeContent (hexpr value (by simp [Stmt.exprs]))
  | attachment here value => exact Script.obeys_attach (hexpr value (by simp [Stmt.exprs]))
  | embed here parts =>
    apply Script.Obeys.forM
    intro part hpart
    exact ⟨⟨.part hpart, h.inside (.part hpart) hq rfl⟩, fun _ => trivial⟩

/-- The script of an activity obeys its rules. -/
theorem script_obeys {activity : Activity} (hq : q activity) :
    activity.script.Obeys (activity.rulesOf q r) := by
  cases activity with
  | term allowance e => exact h.script_obeys_term hq
  | stmt allowance rounds s => exact h.script_obeys_stmt hq
  | part allowance part =>
    exact Script.obeys_ofPart (fun _ => id)
      (fun e he => ⟨.partExpr he, h.inside (.partExpr he) hq rfl⟩)
      fun spec hspec => ⟨.field hspec, h.inside (.field hspec) hq rfl⟩
  | field allowance spec =>
    exact Script.obeys_ofField (Or.inl rfl) (Or.inr rfl) fun e he =>
      ⟨.fieldExpr he, h.inside (.fieldExpr he) hq rfl⟩
  | call allowance f arguments enough =>
    cases hbody : f.body with
    | code body =>
      rw [script, hbody]
      exact ⟨⟨.body hbody, h.inside (.body hbody) hq rfl⟩, fun _ _ _ => trivial⟩
    | clock =>
      rw [script, hbody]
      exact fun _ _ => ⟨trivial, fun _ _ => trivial⟩
  | program allowance code =>
    apply Script.Obeys.forM
    intro s hs
    exact ⟨⟨.item hs, h.inside (.item hs) hq rfl⟩, fun _ => trivial⟩

end HandsOn

theorem handsOn_marked : HandsOn (Marked p) (Function.Marked p) where
  inside := by
    intro outer inner hunder hmarked hcallee
    cases hunder with
    | operand hchild => exact (Expr.marked_iff.1 hmarked).2 _ hchild
    | call => contradiction
    | body hbody => exact hmarked _ hbody
    | expr he => exact (Stmt.marked_iff.1 hmarked).1.exprs _ he
    | child hchild => exact (Stmt.marked_iff.1 hmarked).2 _ hchild
    | part hpart => exact (Stmt.marked_iff.1 hmarked).1.part hpart
    | partExpr he => exact EmbedPart.Marked.exprs hmarked _ he
    | field hspec => exact EmbedPart.Marked.field hmarked hspec
    | item hs => exact hmarked _ hs
    | fieldExpr he => exact FieldSpec.Marked.exprs hmarked _ he
  called := fun hmarked _ _ _ => hmarked
  system := fun hsystem _ _ _ => Function.marked_of_system hsystem
  declared := by
    intro allowance rounds s f hmarked hdeclared
    cases s with
    | function here name namePlace parameters body =>
      obtain rfl := Option.some.inj hdeclared
      intro code hcode
      obtain rfl := FunctionBody.code.inj hcode
      exact (Stmt.marked_iff.1 hmarked).2 body (by simp [Stmt.children])
    | _ => contradiction

end Activity
end MessageTemplate
