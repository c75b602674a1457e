import MessageTemplate.Proofs.Evaluation.Keeping
import MessageTemplate.Proofs.Evaluation.Script

/-!
# The scripts of all activities

An activity may open a scope, do the steps of its script there, and close the
scope again. It may have a place, which its errors take. Running an activity is
running its script between the two (`Activity.run_eq`).
-/

namespace MessageTemplate
namespace Script

/-! ## Expressions -/

section

variable (allowance : Nat)

def terms : List Term → Script (List Value)
  | [] => pure []
  | first :: rest => do
    let value ← evaluate allowance first
    return value :: (← terms rest)

def read (name : String) : Script Value := do
  ofOption (.undefinedVariable name) ((← state).read? name)

def function (name : String) : Script Function := do
  ofOption (.undefinedFunction name) ((← state).function? name)

end

/-- A call takes one from the allowance. -/
def call : Nat → Function → List Value → Script Value
  | 0, _, _ => exhaust
  | allowance + 1, function, arguments =>
    if enough : function.parameters.length ≤ arguments.length then
      invoke allowance function arguments enough
    else fail (.notEnoughArguments function.parameters.length arguments.length)

section

variable (allowance : Nat)

def ofTerm : Term → Script Value
  | .literal _ value => pure value
  | .var _ name => read name
  | .list _ items => do
    return .list (← terms allowance items)
  | .call _ name arguments => do
    let values ← terms allowance arguments
    call allowance (← function name) values
  | .unary _ op operand => do
    ofExcept (op.apply (← evaluate allowance operand))
  | .binary _ op left right => do
    let leftValue ← evaluate allowance left
    let rightValue ← evaluate allowance right
    ofExcept (op.apply leftValue rightValue)

def text? (value : Term) : Script (Option String) := do
  return (← evaluate allowance value).text?

def condition (value : Term) : Script Bool := do
  ofExcept (← evaluate allowance value).isTrue

/-! ## Parts of an embed -/

def requiredText (member : RequiredMember) (value : Term) : Script String := do
  match ← text? allowance value with
  | some text => pure text
  | none => fail (.missing member)

def optionalText : Option Term → Script (Option String)
  | none => pure none
  | some value => text? allowance value

def edits {K R : Type} (edit : K → String → R → R) : List (K × Term) → Script (List (R → R))
  | [] => pure []
  | (key, value) :: rest => do
    let text ← text? allowance value
    let others ← edits edit rest
    return (text.map (edit key)).toList ++ others

def editEmbed (edit : Embed → Embed) : Script Unit :=
  perform (.edit fun document => document.editEmbed edit)

def writeContent (value : Term) : Script Unit := do
  match ← text? allowance value with
  | some text => perform (.edit fun document => { document with content := some text })
  | none => pure ()

def attach (value : Term) : Script Unit := do
  match ← text? allowance value with
  | some url => perform (.edit fun document => document.attach url)
  | none => pure ()

def writeMember (member : EmbedMember) (value : Term) : Script Unit := do
  match ← ofExcept (Eval.memberEdit member (← evaluate allowance value)) with
  | some edit => editEmbed edit
  | none => pure ()

def writeAuthorEntries (mode : WriteMode) (entries : List (AuthorKey × Term)) : Script Unit := do
  let edits ← edits allowance Eval.authorEdit entries
  editEmbed fun embed =>
    match mode with
    | .replace => { embed with author := some (Eval.applyEdits edits .blank) }
    | .append => embed.editAuthor (Eval.applyEdits edits)

def writeAuthor (mode : WriteMode) : Section (AuthorFlow Term) AuthorKey Term → Script Unit
  | .flow flow => do
    let name ← requiredText allowance .authorName flow.name
    let url ← optionalText allowance flow.url
    let icon ← optionalText allowance flow.icon
    editEmbed fun embed => { embed with author := some ⟨name, url, icon⟩ }
  | .object entries => writeAuthorEntries allowance mode entries
  | .property key value => writeAuthorEntries allowance mode [(key, value)]

def writeFooterEntries (mode : WriteMode) (entries : List (FooterKey × Term)) : Script Unit := do
  let edits ← edits allowance Eval.footerEdit entries
  editEmbed fun embed =>
    match mode with
    | .replace => { embed with footer := some (Eval.applyEdits edits .blank) }
    | .append => embed.editFooter (Eval.applyEdits edits)

def writeFooter (mode : WriteMode) : Section (FooterFlow Term) FooterKey Term → Script Unit
  | .flow flow => do
    let text ← requiredText allowance .footerText flow.text
    let icon ← optionalText allowance flow.icon
    editEmbed fun embed => { embed with footer := some ⟨text, icon⟩ }
  | .object entries => writeFooterEntries allowance mode entries
  | .property key value => writeFooterEntries allowance mode [(key, value)]

def fieldEdit? : FieldSetting Term → Script (Option (Field → Field))
  | .title value => do
    return (← text? allowance value).map fun text field => { field with title := text }
  | .text value => do
    return (← text? allowance value).map fun text field => { field with text := text }
  | .inline value => pure (some fun field => { field with inline := value })

def fieldEdits : List (FieldSetting Term) → Script (List (Field → Field))
  | [] => pure []
  | setting :: rest => do
    let edit ← fieldEdit? allowance setting
    let others ← fieldEdits rest
    return edit.toList ++ others

def ofField : FieldSpec Term Location → Script Field
  | .flow _ title text inline => do
    let title ← requiredText allowance .fieldTitle title
    let text ← requiredText allowance .fieldText text
    return ⟨title, text, inline⟩
  | .object _ settings => do
    return Eval.applyEdits (← fieldEdits allowance settings) .blank

def addField (spec : FieldSpec Term Location) : Script Unit := do
  let field ← describe allowance spec
  editEmbed fun embed => embed.addField field

def writeFields (mode : WriteMode) (specs : List (FieldSpec Term Location)) : Script Unit := do
  if mode = .replace then editEmbed (Eval.clearFields mode)
  specs.forM (addField allowance)

def writeFieldsBody (mode : WriteMode) : FieldsBody Term Location → Script Unit
  | .part spec => writeFields allowance mode [spec]
  | .list specs => writeFields allowance mode specs
  | .property setting => do
    let edit ← fieldEdit? allowance setting
    editEmbed fun embed => (Eval.clearFields mode embed).editLastField (edit.getD id)

def ofPart : PartBody Term Location → Script Unit
  | .member member value => writeMember allowance member value
  | .author mode body => writeAuthor allowance mode body
  | .footer mode body => writeFooter allowance mode body
  | .fields mode body => writeFieldsBody allowance mode body

end

/-! ## Statements -/

def repeatWhile (test : Script Bool) (body : Script Unit) : Nat → Script Unit
  | 0 => exhaust
  | rounds + 1 => do
    if ← test then
      body
      repeatWhile test body rounds

section

variable (allowance rounds : Nat)

def stmt? : Option Code → Script Unit
  | none => pure ()
  | some s => execute allowance rounds s

def stmts (body : List Code) : Script Unit := body.forM (execute allowance rounds)

def ofStmt : Code → Script Unit
  | .empty _ => pure ()
  | .block _ body => stmts allowance rounds body
  | .assign _ name value => do
    perform (.assign name (← evaluate allowance value))
  | .expr _ value => discard (evaluate allowance value)
  | .function here name _ parameters body =>
    perform (.declare ⟨name, parameters, .code body, some here⟩)
  | .result _ value => do
    perform (.record (← evaluate allowance value))
  | .branch _ test yes no => do
    if ← condition allowance test then execute allowance rounds yes
    else stmt? allowance rounds no
  | .forLoop _ init check step body => do
    stmt? allowance rounds init
    match check with
    | none => pure ()
    | some check =>
      repeatWhile (condition allowance check)
        (do
          execute allowance rounds body
          stmt? allowance rounds step)
        rounds
  | .foreach _ name iterable body => do
    let items ← ofExcept (Eval.enumerate (← evaluate allowance iterable))
    items.forM fun item => do
      perform (.assign name item)
      execute allowance rounds body
  | .whileLoop _ test body =>
    repeatWhile (condition allowance test) (execute allowance rounds body) rounds
  | .doWhile _ body test => do
    execute allowance rounds body
    repeatWhile (condition allowance test) (execute allowance rounds body) rounds
  | .text _ value => writeContent allowance value
  | .attachment _ value => attach allowance value
  | .embed _ parts => parts.forM fun part => write allowance part

end

/-- A function body, up to the recorded result. -/
def ofCall (allowance : Nat) (body : FunctionBody) : Script Value := do
  match body with
  | .code body => execute allowance allowance body
  | .clock => perform (.record (.instant (← state).clock))
  return (← state).chain.current.result

end Script

/-! ## Activities -/

namespace Activity

def script : (activity : Activity) → Script activity.Answer
  | .term allowance e => .ofTerm allowance e
  | .stmt allowance rounds s => .ofStmt allowance rounds s
  | .part allowance p => .ofPart allowance p.body
  | .field allowance spec => .ofField allowance spec
  | .call allowance function _ _ => .ofCall allowance function.body
  | .program allowance code => .stmts allowance allowance code

/-- The place that errors take. What has none does not fail by itself. -/
def place? : Activity → Option Location
  | .term _ e => some e.place
  | .stmt _ _ (.empty _) | .stmt _ _ (.block _ _) | .stmt _ _ (.function _ _ _ _ _)
  | .stmt _ _ (.embed _ _) => none
  | .stmt _ _ s => some s.place
  | .part _ p => some p.place
  | .field _ spec => some spec.place
  | .call _ _ _ _ | .program _ _ => none

/-- The kind of scope that is opened, with the values that its parameters are bound to. -/
def opens? : Activity → Option (ScopeKind × List Value)
  | .stmt _ _ s => if s.opensScope then some (.block, []) else none
  | .call _ function arguments _ => some (.call function.parameters, arguments)
  | _ => none

/-- The state in which the script begins. -/
def opened (activity : Activity) (state : State) : State :=
  match activity.opens? with
  | none => state
  | some (kind, values) =>
    Eval.bound kind.parameters values (state.editChain fun chain => chain.enter kind)

/-- The state that is left when the script is over. -/
def closed (activity : Activity) (state : State) : State :=
  match activity.opens? with
  | none => state
  | some _ => state.editChain .leave

/-- Errors without a place take that of the activity. -/
def stamped (activity : Activity) (stop : Stop RuntimeError) : Stop RuntimeError :=
  match activity.place? with
  | none => stop
  | some here => Eval.stampStop here stop

/-- Run what an activity does by itself, in its scope and at its place. -/
def surround (activity : Activity) (run : Eval activity.Answer) : Eval activity.Answer :=
  fun state =>
  match run (activity.opened state) with
  | .ok value state => .ok value (activity.closed state)
  | .error stop state => .error (activity.stamped stop) (activity.closed state)

section

variable {activity : Activity} (run : Eval activity.Answer)

theorem surround_of_none (hplace : activity.place? = none) (hopens : activity.opens? = none) :
    activity.surround run = run := by
  funext state
  rw [surround, opened, hopens]
  cases run state <;> simp [stamped, hplace, closed, hopens]

theorem surround_of_place {here : Location} (hplace : activity.place? = some here)
    (hopens : activity.opens? = none) : activity.surround run = Eval.located here run := by
  funext state
  rw [surround, opened, hopens]
  change _ = EStateM.adaptExcept (Eval.stampStop here) run state
  unfold EStateM.adaptExcept
  cases run state <;> simp [stamped, hplace, closed, hopens]

theorem surround_of_block {here : Location} (hplace : activity.place? = some here)
    (hopens : activity.opens? = some (.block, [])) :
    activity.surround run = Eval.located here (Eval.inScope .block run) := by
  funext state
  rw [surround, opened, hopens]
  change _ = EStateM.adaptExcept (Eval.stampStop here) (Eval.inScope .block run) state
  unfold EStateM.adaptExcept Eval.inScope
  simp only [ScopeKind.parameters, Eval.bound, stamped, hplace, closed, hopens]
  split <;> simp_all

end

end Activity

/-! ## Scripts and the evaluator -/

namespace Script

open Eval (callWithin)

section

variable (allowance : Nat)

theorem run_terms (values : List Term) :
    (terms allowance values).run = Eval.terms (callWithin allowance) values := by
  induction values with
  | nil => rfl
  | cons e values ih => simp [terms, Eval.terms, ih]

theorem run_read (name : String) : (read name).run = Eval.read name := by
  simp only [read, Eval.read, run_bind, run_state]
  congr
  funext state
  cases state.read? name <;> rfl

theorem run_function (name : String) : (function name).run = Eval.function name := by
  simp only [function, Eval.function, run_bind, run_state]
  congr
  funext state
  cases state.function? name <;> rfl

theorem run_call (f : Function) (values : List Value) :
    (call allowance f values).run = callWithin allowance f values := by
  cases allowance with
  | zero => rfl
  | succ allowance =>
    rw [call]
    by_cases h : f.parameters.length ≤ values.length
    · simp [h]
    · simp only [h, dite_false, run_fail, callWithin, Eval.invoke]
      rw [if_pos (by omega)]

theorem run_text? (value : Term) :
    (text? allowance value).run = Eval.text? (callWithin allowance) value := by
  simp [text?, Eval.text?]

theorem run_condition (value : Term) :
    (condition allowance value).run = Eval.condition (callWithin allowance) value := by
  simp [condition, Eval.condition]

theorem run_ofTerm (e : Term) :
    Eval.term (callWithin allowance) e = Eval.located e.place (ofTerm allowance e).run := by
  cases e with
  | literal here value => rfl
  | var here name => rw [Eval.term, ofTerm, run_read, Expr.place]
  | list here items => simp [Eval.term, ofTerm, run_terms, Expr.place]
  | call here name arguments =>
    simp [Eval.term, ofTerm, run_terms, run_function, run_call, Expr.place]
  | unary here op operand =>
    simp [Eval.term, ofTerm, Expr.place]
  | binary here op left right =>
    simp [Eval.term, ofTerm, Expr.place]

/-! ## Parts of an embed -/

theorem run_requiredText (member : RequiredMember) (value : Term) :
    (requiredText allowance member value).run =
      Eval.requiredText (callWithin allowance) member value := by
  simp only [requiredText, Eval.requiredText, run_bind, run_text?]
  congr
  funext text
  cases text <;> rfl

theorem run_optionalText (value : Option Term) :
    (optionalText allowance value).run = Eval.optionalText (callWithin allowance) value := by
  cases value with
  | none => rfl
  | some value => exact run_text? allowance value

theorem run_edits {K R : Type} (edit : K → String → R → R) (entries : List (K × Term)) :
    (edits allowance edit entries).run = Eval.edits (callWithin allowance) edit entries := by
  induction entries with
  | nil => rfl
  | cons entry entries ih => simp [edits, Eval.edits, run_text?, ih]

theorem run_editEmbed (edit : Embed → Embed) : (editEmbed edit).run = Eval.editEmbed edit := rfl

theorem run_writeContent (value : Term) :
    (writeContent allowance value).run = Eval.writeContent (callWithin allowance) value := by
  simp only [writeContent, Eval.writeContent, run_bind, run_text?]
  congr
  funext text
  cases text <;> rfl

theorem run_attach (value : Term) :
    (attach allowance value).run = Eval.attach (callWithin allowance) value := by
  simp only [attach, Eval.attach, run_bind, run_text?]
  congr
  funext url
  cases url <;> rfl

theorem run_writeMember (member : EmbedMember) (value : Term) :
    (writeMember allowance member value).run =
      Eval.writeMember (callWithin allowance) member value := by
  simp only [writeMember, Eval.writeMember, run_bind, run_evaluate, run_ofExcept]
  congr
  funext value
  congr
  funext edit
  cases edit <;> rfl

theorem run_writeAuthorEntries (mode : WriteMode) (entries : List (AuthorKey × Term)) :
    (writeAuthorEntries allowance mode entries).run =
      Eval.writeAuthorEntries (callWithin allowance) mode entries := by
  rw [writeAuthorEntries, run_bind, run_edits]
  rfl

theorem run_writeAuthor (mode : WriteMode) (body : Section (AuthorFlow Term) AuthorKey Term) :
    (writeAuthor allowance mode body).run = Eval.writeAuthor (callWithin allowance) mode body := by
  cases body with
  | flow flow =>
    simp [writeAuthor, Eval.writeAuthor, Eval.writeAuthorFlow, run_requiredText, run_optionalText,
      run_editEmbed]
  | object entries => exact run_writeAuthorEntries allowance mode entries
  | property key value => exact run_writeAuthorEntries allowance mode [(key, value)]

theorem run_writeFooterEntries (mode : WriteMode) (entries : List (FooterKey × Term)) :
    (writeFooterEntries allowance mode entries).run =
      Eval.writeFooterEntries (callWithin allowance) mode entries := by
  rw [writeFooterEntries, run_bind, run_edits]
  rfl

theorem run_writeFooter (mode : WriteMode) (body : Section (FooterFlow Term) FooterKey Term) :
    (writeFooter allowance mode body).run = Eval.writeFooter (callWithin allowance) mode body := by
  cases body with
  | flow flow =>
    simp [writeFooter, Eval.writeFooter, Eval.writeFooterFlow, run_requiredText, run_optionalText,
      run_editEmbed]
  | object entries => exact run_writeFooterEntries allowance mode entries
  | property key value => exact run_writeFooterEntries allowance mode [(key, value)]

theorem run_fieldEdit? (setting : FieldSetting Term) :
    (fieldEdit? allowance setting).run = Eval.fieldEdit? (callWithin allowance) setting := by
  cases setting <;> simp [fieldEdit?, Eval.fieldEdit?, run_text?]

theorem run_fieldEdits (settings : List (FieldSetting Term)) :
    (fieldEdits allowance settings).run = Eval.fieldEdits (callWithin allowance) settings := by
  induction settings with
  | nil => rfl
  | cons setting settings ih => simp [fieldEdits, Eval.fieldEdits, run_fieldEdit?, ih]

theorem run_ofField (spec : FieldSpec Term Location) :
    Eval.field (callWithin allowance) spec =
      Eval.located spec.place (ofField allowance spec).run := by
  cases spec <;> simp [Eval.field, ofField, run_requiredText, run_fieldEdits, FieldSpec.place]

theorem run_addField (spec : FieldSpec Term Location) :
    (addField allowance spec).run = Eval.addField (callWithin allowance) spec := by
  simp [addField, Eval.addField, run_editEmbed]

theorem run_writeFields (mode : WriteMode) (specs : List (FieldSpec Term Location)) :
    (writeFields allowance mode specs).run =
      Eval.writeFields (callWithin allowance) mode specs := by
  have hspecs := run_forM specs (run_addField allowance)
  cases mode <;> simp_all [writeFields, Eval.writeFields, run_editEmbed]

theorem run_writeFieldsBody (mode : WriteMode) (body : FieldsBody Term Location) :
    (writeFieldsBody allowance mode body).run =
      Eval.writeFieldsBody (callWithin allowance) mode body := by
  cases body with
  | part spec => exact run_writeFields allowance mode [spec]
  | list specs => exact run_writeFields allowance mode specs
  | property setting =>
    simp [writeFieldsBody, Eval.writeFieldsBody, Eval.writeFieldSetting, run_fieldEdit?,
      run_editEmbed]

theorem run_ofPart (body : PartBody Term Location) :
    (ofPart allowance body).run = Eval.partBody (callWithin allowance) body := by
  cases body with
  | member member value => exact run_writeMember allowance member value
  | author mode body => exact run_writeAuthor allowance mode body
  | footer mode body => exact run_writeFooter allowance mode body
  | fields mode body => exact run_writeFieldsBody allowance mode body

/-! ## Statements -/

theorem run_repeatWhile (test : Script Bool) (body : Script Unit) (rounds : Nat) :
    (repeatWhile test body rounds).run = Eval.repeatWhile test.run body.run rounds := by
  induction rounds with
  | zero => rfl
  | succ rounds ih =>
    rw [repeatWhile, Eval.repeatWhile, run_bind]
    congr
    funext goes
    cases goes with
    | false => rfl
    | true =>
      change (body >>= fun _ => repeatWhile test body rounds).run = _
      rw [run_bind, ih]
      rfl

variable (rounds : Nat)

theorem run_stmts (body : List Code) :
    (stmts allowance rounds body).run = Eval.stmts (callWithin allowance) rounds body := by
  induction body with
  | nil => rfl
  | cons s body ih =>
    change (execute allowance rounds s >>= fun _ => stmts allowance rounds body).run = _
    rw [run_bind, ih, run_execute]
    rfl

theorem run_stmt? (s : Option Code) :
    (stmt? allowance rounds s).run = Eval.stmt? (callWithin allowance) rounds s := by
  cases s with
  | none => rfl
  | some s => exact run_execute allowance rounds s

end

end Script

namespace Activity

open Script Eval

theorem run_stmt (allowance rounds : Nat) (s : Code) :
    (stmt allowance rounds s).run =
      (stmt allowance rounds s).surround (ofStmt allowance rounds s).run := by
  cases s with
  | empty here => rfl
  | block here body =>
    rw [surround_of_none _ rfl rfl, ofStmt, run_stmts, Activity.run, Eval.stmt]
  | assign here name value =>
    rw [surround_of_place _ rfl rfl, Activity.run, Eval.stmt, ofStmt, run_bind, run_evaluate]
    rfl
  | expr here value =>
    rw [surround_of_place _ rfl rfl, Activity.run, Eval.stmt, ofStmt, run_discard, run_evaluate]
    rfl
  | function here name namePlace parameters body => rfl
  | result here value =>
    rw [surround_of_place _ rfl rfl, Activity.run, Eval.stmt, ofStmt, run_bind, run_evaluate]
    rfl
  | branch here test yes no =>
    rw [surround_of_block _ rfl rfl, Activity.run, Eval.stmt, ofStmt, run_bind, run_condition]
    congr
    funext goes
    cases goes with
    | false => exact (run_stmt? allowance rounds no).symm
    | true => exact (run_execute allowance rounds yes).symm
  | forLoop here init check step body =>
    rw [surround_of_block _ rfl rfl, Activity.run]
    cases check with
    | none =>
      rw [Eval.stmt, ofStmt, run_bind, run_stmt?]
      rfl
    | some check =>
      rw [Eval.stmt, ofStmt, run_bind, run_stmt?]
      simp only [run_repeatWhile, run_condition, run_bind, run_execute, run_stmt?]
      rfl
  | foreach here name iterable body =>
    rw [surround_of_block _ rfl rfl, Activity.run, Eval.stmt, ofStmt]
    simp only [run_bind, run_evaluate, run_ofExcept]
    congr
    funext value
    congr
    funext items
    rw [run_forM]
    intro item
    rw [run_bind, run_execute]
    rfl
  | whileLoop here test body =>
    rw [surround_of_block _ rfl rfl, Activity.run, Eval.stmt, ofStmt, run_repeatWhile,
      run_condition, run_execute]
    rfl
  | doWhile here body test =>
    rw [surround_of_block _ rfl rfl, Activity.run, Eval.stmt, ofStmt, run_bind, run_repeatWhile,
      run_condition, run_execute]
    rfl
  | text here value =>
    rw [surround_of_place _ rfl rfl, Activity.run, Eval.stmt, ofStmt, run_writeContent]
    rfl
  | attachment here value =>
    rw [surround_of_place _ rfl rfl, Activity.run, Eval.stmt, ofStmt, run_attach]
    rfl
  | embed here parts =>
    rw [surround_of_none _ rfl rfl, Activity.run, Eval.stmt, ofStmt, run_forM]
    exact run_write allowance

theorem run_ofCall (allowance : Nat) (body : FunctionBody) : (ofCall allowance body).run =
    functionBody (Eval.stmt (callWithin allowance) allowance) body >>= fun _ => recorded := by
  cases body with
  | code body =>
    simp [ofCall, functionBody]
    rfl
  | clock => rfl

theorem run_call (allowance : Nat) (f : Function) (values : List Value)
    (enough : f.parameters.length ≤ values.length) :
    (call allowance f values enough).run =
      (call allowance f values enough).surround (ofCall allowance f.body).run := by
  funext state
  rw [surround, run_ofCall, Activity.run, callWithin, Eval.invoke, if_neg (by omega), inScope]
  rw [Run.bind_of_ok (bindParameters_eq f.parameters values _)]
  have hopened : (call allowance f values enough).opened state = bound f.parameters values
      (state.editChain fun chain => chain.enter (.call f.parameters)) := rfl
  rw [hopened]
  cases (functionBody (Eval.stmt (callWithin allowance) allowance) f.body >>= fun _ => recorded)
    (bound f.parameters values (state.editChain fun chain => chain.enter (.call f.parameters)))
  · rfl
  · rfl

/-- To run an activity is to run its script, in its scope and at its place. -/
theorem run_eq (activity : Activity) : activity.run = activity.surround activity.script.run := by
  cases activity with
  | term allowance e =>
      rw [surround_of_place _ rfl rfl, Activity.run, expression, run_ofTerm, script]
  | stmt allowance rounds s => exact run_stmt allowance rounds s
  | part allowance p =>
    rw [surround_of_place _ rfl rfl, Activity.run, embedPart, script, run_ofPart]
  | field allowance spec => rw [surround_of_place _ rfl rfl, Activity.run, run_ofField, script]
  | call allowance f values enough => exact run_call allowance f values enough
  | program allowance code =>
    rw [surround_of_none _ rfl rfl, Activity.run, Eval.program, script, run_stmts]

end Activity
end MessageTemplate
