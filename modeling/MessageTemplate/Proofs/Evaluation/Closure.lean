import MessageTemplate.Evaluation.Stmt
import MessageTemplate.Proofs.Message.Edits
import MessageTemplate.Proofs.Tree.Nodes

/-!
# Properties of all runs

A property that one run after another keeps holds of an expression if it holds
of what the variables and calls in it do, and of the parts of an embed if it
also holds of editing the document. It holds of a statement if it also holds of
what statements do themselves, and of a run in a block whenever it holds of the
run. So each such property needs one proof for each thing that can be done, not
for each form of expression or statement.
-/

namespace MessageTemplate

/-- The statements that run in a scope of their own. -/
def Stmt.opensScope {E P : Type} : Stmt E P → Bool
  | .branch _ _ _ _ | .forLoop _ _ _ _ _ | .foreach _ _ _ _ | .whileLoop _ _ _ | .doWhile _ _ _ =>
      true
  | _ => false

/-- The function that a statement declares. -/
def Stmt.declared? : Code → Option Function
  | .function here name _ parameters body => some ⟨name, parameters, .code body, some here⟩
  | _ => none

namespace Eval

/-- A property of runs that holds of doing nothing and of stopping, and that is kept when one run
follows another and when errors are given a place. -/
structure IsCompositional (P : (α : Type) → Eval α → Prop) : Prop where
  pure : ∀ {α : Type} (value : α), P α (Pure.pure value)
  throw : ∀ {α : Type} (stop : Stop RuntimeError), P α (throw stop)
  bind : ∀ {α β : Type} {run : Eval α} {next : α → Eval β},
    P α run → (∀ value, P β (next value)) → P β (run >>= next)
  located : ∀ {α : Type} {run : Eval α}, P α run → ∀ here, P α (located here run)

/-- The property holds of what a node does itself when its operands are evaluated, as far as it
depends on the state. -/
def OwnStep (P : (α : Type) → Eval α → Prop) (call : Caller) : Term → Prop
  | .var _ name => P Value (read name)
  | .call _ name _ => ∀ values, P Value (do call (← function name) values)
  | _ => True

namespace IsCompositional

variable {P : (α : Type) → Eval α → Prop} (hP : IsCompositional P) {α β : Type} {call : Caller}

include hP

theorem map {run : Eval α} (h : P α run) (f : α → β) : P β (f <$> run) :=
  hP.bind h fun value => hP.pure (f value)

theorem ofExcept (result : Except RuntimeFault α) : P α (ofExcept result) := by
  cases result with
  | ok value => exact hP.pure value
  | error fault => exact hP.throw _

theorem forM {values : List α} {run : α → Eval PUnit} (h : ∀ value ∈ values, P PUnit (run value)) :
    P PUnit (values.forM run) := by
  induction values with
  | nil => exact hP.pure _
  | cons value values ih =>
    rw [List.forall_mem_cons] at h
    exact hP.bind h.1 fun _ => ih h.2

theorem repeatWhile {test : Eval Bool} {body : Eval Unit} (htest : P Bool test)
    (hbody : P Unit body) (rounds : Nat) : P Unit (repeatWhile test body rounds) := by
  induction rounds with
  | zero => exact hP.throw _
  | succ rounds ih =>
    apply hP.bind htest
    intro goes
    cases goes with
    | false => exact hP.pure _
    | true => exact hP.bind hbody fun _ => ih

/-! ## Expressions -/

theorem terms {values : List Term} (h : ∀ e ∈ values, P Value (term call e)) :
    P (List Value) (terms call values) := by
  induction values with
  | nil => exact hP.pure _
  | cons e values ih =>
    rw [List.forall_mem_cons] at h
    rw [Eval.terms]
    exact hP.bind h.1 fun _ => hP.bind (ih h.2) fun _ => hP.pure _

theorem term (e : Term) (h : ∀ node ∈ e.nodes, OwnStep P call node) : P Value (term call e) := by
  induction e using Expr.induct with
  | step e ih =>
    rw [Expr.nodes_eq, List.forall_mem_cons, List.forall_mem_flatMap] at h
    have hinside := fun child hchild => ih child hchild (h.2 child hchild)
    cases e with
    | literal here value => exact hP.pure value
    | var here name => exact hP.located h.1 here
    | list here items =>
      rw [Eval.term]
      exact hP.located (hP.bind (hP.terms hinside) fun _ => hP.pure _) here
    | call here name arguments =>
      rw [Eval.term]
      exact hP.located (hP.bind (hP.terms hinside) h.1) here
    | unary here op operand =>
      have hoperand := hinside operand (by simp [Expr.children])
      rw [Eval.term]
      exact hP.located (hP.bind hoperand fun _ => hP.ofExcept _) here
    | binary here op left right =>
      have hleft := hinside left (by simp [Expr.children])
      have hright := hinside right (by simp [Expr.children])
      rw [Eval.term]
      exact hP.located (hP.bind hleft fun _ => hP.bind hright fun _ => hP.ofExcept _) here

/-! ## The message -/

theorem text? {value : Term} (h : P Value (Eval.term call value)) :
    P (Option String) (text? call value) :=
  hP.map h _

theorem condition {value : Term} (h : P Value (Eval.term call value)) :
    P Bool (condition call value) :=
  hP.bind h fun _ => hP.ofExcept _

theorem requiredText (member : RequiredMember) {value : Term} (h : P Value (Eval.term call value)) :
    P String (requiredText call member value) := by
  apply hP.bind (hP.text? h)
  intro text
  cases text with
  | none => exact hP.throw _
  | some text => exact hP.pure _

theorem optionalText {value : Option Term} (h : ∀ e ∈ value.toList, P Value (Eval.term call e)) :
    P (Option String) (optionalText call value) := by
  cases value with
  | none => exact hP.pure _
  | some value => exact hP.text? (h value (by simp))

theorem edits {K M : Type} (edit : K → String → M → M) {entries : List (K × Term)}
    (h : ∀ e ∈ entries.map Prod.snd, P Value (Eval.term call e)) :
    P (List (M → M)) (edits call edit entries) := by
  induction entries with
  | nil => exact hP.pure _
  | cons entry entries ih =>
    rw [List.map_cons, List.forall_mem_cons] at h
    apply hP.bind (hP.text? h.1)
    intro text
    exact hP.bind (ih h.2) fun _ => hP.pure _

theorem fieldEdit? {setting : FieldSetting Term}
    (h : ∀ e ∈ setting.exprs, P Value (Eval.term call e)) :
    P (Option (Field → Field)) (fieldEdit? call setting) := by
  cases setting with
  | title value => exact hP.map (hP.text? (h value (by simp [FieldSetting.exprs]))) _
  | text value => exact hP.map (hP.text? (h value (by simp [FieldSetting.exprs]))) _
  | inline value => exact hP.pure _

theorem fieldEdits {settings : List (FieldSetting Term)}
    (h : ∀ e ∈ settings.flatMap FieldSetting.exprs, P Value (Eval.term call e)) :
    P (List (Field → Field)) (fieldEdits call settings) := by
  induction settings with
  | nil => exact hP.pure _
  | cons setting settings ih =>
    rw [List.flatMap_cons, List.forall_mem_append] at h
    apply hP.bind (hP.fieldEdit? h.1)
    intro edit
    exact hP.bind (ih h.2) fun _ => hP.pure _

theorem field {spec : FieldSpec Term Location} (h : ∀ e ∈ spec.exprs, P Value (Eval.term call e)) :
    P Field (field call spec) := by
  cases spec with
  | flow here title text inline =>
    apply hP.located
    apply hP.bind (hP.requiredText _ (h title (by simp [FieldSpec.exprs])))
    intro titleText
    apply hP.bind (hP.requiredText _ (h text (by simp [FieldSpec.exprs])))
    intro textText
    exact hP.pure _
  | object here settings => exact hP.located (hP.map (hP.fieldEdits h) _) here

theorem writeContent {value : Term} (h : P Value (Eval.term call value))
    (hedit : ∀ text, P Unit (editDocument fun document => { document with content := some text })) :
    P Unit (writeContent call value) := by
  apply hP.bind (hP.text? h)
  intro text
  cases text with
  | none => exact hP.pure _
  | some text => exact hedit text

theorem attach {value : Term} (h : P Value (Eval.term call value))
    (hedit : ∀ url, P Unit (editDocument fun document => document.attach url)) :
    P Unit (attach call value) := by
  apply hP.bind (hP.text? h)
  intro url
  cases url with
  | none => exact hP.pure _
  | some url => exact hedit url

theorem writeMember {member : EmbedMember} {value : Term} (h : P Value (Eval.term call value))
    (hedit : ∀ edit, (PartBody.member member value).Edits edit → P Unit (editEmbed edit)) :
    P Unit (writeMember call member value) := by
  apply hP.bind h
  intro value
  cases hvalue : memberEdit member value with
  | error fault => exact hP.throw _
  | ok edit? =>
    cases edit? with
    | none => exact hP.pure _
    | some edit => exact hedit edit (.member hvalue)

theorem writeAuthor {mode : WriteMode} {body : Section (AuthorFlow Term) AuthorKey Term}
    (h : ∀ e ∈ body.exprs AuthorFlow.exprs, P Value (Eval.term call e))
    (hedit : ∀ edit, (PartBody.author mode body).Edits edit → P Unit (editEmbed edit)) :
    P Unit (writeAuthor call mode body) := by
  have hentries {entries : List (AuthorKey × Term)}
      (h : ∀ e ∈ entries.map Prod.snd, P Value (Eval.term call e)) :
      P Unit (writeAuthorEntries call mode entries) := by
    apply hP.bind (hP.edits _ h)
    intro edits
    cases mode with
    | replace => exact hedit _ (.newAuthor edits)
    | append => exact hedit _ (.author edits)
  cases body with
  | flow flow =>
    rw [Section.exprs, AuthorFlow.exprs, List.forall_mem_cons, List.forall_mem_append] at h
    apply hP.bind (hP.requiredText _ h.1)
    intro name
    apply hP.bind (hP.optionalText h.2.1)
    intro url
    apply hP.bind (hP.optionalText h.2.2)
    intro icon
    exact hedit _ (.authorFlow ⟨name, url, icon⟩)
  | object entries => exact hentries h
  | property key value => exact hentries h

theorem writeFooter {mode : WriteMode} {body : Section (FooterFlow Term) FooterKey Term}
    (h : ∀ e ∈ body.exprs FooterFlow.exprs, P Value (Eval.term call e))
    (hedit : ∀ edit, (PartBody.footer mode body).Edits edit → P Unit (editEmbed edit)) :
    P Unit (writeFooter call mode body) := by
  have hentries {entries : List (FooterKey × Term)}
      (h : ∀ e ∈ entries.map Prod.snd, P Value (Eval.term call e)) :
      P Unit (writeFooterEntries call mode entries) := by
    apply hP.bind (hP.edits _ h)
    intro edits
    cases mode with
    | replace => exact hedit _ (.newFooter edits)
    | append => exact hedit _ (.footer edits)
  cases body with
  | flow flow =>
    rw [Section.exprs, FooterFlow.exprs, List.forall_mem_cons] at h
    apply hP.bind (hP.requiredText _ h.1)
    intro text
    apply hP.bind (hP.optionalText h.2)
    intro icon
    exact hedit _ (.footerFlow ⟨text, icon⟩)
  | object entries => exact hentries h
  | property key value => exact hentries h

theorem writeFieldsBody {mode : WriteMode} {body : FieldsBody Term Location}
    (h : ∀ e ∈ body.exprs, P Value (Eval.term call e))
    (hedit : ∀ edit, (PartBody.fields mode body).Edits edit → P Unit (editEmbed edit)) :
    P Unit (writeFieldsBody call mode body) := by
  have hfields {specs : List (FieldSpec Term Location)}
      (h : ∀ spec ∈ specs, ∀ e ∈ spec.exprs, P Value (Eval.term call e)) :
      P Unit (writeFields call mode specs) := by
    have hspecs : P Unit (specs.forM (addField call)) :=
      hP.forM fun spec hspec => hP.bind (hP.field (h spec hspec)) fun field =>
        hedit _ (.addField field)
    cases mode with
    | replace => exact hP.bind (hedit _ (.clear body)) fun _ => hspecs
    | append => exact hspecs
  cases body with
  | part spec => exact hfields (by simpa [FieldsBody.exprs] using h)
  | list specs => exact hfields (List.forall_mem_flatMap.1 h)
  | property setting => exact hP.bind (hP.fieldEdit? h) fun edit? => hedit _ (.lastField _)

/-- A part only edits the embed in its own ways. -/
theorem embedPart {part : EmbedPart Term Location}
    (h : ∀ e ∈ part.exprs, P Value (Eval.term call e))
    (hedit : ∀ edit, part.body.Edits edit → P Unit (editEmbed edit)) :
    P Unit (embedPart call part) := by
  obtain ⟨here, body⟩ := part
  apply hP.located
  cases body with
  | member member value =>
    exact hP.writeMember (h value (by simp [EmbedPart.exprs, PartBody.exprs])) hedit
  | author mode body => exact hP.writeAuthor h hedit
  | footer mode body => exact hP.writeFooter h hedit
  | fields mode body => exact hP.writeFieldsBody h hedit

/-! ## Statements -/

variable {rounds : Nat}

theorem stmts {body : List Code} (h : ∀ s ∈ body, P Unit (stmt call rounds s)) :
    P Unit (stmts call rounds body) := by
  induction body with
  | nil => exact hP.pure _
  | cons s body ih =>
    rw [List.forall_mem_cons] at h
    rw [Eval.stmts]
    exact hP.bind h.1 fun _ => ih h.2

theorem stmt? {code? : Option Code} (h : ∀ s ∈ code?.toList, P Unit (stmt call rounds s)) :
    P Unit (stmt? call rounds code?) := by
  cases code? with
  | none => exact hP.pure _
  | some s => exact h s (by simp)

end IsCompositional

/-- What a statement does in its scope, if it opens one. -/
def inside (call : Caller) (rounds : Nat) : Code → Eval Unit
  | .branch _ test yes no => do
    if ← condition call test then stmt call rounds yes else stmt? call rounds no
  | .forLoop _ init check step body => do
    stmt? call rounds init
    match check with
    | none => pure ()
    | some check =>
      repeatWhile (condition call check)
        (do
          stmt call rounds body
          stmt? call rounds step)
        rounds
  | .foreach _ name iterable body => do
    let items ← ofExcept (enumerate (← term call iterable))
    items.forM fun item => do
      assign name item
      stmt call rounds body
  | .whileLoop _ test body => repeatWhile (condition call test) (stmt call rounds body) rounds
  | .doWhile _ body test => do
    stmt call rounds body
    repeatWhile (condition call test) (stmt call rounds body) rounds
  | _ => pure ()

theorem stmt_of_opensScope (call : Caller) (rounds : Nat) {s : Code} (h : s.opensScope = true) :
    stmt call rounds s = located s.place (inScope .block (inside call rounds s)) := by
  cases s with
  | forLoop here init check step body =>
    cases check with
    | none =>
      rw [stmt]
      rfl
    | some check =>
      rw [stmt]
      rfl
  | branch | foreach | whileLoop | doWhile =>
    rw [stmt]
    rfl
  | _ => contradiction

theorem IsCompositional.inside {P : (α : Type) → Eval α → Prop} (hP : IsCompositional P)
    {call : Caller} {rounds : Nat} (hassign : ∀ name value, P Unit (assign name value)) {s : Code}
    (hexprs : ∀ e ∈ s.exprs, P Value (Eval.term call e))
    (hchildren : ∀ child ∈ s.children, P Unit (Eval.stmt call rounds child)) :
    P Unit (Eval.inside call rounds s) := by
  cases s with
  | branch here test yes no =>
    apply hP.bind (hP.condition (hexprs test (by simp [Stmt.exprs])))
    intro goes
    split
    · exact hchildren yes (by simp [Stmt.children])
    · exact hP.stmt? fun s hs => hchildren s (by simp [Stmt.children, hs])
  | forLoop here init check step body =>
    have hstep : P Unit (Eval.stmt? call rounds step) :=
      hP.stmt? fun s hs => hchildren s (by simp [Stmt.children, hs])
    have hbody := hchildren body (by simp [Stmt.children])
    apply hP.bind (hP.stmt? fun s hs => hchildren s (by simp [Stmt.children, hs]))
    intro _
    cases check with
    | none => exact hP.pure _
    | some check =>
      have hcheck := hP.condition (hexprs check (by simp [Stmt.exprs]))
      exact hP.repeatWhile hcheck (hP.bind hbody fun _ => hstep) rounds
  | foreach here name iterable body =>
    apply hP.bind (hexprs iterable (by simp [Stmt.exprs]))
    intro value
    apply hP.bind (hP.ofExcept _)
    intro items
    apply hP.forM
    intro item _
    exact hP.bind (hassign name item) fun _ => hchildren body (by simp [Stmt.children])
  | whileLoop here test body =>
    have htest := hP.condition (hexprs test (by simp [Stmt.exprs]))
    exact hP.repeatWhile htest (hchildren body (by simp [Stmt.children])) rounds
  | doWhile here body test =>
    have htest := hP.condition (hexprs test (by simp [Stmt.exprs]))
    have hbody := hchildren body (by simp [Stmt.children])
    exact hP.bind hbody fun _ => hP.repeatWhile htest hbody rounds
  | _ => exact hP.pure _

/-- Besides, the property holds of the changes that statements make, declarations apart, and of a
run in a block if it holds of the run. -/
structure AllowsActs (P : (α : Type) → Eval α → Prop) : Prop extends IsCompositional P where
  edit : ∀ edit, P Unit (editDocument edit)
  assign : ∀ name value, P Unit (assign name value)
  record : ∀ value, P Unit (record value)
  block : ∀ {run : Eval Unit}, P Unit run → P Unit (inScope .block run)

theorem AllowsActs.stmt {P : (α : Type) → Eval α → Prop} (hP : AllowsActs P) {call : Caller}
    {rounds : Nat} (s : Code)
    (hexprs : ∀ node ∈ s.nodes, ∀ e ∈ node.exprs, P Value (Eval.term call e))
    (hdeclare : ∀ node ∈ s.nodes, ∀ f ∈ node.declared?, P Unit (declare f)) :
    P Unit (stmt call rounds s) := by
  induction s using Stmt.induct with
  | step s ih =>
    rw [Stmt.nodes_eq, List.forall_mem_cons, List.forall_mem_flatMap] at hexprs hdeclare
    have hchildren := fun child hchild =>
      ih child hchild (hexprs.2 child hchild) (hdeclare.2 child hchild)
    -- The statements that open a scope differ only in what is inside.
    have hinside := hP.block (hP.inside hP.assign hexprs.1 hchildren)
    have hopened := hP.located hinside s.place
    cases s with
    | empty here => exact hP.pure _
    | block here body =>
      rw [Eval.stmt]
      exact hP.stmts hchildren
    | assign here name value =>
      have hvalue := hexprs.1 value (by simp [Stmt.exprs])
      rw [Eval.stmt]
      exact hP.located (hP.bind hvalue fun _ => hP.assign name _) here
    | expr here value =>
      have hvalue := hexprs.1 value (by simp [Stmt.exprs])
      rw [Eval.stmt]
      exact hP.located (hP.map hvalue _) here
    | function here name namePlace parameters body =>
      rw [Eval.stmt]
      exact hdeclare.1 _ rfl
    | result here value =>
      have hvalue := hexprs.1 value (by simp [Stmt.exprs])
      rw [Eval.stmt]
      exact hP.located (hP.bind hvalue fun _ => hP.record _) here
    | text here value =>
      have hvalue := hexprs.1 value (by simp [Stmt.exprs])
      rw [Eval.stmt]
      exact hP.located (hP.writeContent hvalue fun _ => hP.edit _) here
    | attachment here value =>
      have hvalue := hexprs.1 value (by simp [Stmt.exprs])
      rw [Eval.stmt]
      exact hP.located (hP.attach hvalue fun _ => hP.edit _) here
    | embed here parts =>
      have hparts := List.forall_mem_flatMap.1 hexprs.1
      rw [Eval.stmt]
      exact hP.forM fun part hpart => hP.embedPart (hparts part hpart) fun _ _ => hP.edit _
    | branch | forLoop | foreach | whileLoop | doWhile =>
      rw [stmt_of_opensScope call rounds rfl]
      exact hopened

end Eval
end MessageTemplate
