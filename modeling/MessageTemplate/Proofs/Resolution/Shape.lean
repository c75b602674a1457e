import MessageTemplate.Proofs.Tree.Names
import MessageTemplate.Resolution.Tree

/-!
# What becomes of a tree that is made ready

The faults of a tree are its literals without a value and its declarations of
functions that are always there, in the order in which they are written. Making
the tree ready reports the first of them (`stmt_reports`). A tree without faults
becomes the same tree with a value in place of each literal and a location in
place of each position, so it uses the names of the tree that was read.
-/

namespace MessageTemplate

/-- The value of a literal. One without a value is refused; here it stands for null. -/
def Literal.denoted (literal : Literal) : Value := literal.value.toOption.getD .null

/-- Why a literal has no value. -/
def Literal.fault? (literal : Literal) : Option CompileFault :=
  match literal.value with
  | .ok _ => none
  | .error fault => some fault

namespace Expr

/-- The expression with the values of its literals and with locations in the text `file`. -/
def ready (file : String) : SourceExpr → Term := map Literal.denoted (Location.mk file)

/-- The fault of a node itself. -/
def fault? (file : String) : SourceExpr → Option CompileError
  | .literal place value => value.fault?.map fun fault => ⟨fault, some ⟨file, place⟩⟩
  | _ => none

/-- The faults anywhere in an expression. -/
def faults (file : String) (e : SourceExpr) : List CompileError := e.nodes.filterMap (fault? file)

theorem faults_eq (file : String) (e : SourceExpr) :
    e.faults file = (e.fault? file).toList ++ e.children.flatMap (faults file) := by
  rw [faults, nodes_eq, List.filterMap_cons, List.filterMap_flatMap]
  cases e.fault? file <;> rfl

end Expr

namespace Stmt

/-- The statement with the values of its literals and with locations in the text `file`. -/
def ready (file : String) : SourceStmt → Code := map (Expr.ready file) (Location.mk file)

/-- The fault of declaring a function under a name that stands at a place. -/
def declarationFault? (file : String) (place : Position) (name : String) : Option CompileError :=
  if isSystemFunction name then some ⟨.reboundFunction name, some ⟨file, place⟩⟩ else none

mutual

/-- The faults anywhere in a statement. -/
def faults (file : String) : SourceStmt → List CompileError
  | .empty _ => []
  | .block _ body => faultsOfAll file body
  | .assign _ _ value | .expr _ value | .result _ value | .text _ value | .attachment _ value =>
    value.faults file
  | .function _ name namePlace _ body =>
    (declarationFault? file namePlace name).toList ++ body.faults file
  | .branch _ test yes no => test.faults file ++ (yes.faults file ++ faultsOf? file no)
  | .forLoop _ init check step body =>
    faultsOf? file init ++ (check.toList.flatMap (Expr.faults file) ++
      (faultsOf? file step ++ body.faults file))
  | .foreach _ _ iterable body => iterable.faults file ++ body.faults file
  | .whileLoop _ test body => test.faults file ++ body.faults file
  | .doWhile _ body test => body.faults file ++ test.faults file
  | .embed _ parts => parts.flatMap fun part => part.exprs.flatMap (Expr.faults file)

def faultsOfAll (file : String) : List SourceStmt → List CompileError
  | [] => []
  | first :: rest => first.faults file ++ faultsOfAll file rest

def faultsOf? (file : String) : Option SourceStmt → List CompileError
  | none => []
  | some s => s.faults file

end

theorem faultsOfAll_eq (file : String) (body : List SourceStmt) :
    faultsOfAll file body = body.flatMap (faults file) := by
  induction body with
  | nil => rfl
  | cons s body ih => rw [faultsOfAll, ih, List.flatMap_cons]

theorem faultsOf?_eq (file : String) (s? : Option SourceStmt) :
    faultsOf? file s? = s?.toList.flatMap (faults file) := by
  cases s? <;> simp [faultsOf?]

end Stmt

namespace Resolve

variable {α β γ : Type} {file : String}

/-- The first of the faults, or what is made if there are none. -/
def firstOr (made : α) : List CompileError → Resolved α
  | [] => .ok made
  | error :: _ => .error error

/-- The result is the first of the faults, or what is made if there are none. -/
def Reports (faults : List CompileError) (made : α) (result : Resolved α) : Prop :=
  result = firstOr made faults

namespace Reports

theorem ok (made : α) : Reports [] made (.ok made) := rfl

theorem bind {faults more : List CompileError} {made : α} {whole : β} {result : Resolved α}
    {next : α → Resolved β} (h : Reports faults made result)
    (hnext : Reports more whole (next made)) :
    Reports (faults ++ more) whole (result >>= next) := by
  rw [h]
  cases faults with
  | nil => exact hnext
  | cons error faults => rfl

/-- One thing is made, and something of it. -/
theorem build {faults : List CompileError} {made : α} {result : Resolved α}
    (h : Reports faults made result) (wrap : α → β) :
    Reports faults (wrap made) (do return wrap (← result)) := by
  rw [h]
  cases faults <;> rfl

theorem mapM {values : List α} {faults : α → List CompileError} {make : α → β}
    {f : α → Resolved β} (h : ∀ value ∈ values, Reports (faults value) (make value) (f value)) :
    Reports (values.flatMap faults) (values.map make) (values.mapM f) := by
  induction values with
  | nil => exact ok _
  | cons value values ih =>
    rw [List.forall_mem_cons] at h
    rw [List.mapM_cons, List.flatMap_cons]
    exact h.1.bind ((ih h.2).build fun rest => make value :: rest)

theorem eq_ok_iff {faults : List CompileError} {made value : α} {result : Resolved α}
    (h : Reports faults made result) : result = .ok value ↔ faults = [] ∧ value = made := by
  rw [h]
  cases faults <;> simp [firstOr, eq_comm]

theorem mem_of_error {faults : List CompileError} {made : α} {result : Resolved α}
    (h : Reports faults made result) {error : CompileError} (herror : result = .error error) :
    error ∈ faults := by
  rw [h] at herror
  cases faults with
  | nil => contradiction
  | cons first faults =>
    obtain rfl := Except.error.inj herror
    exact List.mem_cons_self

end Reports

/-! ## Expressions -/

theorem exprs_eq_mapM (items : List SourceExpr) : exprs file items = items.mapM (expr file) := by
  induction items with
  | nil => rfl
  | cons e items ih => rw [exprs, ih, List.mapM_cons]

theorem literal_reports (place : Position) (value : Literal) :
    Reports (Expr.fault? file (.literal place value)).toList value.denoted
      (literal file place value) := by
  rw [literal, Expr.fault?, Literal.fault?, Literal.denoted]
  cases value.value <;> rfl

theorem expr_reports (e : SourceExpr) : Reports (e.faults file) (e.ready file) (expr file e) := by
  induction e using Expr.induct with
  | step e ih =>
    rw [Expr.faults_eq]
    cases e with
    | literal place value =>
      rw [Expr.children, List.flatMap_nil, List.append_nil]
      exact (literal_reports place value).build _
    | var place name => exact .ok _
    | list place items =>
      rw [expr, exprs_eq_mapM, Expr.ready, Expr.map, Expr.mapAll_eq]
      exact (Reports.mapM ih).build _
    | call place name arguments =>
      rw [expr, exprs_eq_mapM, Expr.ready, Expr.map, Expr.mapAll_eq]
      exact (Reports.mapM ih).build _
    | unary place op operand =>
      rw [expr, Expr.children, List.flatMap_singleton]
      exact (ih operand (by simp [Expr.children])).build _
    | binary place op left right =>
      rw [expr, Expr.children, List.flatMap_cons, List.flatMap_singleton]
      apply (ih left (by simp [Expr.children])).bind
      exact (ih right (by simp [Expr.children])).build _

theorem expr?_reports (value : Option SourceExpr) :
    Reports (value.toList.flatMap (Expr.faults file)) (value.map (Expr.ready file))
      (expr? file value) := by
  cases value with
  | none => exact .ok _
  | some e =>
    rw [Option.toList_some, List.flatMap_singleton]
    exact (expr_reports e).build some

/-! ## Parts of an embed -/

theorem sectionBody_reports {F F' K : Type} {ready : F → F'} {flow : F → Resolved F'}
    {exprs : F → List SourceExpr}
    (hflow : ∀ values, Reports ((exprs values).flatMap (Expr.faults file)) (ready values)
      (flow values)) (body : Section F K SourceExpr) :
    Reports ((body.exprs exprs).flatMap (Expr.faults file)) (body.map ready (Expr.ready file))
      (sectionBody file flow body) := by
  cases body with
  | flow values => exact (hflow values).build _
  | object written =>
    have hentries : Reports (written.flatMap fun entry => entry.2.faults file)
        (written.map fun entry => (entry.1, entry.2.ready file)) (entries file written) :=
      .mapM fun entry _ => (expr_reports entry.2).build fun value => (entry.1, value)
    rw [Section.exprs, List.flatMap_map]
    exact hentries.build _
  | property key value =>
    rw [Section.exprs, List.flatMap_singleton]
    exact (expr_reports value).build _

theorem authorFlow_reports (flow : AuthorFlow SourceExpr) :
    Reports (flow.exprs.flatMap (Expr.faults file)) (flow.map (Expr.ready file))
      (authorFlow file flow) := by
  rw [AuthorFlow.exprs, List.flatMap_cons, List.flatMap_append]
  apply (expr_reports flow.name).bind
  apply (expr?_reports flow.url).bind
  exact (expr?_reports flow.icon).build _

theorem footerFlow_reports (flow : FooterFlow SourceExpr) :
    Reports (flow.exprs.flatMap (Expr.faults file)) (flow.map (Expr.ready file))
      (footerFlow file flow) := by
  rw [FooterFlow.exprs, List.flatMap_cons]
  apply (expr_reports flow.text).bind
  exact (expr?_reports flow.icon).build _

theorem fieldSetting_reports (setting : FieldSetting SourceExpr) :
    Reports (setting.exprs.flatMap (Expr.faults file)) (setting.map (Expr.ready file))
      (fieldSetting file setting) := by
  cases setting with
  | title value =>
    rw [FieldSetting.exprs, List.flatMap_singleton]
    exact (expr_reports value).build _
  | text value =>
    rw [FieldSetting.exprs, List.flatMap_singleton]
    exact (expr_reports value).build _
  | inline value => exact .ok _

theorem fieldSpec_reports (spec : FieldSpec SourceExpr Position) :
    Reports (spec.exprs.flatMap (Expr.faults file)) (spec.map (Expr.ready file) (Location.mk file))
      (fieldSpec file spec) := by
  cases spec with
  | flow place title text inline =>
    rw [FieldSpec.exprs, List.flatMap_cons, List.flatMap_singleton]
    apply (expr_reports title).bind
    exact (expr_reports text).build _
  | object place settings =>
    rw [FieldSpec.exprs, List.flatMap_assoc]
    exact (Reports.mapM fun setting _ => fieldSetting_reports setting).build _

theorem fieldsBody_reports (body : FieldsBody SourceExpr Position) :
    Reports (body.exprs.flatMap (Expr.faults file)) (body.map (Expr.ready file) (Location.mk file))
      (fieldsBody file body) := by
  cases body with
  | part spec => exact (fieldSpec_reports spec).build _
  | list specs =>
    rw [FieldsBody.exprs, List.flatMap_assoc]
    exact (Reports.mapM fun spec _ => fieldSpec_reports spec).build _
  | property setting => exact (fieldSetting_reports setting).build _

theorem partBody_reports (body : PartBody SourceExpr Position) :
    Reports (body.exprs.flatMap (Expr.faults file)) (body.map (Expr.ready file) (Location.mk file))
      (partBody file body) := by
  cases body with
  | member member value =>
    rw [PartBody.exprs, List.flatMap_singleton]
    exact (expr_reports value).build _
  | author mode body => exact (sectionBody_reports authorFlow_reports body).build _
  | footer mode body => exact (sectionBody_reports footerFlow_reports body).build _
  | fields mode body => exact (fieldsBody_reports body).build _

theorem embedPart_reports (part : EmbedPart SourceExpr Position) :
    Reports (part.exprs.flatMap (Expr.faults file)) (part.map (Expr.ready file) (Location.mk file))
      (embedPart file part) :=
  (partBody_reports part.body).build _

/-! ## Statements -/

theorem checkDeclared_reports (place : Position) (name : String) :
    Reports (Stmt.declarationFault? file place name).toList () (checkDeclared file place name) := by
  rw [checkDeclared, Stmt.declarationFault?]
  split <;> rfl

theorem stmts_eq_mapM (body : List SourceStmt) : stmts file body = body.mapM (stmt file) := by
  induction body with
  | nil => rfl
  | cons s body ih => rw [stmts, ih, List.mapM_cons]

theorem stmt?_reports (s? : Option SourceStmt)
    (h : ∀ s ∈ s?.toList, Reports (s.faults file) (s.ready file) (stmt file s)) :
    Reports (Stmt.faultsOf? file s?) (Stmt.map? (Expr.ready file) (Location.mk file) s?)
      (stmt? file s?) := by
  cases s? with
  | none => exact .ok _
  | some s => exact (h s (by simp)).build some

/-- Making a statement ready reports its first fault. Without faults it gives the statement with all
literals and positions replaced. -/
theorem stmt_reports (s : SourceStmt) :
    Reports (s.faults file) (s.ready file) (stmt file s) := by
  induction s using Stmt.induct with
  | step s ih =>
    cases s with
    | empty place => exact .ok _
    | block place body =>
      rw [stmt, stmts_eq_mapM, Stmt.ready, Stmt.map, Stmt.mapAll_eq, Stmt.faults,
        Stmt.faultsOfAll_eq]
      exact (Reports.mapM ih).build _
    | assign place name value => exact (expr_reports value).build _
    | expr place value => exact (expr_reports value).build _
    | result place value => exact (expr_reports value).build _
    | text place value => exact (expr_reports value).build _
    | attachment place value => exact (expr_reports value).build _
    | function place name namePlace parameters body =>
      rw [stmt, Stmt.faults]
      apply (checkDeclared_reports namePlace name).bind
      exact (ih body (by simp [Stmt.children])).build _
    | branch place test yes no =>
      have hno := stmt?_reports no fun s hs => ih s (by simp [Stmt.children, hs])
      rw [stmt, Stmt.faults]
      apply (expr_reports test).bind
      apply (ih yes (by simp [Stmt.children])).bind
      exact hno.build _
    | forLoop place init check step body =>
      have hinit := stmt?_reports init fun s hs => ih s (by simp [Stmt.children, hs])
      have hstep := stmt?_reports step fun s hs => ih s (by simp [Stmt.children, hs])
      rw [stmt, Stmt.faults]
      apply hinit.bind
      apply (expr?_reports check).bind
      apply hstep.bind
      exact (ih body (by simp [Stmt.children])).build _
    | foreach place name iterable body =>
      rw [stmt, Stmt.faults]
      apply (expr_reports iterable).bind
      exact (ih body (by simp [Stmt.children])).build _
    | whileLoop place test body =>
      rw [stmt, Stmt.faults]
      apply (expr_reports test).bind
      exact (ih body (by simp [Stmt.children])).build _
    | doWhile place body test =>
      rw [stmt, Stmt.faults]
      apply (ih body (by simp [Stmt.children])).bind
      exact (expr_reports test).build _
    | embed place parts =>
      rw [stmt, Stmt.faults]
      exact (Reports.mapM fun part _ => embedPart_reports part).build _

/-! ## What is not refused -/

/-- What is not refused becomes just this. -/
def Makes (made : α) (result : Resolved α) : Prop := ∀ value, result = .ok value → value = made

theorem Reports.makes {faults : List CompileError} {made : α} {result : Resolved α}
    (h : Reports faults made result) : Makes made result :=
  fun _ hvalue => (h.eq_ok_iff.1 hvalue).2

theorem expr_makes (e : SourceExpr) : Makes (e.ready file) (expr file e) := (expr_reports e).makes

theorem stmt_makes (s : SourceStmt) : Makes (s.ready file) (stmt file s) := (stmt_reports s).makes

end Resolve
end MessageTemplate
