import MessageTemplate.Proofs.Resolution.Shape

/-!
# Where faults are

A tree has a fault if a literal anywhere in it has no value or if a function
that is always there is declared anywhere in it, whether this is ever run or
not. So a tree that is ready declares none of these functions.
-/

namespace MessageTemplate

namespace Stmt

variable {file : String} {error : CompileError}

/-- The fault of a statement itself, not of what is inside it. -/
def fault? (file : String) : SourceStmt → Option CompileError
  | .function _ name namePlace _ _ => declarationFault? file namePlace name
  | _ => none

/-- The only fault of its own is to declare a function that is always there. -/
theorem fault?_eq_some_iff {s : SourceStmt} : s.fault? file = some error ↔
    ∃ place name namePlace parameters body, s = .function place name namePlace parameters body ∧
      isSystemFunction name = true ∧ error = ⟨.reboundFunction name, some ⟨file, namePlace⟩⟩ := by
  constructor
  · intro hfault
    cases s with
    | function place name namePlace parameters body =>
      rw [fault?, declarationFault?] at hfault
      split at hfault
      · rename_i hname
        exact ⟨place, name, namePlace, parameters, body, rfl, hname, (Option.some.inj hfault).symm⟩
      · contradiction
    | _ => contradiction
  · rintro ⟨place, name, namePlace, parameters, body, rfl, hname, rfl⟩
    rw [fault?, declarationFault?, if_pos hname]

/-- A fault of a statement is its own, or one of an expression or of a statement right inside. -/
theorem mem_faults_iff_inside {s : SourceStmt} : error ∈ s.faults file ↔
    (∃ e ∈ s.exprs, error ∈ e.faults file) ∨ s.fault? file = some error ∨
      ∃ child ∈ s.children, error ∈ child.faults file := by
  cases s with
  | block place body => simp [faults, faultsOfAll_eq, exprs, children, fault?]
  | function place name namePlace parameters body => simp [faults, exprs, children, fault?]
  | branch place test yes no =>
    simp [faults, faultsOf?_eq, exprs, children, fault?]
  | forLoop place init check step body =>
    simp [faults, faultsOf?_eq, exprs, children, fault?]
    grind
  | doWhile place body test =>
    simp [faults, exprs, children, fault?]
    exact or_comm
  | embed place parts =>
    simp [faults, exprs, children, fault?]
    grind
  | _ => simp [faults, exprs, children, fault?]

/-- The faults of a statement are those of the expressions anywhere in it and those of the
declarations anywhere in it. -/
theorem mem_faults_iff {s : SourceStmt} : error ∈ s.faults file ↔
    (∃ e ∈ s.allExprs, error ∈ e.faults file) ∨
      ∃ node ∈ s.nodes, node.fault? file = some error := by
  induction s using Stmt.induct with
  | step s ih =>
    have hinside : (∃ child ∈ s.children, error ∈ child.faults file) ↔
        ∃ child ∈ s.children, (∃ e ∈ child.allExprs, error ∈ e.faults file) ∨
          ∃ node ∈ child.nodes, node.fault? file = some error :=
      exists_congr fun child => and_congr_right (ih child)
    rw [mem_faults_iff_inside, hinside, allExprs_eq, nodes_eq]
    simp only [List.mem_append, List.mem_cons, List.mem_flatMap]
    grind

/-- A declaration has a fault of its own if its name is taken. -/
theorem fault?_eq_none_iff (s : SourceStmt) :
    s.fault? file = none ↔ ∀ name ∈ s.declaredName?, isSystemFunction name = false := by
  cases s <;> simp [fault?, declarationFault?, declaredName?]

theorem faults_eq_nil_iff {s : SourceStmt} : s.faults file = [] ↔
    (∀ e ∈ s.allExprs, e.faults file = []) ∧
      ∀ name ∈ s.declaredNames, isSystemFunction name = false := by
  have hdeclared : (∀ node ∈ s.nodes, node.fault? file = none) ↔
      ∀ name ∈ s.declaredNames, isSystemFunction name = false := by
    simp only [fault?_eq_none_iff, declaredNames, List.mem_filterMap, Option.mem_def]
    grind
  rw [← hdeclared]
  simp only [List.eq_nil_iff_forall_not_mem, mem_faults_iff, Option.eq_none_iff_forall_ne_some]
  grind

end Stmt

namespace Resolve

variable {α : Type} {file : String}

/-- Something is made. -/
def Accepted (result : Resolved α) : Prop := ∃ value, result = .ok value

/-- Nothing is made unless the condition holds. -/
def Requires (P : Prop) (result : Resolved α) : Prop := Accepted result → P

theorem Reports.accepted_iff {faults : List CompileError} {made : α} {result : Resolved α}
    (h : Reports faults made result) : Accepted result ↔ faults = [] := by
  simp [Accepted, h.eq_ok_iff]

/-- No function that is always there is declared anywhere in a statement that is not refused. -/
theorem stmt_requires_declaredNames (s : SourceStmt) :
    Requires (∀ name ∈ s.declaredNames, isSystemFunction name = false) (stmt file s) :=
  fun hstmt => (Stmt.faults_eq_nil_iff.1 ((stmt_reports s).accepted_iff.1 hstmt)).2

end Resolve
end MessageTemplate
