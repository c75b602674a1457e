import Mathlib.Data.List.Basic
import MessageTemplate.Evaluation.Code
import MessageTemplate.Proofs.Tree.Nodes

/-!
# The names that a tree uses

A variable is read, and a function called, by the name that stands in a node.
Other literals and other marks leave these names as they are.
-/

namespace MessageTemplate

variable {L M P Q E F : Type}

/-- The names that may be read as variables, and those of functions that may be called. -/
structure Names where
  reads : String → Prop
  calls : String → Prop

/-! ## Expressions -/

namespace Expr

/-- The variable that a node itself reads. -/
def readName? : Expr L P → Option String
  | .var _ name => some name
  | _ => none

/-- The function that a node itself calls. -/
def calledName? : Expr L P → Option String
  | .call _ name _ => some name
  | _ => none

def readNames (e : Expr L P) : List String := e.nodes.filterMap readName?

def calledNames (e : Expr L P) : List String := e.nodes.filterMap calledName?

theorem calledNames_eq (e : Expr L P) :
    e.calledNames = e.calledName?.toList ++ e.children.flatMap calledNames := by
  rw [calledNames, nodes_eq, List.filterMap_cons, List.filterMap_flatMap]
  cases e.calledName? <;> rfl

/-- All names in the expression are allowed. -/
structure Within (names : Names) (e : Expr L P) : Prop where
  reads : ∀ name ∈ e.readNames, names.reads name
  calls : ∀ name ∈ e.calledNames, names.calls name

mutual

/-- The same expression with other literals and marks. -/
def map (f : L → M) (g : P → Q) : Expr L P → Expr M Q
  | .literal place value => .literal (g place) (f value)
  | .var place name => .var (g place) name
  | .list place items => .list (g place) (mapAll f g items)
  | .call place name arguments => .call (g place) name (mapAll f g arguments)
  | .unary place op operand => .unary (g place) op (operand.map f g)
  | .binary place op left right => .binary (g place) op (left.map f g) (right.map f g)

def mapAll (f : L → M) (g : P → Q) : List (Expr L P) → List (Expr M Q)
  | [] => []
  | first :: rest => first.map f g :: mapAll f g rest

end

variable (f : L → M) (g : P → Q)

theorem mapAll_eq (items : List (Expr L P)) : mapAll f g items = items.map (map f g) := by
  induction items with
  | nil => rfl
  | cons first rest ih => rw [mapAll, ih, List.map_cons]

theorem children_map (e : Expr L P) : (e.map f g).children = e.children.map (map f g) := by
  cases e <;> simp [map, children, mapAll_eq]

theorem readName?_map (e : Expr L P) : (e.map f g).readName? = e.readName? := by
  cases e <;> rfl

theorem calledName?_map (e : Expr L P) : (e.map f g).calledName? = e.calledName? := by
  cases e <;> rfl

/-- What the nodes say is said by the same nodes with other literals and marks. -/
theorem filterMap_nodes_map {α : Type} {p : Expr L P → Option α} {q : Expr M Q → Option α}
    (h : ∀ e, q (e.map f g) = p e) (e : Expr L P) :
    (e.map f g).nodes.filterMap q = e.nodes.filterMap p := by
  induction e using Expr.induct with
  | step e ih =>
    have hinside : ((e.children.map (map f g)).flatMap nodes).filterMap q =
        (e.children.flatMap nodes).filterMap p := by
      rw [List.flatMap_map, List.filterMap_flatMap, List.filterMap_flatMap]
      exact List.flatMap_congr ih
    rw [nodes_eq, nodes_eq, children_map, List.filterMap_cons, List.filterMap_cons, hinside, h]

theorem readNames_map (e : Expr L P) : (e.map f g).readNames = e.readNames :=
  filterMap_nodes_map f g (readName?_map f g) e

theorem calledNames_map (e : Expr L P) : (e.map f g).calledNames = e.calledNames :=
  filterMap_nodes_map f g (calledName?_map f g) e

theorem Within.map {names : Names} {e : Expr L P} (h : e.Within names) :
    (e.map f g).Within names := by
  constructor
  · rw [readNames_map]
    exact h.reads
  · rw [calledNames_map]
    exact h.calls

end Expr

/-! ## The expressions of a mapped tree -/

section

variable (f : E → F) (g : P → Q)

@[simp] theorem AuthorFlow.exprs_map (flow : AuthorFlow E) :
    (flow.map f).exprs = flow.exprs.map f := by
  simp [map, exprs, Option.toList_map]

@[simp] theorem FooterFlow.exprs_map (flow : FooterFlow E) :
    (flow.map f).exprs = flow.exprs.map f := by
  simp [map, exprs, Option.toList_map]

theorem Section.exprs_map {G H K : Type} {flow : G → H} {before : G → List E} {after : H → List F}
    (h : ∀ values, after (flow values) = (before values).map f) (body : Section G K E) :
    (body.map flow f).exprs after = (body.exprs before).map f := by
  cases body <;> simp [map, exprs, h]

@[simp] theorem FieldSetting.exprs_map (setting : FieldSetting E) :
    (setting.map f).exprs = setting.exprs.map f := by
  cases setting <;> rfl

@[simp] theorem FieldSpec.exprs_map (spec : FieldSpec E P) :
    (spec.map f g).exprs = spec.exprs.map f := by
  cases spec <;> simp [map, exprs, List.flatMap_map, List.map_flatMap]

@[simp] theorem FieldsBody.exprs_map (body : FieldsBody E P) :
    (body.map f g).exprs = body.exprs.map f := by
  cases body <;> simp [map, exprs, List.flatMap_map, List.map_flatMap]

@[simp] theorem PartBody.exprs_map (body : PartBody E P) :
    (body.map f g).exprs = body.exprs.map f := by
  cases body with
  | member => rfl
  | author mode body => exact Section.exprs_map f (AuthorFlow.exprs_map f) body
  | footer mode body => exact Section.exprs_map f (FooterFlow.exprs_map f) body
  | fields mode body => exact body.exprs_map f g

theorem Stmt.exprs_map (s : Stmt E P) : (s.map f g).exprs = s.exprs.map f := by
  cases s <;>
    simp [map, exprs, EmbedPart.map, EmbedPart.exprs, Option.toList_map, List.flatMap_map,
      List.map_flatMap]

theorem Stmt.toList_map? (s? : Option (Stmt E P)) :
    (map? f g s?).toList = s?.toList.map (map f g) := by
  cases s? <;> rfl

theorem Stmt.children_map (s : Stmt E P) :
    (s.map f g).children = s.children.map (map f g) := by
  cases s <;> simp [map, children, mapAll_eq, toList_map?]

/-- All expressions anywhere in a statement. -/
def Stmt.allExprs (s : Stmt E P) : List E := s.nodes.flatMap exprs

theorem Stmt.allExprs_eq (s : Stmt E P) : s.allExprs = s.exprs ++ s.children.flatMap allExprs := by
  rw [allExprs, nodes_eq, List.flatMap_cons, List.flatMap_assoc]
  rfl

theorem Stmt.allExprs_map (s : Stmt E P) : (s.map f g).allExprs = s.allExprs.map f := by
  induction s using Stmt.induct with
  | step s ih =>
    rw [allExprs_eq, allExprs_eq, exprs_map, children_map, List.flatMap_map, List.map_append,
      List.map_flatMap, List.flatMap_congr ih]

end

/-! ## Statements and templates -/

/-- All names in the statement are allowed. -/
def Stmt.Within (names : Names) (s : Stmt (Expr L P) P) : Prop :=
  ∀ e ∈ s.allExprs, e.Within names

/-- All names in the body are allowed; the clock is read under the name `now`. -/
def FunctionBody.Within (names : Names) : FunctionBody → Prop
  | .code body => Stmt.Within names body
  | .clock => names.calls "now"

def Function.Within (names : Names) (function : Function) : Prop := function.body.Within names

theorem Function.within_of_system {names : Names} {name : String} {function : Function}
    (hname : names.calls name) (h : systemFunction? name = some function) :
    function.Within names := by
  rw [systemFunction?] at h
  split at h
  · rename_i hnow
    rw [hnow] at hname
    rw [← Option.some.inj h]
    exact hname
  · contradiction

theorem Stmt.within_iff {names : Names} {s : Stmt (Expr L P) P} :
    s.Within names ↔
      (∀ e ∈ s.exprs, e.Within names) ∧ ∀ child ∈ s.children, child.Within names := by
  rw [Within, allExprs_eq, List.forall_mem_append, List.forall_mem_flatMap]
  rfl

theorem Stmt.Within.node {names : Names} {s node : Stmt (Expr L P) P} (h : s.Within names)
    (hnode : node ∈ s.nodes) : node.Within names := by
  induction s using Stmt.induct with
  | step s ih =>
    rw [nodes_eq, List.mem_cons, List.mem_flatMap] at hnode
    rcases hnode with rfl | ⟨child, hchild, hnode⟩
    · exact h
    · exact ih child hchild ((within_iff.1 h).2 child hchild) hnode

/-- All expressions anywhere in an item. -/
def Item.allExprs : Item E P → List E
  | .constant _ _ value => [value]
  | .stmt s => s.allExprs

/-- The names that are read as variables anywhere in a template. -/
def readNames (items : SourceTemplate) : List String :=
  items.flatMap fun i => i.allExprs.flatMap Expr.readNames

/-- The names that are called anywhere in a template. -/
def calledNames (items : SourceTemplate) : List String :=
  items.flatMap fun i => i.allExprs.flatMap Expr.calledNames

/-! ## Declared functions -/

namespace Stmt

/-- The name of the function that a statement itself declares. -/
def declaredName? : Stmt E P → Option String
  | .function _ name _ _ _ => some name
  | _ => none

/-- The names of the functions that are declared anywhere in a statement. -/
def declaredNames (s : Stmt E P) : List String := s.nodes.filterMap declaredName?

theorem declaredNames_eq (s : Stmt E P) :
    s.declaredNames = s.declaredName?.toList ++ s.children.flatMap declaredNames := by
  rw [declaredNames, nodes_eq, List.filterMap_cons, List.filterMap_flatMap]
  cases s.declaredName? <;> rfl

theorem declaredNames_map (f : E → F) (g : P → Q) (s : Stmt E P) :
    (s.map f g).declaredNames = s.declaredNames := by
  induction s using Stmt.induct with
  | step s ih =>
    have hself : (s.map f g).declaredName? = s.declaredName? := by cases s <;> rfl
    rw [declaredNames_eq, declaredNames_eq, children_map, List.flatMap_map, List.flatMap_congr ih,
      hself]

end Stmt

/-- The names of the functions that are declared anywhere in an item. -/
def Item.declaredNames : Item E P → List String
  | .constant _ _ _ => []
  | .stmt s => s.declaredNames

/-- The names of the functions that are declared anywhere in a template, also where nothing runs. -/
def declaredNames (items : SourceTemplate) : List String := items.flatMap Item.declaredNames

end MessageTemplate
