import MessageTemplate.Proofs.Tree.Names

/-!
# Trees whose marks satisfy a condition

A condition holds of all marks of a tree if it holds of the marks of the root
and of all marks in what is right inside.
-/

namespace MessageTemplate

variable {L M P Q E F : Type} {p : P → Prop}

/-- The condition holds of all marks in the expression. -/
def Expr.Marked (p : P → Prop) (e : Expr L P) : Prop := ∀ node ∈ e.nodes, p node.place

theorem Expr.marked_iff {e : Expr L P} :
    e.Marked p ↔ p e.place ∧ ∀ child ∈ e.children, child.Marked p := by
  rw [Marked, nodes_eq, List.forall_mem_cons, List.forall_mem_flatMap]
  rfl

structure FieldSpec.Marked (p : P → Prop) (spec : FieldSpec (Expr L P) P) : Prop where
  place : p spec.place
  exprs : ∀ e ∈ spec.exprs, e.Marked p

structure EmbedPart.Marked (p : P → Prop) (part : EmbedPart (Expr L P) P) : Prop where
  marks : ∀ place ∈ part.marks, p place
  exprs : ∀ e ∈ part.exprs, e.Marked p

/-- The condition holds of all marks in the statement itself, not of those inside it. -/
structure Stmt.NodeMarked (p : P → Prop) (s : Stmt (Expr L P) P) : Prop where
  marks : ∀ place ∈ s.marks, p place
  exprs : ∀ e ∈ s.exprs, e.Marked p

def Stmt.Marked (p : P → Prop) (s : Stmt (Expr L P) P) : Prop := ∀ node ∈ s.nodes, node.NodeMarked p

theorem Stmt.marked_iff {s : Stmt (Expr L P) P} :
    s.Marked p ↔ s.NodeMarked p ∧ ∀ child ∈ s.children, child.Marked p := by
  rw [Marked, nodes_eq, List.forall_mem_cons, List.forall_mem_flatMap]
  rfl

theorem Stmt.place_mem_marks (s : Stmt (Expr L P) P) : s.place ∈ s.marks := by
  cases s <;> simp [marks, place]

theorem Stmt.NodeMarked.part {here : P} {parts : List (EmbedPart (Expr L P) P)}
    (h : (Stmt.embed here parts).NodeMarked p) {part : EmbedPart (Expr L P) P}
    (hpart : part ∈ parts) :
    part.Marked p := by
  constructor
  · intro place hplace
    apply h.marks
    rw [Stmt.marks, List.mem_cons, List.mem_flatMap]
    exact .inr ⟨part, hpart, hplace⟩
  · intro e he
    apply h.exprs
    rw [Stmt.exprs, List.mem_flatMap]
    exact ⟨part, hpart, he⟩

theorem PartBody.exprs_of_mem_specs {E : Type} {body : PartBody E P} {spec : FieldSpec E P}
    (hspec : spec ∈ body.specs) : ∀ e ∈ spec.exprs, e ∈ body.exprs := by
  intro e he
  cases body with
  | fields mode body =>
    cases body with
    | part field =>
      rw [List.mem_singleton.1 hspec] at he
      exact he
    | list fields => exact List.mem_flatMap.2 ⟨spec, hspec, he⟩
    | property setting => contradiction
  | _ => contradiction

theorem EmbedPart.Marked.field {part : EmbedPart (Expr L P) P} (h : part.Marked p)
    {spec : FieldSpec (Expr L P) P} (hspec : spec ∈ part.body.specs) : spec.Marked p := by
  constructor
  · apply h.marks
    rw [EmbedPart.marks, List.mem_cons, List.mem_map]
    exact .inr ⟨spec, hspec, rfl⟩
  · intro e he
    exact h.exprs e (PartBody.exprs_of_mem_specs hspec e he)

def Item.Marked (p : P → Prop) : Item (Expr L P) P → Prop
  | .constant place _ value => p place ∧ value.Marked p
  | .stmt s => s.Marked p

/-- The condition holds of all marks in the code of a function. -/
def Function.Marked (p : Location → Prop) (f : Function) : Prop :=
  ∀ body, f.body = .code body → Stmt.Marked p body

/-! ## Other marks -/

section

variable {q : Q → Prop} (f : E → F) (g : P → Q)

theorem Expr.place_map (change : L → M) (e : Expr L P) : (e.map change g).place = g e.place := by
  cases e <;> rfl

theorem Expr.Marked.map (change : L → M) {e : Expr L P} (h : e.Marked fun place => q (g place)) :
    (e.map change g).Marked q := by
  induction e using Expr.induct with
  | step e ih =>
    obtain ⟨hplace, hchildren⟩ := marked_iff.1 h
    rw [marked_iff, place_map, children_map, List.forall_mem_map]
    exact ⟨hplace, fun child hchild => ih child hchild (hchildren child hchild)⟩

theorem PartBody.specs_map (body : PartBody E P) :
    (body.map f g).specs = body.specs.map (FieldSpec.map f g) := by
  cases body with
  | fields mode body => cases body <;> rfl
  | _ => rfl

theorem EmbedPart.marks_map (part : EmbedPart E P) : (part.map f g).marks = part.marks.map g := by
  have hplace : FieldSpec.place ∘ FieldSpec.map f g = g ∘ FieldSpec.place := by
    funext spec
    cases spec <;> rfl
  rw [marks, marks, map, PartBody.specs_map, List.map_map, hplace, List.map_cons, List.map_map]

theorem Stmt.marks_map (s : Stmt E P) : (s.map f g).marks = s.marks.map g := by
  cases s with
  | embed place parts => simp [map, marks, List.flatMap_map, List.map_flatMap, EmbedPart.marks_map]
  | _ => rfl

theorem Stmt.Marked.map (change : L → M) {s : Stmt (Expr L P) P}
    (h : s.Marked fun place => q (g place)) : Stmt.Marked q (s.map (Expr.map change g) g) := by
  induction s using Stmt.induct with
  | step s ih =>
    obtain ⟨⟨hmarks, hexprs⟩, hchildren⟩ := marked_iff.1 h
    rw [marked_iff, children_map, List.forall_mem_map]
    refine ⟨⟨?_, ?_⟩, fun child hchild => ih child hchild (hchildren child hchild)⟩
    · rw [marks_map, List.forall_mem_map]
      exact hmarks
    · rw [exprs_map, List.forall_mem_map]
      exact fun e he => (hexprs e he).map g change

end

end MessageTemplate
