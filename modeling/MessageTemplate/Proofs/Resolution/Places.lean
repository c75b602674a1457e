import MessageTemplate.Proofs.Resolution.Reserved
import MessageTemplate.Proofs.Tree.Marks

/-!
# Making trees ready keeps their places

Each location in the tree that is made is the place of the same node in the tree
that was read, and what is refused is refused at the place of a node.
-/

namespace MessageTemplate
namespace Resolve

variable {α : Type} {p : Location → Prop} {q : α → Prop} {file : String}

/-- The result satisfies a condition, or its place, when it is refused, another one. -/
def Settles (p : Location → Prop) (q : α → Prop) : Resolved α → Prop
  | .ok value => q value
  | .error error => ∃ here, error.location = some here ∧ p here

/-- A condition on the places of a text, from one on locations. -/
def inFile (file : String) (p : Location → Prop) (place : Position) : Prop := p ⟨file, place⟩

theorem Reports.settles {faults : List CompileError} {made : α} {result : Resolved α}
    (h : Reports faults made result) (hmade : q made)
    (hfaults : ∀ error ∈ faults, ∃ here, error.location = some here ∧ p here) :
    Settles p q result := by
  rw [h]
  cases faults with
  | nil => exact hmade
  | cons error faults => exact hfaults error List.mem_cons_self

end Resolve

open Resolve

variable {p : Location → Prop} {file : String} {error : CompileError}

/-! ## The places of faults -/

theorem Expr.Marked.location_of_mem_faults {e : SourceExpr} (h : e.Marked (inFile file p))
    (herror : error ∈ e.faults file) : ∃ here, error.location = some here ∧ p here := by
  obtain ⟨node, hnode, herror⟩ := List.mem_filterMap.1 herror
  cases node with
  | literal place value =>
    obtain ⟨fault, -, rfl⟩ := Option.map_eq_some_iff.1 herror
    exact ⟨_, rfl, h _ hnode⟩
  | _ => contradiction

theorem Stmt.Marked.location_of_mem_faults {s : SourceStmt} (h : s.Marked (inFile file p))
    (herror : error ∈ s.faults file) : ∃ here, error.location = some here ∧ p here := by
  rcases Stmt.mem_faults_iff.1 herror with ⟨e, he, herror⟩ | ⟨node, hnode, herror⟩
  · obtain ⟨node, hnode, he⟩ := List.mem_flatMap.1 he
    exact ((h node hnode).exprs e he).location_of_mem_faults herror
  · obtain ⟨place, name, namePlace, parameters, body, rfl, -, rfl⟩ :=
      Stmt.fault?_eq_some_iff.1 herror
    exact ⟨_, rfl, (h _ hnode).marks namePlace (by simp [Stmt.marks])⟩

/-! ## Trees that are made ready -/

namespace Resolve

theorem expr_settles {e : SourceExpr} (h : e.Marked (inFile file p)) :
    Settles p (Expr.Marked p) (expr file e) :=
  (expr_reports e).settles (h.map (Location.mk file) Literal.denoted) fun _ herror =>
    h.location_of_mem_faults herror

theorem stmt_settles {s : SourceStmt} (h : s.Marked (inFile file p)) :
    Settles p (Stmt.Marked p) (stmt file s) :=
  (stmt_reports s).settles (h.map (Location.mk file) Literal.denoted) fun _ herror =>
    h.location_of_mem_faults herror

theorem marked_of_empty {here : Location} (h : p here) : Stmt.Marked p (.empty here : Code) := by
  rw [Stmt.marked_iff]
  exact ⟨⟨List.forall_mem_singleton.2 h, by simp [Stmt.exprs]⟩, by simp [Stmt.children]⟩

end Resolve
end MessageTemplate
