import MessageTemplate.Evaluation.Stmt
import MessageTemplate.Proofs.Message.Edits
import MessageTemplate.Proofs.Tree.Nodes

/-!
# Writes of a message statement

A message statement is a row of writes, one after another: one to the content,
one to the attachments, or one for each part of the embed. Each write has one
target.
-/

namespace MessageTemplate

/-- What is written to the message in one piece of the source. -/
inductive Write
  | content (place : Location) (value : Term)
  | attachment (place : Location) (value : Term)
  | part (p : EmbedPart Term Location)

namespace Write

def exprs : Write → List Term
  | .content _ value | .attachment _ value => [value]
  | .part p => p.exprs

def target : Write → Target
  | .content _ _ => .content
  | .attachment _ _ => .attachments
  | .part p => p.body.target

/-- The fields that a write describes as a whole. -/
def specs : Write → List (FieldSpec Term Location)
  | .content _ _ | .attachment _ _ => []
  | .part p => p.body.specs

def run (call : Eval.Caller) : Write → Eval Unit
  | .content here value => Eval.located here (Eval.writeContent call value)
  | .attachment here value => Eval.located here (Eval.attach call value)
  | .part p => Eval.embedPart call p

/-! ## Rows of writes -/

/-- Two rows have the same writes to each target, in the same order. -/
def SameForEach (first second : List Write) : Prop :=
  ∀ target, first.filter (fun w => w.target = target) = second.filter (fun w => w.target = target)

theorem SameForEach.mem {first second : List Write} (h : SameForEach first second) {w : Write}
    (hw : w ∈ second) : w ∈ first := by
  have hfilter : w ∈ first.filter fun x => x.target = w.target := by
    rw [h w.target]
    exact List.mem_filter.2 ⟨hw, by simp⟩
  exact (List.mem_filter.1 hfilter).1

/-- The first write of a row is found in the other one behind writes to other targets. -/
theorem SameForEach.exists_split {w : Write} {first second : List Write}
    (h : SameForEach (w :: first) second) :
    ∃ front back, second = front ++ w :: back ∧ (∀ x ∈ front, x.target ≠ w.target) ∧
      SameForEach first (front ++ back) := by
  have hhead : second.filter (fun x => x.target = w.target) =
      w :: first.filter fun x => x.target = w.target := by
    rw [← h w.target, List.filter_cons_of_pos (by simp)]
  obtain ⟨front, back, rfl, hfront, -, hback⟩ := List.filter_eq_cons_iff.1 hhead
  refine ⟨front, back, rfl, by simpa using hfront, fun target => ?_⟩
  have hsame := h target
  rw [List.filter_append] at hsame ⊢
  by_cases htarget : w.target = target
  · subst htarget
    rw [← hback, List.filter_eq_nil_iff.2 hfront]
    rfl
  · rwa [List.filter_cons_of_neg (by simpa using htarget),
      List.filter_cons_of_neg (by simpa using htarget)] at hsame

end Write

namespace Stmt

/-- A statement that writes the message, and does nothing else. -/
def isMessage : Code → Bool
  | .text _ _ | .attachment _ _ | .embed _ _ => true
  | _ => false

def writes : Code → List Write
  | .text here value => [.content here value]
  | .attachment here value => [.attachment here value]
  | .embed _ parts => parts.map .part
  | _ => []

/-- The expressions of a write belong to the statement. -/
theorem mem_exprs (s : Code) {w : Write} (hw : w ∈ s.writes) {e : Term} (he : e ∈ w.exprs) :
    e ∈ s.exprs := by
  cases s with
  | text | attachment =>
    obtain rfl := List.mem_singleton.1 hw
    exact he
  | embed here parts =>
    obtain ⟨p, hp, rfl⟩ := List.mem_map.1 hw
    exact List.mem_flatMap.2 ⟨p, hp, he⟩
  | _ => contradiction

end Stmt

namespace Eval

variable (call : Caller) (rounds : Nat)

/-- A message statement does its writes and nothing else. -/
theorem stmt_of_isMessage {s : Code} (h : s.isMessage = true) :
    stmt call rounds s = s.writes.forM (Write.run call) := by
  cases s with
  | text | attachment => simp [stmt, Stmt.writes, Write.run]
  | embed => simp [stmt, Stmt.writes, Write.run]
  | _ => contradiction

theorem stmts_of_isMessage {body : List Code} (h : ∀ s ∈ body, s.isMessage = true) :
    stmts call rounds body = (body.flatMap Stmt.writes).forM (Write.run call) := by
  induction body with
  | nil => rfl
  | cons s body ih =>
    rw [List.forall_mem_cons] at h
    rw [stmts, ih h.2, stmt_of_isMessage call rounds h.1, List.flatMap_cons]
    exact List.forM_append.symm

end Eval
end MessageTemplate
