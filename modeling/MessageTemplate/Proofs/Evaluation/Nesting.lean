import MessageTemplate.Proofs.Evaluation.Reach
import MessageTemplate.Proofs.Tree.Marks

/-!
# Activities inside activities

An activity starts others for what is right inside its tree, and calls of
functions that it finds in the state. Each of them is smaller, or has a smaller
allowance, so there is an induction on activities. What a script may do is said
once for all scripts by a few rules, which each script obeys.
-/

namespace MessageTemplate
namespace Activity

/-- The first activity is started by the second one, for what is right inside it. -/
inductive IsUnder : Activity → Activity → Prop
  | operand {allowance : Nat} {e child : Term} (h : child ∈ e.children) :
      IsUnder (.term allowance child) (.term allowance e)
  | call {allowance : Nat} {e : Term} {f : Function} {arguments : List Value}
      {enough : f.parameters.length ≤ arguments.length} :
      IsUnder (.call allowance f arguments enough) (.term (allowance + 1) e)
  | body {allowance : Nat} {f : Function} {arguments : List Value}
      {enough : f.parameters.length ≤ arguments.length} {body : Code} (h : f.body = .code body) :
      IsUnder (.stmt allowance allowance body) (.call allowance f arguments enough)
  | expr {allowance rounds : Nat} {s : Code} {e : Term} (h : e ∈ s.exprs) :
      IsUnder (.term allowance e) (.stmt allowance rounds s)
  | child {allowance rounds : Nat} {s child : Code} (h : child ∈ s.children) :
      IsUnder (.stmt allowance rounds child) (.stmt allowance rounds s)
  | part {allowance rounds : Nat} {here : Location} {parts : List (EmbedPart Term Location)}
      {p : EmbedPart Term Location} (h : p ∈ parts) :
      IsUnder (.part allowance p) (.stmt allowance rounds (.embed here parts))
  | partExpr {allowance : Nat} {p : EmbedPart Term Location} {e : Term} (h : e ∈ p.exprs) :
      IsUnder (.term allowance e) (.part allowance p)
  | field {allowance : Nat} {p : EmbedPart Term Location} {spec : FieldSpec Term Location}
      (h : spec ∈ p.body.specs) : IsUnder (.field allowance spec) (.part allowance p)
  | item {allowance : Nat} {code : List Code} {s : Code} (h : s ∈ code) :
      IsUnder (.stmt allowance allowance s) (.program allowance code)
  | fieldExpr {allowance : Nat} {spec : FieldSpec Term Location} {e : Term} (h : e ∈ spec.exprs) :
      IsUnder (.term allowance e) (.field allowance spec)

section

variable {motive : Activity → Prop}
  (step : ∀ activity : Activity,
    (∀ inner : Activity, inner.IsUnder activity → motive inner) → motive activity)
include step

theorem field_induct {allowance : Nat} (hterm : ∀ e, motive (.term allowance e))
    (spec : FieldSpec Term Location) : motive (.field allowance spec) := by
  apply step
  intro inner hinner
  cases hinner with
  | fieldExpr he => exact hterm _

theorem part_induct {allowance : Nat} (hterm : ∀ e, motive (.term allowance e))
    (p : EmbedPart Term Location) : motive (.part allowance p) := by
  apply step
  intro inner hinner
  cases hinner with
  | partExpr he => exact hterm _
  | field hspec => exact field_induct step hterm _

theorem stmt_induct {allowance : Nat} (hterm : ∀ e, motive (.term allowance e)) (rounds : Nat)
    (s : Code) : motive (.stmt allowance rounds s) := by
  induction s using Stmt.induct with
  | step s ih =>
    apply step
    intro inner hinner
    cases hinner with
    | expr he => exact hterm _
    | child hchild => exact ih _ hchild
    | part hpart => exact part_induct step hterm _

theorem call_induct {allowance : Nat} (hterm : ∀ e, motive (.term allowance e)) (f : Function)
    (arguments : List Value) (enough : f.parameters.length ≤ arguments.length) :
    motive (.call allowance f arguments enough) := by
  apply step
  intro inner hinner
  cases hinner with
  | body hbody => exact stmt_induct step hterm allowance _

/-- Calls take from the allowance; everything else is a smaller part of a tree. -/
theorem term_induct (allowance : Nat) (e : Term) : motive (.term allowance e) := by
  induction allowance generalizing e with
  | zero =>
    induction e using Expr.induct with
    | step e ih =>
      apply step
      intro inner hinner
      cases hinner with
      | operand hchild => exact ih _ hchild
  | succ allowance ihAllowance =>
    induction e using Expr.induct with
    | step e ih =>
      apply step
      intro inner hinner
      cases hinner with
      | operand hchild => exact ih _ hchild
      | call => exact call_induct step ihAllowance _ _ _

@[elab_as_elim]
theorem induct (activity : Activity) : motive activity := by
  have hterm := fun allowance e => term_induct step allowance e
  cases activity with
  | term allowance e => exact hterm allowance e
  | stmt allowance rounds s => exact stmt_induct step (hterm allowance) rounds s
  | part allowance p => exact part_induct step (hterm allowance) p
  | field allowance spec => exact field_induct step (hterm allowance) spec
  | call allowance f arguments enough => exact call_induct step (hterm allowance) f arguments enough
  | program allowance code =>
    apply step
    intro inner hinner
    cases hinner with
    | item hs => exact stmt_induct step (hterm allowance) allowance _

end

end Activity
end MessageTemplate
