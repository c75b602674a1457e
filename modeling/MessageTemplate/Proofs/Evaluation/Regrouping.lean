import MessageTemplate.Proofs.Evaluation.Matching
import MessageTemplate.Proofs.Tree.Regrouping

/-!
# Running regrouped statements

A block, an empty statement and an embed statement do nothing of their own: they
run what they hold, in the same scope and at the same place. Lists of regrouped
statements are therefore similar runs. The functions that they declare are
different, but regrouped in turn, and calling them is similar as well.
-/

namespace MessageTemplate

/-- The same body with its statements regrouped. -/
inductive FunctionBody.Regroups : FunctionBody → FunctionBody → Prop
  | code {body other : Code} (h : Stmt.Regroups [body] [other]) :
      Regroups (.code body) (.code other)
  | clock : Regroups .clock .clock

/-- The same function with the statements of its body regrouped. -/
structure Function.Regroups (first second : Function) : Prop where
  name : first.name = second.name
  parameters : first.parameters = second.parameters
  body : first.body.Regroups second.body
  location : first.location = second.location

namespace Function.Regroups

theorem refl (f : Function) : f.Regroups f where
  name := rfl
  parameters := rfl
  body := by
    cases f.body with
    | code body => exact .code (.refl _)
    | clock => exact .clock
  location := rfl

theorem trans (f g h : Function) (hfg : f.Regroups g) (hgh : g.Regroups h) : f.Regroups h where
  name := hfg.name.trans hgh.name
  parameters := hfg.parameters.trans hgh.parameters
  body := by
    have hfirst := hfg.body
    have hsecond := hgh.body
    generalize f.body = first at hfirst
    generalize g.body = second at hfirst hsecond
    generalize h.body = third at hsecond
    cases hfirst with
    | code hbody =>
      cases hsecond with
      | code hother => exact .code (hbody.trans hother)
    | clock => exact hsecond
  location := hfg.location.trans hgh.location

end Function.Regroups

namespace Eval

open Run (Alike Similar)

/-! ## What a group does -/

section

variable (call : Caller) (rounds : Nat)

theorem stmts_append (first second : List Code) : stmts call rounds (first ++ second) =
    (stmts call rounds first >>= fun _ => stmts call rounds second) := by
  induction first with
  | nil => rfl
  | cons s first ih => rw [List.cons_append, stmts, stmts, ih, bind_assoc]

theorem stmts_singleton (s : Code) : stmts call rounds [s] = stmt call rounds s := by
  simp [stmts]

theorem stmt?_eq_stmts (s? : Option Code) : stmt? call rounds s? = stmts call rounds s?.toList := by
  cases s? with
  | none => rfl
  | some s => exact (stmts_singleton call rounds s).symm

theorem stmt_block (here : Location) (body : List Code) :
    stmt call rounds (.block here body) = stmts call rounds body := by
  rw [stmt]

theorem stmts_split (here : Location) (parts : List (EmbedPart Term Location)) :
    stmts call rounds (parts.map fun part => .embed here [part]) =
      stmt call rounds (.embed here parts) := by
  rw [stmt]
  induction parts with
  | nil => rfl
  | cons part parts ih =>
    have hpart : stmt call rounds (.embed here [part]) = embedPart call part := by
      rw [stmt]
      exact bind_pure_unit
    rw [List.map_cons, stmts, ih, hpart]
    rfl

end

/-! ## Similar blocks and loops -/

section

variable {α : Type} {R : State → State → Prop}

theorem forM_similar {values : List α} {run other : α → Eval PUnit}
    (h : ∀ value, Similar R (run value) (other value)) :
    Similar R (values.forM run) (values.forM other) := by
  induction values with
  | nil => exact Alike.pure _
  | cons value values ih => exact .bind (h value) fun _ => ih

theorem repeatWhile_similar {test : Eval Bool} {body other : Eval Unit} (htest : Alike R test)
    (hbody : Similar R body other) (rounds : Nat) :
    Similar R (repeatWhile test body rounds) (repeatWhile test other rounds) := by
  induction rounds with
  | zero => exact Alike.throw _
  | succ rounds ih =>
    apply Similar.bind htest
    intro goes
    cases goes with
    | false => exact Alike.pure _
    | true => exact .bind hbody fun _ => ih

end

section

-- The relation can be any that blocks respect.

variable {R : State → State → Prop}
  (hblock : ∀ {run other : Eval Unit}, Similar R run other →
    Similar R (inScope .block run) (inScope .block other))
  {call : Caller} {rounds : Nat} {body other : Code}

include hblock

theorem opened_similar {s other : Code} (hs : s.opensScope = true)
    (hother : other.opensScope = true) (hplace : s.place = other.place)
    (h : Similar R (inside call rounds s) (inside call rounds other)) :
    Similar R (stmt call rounds s) (stmt call rounds other) := by
  rw [stmt_of_opensScope call rounds hs, stmt_of_opensScope call rounds hother, hplace]
  exact (hblock h).adaptExcept (stampStop other.place)

theorem branch_similar {here : Location} {test : Term} {no noOther : Option Code}
    (htest : Alike R (condition call test))
    (hyes : Similar R (stmt call rounds body) (stmt call rounds other))
    (hno : Similar R (stmt? call rounds no) (stmt? call rounds noOther)) :
    Similar R (stmt call rounds (.branch here test body no))
      (stmt call rounds (.branch here test other noOther)) := by
  apply opened_similar hblock (by rfl) (by rfl) (by rfl)
  apply Similar.bind htest
  intro goes
  cases goes with
  | false => exact hno
  | true => exact hyes

theorem forLoop_similar {here : Location} {init initOther step stepOther : Option Code}
    {check : Option Term} (hcheck : ∀ test ∈ check, Alike R (condition call test))
    (hinit : Similar R (stmt? call rounds init) (stmt? call rounds initOther))
    (hstep : Similar R (stmt? call rounds step) (stmt? call rounds stepOther))
    (hbody : Similar R (stmt call rounds body) (stmt call rounds other)) :
    Similar R (stmt call rounds (.forLoop here init check step body))
      (stmt call rounds (.forLoop here initOther check stepOther other)) := by
  apply opened_similar hblock (by rfl) (by rfl) (by rfl)
  apply Similar.bind hinit
  intro _
  cases check with
  | none => exact Alike.pure _
  | some check =>
    exact repeatWhile_similar (hcheck check rfl) (.bind hbody fun _ => hstep) rounds

theorem foreach_similar {here : Location} {name : String} {iterable : Term}
    (hiterable : Alike R (term call iterable))
    (hassign : ∀ item, Alike R (assign name item))
    (hbody : Similar R (stmt call rounds body) (stmt call rounds other)) :
    Similar R (stmt call rounds (.foreach here name iterable body))
      (stmt call rounds (.foreach here name iterable other)) := by
  apply opened_similar hblock (by rfl) (by rfl) (by rfl)
  apply Similar.bind hiterable
  intro value
  apply Similar.bind ((isCompositional_alike R).ofExcept (enumerate value))
  intro items
  apply forM_similar
  intro item
  exact .bind (hassign item) fun _ => hbody

theorem whileLoop_similar {here : Location} {test : Term} (htest : Alike R (condition call test))
    (hbody : Similar R (stmt call rounds body) (stmt call rounds other)) :
    Similar R (stmt call rounds (.whileLoop here test body))
      (stmt call rounds (.whileLoop here test other)) := by
  apply opened_similar hblock (by rfl) (by rfl) (by rfl)
  exact repeatWhile_similar htest hbody rounds

theorem doWhile_similar {here : Location} {test : Term} (htest : Alike R (condition call test))
    (hbody : Similar R (stmt call rounds body) (stmt call rounds other)) :
    Similar R (stmt call rounds (.doWhile here body test))
      (stmt call rounds (.doWhile here other test)) := by
  apply opened_similar hblock (by rfl) (by rfl) (by rfl)
  exact .bind hbody fun _ => repeatWhile_similar htest hbody rounds

end

/-! ## Statements -/

section

variable {call : Caller}
  (hcall : ∀ f g, Function.Regroups f g → ∀ values,
    Similar (State.Matches Function.Regroups) (call f values) (call g values))

include hcall

theorem condition_matches (test : Term) :
    Alike (State.Matches Function.Regroups) (condition call test) :=
  allowsActs_matches.condition (term_matches (fun _ f _ => .refl f) hcall test)

theorem stmt_matches (rounds : Nat) (s : Code) :
    Alike (State.Matches Function.Regroups) (stmt call rounds s) :=
  allowsActs_matches.stmt s (fun _ _ e _ => term_matches (fun _ f _ => .refl f) hcall e)
    fun _ _ f _ => declare_matches (.refl f) rfl

/-- Regrouped statements are similar runs. -/
theorem stmts_similar {body other : List Code} (h : Stmt.Regroups body other) (rounds : Nat) :
    Similar (State.Matches Function.Regroups) (stmts call rounds body)
      (stmts call rounds other) := by
  have hblock : ∀ {run other : Eval Unit}, Similar (State.Matches Function.Regroups) run other →
      Similar (State.Matches Function.Regroups) (inScope .block run) (inScope .block other) :=
    fun hrun => inScope_matches hrun .block
  induction h with
  | refl body => exact allowsActs_matches.stmts fun s _ => stmt_matches hcall rounds s
  | trans _ _ ih ihthen => exact .trans (.refl .refl) (.trans Function.Regroups.trans) ih ihthen
  | append _ _ ih ihbehind =>
    rw [stmts_append, stmts_append]
    exact .bind ih fun _ => ihbehind
  | inline here body =>
    rw [stmts_singleton, stmt_block]
    exact allowsActs_matches.stmts fun s _ => stmt_matches hcall rounds s
  | drop here =>
    rw [stmts_singleton, stmt]
    exact Alike.pure _
  | split here parts =>
    rw [stmts_singleton, stmts_split]
    exact stmt_matches hcall rounds _
  | block here _ ih =>
    rw [stmts_singleton, stmts_singleton, stmt_block, stmt_block]
    exact ih
  | function here name namePlace parameters h _ =>
    rw [stmts_singleton, stmts_singleton, stmt, stmt]
    exact declare_matches ⟨rfl, rfl, .code h, rfl⟩ rfl
  | branch here test _ _ ihyes ihno =>
    rw [stmts_singleton, stmts_singleton] at ihyes
    rw [← stmt?_eq_stmts, ← stmt?_eq_stmts] at ihno
    rw [stmts_singleton, stmts_singleton]
    exact branch_similar hblock (condition_matches hcall test) ihyes ihno
  | forLoop here check _ _ _ ihinit ihstep ihbody =>
    rw [stmts_singleton, stmts_singleton] at ihbody
    rw [← stmt?_eq_stmts, ← stmt?_eq_stmts] at ihinit ihstep
    rw [stmts_singleton, stmts_singleton]
    exact forLoop_similar hblock (fun test _ => condition_matches hcall test) ihinit ihstep ihbody
  | foreach here name iterable _ ih =>
    rw [stmts_singleton, stmts_singleton] at ih
    rw [stmts_singleton, stmts_singleton]
    exact foreach_similar hblock (term_matches (fun _ f _ => .refl f) hcall iterable)
      (allowsActs_matches.assign name) ih
  | whileLoop here test _ ih =>
    rw [stmts_singleton, stmts_singleton] at ih
    rw [stmts_singleton, stmts_singleton]
    exact whileLoop_similar hblock (condition_matches hcall test) ih
  | doWhile here test _ ih =>
    rw [stmts_singleton, stmts_singleton] at ih
    rw [stmts_singleton, stmts_singleton]
    exact doWhile_similar hblock (condition_matches hcall test) ih

end

/-! ## Calls and programs -/

theorem functionBody_similar {run : Code → Eval Unit}
    (hrun : ∀ body other, Stmt.Regroups [body] [other] →
      Similar (State.Matches Function.Regroups) (run body) (run other))
    {first second : FunctionBody} (h : first.Regroups second) :
    Similar (State.Matches Function.Regroups) (functionBody run first)
      (functionBody run second) := by
  cases h with
  | code hbody => exact hrun _ _ hbody
  | clock =>
    apply Similar.look
    intro first second hmatches
    rw [hmatches.clock]
    exact allowsActs_matches.record _

/-- Regrouped functions do alike when they are called. -/
theorem callWithin_similar (allowance : Nat) (f g : Function) (h : f.Regroups g)
    (values : List Value) :
    Similar (State.Matches Function.Regroups) (callWithin allowance f values)
      (callWithin allowance g values) := by
  -- The calls inside a body have a smaller allowance than the call of the function.
  induction allowance generalizing f g values with
  | zero => exact Alike.throw _
  | succ allowance ih =>
    have hbody : ∀ body other, Stmt.Regroups [body] [other] →
        Similar (State.Matches Function.Regroups) (stmt (callWithin allowance) allowance body)
          (stmt (callWithin allowance) allowance other) := by
      intro body other hgroups
      rw [← stmts_singleton, ← stmts_singleton]
      exact stmts_similar ih hgroups allowance
    rw [callWithin]
    unfold invoke
    rw [h.parameters]
    split
    · exact Alike.throw _
    · apply inScope_matches
      apply Similar.bind (bindParameters_matches g.parameters values)
      intro _
      exact .bind (functionBody_similar hbody h.body) fun _ => recorded_matches

theorem program_similar (allowance : Nat) {code other : List Code} (h : Stmt.Regroups code other) :
    Similar (State.Matches Function.Regroups) (program allowance code) (program allowance other) :=
  stmts_similar (callWithin_similar allowance) h allowance

end Eval
end MessageTemplate
