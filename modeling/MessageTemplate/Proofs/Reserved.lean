import MessageTemplate.Proofs.Evaluation.Bare
import MessageTemplate.Proofs.Interference
import MessageTemplate.Proofs.Resolution.Reserved

/-!
# `now` stays what it is

A template that declares a function named `now` anywhere does not compile.
Functions are held under their own names and come from the code of the template
alone, so no scope that a rendering opens ever holds a function of this name,
and a call of `now` gives the time of the rendering.
-/

namespace MessageTemplate

/-! ## Templates that compile -/

namespace Compile

variable {file : String}

theorem item_answers_reserved (allowance : Nat) (i : SourceItem) :
    Answers (fun _ => ∀ name ∈ i.declaredNames, isSystemFunction name = false)
      (item allowance file i) := by
  intro state code after hrun
  cases i with
  | constant place name value => simp [Item.declaredNames]
  | stmt s =>
    rw [item] at hrun
    cases hstmt : Resolve.stmt file s with
    | ok made => exact Resolve.stmt_requires_declaredNames s ⟨made, hstmt⟩
    | error error =>
      rw [hstmt] at hrun
      contradiction

theorem template_answers_reserved (allowance : Nat) (items : SourceTemplate) :
    Answers (fun _ => ∀ name ∈ declaredNames items, isSystemFunction name = false)
      (template allowance file items) := by
  induction items with
  | nil => exact .pure (by simp [declaredNames])
  | cons i items ih =>
    rw [template]
    refine (item_answers_reserved allowance i).bind fun code hfirst => ?_
    refine ih.bind fun rest hrest => .pure ?_
    rw [declaredNames, List.flatMap_cons, List.forall_mem_append]
    exact ⟨hfirst, hrest⟩

end Compile

theorem Item.declaredNames_code (file : String) (i : SourceItem) :
    (i.code file).declaredNames = i.declaredNames := by
  cases i with
  | constant place name value => rfl
  | stmt s => exact Stmt.declaredNames_map _ _ s

/-- A template that compiles is read, its code is that of its items, and it declares none of the
functions that are always there. -/
theorem Template.items_of_compile {allowance : Nat} {name source : String}
    {constants : Table Value} {clock : Calendar.Instant} {template : Template}
    (h : compile allowance name source constants clock = .ok template) :
    ∃ items, parse name source = .ok items ∧ template.code = items.map (Item.code name) ∧
      ∀ x ∈ declaredNames items, isSystemFunction x = false := by
  cases hparse : parse name source with
  | error error =>
    rw [compile_of_parse_error hparse] at h
    contradiction
  | ok items =>
    cases hrun : Compile.template allowance name items (.initial constants clock) with
    | error stop state =>
      rw [compile_of_template_error hparse hrun] at h
      contradiction
    | ok code state =>
      rw [compile_of_template hparse hrun] at h
      obtain rfl := Except.ok.inj h
      exact ⟨items, rfl, Compile.template_answers allowance items _ _ _ hrun,
        Compile.template_answers_reserved allowance items _ _ _ hrun⟩

/-! ## Runs of code that leaves the names reserved -/

/-- The code declares none of the functions that are always there. -/
def Stmt.Spares (s : Code) : Prop := ∀ name ∈ s.declaredNames, isSystemFunction name = false

namespace Function

def BodySpares (f : Function) : Prop := ∀ body, f.body = .code body → body.Spares

/-- The function has no reserved name, and its body spares them too. -/
structure Spares (f : Function) : Prop where
  name : isSystemFunction f.name = false
  body : f.BodySpares

end Function

def Activity.Spares : Activity → Prop
  | .stmt _ _ s => s.Spares
  | .call _ f _ _ => f.BodySpares
  | .program _ code => ∀ s ∈ code, Stmt.Spares s
  | .term _ _ | .part _ _ | .field _ _ => True

theorem Stmt.Spares.child {s child : Code} (h : s.Spares) (hchild : child ∈ s.children) :
    child.Spares := by
  intro name hname
  apply h name
  rw [declaredNames_eq, List.mem_append, List.mem_flatMap]
  exact .inr ⟨child, hchild, hname⟩

theorem Activity.handsOn_spares : HandsOn Spares Function.Spares where
  inside := by
    intro outer inner hunder hspares hcallee
    cases hunder with
    | call => contradiction
    | body hbody => exact hspares _ hbody
    | child hchild => exact Stmt.Spares.child hspares hchild
    | item hs => exact hspares _ hs
    | operand | expr | part | partExpr | field | fieldExpr => trivial
  called := fun hspares _ _ _ => hspares.body
  system := by
    intro name f hsystem allowance arguments enough body hbody
    rw [systemFunction?] at hsystem
    split at hsystem
    · rw [← Option.some.inj hsystem] at hbody
      contradiction
    · contradiction
  declared := by
    intro allowance rounds s f hspares hdeclared
    cases s with
    | function here name namePlace parameters body =>
      obtain rfl := Option.some.inj hdeclared
      constructor
      · apply hspares name
        rw [Stmt.declaredNames_eq]
        exact List.mem_cons_self
      · intro code hcode
        obtain rfl := FunctionBody.code.inj hcode
        exact Stmt.Spares.child hspares (by simp [Stmt.children])
    | _ => contradiction

theorem Template.spares_of_compile {allowance : Nat} {name source : String}
    {constants : Table Value} {clock : Calendar.Instant} {template : Template}
    (h : compile allowance name source constants clock = .ok template) (rounds : Nat) :
    (template.rendering rounds).Spares := by
  obtain ⟨items, -, hcode, hreserved⟩ := items_of_compile h
  intro s hs
  rw [hcode] at hs
  obtain ⟨i, hi, rfl⟩ := List.mem_map.1 hs
  intro x hx
  rw [Item.declaredNames_code] at hx
  exact hreserved x (List.mem_flatMap.2 ⟨i, hi, hx⟩)

/-- At this time, all functions that the scopes hold stand under their own names and spare the
reserved ones. -/
structure State.SparesAt (now : Calendar.Instant) (state : State) : Prop where
  functions : state.Holds fun name f => f.name = name ∧ f.Spares
  clock : state.clock = now

namespace State

variable {now : Calendar.Instant} {state : State}

theorem isInvariant_sparesAt : IsInvariant Function.Spares (SparesAt now) where
  declares := fun h scope hscope name f hf => (h.functions scope hscope name f hf).2
  apply := by
    intro state effect h heffect
    constructor
    · apply h.functions.apply
      cases effect with
      | declare f => exact ⟨rfl, heffect⟩
      | assign | record | edit => trivial
    · cases effect <;> exact h.clock
  enter := fun h kind => ⟨h.functions.enter kind, h.clock⟩
  bound := fun h names values =>
    ⟨h.functions.bound names values, (Eval.bound_same names values _).2.1.trans h.clock⟩
  leave := fun h => ⟨h.functions.leave, h.clock⟩

theorem SparesAt.get?_eq_none (h : state.SparesAt now) {scope : Scope}
    (hscope : scope ∈ state.chain.scopes) {name : String} (hname : isSystemFunction name = true) :
    scope.functions.get? name = none := by
  cases hget : scope.functions.get? name with
  | none => rfl
  | some f =>
    obtain ⟨rfl, hspares⟩ := h.functions scope hscope name f hget
    rw [hspares.name] at hname
    contradiction

theorem SparesAt.of_quiet (h : state.SparesAt now) {after : State} (hquiet : Quiet state after) :
    after.SparesAt now :=
  ⟨h.functions.of_same hquiet.scopes, hquiet.clock.trans h.clock⟩

/-- The function that is always there is found if no scope hides it. -/
theorem SparesAt.function?_now (h : state.SparesAt now) :
    state.function? "now" = some ⟨"now", [], .clock, none⟩ := by
  have hchain : state.chain.function? "now" = none :=
    List.findSome?_eq_none_iff.2 fun scope hscope => h.get?_eq_none hscope rfl
  rw [function?, hchain]
  rfl

end State

theorem Eval.expression_now {now : Calendar.Instant} {state after : State}
    (h : state.SparesAt now) {allowance : Nat} {arguments : List Term} {values : List Value}
    (harguments : terms (callWithin (allowance + 1)) arguments state = .ok values after)
    (here : Location) :
    expression (allowance + 1) (.call here "now" arguments) state = .ok (.instant now) after := by
  have hquiet : Keeps Quiet (terms (callWithin (allowance + 1)) arguments) :=
    (isCompositional_keeps Quiet.isFrame).terms fun e _ =>
      term_quiet (callWithin_quiet (allowance + 1)) e
  have hafter := h.of_quiet (hquiet.of_ok harguments)
  rw [expression, term]
  apply Run.adaptExcept_of_ok
  rw [Run.bind_of_ok harguments, Run.bind_of_ok (function_of_some hafter.function?_now),
    callWithin_now, hafter.clock]

/-- In all states that the rendering of a template passes, no scope holds a function named `now`, so
that a call of `now` gives the time of the rendering and leaves everything as its arguments left it.
A template that declares a function of this name, wherever it does, does not compile. -/
theorem now_never_shadowed (allowance : Nat) (name source : String) (constants : Table Value)
    (clock : Calendar.Instant) :
    (∀ template, Template.compile allowance name source constants clock = .ok template →
      ∀ (rounds : Nat) (now : Calendar.Instant) (state : State),
        (template.rendering rounds).Passes (template.start now) state →
        (∀ scope ∈ state.chain.scopes, scope.functions.contains "now" = false) ∧
        ∀ (inner : Nat) (here : Location) (arguments : List Term) (values : List Value)
          (after : State),
          Eval.terms (Eval.callWithin (inner + 1)) arguments state = .ok values after →
          Eval.expression (inner + 1) (.call here "now" arguments) state =
            .ok (.instant now) after) ∧
    ∀ items, parse name source = .ok items → "now" ∈ declaredNames items →
      ∀ template, Template.compile allowance name source constants clock ≠ .ok template := by
  constructor
  · intro template hcompile rounds now state hpasses
    have hrendering := Template.spares_of_compile hcompile rounds
    have hstart : (template.start now).SparesAt now := ⟨.initial _ _, rfl⟩
    have hstate : state.SparesAt now :=
      Activity.handsOn_spares.passes State.isInvariant_sparesAt hpasses hrendering hstart
    constructor
    · intro scope hscope
      rw [Table.contains, hstate.get?_eq_none hscope rfl]
      rfl
    · intro inner here arguments values after harguments
      exact Eval.expression_now hstate harguments here
  · intro items hparse hnow template hcompile
    obtain ⟨others, hothers, -, hreserved⟩ := Template.items_of_compile hcompile
    obtain rfl := Except.ok.inj (hparse.symm.trans hothers)
    have hsystem := hreserved "now" hnow
    contradiction

/-- A function that calls `now`, and a call of it. -/
def callOfClock : String := "function f(a) \x7b now(a); \x7d f(2);"

/-- A loop without rounds that would declare `now`. -/
def hiddenClock : String := "while (false) \x7b function now() \x7b \x7d \x7d"

theorem now_never_shadowed_callOfClock :
    (∃ template state, Template.compile 1 "t" callOfClock .empty .newMonth = .ok template ∧
      (template.rendering 2).Passes (template.start .newMonth) state ∧
      state.chain.current.functions.contains "f" = true ∧
      (∀ scope ∈ state.chain.scopes, scope.functions.contains "now" = false) ∧
      Eval.expression 1 (.call ⟨"t", .start⟩ "now" [.literal ⟨"t", .start⟩ .null]) state =
        .ok (.instant .newMonth) state) ∧
    ∃ items, parse "t" hiddenClock = .ok items ∧ "now" ∈ declaredNames items ∧
      ∀ template, Template.compile 1 "t" hiddenClock .empty .newMonth ≠ .ok template := by
  obtain ⟨hrendered, -⟩ := now_never_shadowed 1 "t" callOfClock .empty .newMonth
  obtain ⟨-, hrefused⟩ := now_never_shadowed 1 "t" hiddenClock .empty .newMonth
  have hdeclares : ((Template.compile 1 "t" callOfClock .empty .newMonth).toOption.any
      fun template => (Eval.after (template.rendering 2).run
        (template.start .newMonth)).chain.current.functions.contains "f") = true := by
    decide +kernel
  have hnow : ((parse "t" hiddenClock).toOption.any
      fun items => "now" ∈ declaredNames items) = true := by
    decide +kernel
  constructor
  · cases htemplate : Template.compile 1 "t" callOfClock .empty .newMonth with
    | error stop =>
      rw [htemplate] at hdeclares
      contradiction
    | ok template =>
      rw [htemplate] at hdeclares
      obtain ⟨hscopes, hcall⟩ := hrendered template htemplate 2 .newMonth _ (.finished .self)
      exact ⟨template, _, rfl, .finished .self, hdeclares, hscopes, hcall 0 _ _ [.null] _ rfl⟩
  · cases hitems : parse "t" hiddenClock with
    | error error =>
      rw [hitems] at hnow
      contradiction
    | ok items =>
      rw [hitems] at hnow
      have hmem : "now" ∈ declaredNames items := of_decide_eq_true hnow
      exact ⟨items, rfl, hmem, hrefused items hitems hmem⟩

end MessageTemplate
