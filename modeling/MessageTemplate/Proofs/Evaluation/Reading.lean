import MessageTemplate.Proofs.Evaluation.Answers

/-!
# Reading expressions

What fills the message evaluates some expressions from left to right and does
nothing besides until all of them have their values. When it fails, it has
evaluated the first few of them, up to one that fails itself or to values that
are refused.
-/

namespace MessageTemplate
namespace Eval

variable {α β : Type} {call : Caller} {exprs first second : List Term}
  {refuses : List Value → Prop} {state mid after : State}

theorem terms_append (call : Caller) (first second : List Term) :
    terms call (first ++ second) = do
      let values ← terms call first
      return values ++ (← terms call second) := by
  induction first with
  | nil =>
    rw [List.nil_append, terms, pure_bind]
    exact (bind_pure _).symm
  | cons e first ih => simp [terms, ih]

theorem terms_append_of_ok {values : List Value} (h : terms call first state = .ok values mid) :
    terms call (first ++ second) state =
      (do return values ++ (← terms call second) : Eval (List Value)) mid := by
  rw [terms_append, Run.bind_of_ok h]

theorem terms_singleton (call : Caller) (e : Term) :
    terms call [e] = (fun value => [value]) <$> term call e := by
  simp [terms]

/-- The first few expressions have been evaluated: the last of them failed, or their values are
refused. -/
def Interrupted (call : Caller) (exprs : List Term) (refuses : List Value → Prop)
    (state after : State) : Prop :=
  ∃ front, front <+: exprs ∧
    ((∃ stop, terms call front state = .error stop after) ∨
      ∃ values, terms call front state = .ok values after ∧ refuses values)

theorem Interrupted.mono (h : Interrupted call first refuses state after)
    (hexprs : first <+: exprs) : Interrupted call exprs refuses state after := by
  obtain ⟨front, hfront, hends⟩ := h
  exact ⟨front, hfront.trans hexprs, hends⟩

/-- Also behind expressions that have their values. -/
theorem Interrupted.behind {values : List Value} (hfirst : terms call first state = .ok values mid)
    (h : Interrupted call second (fun _ => False) mid after) :
    Interrupted call (first ++ second) refuses state after := by
  obtain ⟨front, hfront, ⟨stop, hstop⟩ | ⟨_, _, hrefused⟩⟩ := h
  · refine ⟨first ++ front, (List.prefix_append_right_inj first).2 hfront, .inl ⟨stop, ?_⟩⟩
    rw [terms_append_of_ok hfirst, Run.bind_of_error hstop]
  · exact hrefused.elim

/-- Expressions without calls leave the state alone, also when they do not all get a value. -/
theorem Interrupted.eq_of_isCallFree (h : Interrupted call exprs refuses state after)
    (hfree : ∀ e ∈ exprs, e.IsCallFree) : after = state := by
  obtain ⟨front, hfront, hends⟩ := h
  have hafter : Eval.after (terms call front) state = state :=
    after_terms_of_isCallFree (fun e he => hfree e (hfront.subset he)) state
  obtain ⟨stop, hstop⟩ | ⟨values, hvalues, -⟩ := hends
  · rwa [Eval.after, hstop] at hafter
  · rwa [Eval.after, hvalues] at hafter

/-- A run does something that cannot fail. -/
def Completes (leaves : State → State → Prop) (run : Eval α) : Prop :=
  ∀ state, ∃ answer after, run state = .ok answer after ∧ leaves state after

/-- A run evaluates the expressions from left to right, and what it does besides comes behind. -/
structure Reads (call : Caller) (exprs : List Term) (refuses : List Value → Prop)
    (leaves : State → State → Prop) (run : Eval α) : Prop where
  of_ok : ∀ {state value after}, run state = .ok value after →
    ∃ values mid, terms call exprs state = .ok values mid ∧ leaves mid after
  of_error : ∀ {state stop after}, run state = .error stop after →
    Interrupted call exprs refuses state after

/-- A run that does nothing besides, and refuses no values. -/
abbrev OnlyReads (call : Caller) (exprs : List Term) (run : Eval α) : Prop :=
  Reads call exprs (fun _ => False) Eq run

namespace Reads

variable {leaves : State → State → Prop}

theorem of_completes {run : Eval α} (h : Completes leaves run) :
    Reads call [] refuses leaves run where
  of_ok {state _ _} hrun := by
    obtain ⟨answer, after, hanswer, hleaves⟩ := h state
    obtain ⟨-, rfl⟩ := EStateM.Result.ok.inj (hanswer.symm.trans hrun)
    exact ⟨[], state, rfl, hleaves⟩
  of_error {state _ _} hrun := by
    obtain ⟨answer, after, hanswer, -⟩ := h state
    rw [hanswer] at hrun
    contradiction

theorem pure (value : α) : OnlyReads call [] (Pure.pure value : Eval α) :=
  of_completes fun state => ⟨value, state, rfl, rfl⟩

theorem located {run : Eval α} (h : Reads call exprs refuses leaves run) (here : Location) :
    Reads call exprs refuses leaves (located here run) where
  of_ok hrun := h.of_ok (located_inv hrun)
  of_error {state stop after} hrun := by
    cases hinside : run state with
    | ok value mid =>
      rw [located_of_ok hinside] at hrun
      contradiction
    | error inner mid =>
      rw [located_of_error hinside] at hrun
      obtain ⟨-, rfl⟩ := EStateM.Result.error.inj hrun
      exact h.of_error hinside

/-- What comes behind refuses nothing. -/
theorem bind {run : Eval α} {next : α → Eval β} (h : Reads call first refuses Eq run)
    (hnext : ∀ value, Reads call second (fun _ => False) leaves (next value)) :
    Reads call (first ++ second) refuses leaves (run >>= next) where
  of_ok hrun := by
    obtain ⟨value, mid, hvalue, hrest⟩ := bind_inv hrun
    obtain ⟨values, _, hvalues, rfl⟩ := h.of_ok hvalue
    obtain ⟨others, last, hothers, hleaves⟩ := (hnext value).of_ok hrest
    refine ⟨values ++ others, last, ?_, hleaves⟩
    rw [terms_append_of_ok hvalues, Run.bind_of_ok hothers]
    rfl
  of_error {state stop after} hrun := by
    cases hfirst : run state with
    | ok value mid =>
      rw [Run.bind_of_ok hfirst] at hrun
      obtain ⟨values, _, hvalues, rfl⟩ := h.of_ok hfirst
      exact .behind hvalues ((hnext value).of_error hrun)
    | error inner mid =>
      rw [Run.bind_of_error hfirst] at hrun
      obtain ⟨-, rfl⟩ := EStateM.Result.error.inj hrun
      exact (h.of_error hfirst).mono (List.prefix_append _ _)

theorem bind_completes {run : Eval α} {next : α → Eval β} (h : Reads call exprs refuses Eq run)
    (hnext : ∀ value, Completes leaves (next value)) :
    Reads call exprs refuses leaves (run >>= next) := by
  have hrun := h.bind fun value => of_completes (hnext value)
  rwa [List.append_nil] at hrun

theorem bind_pure {run : Eval α} (h : Reads call exprs refuses Eq run) (next : α → β) :
    Reads call exprs refuses Eq (run >>= fun value => Pure.pure (next value)) :=
  h.bind_completes fun value state => ⟨next value, state, rfl, rfl⟩

/-- One expression, whose value is then either used or refused. -/
theorem check {e : Term} {next : Value → Eval α}
    (hnext : ∀ value, Completes leaves (next value) ∨
      (∃ stop, next value = throw stop) ∧ refuses [value]) :
    Reads call [e] refuses leaves (term call e >>= next) where
  of_ok hrun := by
    obtain ⟨value, mid, hvalue, hrest⟩ := bind_inv hrun
    refine ⟨[value], mid, ?_, ?_⟩
    · rw [terms_singleton, map_eq_pure_bind, Run.bind_of_ok hvalue]
      rfl
    · rcases hnext value with hcompletes | ⟨⟨stop, hstop⟩, -⟩
      · obtain ⟨answer, last, hanswer, hleaves⟩ := hcompletes mid
        obtain ⟨-, rfl⟩ := EStateM.Result.ok.inj (hanswer.symm.trans hrest)
        exact hleaves
      · rw [hstop] at hrest
        contradiction
  of_error {state stop after} hrun := by
    refine ⟨[e], List.prefix_rfl, ?_⟩
    rw [terms_singleton, map_eq_pure_bind]
    cases hvalue : term call e state with
    | ok value mid =>
      rw [Run.bind_of_ok hvalue] at hrun ⊢
      rcases hnext value with hcompletes | ⟨⟨inner, hinner⟩, hrefused⟩
      · obtain ⟨answer, last, hanswer, -⟩ := hcompletes mid
        rw [hanswer] at hrun
        contradiction
      · rw [hinner] at hrun
        obtain ⟨-, rfl⟩ := EStateM.Result.error.inj hrun
        exact .inr ⟨[value], rfl, hrefused⟩
    | error inner mid =>
      rw [Run.bind_of_error hvalue] at hrun ⊢
      obtain ⟨-, rfl⟩ := EStateM.Result.error.inj hrun
      exact .inl ⟨inner, rfl⟩

/-! ## What fills the message -/

theorem text? (e : Term) : OnlyReads call [e] (text? call e) :=
  check fun value => .inl fun state => ⟨value.text?, state, rfl, rfl⟩

/-- Only a null is refused where a value is required. -/
theorem requiredText (member : RequiredMember) (e : Term) :
    Reads call [e] (fun values => values = [.null]) Eq (requiredText call member e) := by
  rw [Eval.requiredText, Eval.text?, bind_assoc]
  apply check
  intro value
  cases value with
  | null => exact .inr ⟨⟨_, rfl⟩, rfl⟩
  | _ => exact .inl fun state => ⟨_, state, rfl, rfl⟩

theorem optionalText (e? : Option Term) : OnlyReads call e?.toList (optionalText call e?) := by
  cases e? with
  | none => exact pure none
  | some e => exact text? e

theorem edits {K R : Type} (edit : K → String → R → R) (entries : List (K × Term)) :
    OnlyReads call (entries.map Prod.snd) (edits call edit entries) := by
  induction entries with
  | nil => exact pure []
  | cons entry entries ih => exact (text? entry.2).bind fun _ => ih.bind_pure _

theorem fieldEdit? (setting : FieldSetting Term) :
    OnlyReads call setting.exprs (fieldEdit? call setting) := by
  cases setting with
  | title value => exact (text? value).bind_pure _
  | text value => exact (text? value).bind_pure _
  | inline value => exact pure _

end Reads
end Eval
end MessageTemplate
