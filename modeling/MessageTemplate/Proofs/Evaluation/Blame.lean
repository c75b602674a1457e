import MessageTemplate.Proofs.Evaluation.Declared

/-!
# Where errors come from

A run fails because an activity that it reaches cannot do its own next step,
after all that it waited for has succeeded. The error takes the place of this
activity, however deep it lies in calls, and nothing further out changes it.
-/

namespace MessageTemplate

/-- A script stops here: by itself, or because what it waits for stops. -/
inductive Script.Stops {α : Type} : Script α → State → Stop RuntimeError → Prop
  | failed (fault : RuntimeFault) (state : State) :
      Stops (.fail fault) state (.failed (.unplaced fault))
  | exhausted (state : State) : Stops .exhaust state .exhausted
  | inside {activity : Activity} {next : activity.Answer → Script α} {state after : State}
      {stop : Stop RuntimeError} (h : activity.run state = .error stop after) :
      Stops (.start activity next) state stop

namespace Script

variable {α : Type} {script rest : Script α} {state mid after : State}

/-- Running what is left is running the whole. -/
theorem Comes.run_eq (h : script.Comes state rest mid) : script.run state = rest.run mid := by
  induction h with
  | here script state => rfl
  | look _ ih => exact ih
  | act _ ih => exact ih
  | behind hrun _ ih =>
    rw [run, Run.bind_of_ok hrun]
    exact ih

/-- A run of a script that stops comes to the step where it stops. -/
theorem comes_of_error {stop : Stop RuntimeError} (h : script.run state = .error stop after) :
    ∃ rest mid, script.Comes state rest mid ∧ rest.Stops mid stop := by
  induction script generalizing state with
  | done value => contradiction
  | fail fault =>
    obtain ⟨rfl, rfl⟩ := EStateM.Result.error.inj h
    exact ⟨_, _, .here _ _, .failed fault state⟩
  | exhaust =>
    obtain ⟨rfl, rfl⟩ := EStateM.Result.error.inj h
    exact ⟨_, _, .here _ _, .exhausted state⟩
  | look next ih =>
    obtain ⟨rest, mid, hcomes, hstops⟩ := ih state h
    exact ⟨rest, mid, .look hcomes, hstops⟩
  | act effect next ih =>
    obtain ⟨rest, mid, hcomes, hstops⟩ := ih h
    exact ⟨rest, mid, .act hcomes, hstops⟩
  | start activity next ih =>
    cases hrun : activity.run state with
    | ok value between =>
      rw [run, Run.bind_of_ok hrun] at h
      obtain ⟨rest, mid, hcomes, hstops⟩ := ih value h
      exact ⟨rest, mid, .behind hrun hcomes, hstops⟩
    | error inner between =>
      rw [run, Run.bind_of_error hrun] at h
      obtain ⟨rfl, rfl⟩ := EStateM.Result.error.inj h
      exact ⟨_, _, .here _ _, .inside hrun⟩

end Script

namespace Activity

variable {outer activity inner : Activity} {state before after : State}

/-- While an activity runs, one that it reaches comes to a step of its own that fails. -/
def Blames (outer : Activity) (state : State) (activity : Activity) (fault : RuntimeFault) : Prop :=
  ∃ before after : State, outer.Reaches state activity before ∧
    activity.script.Comes (activity.opened before) (.fail fault) after

/-! ## Blame explains an error -/

theorem run_of_comes {rest : Script activity.Answer}
    (hcomes : activity.script.Comes (activity.opened state) rest before) {stop : Stop RuntimeError}
    (hrest : rest.run before = .error stop after) :
    activity.run state = .error (activity.stamped stop) (activity.closed after) := by
  rw [run_eq, surround, hcomes.run_eq, hrest]

/-- An error that has a place keeps it. -/
theorem stamped_of_placed (activity : Activity) (fault : RuntimeFault) (here : Location) :
    activity.stamped (.failed ⟨fault, some here⟩) = .failed ⟨fault, some here⟩ := by
  unfold stamped
  cases activity.place? with
  | none => rfl
  | some place => rfl

theorem stamped_of_unplaced {here : Location} (hplace : activity.place? = some here)
    (fault : RuntimeFault) :
    activity.stamped (.failed (.unplaced fault)) = .failed ⟨fault, some here⟩ := by
  rw [stamped, hplace]
  rfl

/-- What is reached and fails makes the whole fail in the same way. -/
theorem Reaches.run_error {fault : RuntimeFault} {here : Location}
    (h : outer.Reaches state activity before)
    (hfails : ∃ after, activity.run before = .error (.failed ⟨fault, some here⟩) after) :
    ∃ after, outer.run state = .error (.failed ⟨fault, some here⟩) after := by
  induction h with
  | self => exact hfails
  | inside _ hcomes ih =>
    obtain ⟨after, hrun⟩ := hfails
    apply ih
    rw [run_of_comes hcomes (Run.bind_of_error hrun), stamped_of_placed]
    exact ⟨_, rfl⟩

/-! ## Every error is explained -/

theorem marked_of_forall {p : Location → Prop} (h : ∀ here, p here) (activity : Activity) :
    activity.Marked p := by
  have hexpr : ∀ e : Term, e.Marked p := fun e node _ => h node.place
  have hstmt : ∀ s : Code, s.Marked p :=
    fun s node _ => ⟨fun place _ => h place, fun e _ => hexpr e⟩
  cases activity with
  | term allowance e => exact hexpr e
  | stmt allowance rounds s => exact hstmt s
  | part allowance part => exact ⟨fun place _ => h place, fun e _ => hexpr e⟩
  | field allowance spec => exact ⟨h spec.place, fun e _ => hexpr e⟩
  | call allowance f arguments enough => exact fun body _ => hstmt body
  | program allowance code => exact fun s _ => hstmt s

theorem declares_of_forall {q : Function → Prop} (h : ∀ f, q f) (state : State) :
    state.Declares q :=
  fun _ _ _ f _ => h f

/-- The rest of a script obeys the rules wherever a run comes to it. -/
theorem obeys_of_comes_true {rest : Script activity.Answer}
    (hcomes : activity.script.Comes (activity.opened state) rest after) :
    rest.Obeys (activity.rules fun _ => True) := by
  have hmarked := marked_of_forall (p := fun _ => True) (fun _ => trivial) activity
  have hdeclares : ∀ f : Function, f.Marked fun _ => True := fun f body _ =>
    marked_of_forall (fun _ => trivial) (.stmt 0 0 body)
  exact (obeys_of_comes hmarked (declares_of_forall hdeclares state) hcomes).1

/-- The fault is one that the blamed node can have of its own. -/
theorem Blames.raises {fault : RuntimeFault} (h : outer.Blames state activity fault) :
    activity.Raises fault := by
  obtain ⟨before, after, -, hcomes⟩ := h
  exact obeys_of_comes_true hcomes

/-- What starts an activity runs on its behalf: it blames what that one blames. -/
theorem Blames.of_comes {blamed : Activity} {fault : RuntimeFault}
    {next : inner.Answer → Script activity.Answer}
    (hcomes : activity.script.Comes (activity.opened state) (.start inner next) before)
    (h : inner.Blames before blamed fault) : activity.Blames state blamed fault := by
  obtain ⟨start, after, hreaches, hfails⟩ := h
  exact ⟨start, after, (Reaches.inside .self hcomes).trans hreaches, hfails⟩

theorem Blames.run_error {fault : RuntimeFault} (h : outer.Blames state activity fault) :
    ∃ after, outer.run state = .error (.failed ⟨fault, activity.place?⟩) after := by
  obtain ⟨here, hplace⟩ := h.raises.isSome_place?
  obtain ⟨before, after, hreaches, hcomes⟩ := h
  rw [hplace]
  apply hreaches.run_error
  have hfails : (Script.fail fault : Script activity.Answer).run after =
      .error (.failed (.unplaced fault)) after := rfl
  rw [run_of_comes hcomes hfails, stamped_of_unplaced hplace]
  exact ⟨_, rfl⟩

theorem blames_of_run_error (activity : Activity) {state after : State} {error : RuntimeError}
    (h : activity.run state = .error (.failed error) after) :
    ∃ blamed fault, error = ⟨fault, blamed.place?⟩ ∧ activity.Blames state blamed fault := by
  induction activity using Activity.induct generalizing state after error with
  | step activity ih =>
    rw [run_eq, surround] at h
    cases hrun : activity.script.run (activity.opened state) with
    | ok value mid =>
      rw [hrun] at h
      contradiction
    | error stop mid =>
      rw [hrun] at h
      obtain ⟨hstop, -⟩ := EStateM.Result.error.inj h
      obtain ⟨rest, before, hcomes, hstops⟩ := Script.comes_of_error hrun
      have hobeys := obeys_of_comes_true hcomes
      cases hstops with
      | failed fault =>
        -- The step fails by itself, so the activity has a place.
        obtain ⟨here, hplace⟩ := Raises.isSome_place? hobeys
        rw [stamped_of_unplaced hplace, ← hplace] at hstop
        exact ⟨activity, fault, (Stop.failed.inj hstop).symm, state, before, .self, hcomes⟩
      | exhausted =>
        unfold stamped at hstop
        split at hstop <;> contradiction
      | @inside inner next _ between _ hinner =>
        cases stop with
        | exhausted =>
          unfold stamped at hstop
          split at hstop <;> contradiction
        | failed innerError =>
          obtain ⟨blamed, fault, rfl, hblames⟩ := ih inner hobeys.1.1 hinner
          obtain ⟨here, hplace⟩ := hblames.raises.isSome_place?
          rw [hplace, stamped_of_placed, ← hplace] at hstop
          exact ⟨blamed, fault, (Stop.failed.inj hstop).symm, hblames.of_comes hcomes⟩

/-- A run fails just when it blames a node, and the error stands at the place of this node. -/
theorem run_error_iff {error : RuntimeError} :
    (∃ after, activity.run state = .error (.failed error) after) ↔
      ∃ blamed fault, error = ⟨fault, blamed.place?⟩ ∧ activity.Blames state blamed fault := by
  constructor
  · rintro ⟨after, hrun⟩
    exact blames_of_run_error activity hrun
  · rintro ⟨blamed, fault, rfl, hblames⟩
    exact hblames.run_error

/-- The place of a blamed node is one of the places inside what runs. -/
theorem Blames.place {p : Location → Prop} {blamed : Activity} {fault : RuntimeFault}
    (h : activity.Blames state blamed fault) (hactivity : activity.Marked p)
    (hstate : state.Declares (Function.Marked p)) : ∃ here, blamed.place? = some here ∧ p here := by
  obtain ⟨here, hplace⟩ := h.raises.isSome_place?
  obtain ⟨before, after, hreaches, -⟩ := h
  exact ⟨here, hplace, (hreaches.marked hactivity hstate).1.place hplace⟩

end Activity
end MessageTemplate
