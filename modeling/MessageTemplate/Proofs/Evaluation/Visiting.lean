import MessageTemplate.Proofs.Evaluation.Blame
import MessageTemplate.Proofs.Scope.Shadowing

/-!
# Visiting the items of a list

A loop over a list runs its body once for each item of the list, in order and in
one block. The list is evaluated before the first run. What a run assigns to the
name of the item, here or further out, is gone when the next one begins, because
the block and the scopes around it never bind the same name.
-/

namespace MessageTemplate

/-- The activities that a script starts, in order, and the states in which it starts them. -/
def Script.starts {α : Type} : Script α → State → List (Activity × State)
  | .done _, _ | .fail _, _ | .exhaust, _ => []
  | .look next, state => (next state).starts state
  | .act effect next, state => next.starts (effect.apply state)
  | .start activity next, state =>
    (activity, state) ::
      match activity.run state with
      | .ok value after => (next value).starts after
      | .error _ _ => []

/-- The activities that an activity starts itself, in order, and the states in which they start. -/
def Activity.starts (activity : Activity) (state : State) : List (Activity × State) :=
  activity.script.starts (activity.opened state)

namespace Eval

/-- For one item after another, the item is assigned to a name and then a body is run, which begins
in the next one of the states. All this ends when a run fails, or when no item is left. -/
inductive Rounds (body : Eval Unit) (name : String) :
    List Value → State → List State → EStateM.Result (Stop RuntimeError) State Unit → Prop
  | done (state : State) : Rounds body name [] state [] (.ok () state)
  | failed {item : Value} {items : List Value} {state start after : State}
      {stop : Stop RuntimeError}
      (hstart : start = state.editChain fun chain => chain.assign name item)
      (h : body start = .error stop after) :
      Rounds body name (item :: items) state [start] (.error stop after)
  | next {item : Value} {items : List Value} {state start mid : State} {starts : List State}
      {result : EStateM.Result (Stop RuntimeError) State Unit}
      (hstart : start = state.editChain fun chain => chain.assign name item)
      (h : body start = .ok () mid) (hrest : Rounds body name items mid starts result) :
      Rounds body name (item :: items) state (start :: starts) result

theorem exists_rounds (body : Eval Unit) (name : String) (items : List Value) (state : State) :
    ∃ starts, Rounds body name items state starts
      ((items.forM fun item => do assign name item; body) state) := by
  induction items generalizing state with
  | nil => exact ⟨[], .done state⟩
  | cons item items ih =>
    have hcons : ((item :: items).forM fun item => do assign name item; body) state =
        (body >>= fun _ => items.forM fun item => do assign name item; body)
          (state.editChain fun chain => chain.assign name item) := rfl
    rw [hcons]
    cases hrun : body (state.editChain fun chain => chain.assign name item) with
    | ok value mid =>
      obtain ⟨starts, hrest⟩ := ih mid
      rw [Run.bind_of_ok hrun]
      exact ⟨_, .next rfl hrun hrest⟩
    | error stop after =>
      rw [Run.bind_of_error hrun]
      exact ⟨_, .failed rfl hrun⟩

namespace Rounds

variable {body : Eval Unit} {name : String} {items : List Value} {state : State}
  {starts : List State} {result : EStateM.Result (Stop RuntimeError) State Unit}

/-- As long as no run fails there is one for each item. -/
theorem of_ok (h : Rounds body name items state starts result)
    (hruns : ∀ start ∈ starts, ∃ after, body start = .ok () after) :
    starts.length = items.length ∧ ∃ last, result = .ok () last := by
  induction h with
  | done state => exact ⟨rfl, state, rfl⟩
  | failed _ hrun =>
    obtain ⟨after, hok⟩ := hruns _ (List.mem_singleton_self _)
    rw [hrun] at hok
    contradiction
  | next _ _ _ ih =>
    rw [List.forall_mem_cons] at hruns
    obtain ⟨hlength, hlast⟩ := ih hruns.2
    exact ⟨congrArg Nat.succ hlength, hlast⟩

/-- A run that fails is the last one. -/
theorem of_error (h : Rounds body name items state starts result) {i : Nat} {start after : State}
    {stop : Stop RuntimeError} (hstart : starts[i]? = some start)
    (hrun : body start = .error stop after) :
    starts.length = i + 1 ∧ result = .error stop after := by
  induction h generalizing i with
  | done state => contradiction
  | failed _ hfails =>
    cases i with
    | zero =>
      obtain rfl := Option.some.inj hstart
      exact ⟨rfl, hfails.symm.trans hrun⟩
    | succ i => contradiction
  | next _ hok _ ih =>
    cases i with
    | zero =>
      obtain rfl := Option.some.inj hstart
      rw [hok] at hrun
      contradiction
    | succ i =>
      obtain ⟨hlength, hresult⟩ := ih hstart
      exact ⟨congrArg Nat.succ hlength, hresult⟩

/-- In a block an item that has been assigned is read, wherever its name is bound. -/
theorem read_assigned {before mid : State} (name : String) (item : Value)
    (h : Local (before.editChain fun chain => chain.enter .block) mid) :
    (mid.editChain fun chain => chain.assign name item).read? name = some item ∧
      Local (before.editChain fun chain => chain.enter .block)
        (mid.editChain fun chain => chain.assign name item) := by
  have hlookup : (mid.chain.assign name item).lookup name = some item := by
    apply Chain.lookup_assign_of_free
    intro hcurrent
    exact h.outer.forall_binds (h.fresh name hcurrent rfl)
  constructor
  · rw [State.read?, State.editChain, hlookup, Option.some_or]
  · exact Local.isFrame.trans h (mid.local_assign name item)

/-- Each run begins in the same block and reads its own item. -/
theorem read {before : State} (h : Rounds body name items state starts result)
    (hbody : Keeps Local body)
    (hlocal : Local (before.editChain fun chain => chain.enter .block) state) {i : Nat}
    {start : State} (hstart : starts[i]? = some start) :
    start.read? name = items[i]? ∧
      Local (before.editChain fun chain => chain.enter .block) start := by
  induction h generalizing i with
  | done state => contradiction
  | @failed item items state first after stop heq _ =>
    cases i with
    | zero =>
      obtain rfl := Option.some.inj hstart
      subst heq
      exact read_assigned name item hlocal
    | succ i => contradiction
  | @next item items state first mid starts result heq hrun _ ih =>
    subst heq
    have hassigned := read_assigned name item hlocal
    cases i with
    | zero =>
      obtain rfl := Option.some.inj hstart
      exact hassigned
    | succ i => exact ih (Local.isFrame.trans hassigned.2 (hbody.of_ok hrun)) hstart

/-- The script of a loop starts the body in these states and nothing else. -/
theorem starts_script {allowance rounds : Nat} {code : Code}
    (h : Rounds (stmt (callWithin allowance) rounds code) name items state starts result) :
    Script.starts (items.forM fun item => do
        Script.perform (.assign name item)
        Script.execute allowance rounds code) state =
      starts.map fun start => (.stmt allowance rounds code, start) := by
  -- One round of the script assigns the item and starts the body.
  have hround : ∀ item items, ((item :: items).forM fun item => do
        Script.perform (.assign name item)
        Script.execute allowance rounds code) =
      .act (.assign name item) (.start (.stmt allowance rounds code) fun _ =>
        items.forM fun item => do
          Script.perform (.assign name item)
          Script.execute allowance rounds code) := fun _ _ => rfl
  induction h with
  | done state => rfl
  | failed heq hrun =>
    rw [hround, Script.starts, Script.starts, List.map_singleton]
    simp only [Effect.apply, ← heq, Activity.run, hrun]
  | next heq hrun _ ih =>
    rw [hround, Script.starts, Script.starts, List.map_cons, ← ih]
    simp only [Effect.apply, ← heq, Activity.run, hrun]

/-- A loop evaluates the list and then starts the rounds. -/
theorem starts_foreach {allowance rounds : Nat} {here : Location} {iterable : Term} {code : Code}
    {entered first : State} (hopened : entered = state.editChain fun chain => chain.enter .block)
    (hitems : expression allowance iterable entered = .ok (.list items) first)
    (h : Rounds (stmt (callWithin allowance) rounds code) name items first starts result) :
    (Activity.stmt allowance rounds (.foreach here name iterable code)).starts state =
      (.term allowance iterable, entered) ::
        starts.map fun start => (.stmt allowance rounds code, start) := by
  have hscript : (Activity.stmt allowance rounds (.foreach here name iterable code)).script =
      .start (.term allowance iterable) (fun value => do
        let items ← Script.ofExcept (enumerate value)
        items.forM fun item => do
          Script.perform (.assign name item)
          Script.execute allowance rounds code) := rfl
  have hentered : (Activity.stmt allowance rounds (.foreach here name iterable code)).opened state =
      entered := hopened.symm
  rw [Activity.starts, hscript, hentered, Script.starts, Activity.run, hitems, ← h.starts_script]
  rfl

end Rounds

theorem stampStop_of_stmt_error {allowance rounds : Nat} {s : Code} {state after : State}
    {stop : Stop RuntimeError} (h : stmt (callWithin allowance) rounds s state = .error stop after)
    (here : Location) : stampStop here stop = stop := by
  cases stop with
  | exhausted => rfl
  | failed error =>
    obtain ⟨blamed, fault, rfl, hblames⟩ :=
      Activity.blames_of_run_error (.stmt allowance rounds s) h
    obtain ⟨place, hplace⟩ := hblames.raises.isSome_place?
    rw [hplace]
    rfl

/-- A loop over a list runs its body for one item after another, in one block and in order. At the
start of each run the name has the value of the item that the list had in this place when the loop
began, whatever has been assigned since. Without a failure there is one run for each item, and a run
that fails is the last one and makes the loop fail in the same way. -/
theorem foreach_visits_items (allowance rounds : Nat) (here : Location) (name : String)
    (iterable : Term) (body : Code) {state first : State} {items : List Value}
    (hitems : expression allowance iterable (state.editChain fun chain => chain.enter .block) =
      .ok (.list items) first) :
    ∃ starts result,
      (Activity.stmt allowance rounds (.foreach here name iterable body)).starts state =
        (.term allowance iterable, state.editChain fun chain => chain.enter .block) ::
          starts.map (fun start => (.stmt allowance rounds body, start)) ∧
      Rounds (stmt (callWithin allowance) rounds body) name items first starts result ∧
      (∀ (i : Nat) (start : State), starts[i]? = some start → start.read? name = items[i]? ∧
        Local (state.editChain fun chain => chain.enter .block) start) ∧
      ((∀ start ∈ starts, ∃ after, stmt (callWithin allowance) rounds body start = .ok () after) →
        starts.length = items.length ∧ ∃ last,
          stmt (callWithin allowance) rounds (.foreach here name iterable body) state =
            .ok () last) ∧
      ∀ (i : Nat) (start after : State) (stop : Stop RuntimeError), starts[i]? = some start →
        stmt (callWithin allowance) rounds body start = .error stop after →
        starts.length = i + 1 ∧
          stmt (callWithin allowance) rounds (.foreach here name iterable body) state =
            .error stop (after.editChain .leave) := by
  have hcall := callWithin_quiet allowance
  obtain ⟨starts, hrounds⟩ :=
    exists_rounds (stmt (callWithin allowance) rounds body) name items first
  -- Inside its block the loop is the rounds from the state in which the list has been evaluated.
  have hinside : inside (callWithin allowance) rounds (.foreach here name iterable body)
      (state.editChain fun chain => chain.enter .block) =
        (items.forM fun item => do
          assign name item
          stmt (callWithin allowance) rounds body) first :=
    Run.bind_of_ok hitems
  have hstmt := congrFun (stmt_of_opensScope (callWithin allowance) rounds
    (s := .foreach here name iterable body) rfl) state
  rw [← hinside] at hrounds
  refine ⟨starts, _, ?_, hrounds, ?_, ?_, ?_⟩
  · exact Rounds.starts_foreach rfl hitems hrounds
  · exact fun i start hstart => hrounds.read (stmt_local hcall rounds body)
      ((term_local hcall iterable).of_ok hitems) hstart
  · intro hruns
    obtain ⟨hlength, last, hlast⟩ := hrounds.of_ok hruns
    refine ⟨hlength, last.editChain .leave, ?_⟩
    rw [hstmt, located_of_ok (inScope_of_ok hlast)]
  · intro i start after stop hstart hrun
    obtain ⟨hlength, hresult⟩ := hrounds.of_error hstart hrun
    refine ⟨hlength, ?_⟩
    rw [hstmt, located_of_error (inScope_of_error hresult), stampStop_of_stmt_error hrun]

/-- A list of two texts. -/
def twoTexts : Term :=
  .list ⟨"t", .start⟩ [.literal ⟨"t", .start⟩ (.string "a"), .literal ⟨"t", .start⟩ (.string "b")]

/-- A body that assigns to the name of the item. -/
def assignNull : Code := .assign ⟨"t", .start⟩ "x" (.literal ⟨"t", .start⟩ .null)

theorem foreach_visits_items_assignNull :
    ∃ (starts : List State) (last : State), starts.length = 2 ∧
      (∀ (i : Nat) (start : State), starts[i]? = some start →
        start.read? "x" = [Value.string "a", .string "b"][i]?) ∧
      (Activity.stmt 1 1 (.foreach ⟨"t", .start⟩ "x" twoTexts assignNull)).starts
          (.initial .empty .newMonth) =
        (.term 1 twoTexts,
          (State.initial .empty .newMonth).editChain fun chain => chain.enter .block) ::
            starts.map (fun start => (.stmt 1 1 assignNull, start)) ∧
      stmt (callWithin 1) 1 (.foreach ⟨"t", .start⟩ "x" twoTexts assignNull)
        (.initial .empty .newMonth) = .ok () last := by
  obtain ⟨first, hitems⟩ : ∃ first, expression 1 twoTexts
      ((State.initial .empty .newMonth).editChain fun chain => chain.enter .block) =
        .ok (.list [.string "a", .string "b"]) first := ⟨_, rfl⟩
  obtain ⟨starts, -, hstarts, -, hread, hok, -⟩ :=
    foreach_visits_items 1 1 ⟨"t", .start⟩ "x" twoTexts assignNull hitems
  obtain ⟨hlength, last, hlast⟩ := hok fun start _ => ⟨_, rfl⟩
  exact ⟨starts, last, hlength, fun i start hstart => (hread i start hstart).1, hstarts, hlast⟩

end Eval
end MessageTemplate
