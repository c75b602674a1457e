import Mathlib.Data.Nat.Find
import MessageTemplate.Proofs.Evaluation.Keeping
import MessageTemplate.Proofs.Scope.Hiding

/-!
# Assignments and look-ups from every scope

The scopes of a chain are numbered from the inside out, so that an assignment
can be made, and a name be read, from each of them. The search for a name to
read begins at the scope itself, the search for a name to assign one scope
further out; where a name is bound several times the two can end at different
scopes. `assignment_law` says which binding an assignment changes and which
reads notice it.
-/

namespace MessageTemplate
namespace Chain

variable {chain after : Chain} {name other : String} {value : Value} {i j k t : Nat}

/-! ## The scopes of a chain by number -/

/-- The chain as its scope number `j` sees it: the scopes inside that one are left. -/
def seenFrom (chain : Chain) : Nat → Chain
  | 0 => chain
  | j + 1 => chain.leave.seenFrom j

/-- Assign to a name in the scope number `i`; the scopes inside that one stay as they are. -/
def assignFrom (chain : Chain) (i : Nat) (name : String) (value : Value) : Chain :=
  (chain.scopes.take i).foldr (fun scope outer => outer.inside scope)
    ((chain.seenFrom i).assign name value)

/-- The value that the scope number `k` itself binds to the name. -/
def binding? (chain : Chain) (k : Nat) (name : String) : Option Value :=
  chain.scopes[k]?.bind fun scope => scope.bindings.get? name

/-- From the scope number `j` on, the scope number `t` is the first one that binds the name. -/
structure IsFirst (chain : Chain) (name : String) (j t : Nat) : Prop where
  le : j ≤ t
  bound : (chain.binding? t name).isSome = true
  free : ∀ k, j ≤ k → k < t → chain.binding? k name = none

/-- Where an assignment in the scope number `i` goes: to the nearest scope around it that binds the
name, or into the scope itself if none does. -/
inductive IsTarget (chain : Chain) (name : String) (i : Nat) : Nat → Prop
  | around {t : Nat} (hfirst : chain.IsFirst name (i + 1) t) : IsTarget chain name i t
  | here (hfree : ∀ k, i < k → chain.binding? k name = none) : IsTarget chain name i i

theorem scopes_seenFrom (h : j < chain.scopes.length) :
    (chain.seenFrom j).scopes = chain.scopes.drop j := by
  induction j generalizing chain with
  | zero => rfl
  | succ j ih =>
    obtain ⟨current, outer⟩ := chain
    cases outer with
    | nil => simp [scopes] at h
    | cons next outer => exact @ih ⟨next, outer⟩ (Nat.lt_of_succ_lt_succ h)

theorem binding?_seenFrom (h : j < chain.scopes.length) :
    (chain.seenFrom j).binding? k name = chain.binding? (j + k) name := by
  rw [binding?, binding?, scopes_seenFrom h, List.getElem?_drop]

theorem scopes_foldr_inside (inner : List Scope) (chain : Chain) :
    (inner.foldr (fun scope outer => outer.inside scope) chain).scopes = inner ++ chain.scopes := by
  induction inner with
  | nil => rfl
  | cons scope inner ih =>
    rw [List.foldr_cons, List.cons_append, ← ih]
    rfl

theorem seenFrom_foldr_inside (inner : List Scope) (chain : Chain) :
    (inner.foldr (fun scope outer => outer.inside scope) chain).seenFrom inner.length = chain := by
  induction inner with
  | nil => rfl
  | cons scope inner ih => exact ih

/-- Seen from the scope that it is made in, this is an assignment in the current scope. -/
theorem seenFrom_assignFrom (hi : i < chain.scopes.length) (name : String) (value : Value) :
    (chain.assignFrom i name value).seenFrom i = (chain.seenFrom i).assign name value := by
  have hlength : (chain.scopes.take i).length = i := by
    rw [List.length_take]
    omega
  have hseen := seenFrom_foldr_inside (chain.scopes.take i) ((chain.seenFrom i).assign name value)
  rwa [hlength] at hseen

theorem binding?_eq_none_of_le (h : chain.scopes.length ≤ k) : chain.binding? k name = none := by
  rw [binding?, List.getElem?_eq_none h]
  rfl

theorem IsFirst.lt_length (h : chain.IsFirst name j t) : t < chain.scopes.length := by
  by_contra hle
  have hbound := h.bound
  rw [binding?_eq_none_of_le (Nat.le_of_not_lt hle)] at hbound
  contradiction

/-- From a scope on, some scope is the first to bind the name, or none binds it. -/
theorem exists_first_or_free (chain : Chain) (name : String) (j : Nat) :
    (∃ t, chain.IsFirst name j t) ∨ ∀ k, j ≤ k → chain.binding? k name = none := by
  by_cases hbound : ∃ k, j ≤ k ∧ (chain.binding? k name).isSome = true
  · obtain ⟨hle, hfound⟩ := Nat.find_spec hbound
    refine .inl ⟨Nat.find hbound, hle, hfound, fun k hk hlt => ?_⟩
    by_contra hsome
    exact Nat.find_min hbound hlt ⟨hk, Option.isSome_iff_ne_none.2 hsome⟩
  · refine .inr fun k hk => ?_
    by_contra hsome
    exact hbound ⟨k, hk, Option.isSome_iff_ne_none.2 hsome⟩

/-! ## Look-ups -/

theorem lookup_eq_of_first (h : chain.IsFirst name 0 t) :
    chain.lookup name = chain.binding? t name := by
  have hlt := h.lt_length
  obtain ⟨v, hv⟩ := Option.isSome_iff_exists.1 h.bound
  rw [hv, lookup, List.findSome?_eq_some_iff]
  refine ⟨chain.scopes.take t, chain.scopes[t], chain.scopes.drop (t + 1), ?_, ?_, ?_⟩
  · rw [List.getElem_cons_drop, List.take_append_drop]
  · rwa [binding?, List.getElem?_eq_getElem hlt] at hv
  · intro scope hscope
    obtain ⟨k, hk⟩ := List.mem_iff_getElem?.1 hscope
    rw [List.getElem?_take, Option.ite_none_right_eq_some] at hk
    have hnone := h.free k (Nat.zero_le k) hk.1
    rwa [binding?, hk.2] at hnone

theorem lookup_eq_none (h : ∀ k, chain.binding? k name = none) : chain.lookup name = none := by
  rw [lookup, List.findSome?_eq_none_iff]
  intro scope hscope
  obtain ⟨k, hk⟩ := List.mem_iff_getElem?.1 hscope
  have hnone := h k
  rwa [binding?, hk] at hnone

/-- A scope reads what the first scope that binds the name from there on binds it to. -/
theorem lookup_seenFrom_of_first (h : chain.IsFirst name j t) :
    (chain.seenFrom j).lookup name = chain.binding? t name := by
  have hj := Nat.lt_of_le_of_lt h.le h.lt_length
  have hfirst : (chain.seenFrom j).IsFirst name 0 (t - j) := by
    refine ⟨Nat.zero_le _, ?_, fun k _ hk => ?_⟩
    · rw [binding?_seenFrom hj, Nat.add_sub_cancel' h.le]
      exact h.bound
    · rw [binding?_seenFrom hj]
      exact h.free _ (Nat.le_add_right j k) (Nat.add_lt_of_lt_sub' hk)
  rw [lookup_eq_of_first hfirst, binding?_seenFrom hj, Nat.add_sub_cancel' h.le]

theorem lookup_seenFrom_of_free (hj : j < chain.scopes.length)
    (h : ∀ k, j ≤ k → chain.binding? k name = none) : (chain.seenFrom j).lookup name = none := by
  apply lookup_eq_none
  intro k
  rw [binding?_seenFrom hj]
  exact h _ (Nat.le_add_right j k)

/-- Chains that bind a name alike from a scope on are read alike there. -/
theorem lookup_seenFrom_congr (hj : j < chain.scopes.length) (hafter : j < after.scopes.length)
    (h : ∀ k, j ≤ k → after.binding? k name = chain.binding? k name) :
    (after.seenFrom j).lookup name = (chain.seenFrom j).lookup name := by
  rcases chain.exists_first_or_free name j with ⟨t, hfirst⟩ | hfree
  · have hsame : after.IsFirst name j t := by
      refine ⟨hfirst.le, ?_, fun k hk hlt => ?_⟩
      · rw [h t hfirst.le]
        exact hfirst.bound
      · rw [h k hk]
        exact hfirst.free k hk hlt
    rw [lookup_seenFrom_of_first hsame, lookup_seenFrom_of_first hfirst, h t hfirst.le]
  · rw [lookup_seenFrom_of_free hj hfree,
      lookup_seenFrom_of_free hafter fun k hk => (h k hk).trans (hfree k hk)]

/-! ## The binding that is changed -/

/-- The number of the scope that an assignment in the current one goes to. -/
def target (chain : Chain) (name : String) : Nat :=
  (chain.outer.findIdx? fun scope => scope.binds name).elim 0 (· + 1)

theorem rebind?_eq_map (name : String) (value : Value) (scopes : List Scope) :
    rebind? name value scopes =
      (scopes.findIdx? fun scope => scope.binds name).map fun k =>
        scopes.modify k fun scope => scope.bind name value := by
  induction scopes with
  | nil => rfl
  | cons scope scopes ih =>
    rw [rebind?, List.findIdx?_cons, ih]
    split
    · rfl
    · rw [Option.map_map, Option.map_map]
      rfl

theorem scopes_assign (chain : Chain) (name : String) (value : Value) :
    (chain.assign name value).scopes =
      chain.scopes.modify (chain.target name) fun scope => scope.bind name value := by
  rw [assign, rebind?_eq_map, target]
  cases chain.outer.findIdx? fun scope => scope.binds name with
  | none => rfl
  | some k => rfl

theorem binding?_of_getElem? {scope : Scope} (h : chain.scopes[k]? = some scope) :
    (chain.binding? k name).isSome = scope.binds name := by
  rw [binding?, h]
  rfl

theorem isTarget_target (chain : Chain) (name : String) :
    chain.IsTarget name 0 (chain.target name) := by
  obtain ⟨current, outer⟩ := chain
  have hsame : ∀ k (h : k < outer.length), (Chain.binding? ⟨current, outer⟩ (k + 1) name).isSome =
      outer[k].binds name :=
    fun k h => binding?_of_getElem? (List.getElem?_eq_getElem h)
  rw [target]
  cases hfind : outer.findIdx? fun scope => scope.binds name with
  | none =>
    rw [List.findIdx?_eq_none_iff] at hfind
    refine .here fun k hk => ?_
    obtain ⟨k, rfl⟩ := Nat.exists_eq_add_one_of_ne_zero (Nat.ne_of_gt hk)
    by_cases hlt : k < outer.length
    · have hk := hsame k hlt
      rw [hfind _ (List.getElem_mem hlt)] at hk
      simpa using hk
    · exact binding?_eq_none_of_le (Nat.succ_le_succ (Nat.le_of_not_lt hlt))
  | some m =>
    obtain ⟨hlt, hbinds, hfree⟩ := List.findIdx?_eq_some_iff_getElem.1 hfind
    refine .around
      ⟨Nat.succ_le_succ (Nat.zero_le m), (hsame m hlt).trans hbinds, fun k hk hkm => ?_⟩
    obtain ⟨k, rfl⟩ := Nat.exists_eq_add_one_of_ne_zero (Nat.ne_of_gt hk)
    have hkm := Nat.lt_of_succ_lt_succ hkm
    have hk := hfree k hkm
    rw [← hsame k (Nat.lt_trans hkm hlt)] at hk
    simpa using hk

theorem IsTarget.lt_length (hi : i < chain.scopes.length) (h : chain.IsTarget name i t) :
    t < chain.scopes.length := by
  cases h with
  | around hfirst => exact hfirst.lt_length
  | here => exact hi

theorem IsTarget.of_seenFrom (hi : i < chain.scopes.length)
    (h : (chain.seenFrom i).IsTarget name 0 t) : chain.IsTarget name i (i + t) := by
  cases h with
  | around hfirst =>
    obtain ⟨hle, hbound, hfree⟩ := hfirst
    rw [binding?_seenFrom hi] at hbound
    refine .around ⟨by omega, hbound, fun k hk hlt => ?_⟩
    have hnone := hfree (k - i) (by omega) (by omega)
    rwa [binding?_seenFrom hi, Nat.add_sub_cancel' (by omega)] at hnone
  | here hfree =>
    refine .here fun k hk => ?_
    have hnone := hfree (k - i) (by omega)
    rwa [binding?_seenFrom hi, Nat.add_sub_cancel' (by omega)] at hnone

/-- An assignment binds the name anew in one scope, and there is no other change. -/
theorem scopes_assignFrom (hi : i < chain.scopes.length) (name : String) (value : Value) :
    ∃ t, chain.IsTarget name i t ∧ (chain.assignFrom i name value).scopes =
      chain.scopes.modify t fun scope => scope.bind name value := by
  refine ⟨_, .of_seenFrom hi ((chain.seenFrom i).isTarget_target name), ?_⟩
  have hfront : (chain.scopes.take i).length ≤ i + (chain.seenFrom i).target name := by
    rw [List.length_take]
    omega
  have hsplit := List.take_append_drop i
    (chain.scopes.modify (i + (chain.seenFrom i).target name) fun scope => scope.bind name value)
  rw [List.take_modify, List.modify_eq_self hfront,
    List.drop_modify_of_ge _ _ _ _ (Nat.le_add_right _ _), Nat.add_sub_cancel_left] at hsplit
  rw [assignFrom, scopes_foldr_inside, scopes_assign, scopes_seenFrom hi, hsplit]

section

variable (hafter : after.scopes = chain.scopes.modify t fun scope => scope.bind name value)
include hafter

theorem binding?_of_modify (ht : t < chain.scopes.length) (k : Nat) (other : String) :
    after.binding? k other =
      if k = t ∧ other = name then some value else chain.binding? k other := by
  rw [binding?, binding?, hafter, List.getElem?_modify]
  by_cases hk : t = k
  · subst hk
    rw [List.getElem?_eq_getElem ht]
    simp [Scope.bind, Table.get?_insert]
  · cases chain.scopes[k]? <;> simp [hk, Ne.symm hk]

/-! ## The reads that notice it -/

/-- A scope reads the new value if its search ends at the scope that is changed. -/
theorem lookup_of_modify_of_first (ht : t < chain.scopes.length)
    (hfirst : after.IsFirst name j t) : (after.seenFrom j).lookup name = some value := by
  rw [lookup_seenFrom_of_first hfirst, binding?_of_modify hafter ht]
  exact if_pos ⟨rfl, rfl⟩

/-- Otherwise it reads what it read before. -/
theorem lookup_of_modify_of_not_first (ht : t < chain.scopes.length) (hj : j < chain.scopes.length)
    (hfirst : ¬ after.IsFirst name j t) :
    (after.seenFrom j).lookup name = (chain.seenFrom j).lookup name := by
  have hlength : j < after.scopes.length := by rwa [hafter, List.length_modify]
  have hsame := binding?_of_modify hafter ht
  rcases after.exists_first_or_free name j with ⟨m, hm⟩ | hfree
  · have hne : m ≠ t := by
      rintro rfl
      exact hfirst hm
    have hbefore : chain.IsFirst name j m := by
      refine ⟨hm.le, ?_, fun k hk hlt => ?_⟩
      · have hbound := hm.bound
        rwa [hsame, if_neg fun h => hne h.1] at hbound
      · have hnone := hm.free k hk hlt
        rw [hsame] at hnone
        split at hnone
        · contradiction
        · exact hnone
    rw [lookup_seenFrom_of_first hm, lookup_seenFrom_of_first hbefore, hsame,
      if_neg fun h => hne h.1]
  · rw [lookup_seenFrom_of_free hlength hfree, lookup_seenFrom_of_free hj fun k hk => ?_]
    have hnone := hfree k hk
    rw [hsame] at hnone
    split at hnone
    · contradiction
    · exact hnone

theorem lookup_of_modify_of_ne (ht : t < chain.scopes.length) (hj : j < chain.scopes.length)
    (hne : other ≠ name) : (after.seenFrom j).lookup other = (chain.seenFrom j).lookup other := by
  have hlength : j < after.scopes.length := by rwa [hafter, List.length_modify]
  apply lookup_seenFrom_congr hj hlength
  intro k _
  rw [binding?_of_modify hafter ht, if_neg fun h => hne h.2]

end

/-- An assignment does not move the end of a search that begins further out. -/
theorem isFirst_of_modify_iff (hafter : after.scopes = chain.scopes.modify t fun scope =>
    scope.bind name value) (htarget : chain.IsTarget name i t) (hi : i < chain.scopes.length)
    (hij : i < j) : after.IsFirst name j t ↔ chain.IsFirst name j t := by
  have hsame := binding?_of_modify hafter (htarget.lt_length hi)
  have hfree : ∀ k, j ≤ k → k < t → after.binding? k name = chain.binding? k name := by
    intro k _ hkt
    rw [hsame, if_neg fun h => Nat.ne_of_lt hkt h.1]
  constructor
  · rintro ⟨hle, -, hnone⟩
    cases htarget with
    | around hfirst => exact ⟨hle, hfirst.bound, fun k hk hkt => hfree k hk hkt ▸ hnone k hk hkt⟩
    | here => exact absurd hle (Nat.not_le_of_lt hij)
  · rintro ⟨hle, -, hnone⟩
    refine ⟨hle, ?_, fun k hk hkt => (hfree k hk hkt).trans (hnone k hk hkt)⟩
    rw [hsame, if_pos ⟨rfl, rfl⟩]
    rfl

/-- The scope itself reads the new value unless it binds the name and the change goes past it. -/
theorem isFirst_self_of_modify_iff (hafter : after.scopes = chain.scopes.modify t fun scope =>
    scope.bind name value) (htarget : chain.IsTarget name i t) (hi : i < chain.scopes.length) :
    after.IsFirst name i t ↔
      ¬ ((chain.binding? i name).isSome = true ∧
        ∃ k, i < k ∧ (chain.binding? k name).isSome = true) := by
  have hsame := binding?_of_modify hafter (htarget.lt_length hi)
  have hbound : (after.binding? t name).isSome = true := by
    rw [hsame, if_pos ⟨rfl, rfl⟩]
    rfl
  cases htarget with
  | around hfirst =>
    have hlt := hfirst.le
    constructor
    · rintro ⟨-, -, hfree⟩ ⟨hself, -⟩
      have hnone := hfree i (Nat.le_refl i) hlt
      rw [hsame, if_neg fun h => Nat.ne_of_lt hlt h.1] at hnone
      rw [hnone] at hself
      contradiction
    · intro hnot
      refine ⟨Nat.le_of_lt hlt, hbound, fun k hk hkt => ?_⟩
      rw [hsame, if_neg fun h => Nat.ne_of_lt hkt h.1]
      rcases Nat.eq_or_lt_of_le hk with rfl | hik
      · by_contra hself
        exact hnot ⟨Option.isSome_iff_ne_none.2 hself, t, hlt, hfirst.bound⟩
      · exact hfirst.free k hik hkt
  | here hfree =>
    refine iff_of_true ⟨Nat.le_refl i, hbound, fun k hk hkt => by omega⟩ ?_
    rintro ⟨-, k, hk, hbinds⟩
    rw [hfree k hk] at hbinds
    contradiction

end Chain

/-! ## The law -/

namespace State

/-- The state as the scope number `j` of its chain sees it. -/
def seenFrom (state : State) (j : Nat) : State := state.editChain fun chain => chain.seenFrom j

/-- Assign to a name in the scope number `i`. -/
def assignFrom (state : State) (i : Nat) (name : String) (value : Value) : State :=
  state.editChain fun chain => chain.assignFrom i name value

theorem read?_seenFrom (state : State) (j : Nat) (name : String) :
    (state.seenFrom j).read? name =
      ((state.chain.seenFrom j).lookup name).or (state.constants.get? name) := rfl

end State

/-- A running template assigns in its current scope. -/
theorem Eval.assign_eq_assignFrom (name : String) (value : Value) (state : State) :
    Eval.assign name value state = .ok () (state.assignFrom 0 name value) := rfl

/-- An assignment in any scope of a chain changes one binding and no constant: it goes to the
nearest scope further out that binds the name, or else into the scope itself. The scope reads the
new value, unless it binds the name and a scope further out does so too; then it reads on what it
read before. A scope further out reads the new value if its search for the name ends at the changed
scope, and otherwise what it read before. No scope reads another name differently. -/
theorem assignment_law (state : State) {i : Nat} (hi : i < state.chain.scopes.length)
    (name : String) (value : Value) :
    ((state.assignFrom i name value).chain.seenFrom i =
        (state.chain.seenFrom i).assign name value ∧
      (state.assignFrom i name value).constants = state.constants) ∧
    ∃ t, state.chain.IsTarget name i t ∧
      (state.assignFrom i name value).chain.scopes =
        state.chain.scopes.modify t (fun scope => scope.bind name value) ∧
      (∀ k other, (state.assignFrom i name value).chain.binding? k other =
        if k = t ∧ other = name then some value else state.chain.binding? k other) ∧
      ((state.chain.binding? i name).isSome = true ∧
          (∃ k, i < k ∧ (state.chain.binding? k name).isSome = true) →
        ((state.assignFrom i name value).seenFrom i).read? name =
          (state.seenFrom i).read? name) ∧
      (¬ ((state.chain.binding? i name).isSome = true ∧
          ∃ k, i < k ∧ (state.chain.binding? k name).isSome = true) →
        ((state.assignFrom i name value).seenFrom i).read? name = some value) ∧
      (∀ j, i < j → j < state.chain.scopes.length →
        (state.chain.IsFirst name j t →
          ((state.assignFrom i name value).seenFrom j).read? name = some value) ∧
        (¬ state.chain.IsFirst name j t →
          ((state.assignFrom i name value).seenFrom j).read? name =
            (state.seenFrom j).read? name)) ∧
      ∀ j other, j < state.chain.scopes.length → other ≠ name →
        ((state.assignFrom i name value).seenFrom j).read? other =
          (state.seenFrom j).read? other := by
  refine ⟨⟨Chain.seenFrom_assignFrom hi name value, rfl⟩, ?_⟩
  obtain ⟨t, htarget, hafter⟩ := Chain.scopes_assignFrom hi name value
  have ht := htarget.lt_length hi
  have hself := Chain.isFirst_self_of_modify_iff hafter htarget hi
  have hnew : ∀ j, (state.chain.assignFrom i name value).IsFirst name j t →
      ((state.assignFrom i name value).seenFrom j).read? name = some value := by
    intro j hfirst
    rw [State.read?_seenFrom]
    exact congrArg (Option.or · _) (Chain.lookup_of_modify_of_first hafter ht hfirst)
  have hold : ∀ j, j < state.chain.scopes.length →
      ¬ (state.chain.assignFrom i name value).IsFirst name j t →
      ((state.assignFrom i name value).seenFrom j).read? name = (state.seenFrom j).read? name := by
    intro j hj hfirst
    rw [State.read?_seenFrom, State.read?_seenFrom]
    exact congrArg (Option.or · _) (Chain.lookup_of_modify_of_not_first hafter ht hj hfirst)
  refine ⟨t, htarget, hafter, Chain.binding?_of_modify hafter ht, fun hboth => ?_, fun hnot => ?_,
    fun j hij hj => ⟨fun hfirst => ?_, fun hfirst => ?_⟩, fun j other hj hne => ?_⟩
  · exact hold i hi fun hfirst => hself.1 hfirst hboth
  · exact hnew i (hself.2 hnot)
  · exact hnew j ((Chain.isFirst_of_modify_iff hafter htarget hi hij).2 hfirst)
  · exact hold j hj fun h => hfirst ((Chain.isFirst_of_modify_iff hafter htarget hi hij).1 h)
  · rw [State.read?_seenFrom, State.read?_seenFrom]
    exact congrArg (Option.or · _) (Chain.lookup_of_modify_of_ne hafter ht hj hne)

/-- A call inside the outermost scope, both of which bind `x`. -/
def twiceBound : State :=
  ⟨⟨(Scope.fresh (.call ["x"])).bind "x" (.bool false),
      [(Scope.fresh .root).bind "x" (.bool true)]⟩,
    .empty, .newMonth, .blank⟩

theorem assignment_law_twiceBound :
    ((twiceBound.assignFrom 0 "x" .null).seenFrom 0).read? "x" = some (.bool false) ∧
      ((twiceBound.assignFrom 0 "x" .null).seenFrom 1).read? "x" = some .null := by
  obtain ⟨-, t, htarget, -, -, hboth, -, hfurther, -⟩ :=
    assignment_law twiceBound (i := 0) (by decide) "x" .null
  refine ⟨hboth ⟨rfl, 1, Nat.zero_lt_one, rfl⟩, ?_⟩
  apply (hfurther 1 Nat.zero_lt_one (by decide)).1
  cases htarget with
  | around hfirst => exact hfirst
  | here hfree =>
    have hbound : twiceBound.chain.binding? 1 "x" = some (.bool true) := rfl
    rw [hfree 1 Nat.zero_lt_one] at hbound
    contradiction

end MessageTemplate
