import MessageTemplate.Proofs.Scope.Hiding

/-!
# Results that are kept

The result that was recorded last is kept in the scope of the nearest call, and
blocks inside the call keep none of their own. No name leads to a result, so
chains that differ in their results alone cannot be told apart.
-/

namespace MessageTemplate

/-- The same scope with no result. -/
def Scope.forgetResult (scope : Scope) : Scope := scope.record .null

namespace Chain

/-- The same chain with no results. -/
def forgetResults (chain : Chain) : Chain :=
  ⟨chain.current.forgetResult, chain.outer.map Scope.forgetResult⟩

/-- The chains differ at most in their results. -/
def AreEqualButResults (first second : Chain) : Prop := first.forgetResults = second.forgetResults

/-- The result that is kept where the next one is going to be recorded. -/
def kept (chain : Chain) : Value := chain.results.getD chain.owner .null

/-! ## What is kept -/

theorem kept_of_same {before after : Chain}
    (hkinds : after.scopes.map Scope.kind = before.scopes.map Scope.kind)
    (hresults : after.results = before.results) : after.kept = before.kept := by
  rw [kept, kept, owner_eq hkinds, hresults]

theorem kept_record (chain : Chain) (value : Value) : (chain.record value).kept = value := by
  rw [kept, owner_eq (chain.scopes_record value).kinds, results_record]
  simp [chain.owner_lt_length]

theorem kept_enter_block (chain : Chain) : (chain.enter .block).kept = chain.kept := rfl

theorem kept_leave_block {chain : Chain} (hkind : chain.current.kind = .block)
    (houter : chain.outer ≠ []) : chain.leave.kept = chain.kept := by
  obtain ⟨current, outer⟩ := chain
  cases outer with
  | nil => contradiction
  | cons next rest =>
    rw [kept, kept, owner, owner, scopes, scopes, List.map_cons, List.map_cons, hkind]
    rfl

theorem kept_assign (chain : Chain) (name : String) (value : Value) :
    (chain.assign name value).kept = chain.kept := by
  rcases chain.assign_cases name value with ⟨outer, hassign, hsame, hresults⟩ | ⟨hassign, -⟩
  · rw [hassign]
    apply kept_of_same
    · exact congrArg (chain.current.kind :: ·) hsame.kinds
    · exact congrArg (chain.current.result :: ·) hresults
  · rw [hassign]
    rfl

theorem kept_of_call {chain : Chain} {parameters : List String}
    (h : chain.current.kind = .call parameters) : chain.kept = chain.current.result := by
  have howner : chain.owner = 0 := by
    rw [owner, scopes, List.map_cons, h]
    cases chain.outer <;> rfl
  rw [kept, howner]
  rfl

/-! ## Results do not show -/

section

variable (chain : Chain) (name : String) (value : Value)

theorem scopes_forgetResults :
    chain.forgetResults.scopes = chain.scopes.map Scope.forgetResult := rfl

theorem lookup_forgetResults : chain.forgetResults.lookup name = chain.lookup name := by
  rw [lookup, scopes_forgetResults, List.findSome?_map]
  rfl

theorem function?_forgetResults : chain.forgetResults.function? name = chain.function? name := by
  rw [function?, scopes_forgetResults, List.findSome?_map]
  rfl

theorem rebind?_forgetResult (scopes : List Scope) :
    rebind? name value (scopes.map Scope.forgetResult) =
      (rebind? name value scopes).map (List.map Scope.forgetResult) := by
  induction scopes with
  | nil => rfl
  | cons scope scopes ih =>
    have hbinds : scope.forgetResult.binds name = scope.binds name := rfl
    rw [List.map_cons, rebind?, rebind?, hbinds, ih]
    split
    · rfl
    · rw [Option.map_map, Option.map_map]
      rfl

theorem assign_forgetResults :
    (chain.assign name value).forgetResults = chain.forgetResults.assign name value := by
  have houter : chain.forgetResults.outer = chain.outer.map Scope.forgetResult := rfl
  rw [assign, assign, houter, rebind?_forgetResult]
  cases rebind? name value chain.outer <;> rfl

theorem leave_forgetResults : chain.leave.forgetResults = chain.forgetResults.leave := by
  obtain ⟨current, outer⟩ := chain
  cases outer <;> rfl

theorem record_forgetResults : (chain.record value).forgetResults = chain.forgetResults := by
  obtain ⟨current, outer⟩ := chain
  change (recordFrom value current outer).forgetResults = _
  induction outer generalizing current with
  | nil => rfl
  | cons next rest ih =>
    rw [recordFrom]
    split
    · change (⟨_, (recordFrom value next rest).forgetResults.scopes⟩ : Chain) = _
      rw [ih]
      rfl
    · rfl

end

namespace AreEqualButResults

variable {first second : Chain}

theorem rebind? (h : AreEqualButResults first second) (name : String) (value : Value) :
    Option.Rel (OnScopes AreEqualButResults) (rebind? name value first.scopes)
      (rebind? name value second.scopes) := by
  have hscopes := congrArg (fun chain : Chain => Chain.rebind? name value chain.scopes) h
  change Chain.rebind? name value (first.scopes.map Scope.forgetResult) =
    Chain.rebind? name value (second.scopes.map Scope.forgetResult) at hscopes
  rw [rebind?_forgetResult, rebind?_forgetResult] at hscopes
  cases hfirst : Chain.rebind? name value first.scopes with
  | none =>
    rw [hfirst] at hscopes
    rw [Option.map_eq_none_iff.1 hscopes.symm]
    exact .none
  | some after =>
    rw [hfirst] at hscopes
    obtain ⟨other, hsecond, heq⟩ := Option.map_eq_some_iff.1 hscopes.symm
    rw [hsecond]
    obtain ⟨changed, rfl, -⟩ := exists_of_rebind? hfirst
    obtain ⟨changedOther, rfl, -⟩ := exists_of_rebind? hsecond
    obtain ⟨hcurrent, houter⟩ := List.cons.inj heq
    exact .some ⟨changed, changedOther, congrArg₂ Chain.mk hcurrent.symm houter.symm, rfl, rfl⟩

theorem isHidden : IsHidden AreEqualButResults where
  lookup := fun {first second} h name => by
    rw [← lookup_forgetResults, h, lookup_forgetResults]
  function? := fun {first second} h name => by
    rw [← function?_forgetResults, h, function?_forgetResults]
  rebind? := rebind?
  assign := fun {first second} h name value => by
    rw [AreEqualButResults, assign_forgetResults, h, assign_forgetResults]
  declare := fun h f => congrArg (fun chain : Chain => chain.declare f) h
  record := fun {first second} h value => by
    rw [AreEqualButResults, record_forgetResults, h, record_forgetResults]

end AreEqualButResults
end Chain
end MessageTemplate
