import MessageTemplate.Proofs.Scope.Hiding

/-!
# A block divided in two

What a block holds can be divided between two blocks, one inside the other. As
long as no variable is bound twice, neither in both halves nor further out, a
look-up finds the same in the halves as in the whole, and an assignment changes
the same variable.
-/

namespace MessageTemplate

/-- What a block holds is divided between an inner and an outer block; no variable is in both. -/
structure Scope.Divides (whole inner outer : Scope) : Prop where
  wholeKind : whole.kind = .block
  innerKind : inner.kind = .block
  outerKind : outer.kind = .block
  bindings : ∀ name, whole.bindings.get? name =
    (inner.bindings.get? name).or (outer.bindings.get? name)
  apart : ∀ name, outer.binds name = true → inner.binds name = false
  functions : ∀ name, whole.functions.get? name =
    (inner.functions.get? name).or (outer.functions.get? name)

namespace Scope.Divides

variable {whole inner outer : Scope}

/-- An empty block inside takes nothing from the one around it. -/
theorem fresh {scope : Scope} (h : scope.kind = .block) : Divides scope (.fresh .block) scope :=
  ⟨h, rfl, h, fun _ => rfl, fun _ _ => rfl, fun _ => rfl⟩

theorem binds (h : Divides whole inner outer) (name : String) :
    whole.binds name = (inner.binds name || outer.binds name) := by
  rw [Scope.binds, Table.contains, h.bindings, Option.isSome_or]
  rfl

theorem bindInner (h : Divides whole inner outer) {name : String} (hname : outer.binds name = false)
    (value : Value) : Divides (whole.bind name value) (inner.bind name value) outer where
  wholeKind := h.wholeKind
  innerKind := h.innerKind
  outerKind := h.outerKind
  bindings := fun other => by
    rw [Scope.bind, Scope.bind, Table.get?_insert, Table.get?_insert, h.bindings]
    split <;> rfl
  apart := fun other hother => by
    have hne : other ≠ name := by
      rintro rfl
      exact Bool.false_ne_true (hname.symm.trans hother)
    rw [binds_bind, h.apart other hother, decide_eq_false hne]
    rfl
  functions := h.functions

theorem bindOuter (h : Divides whole inner outer) {name : String} (hname : outer.binds name = true)
    (value : Value) : Divides (whole.bind name value) inner (outer.bind name value) where
  wholeKind := h.wholeKind
  innerKind := h.innerKind
  outerKind := h.outerKind
  bindings := fun other => by
    rw [Scope.bind, Scope.bind, Table.get?_insert, Table.get?_insert, h.bindings]
    split
    · rename_i heq
      have hnone : inner.bindings.get? name = none := by
        simpa [Scope.binds, Table.contains] using h.apart name hname
      rw [heq, hnone, Option.none_or]
    · rfl
  apart := fun other hother => by
    rw [(same_bind hname value).names] at hother
    exact h.apart other hother
  functions := h.functions

theorem declare (h : Divides whole inner outer) (f : Function) :
    Divides (whole.declare f) (inner.declare f) outer where
  wholeKind := h.wholeKind
  innerKind := h.innerKind
  outerKind := h.outerKind
  bindings := h.bindings
  apart := h.apart
  functions := fun name => by
    rw [Scope.declare, Scope.declare, Table.get?_insert, Table.get?_insert, h.functions]
    split <;> rfl

end Scope.Divides

namespace Chain

/-- None of the scopes of the chain binds a name that the scope binds. -/
def IsFreeOf (chain : Chain) (scope : Scope) : Prop :=
  ∀ name, scope.binds name = true → ∀ other ∈ chain.scopes, other.binds name = false

/-- The current block of the first chain is divided in the second one. -/
inductive Splits : Chain → Chain → Prop
  | intro {whole inner outer : Scope} {around : Chain} (hdivides : whole.Divides inner outer)
      (hfree : around.IsFreeOf whole) :
      Splits (around.inside whole) ((around.inside outer).inside inner)

section

variable {whole : Scope} {around changed : Chain} {name : String}

theorem IsFreeOf.of_same (h : around.IsFreeOf whole)
    (hsame : SameScopes around.scopes changed.scopes) : changed.IsFreeOf whole :=
  fun name hname => hsame.forall_binds (h name hname)

theorem IsFreeOf.bind (h : around.IsFreeOf whole)
    (hname : ∀ scope ∈ around.scopes, scope.binds name = false) (value : Value) :
    around.IsFreeOf (whole.bind name value) := by
  intro other hother
  rw [Scope.binds_bind, Bool.or_eq_true, decide_eq_true_eq] at hother
  rcases hother with rfl | hother
  · exact hname
  · exact h other hother

theorem IsFreeOf.rebind?_eq_none (h : around.IsFreeOf whole) (hname : whole.binds name = true)
    (value : Value) : rebind? name value around.scopes = none :=
  rebind?_eq_none_iff.2 (h name hname)

end

/-! ## The difference stays hidden -/

namespace Splits

variable {whole parts : Chain}

theorem lookup (h : Splits whole parts) (name : String) :
    whole.lookup name = parts.lookup name := by
  cases h with
  | intro hdivides hfree =>
    rw [lookup_inside, lookup_inside, lookup_inside, hdivides.bindings, Option.or_assoc]

theorem function? (h : Splits whole parts) (name : String) :
    whole.function? name = parts.function? name := by
  cases h with
  | intro hdivides hfree =>
    rw [function?_inside, function?_inside, function?_inside, hdivides.functions, Option.or_assoc]

/-- An assignment from a scope inside finds the name in the half that holds it, or further out. -/
theorem rebind? (h : Splits whole parts) (name : String) (value : Value) :
    Option.Rel (OnScopes Splits) (rebind? name value whole.scopes)
      (rebind? name value parts.scopes) := by
  cases h with
  | @intro whole inner outer around hdivides hfree =>
    have hbinds := hdivides.binds name
    rw [rebind?_inside, rebind?_inside, rebind?_inside]
    by_cases hinner : inner.binds name = true
    · have houter : outer.binds name = false := by
        by_contra hbound
        rw [Bool.not_eq_false] at hbound
        exact Bool.false_ne_true ((hdivides.apart name hbound).symm.trans hinner)
      rw [hinner, Bool.true_or] at hbinds
      rw [if_pos hbinds, if_pos hinner]
      exact .some ⟨_, _, .intro (hdivides.bindInner houter value)
        (hfree.bind (hfree name hbinds) value), rfl, rfl⟩
    · rw [Bool.not_eq_true] at hinner
      rw [hinner, Bool.false_or] at hbinds
      rw [hbinds, hinner, if_neg Bool.false_ne_true]
      by_cases houter : outer.binds name = true
      · rw [if_pos houter, if_pos houter]
        rw [houter] at hbinds
        exact .some ⟨_, _, .intro (hdivides.bindOuter houter value)
          (hfree.bind (hfree name hbinds) value), rfl, rfl⟩
      · rw [if_neg houter, if_neg houter]
        cases hrebound : Chain.rebind? name value around.scopes with
        | none => exact .none
        | some after =>
          obtain ⟨changed, rfl, hsame⟩ := exists_of_rebind? hrebound
          exact .some ⟨_, _, .intro hdivides (hfree.of_same hsame), rfl, rfl⟩

theorem assign (h : Splits whole parts) (name : String) (value : Value) :
    Splits (whole.assign name value) (parts.assign name value) := by
  cases h with
  | @intro whole inner outer around hdivides hfree =>
    rw [assign_inside, assign_inside, rebind?_inside]
    by_cases houter : outer.binds name = true
    · have hbinds : whole.binds name = true := by rw [hdivides.binds, houter, Bool.or_true]
      rw [if_pos houter, hfree.rebind?_eq_none hbinds]
      exact .intro (hdivides.bindOuter houter value) (hfree.bind (hfree name hbinds) value)
    · rw [if_neg houter]
      rw [Bool.not_eq_true] at houter
      cases hrebound : Chain.rebind? name value around.scopes with
      | none =>
        exact .intro (hdivides.bindInner houter value)
          (hfree.bind (rebind?_eq_none_iff.1 hrebound) value)
      | some after =>
        obtain ⟨changed, rfl, hsame⟩ := exists_of_rebind? hrebound
        exact .intro hdivides (hfree.of_same hsame)

theorem declare (h : Splits whole parts) (f : Function) :
    Splits (whole.declare f) (parts.declare f) := by
  cases h with
  | intro hdivides hfree => exact .intro (hdivides.declare f) hfree

/-- A result is recorded further out, because a block keeps none. -/
theorem record (h : Splits whole parts) (value : Value) :
    Splits (whole.record value) (parts.record value) := by
  cases h with
  | @intro whole inner outer around hdivides hfree =>
    rw [record_inside, record_inside, record_inside, if_pos hdivides.wholeKind,
      if_pos hdivides.innerKind, if_pos hdivides.outerKind]
    exact .intro hdivides (hfree.of_same (around.scopes_record value))

theorem isHidden : IsHidden Splits where
  lookup := lookup
  function? := function?
  rebind? := rebind?
  assign := assign
  declare := declare
  record := record

end Splits
end Chain
end MessageTemplate
