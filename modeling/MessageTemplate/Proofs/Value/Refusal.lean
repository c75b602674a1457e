import MessageTemplate.Evaluation.Stmt

/-!
# How values are refused

Operators refuse values for their kind alone, and so do conditions, which need
truth values. Only a timestamp is also refused for its text.
-/

namespace MessageTemplate

namespace RuntimeFault

def IsCoercion : RuntimeFault → Prop
  | coercion _ _ => True
  | _ => False

/-- A condition is not a truth value. -/
def IsNoTruth (fault : RuntimeFault) : Prop := ∃ found, fault = coercion found .bool

/-- The value of an embed member is of another kind, or no timestamp. -/
def IsMemberFault (fault : RuntimeFault) : Prop :=
  fault.IsCoercion ∨ ∃ text cause, fault = timestamp text cause

/-- A loop has nothing to go through. -/
def IsNoList (fault : RuntimeFault) : Prop :=
  fault = nullIterable ∨ ∃ found, fault = notEnumerable found

end RuntimeFault

/-- A failure satisfies a condition. -/
def Refuses {α : Type} (q : RuntimeFault → Prop) (result : Except RuntimeFault α) : Prop :=
  ∀ fault, result = .error fault → q fault

namespace Refuses

variable {α β : Type} {q : RuntimeFault → Prop}

theorem ok (value : α) : Refuses q (.ok value) := fun _ h => by contradiction

theorem error {fault : RuntimeFault} (h : q fault) :
    Refuses q (.error fault : Except RuntimeFault α) := by
  intro other heq
  rwa [← Except.error.inj heq]

theorem mono {q' : RuntimeFault → Prop} {result : Except RuntimeFault α} (h : Refuses q result)
    (himp : ∀ fault, q fault → q' fault) : Refuses q' result :=
  fun fault heq => himp fault (h fault heq)

theorem bind {result : Except RuntimeFault α} {next : α → Except RuntimeFault β}
    (h : Refuses q result)
    (hnext : ∀ value, Refuses q (next value)) : Refuses q (result >>= next) := by
  cases result with
  | ok value => exact hnext value
  | error fault => exact .error (h fault rfl)

end Refuses

namespace Value

open RuntimeFault

theorem asNumber_refuses (value : Value) : Refuses IsCoercion value.asNumber := by
  cases value <;> first | exact .ok _ | exact .error trivial

theorem asInteger_refuses (value : Value) : Refuses IsCoercion value.asInteger := by
  cases value with
  | number x =>
    rw [asInteger]
    split
    · exact .ok _
    · exact .error trivial
  | _ => first | exact .ok _ | exact .error trivial

theorem asBool_refuses (value : Value) : Refuses IsNoTruth value.asBool := by
  cases value <;> first | exact .ok _ | exact .error ⟨_, rfl⟩

theorem isTrue_refuses (value : Value) : Refuses IsNoTruth value.isTrue :=
  .bind value.asBool_refuses fun _ => .ok _

theorem asInstant_refuses (value : Value) : Refuses IsMemberFault value.asInstant := by
  cases value with
  | string s =>
    rw [asInstant]
    split
    · exact .ok _
    · exact .error (.inr ⟨_, _, rfl⟩)
  | _ => first | exact .ok _ | exact .error (.inl trivial)

end Value

open RuntimeFault

theorem RuntimeFault.IsNoTruth.isCoercion {fault : RuntimeFault} (h : fault.IsNoTruth) :
    fault.IsCoercion := by
  obtain ⟨found, rfl⟩ := h
  trivial

theorem UnaryOp.apply_refuses (op : UnaryOp) (value : Value) :
    Refuses IsCoercion (op.apply value) := by
  have hnumber := value.asNumber_refuses
  cases op with
  | negate => cases value <;> first | exact .ok _ | exact .bind hnumber fun _ => .ok _
  | not => exact .bind (value.asBool_refuses.mono fun _ => IsNoTruth.isCoercion) fun _ => .ok _
  | complement => exact .bind value.asInteger_refuses fun _ => .ok _

namespace BinaryOp

theorem lift_refuses {α : Type} {coerce : Value → Value.Coerced α}
    (h : ∀ value, Refuses IsCoercion (coerce value)) (absent : Value) (f : α → α → Value)
    (left right : Value) : Refuses IsCoercion (lift coerce absent f left right) := by
  apply Refuses.bind (h left)
  intro a
  apply Refuses.bind (h right)
  intro b
  split <;> exact .ok _

theorem raise_refuses (base exponent : Value) : Refuses IsCoercion (raise base exponent) := by
  have hrequire : ∀ value, Refuses IsCoercion (requireNumber value) := by
    intro value
    apply Refuses.bind value.asNumber_refuses
    intro x
    cases x with
    | none => exact .error trivial
    | some x => exact .ok _
  exact .bind (hrequire base) fun _ => .bind (hrequire exponent) fun _ => .ok _

theorem logical_refuses (f : Bool → Bool → Bool) (left right : Value) :
    Refuses IsCoercion (logical f left right) := by
  have htruth : ∀ value : Value, Refuses IsCoercion value.isTrue := fun value =>
    value.isTrue_refuses.mono fun _ => IsNoTruth.isCoercion
  exact .bind (htruth left) fun _ => .bind (htruth right) fun _ => .ok _

theorem apply_refuses (op : BinaryOp) (left right : Value) :
    Refuses IsCoercion (op.apply left right) := by
  have hnumber := @Value.asNumber_refuses
  have hinteger := @Value.asInteger_refuses
  cases op with
  | add => cases left <;> first | exact .ok _ | exact lift_refuses hnumber _ _ _ _
  | subtract | multiply | divide | remainder | less | greater => exact lift_refuses hnumber _ _ _ _
  | power => exact raise_refuses _ _
  | bitAnd | bitOr => exact lift_refuses hinteger _ _ _ _
  | and | or => exact logical_refuses _ _ _

end BinaryOp

namespace Eval

theorem enumerate_refuses (value : Value) : Refuses IsNoList (enumerate value) := by
  cases value <;> first | exact .ok _ | exact .error (.inl rfl) | exact .error (.inr ⟨_, rfl⟩)

theorem memberEdit_refuses (member : EmbedMember) (value : Value) :
    Refuses IsMemberFault (memberEdit member value) := by
  cases member with
  | timestamp => exact .bind value.asInstant_refuses fun _ => .ok _
  | color => exact .bind (value.asInteger_refuses.mono fun _ => .inl) fun _ => .ok _
  | _ => exact .ok _

end Eval
end MessageTemplate
