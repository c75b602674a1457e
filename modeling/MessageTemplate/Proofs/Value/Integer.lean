import MessageTemplate.Evaluation.Message
import MessageTemplate.Proofs.Decimal.Size
import MessageTemplate.Proofs.Evaluation.Keeping

/-!
# Numbers as integers

A double-precision number is taken for an integer if the rational number that it
is is whole and lies between `-2 ^ 63` and `2 ^ 63`, both excluded. The least
integer of 64 bits is therefore refused although it is a double-precision number
(`least_integer_refused`). The operators on bits and the color of an embed take
the integers that `HasInteger` names, and no other values.
-/

namespace MessageTemplate

open Binary64 (rational?)

namespace Value

/-- What a value is as an integer: nothing for null, and for a number the whole number that it is,
which must lie above the least integer. -/
inductive HasInteger : Value → Option Int64 → Prop
  | null : HasInteger null none
  | integer (n : Int64) : HasInteger (integer n) (some n)
  | number {x : Float} {n : Int64} (hexact : rational? x = some (n.toInt : ℚ))
      (hleast : -2 ^ 63 < n.toInt) : HasInteger (number x) (some n)

/-- The bound is `2 ^ 63`, which the greatest integer does not reach. -/
theorem abs_lt_integerBound_iff {x : Float} :
    x.abs < integerBound ↔ ∃ q, rational? x = some q ∧ |q| < 2 ^ 63 :=
  Binary64.abs_lt_iff (by decide) (rfl : integerBound.toModel.unpack =
    .finite .positive (2 ^ 52) 11 (by decide))

/-- On whole numbers the bound is one on their sizes. -/
theorem abs_lt_integerBound_of_whole {x : Float} {n : Int} (h : rational? x = some (n : ℚ)) :
    x.abs < integerBound ↔ -2 ^ 63 < n ∧ n < 2 ^ 63 := by
  rw [abs_lt_integerBound_iff, h, ← abs_lt]
  simp only [Option.some_inj, exists_eq_left']
  exact_mod_cast Iff.rfl

theorem wholeNumber?_eq_some_iff {x : Float} {n : Int64} :
    wholeNumber? x = some n ↔ rational? x = some (n.toInt : ℚ) ∧ -2 ^ 63 < n.toInt := by
  rw [wholeNumber?, Option.ite_none_right_eq_some, Option.map_eq_some_iff]
  constructor
  · rintro ⟨hbound, m, hm, rfl⟩
    have hwhole := Binary64.toInt?_ofFloat_eq_some_iff.1 hm
    obtain ⟨hleast, hgreatest⟩ := (abs_lt_integerBound_of_whole hwhole).1 hbound
    rw [Int64.toInt_ofInt_of_le (Int.le_of_lt hleast) hgreatest]
    exact ⟨hwhole, hleast⟩
  · rintro ⟨hexact, hleast⟩
    exact ⟨(abs_lt_integerBound_of_whole hexact).2 ⟨hleast, n.toInt_lt⟩, n.toInt,
      Binary64.toInt?_ofFloat_eq_some_iff.2 hexact, n.ofInt_toInt⟩

/-- A value is read as an integer if it has one. -/
theorem asInteger_eq_ok_iff {value : Value} {n : Option Int64} :
    value.asInteger = .ok n ↔ value.HasInteger n := by
  constructor
  · intro h
    cases value with
    | null => cases h; exact .null
    | integer m => cases h; exact .integer m
    | number x =>
      rw [asInteger] at h
      split at h
      next m hm =>
        cases h
        obtain ⟨hexact, hleast⟩ := wholeNumber?_eq_some_iff.1 hm
        exact .number hexact hleast
      next => cases h
    | _ => cases h
  · intro h
    cases h with
    | null => rfl
    | integer m => rfl
    | number hexact hleast => rw [asInteger, wholeNumber?_eq_some_iff.2 ⟨hexact, hleast⟩]

/-- A value that has no integer is refused. -/
theorem asInteger_eq_error {value : Value} (h : ∀ n, ¬ value.HasInteger n) :
    value.asInteger = .error (.coercion value.kind .integer) := by
  cases value with
  | null => exact absurd .null (h none)
  | integer m => exact absurd (.integer m) (h (some m))
  | number x =>
    rw [asInteger]
    split
    next m hm =>
      obtain ⟨hexact, hleast⟩ := wholeNumber?_eq_some_iff.1 hm
      exact absurd (.number hexact hleast) (h (some m))
    next => rfl
  | _ => rfl

theorem hasInteger_number_iff {x : Float} {n : Int64} :
    HasInteger (number x) (some n) ↔ rational? x = some (n.toInt : ℚ) ∧ -2 ^ 63 < n.toInt := by
  constructor
  · rintro ⟨⟩
    exact ⟨‹_›, ‹_›⟩
  · rintro ⟨hexact, hleast⟩
    exact .number hexact hleast

/-- Only for the least integer the bound makes a difference. -/
theorem asInteger_number_iff {x : Float} :
    (∀ n : Int64, (number x).asInteger = .ok (some n) ↔ rational? x = some (n.toInt : ℚ)) ↔
      rational? x ≠ some ((-2 ^ 63 : Int) : ℚ) := by
  simp only [asInteger_eq_ok_iff, hasInteger_number_iff, and_iff_left_iff_imp]
  constructor
  · intro h hx
    exact absurd (h Int64.minValue hx) (lt_irrefl _)
  · intro hx n hexact
    refine lt_of_le_of_ne n.le_toInt fun heq => hx ?_
    rw [hexact, ← heq]

/-- The numbers that have an integer, by the rational numbers that they are. -/
theorem exists_hasInteger_number_iff {x : Float} :
    (∃ n, HasInteger (number x) n) ↔
      ∃ n : Int, rational? x = some (n : ℚ) ∧ -2 ^ 63 < n ∧ n ≤ 2 ^ 63 - 1 := by
  constructor
  · rintro ⟨_, hinteger⟩
    cases hinteger with
    | @number _ n hexact hleast =>
      have hgreatest := n.toInt_lt
      exact ⟨n.toInt, hexact, hleast, by omega⟩
  · rintro ⟨n, hexact, hleast, hgreatest⟩
    have hcast : (Int64.ofInt n).toInt = n :=
      Int64.toInt_ofInt_of_le (Int.le_of_lt hleast) (by omega)
    refine ⟨some (Int64.ofInt n), .number ?_ ?_⟩
    · rw [hcast, hexact]
    · rw [hcast]
      exact hleast

end Value

open Value

/-! ## Operators on bits and colors -/

theorem bind_eq_ok_iff {α β : Type} {first : Except RuntimeFault α}
    {next : α → Except RuntimeFault β} {b : β} :
    (first >>= next) = .ok b ↔ ∃ a, first = .ok a ∧ next a = .ok b := by
  cases first with
  | error fault =>
    refine iff_of_false nofun ?_
    rintro ⟨a, ha, -⟩
    cases ha
  | ok a =>
    refine ⟨fun h => ⟨a, rfl, h⟩, ?_⟩
    rintro ⟨_, ha, h⟩
    cases ha
    exact h

theorem pure_eq_ok_iff {α : Type} {a b : α} : (pure a : Except RuntimeFault α) = .ok b ↔ b = a :=
  ⟨fun h => (Except.ok.inj h).symm, fun h => h ▸ rfl⟩

theorem UnaryOp.complement_eq_ok_iff {value result : Value} :
    UnaryOp.complement.apply value = .ok result ↔
      ∃ n, value.HasInteger n ∧ result = n.elim .null fun n => .integer (~~~n) := by
  rw [UnaryOp.apply, bind_eq_ok_iff]
  apply exists_congr
  intro n
  rw [asInteger_eq_ok_iff, pure_eq_ok_iff]

/-- The result of an operator on bits; it is null if an operand is. -/
def bitsOf (f : Int64 → Int64 → Int64) : Option Int64 → Option Int64 → Value
  | some m, some n => .integer (f m n)
  | _, _ => .null

theorem BinaryOp.bitwise_eq_ok_iff {f : Int64 → Int64 → Int64} {left right result : Value} :
    BinaryOp.bitwise f left right = .ok result ↔
      ∃ m n, left.HasInteger m ∧ right.HasInteger n ∧ result = bitsOf f m n := by
  rw [BinaryOp.bitwise, BinaryOp.lift, bind_eq_ok_iff]
  apply exists_congr
  intro m
  rw [bind_eq_ok_iff, asInteger_eq_ok_iff, ← exists_and_left]
  apply exists_congr
  intro n
  rw [asInteger_eq_ok_iff]
  refine and_congr_right fun _ => and_congr_right fun _ => ?_
  cases m <;> cases n <;> exact pure_eq_ok_iff

namespace Eval

section

variable {call : Caller} {e : Term} {state mid : State} {value : Value}
  (hterm : term call e state = .ok value mid)
include hterm

/-- The color is the integer that the value has; null leaves the embed alone. -/
theorem writeColor_of_hasInteger {n : Option Int64} (h : value.HasInteger n) :
    writeMember call .color e state =
      .ok () (n.elim mid fun color =>
        mid.editDocument fun document => document.editEmbed fun embed =>
          { embed with color := some color }) := by
  rw [writeMember, Run.bind_of_ok hterm, memberEdit, asInteger_eq_ok_iff.2 h]
  cases n with
  | none => rfl
  | some color => rfl

theorem writeColor_of_not_hasInteger (h : ∀ n, ¬ value.HasInteger n) :
    writeMember call .color e state =
      .error (.failed (.unplaced (.coercion value.kind .integer))) mid := by
  rw [writeMember, Run.bind_of_ok hterm, memberEdit, asInteger_eq_error h]
  rfl

end

end Eval

/-! ## The law -/

/-- A double-precision number is read as the integer of 64 bits that it is, unless it is the least
one. It is read exactly if it is a whole number that lies above the least integer and is not greater
than the greatest; infinities and what is not a number are refused. The operators on bits and the
color of an embed take what can be read so, and nothing else. -/
theorem integer_coercion_exact (x : Float) :
    ((∀ n : Int64, (number x).asInteger = .ok (some n) ↔ rational? x = some (n.toInt : ℚ)) ↔
      rational? x ≠ some ((-2 ^ 63 : Int) : ℚ)) ∧
    ((∃ n, (number x).asInteger = .ok n) ↔
      ∃ n : Int, rational? x = some (n : ℚ) ∧ -2 ^ 63 < n ∧ n ≤ 2 ^ 63 - 1) ∧
    (∀ (value : Value) n, value.asInteger = .ok n ↔ value.HasInteger n) ∧
    (∀ value : Value, (∀ n, ¬ value.HasInteger n) →
      value.asInteger = .error (.coercion value.kind .integer)) ∧
    (∀ value result, UnaryOp.complement.apply value = .ok result ↔
      ∃ n, value.HasInteger n ∧ result = n.elim .null fun n => .integer (~~~n)) ∧
    (∀ left right result, BinaryOp.bitAnd.apply left right = .ok result ↔
      ∃ m n, left.HasInteger m ∧ right.HasInteger n ∧ result = bitsOf (· &&& ·) m n) ∧
    (∀ left right result, BinaryOp.bitOr.apply left right = .ok result ↔
      ∃ m n, left.HasInteger m ∧ right.HasInteger n ∧ result = bitsOf (· ||| ·) m n) ∧
    ∀ call e state value mid, Eval.term call e state = .ok value mid →
      (∀ n, value.HasInteger n → Eval.writeMember call .color e state =
        .ok () (n.elim mid fun color =>
          mid.editDocument fun document => document.editEmbed fun embed =>
            { embed with color := some color })) ∧
      ((∀ n, ¬ value.HasInteger n) → Eval.writeMember call .color e state =
        .error (.failed (.unplaced (.coercion value.kind .integer))) mid) := by
  refine ⟨asInteger_number_iff, ?_, fun _ _ => asInteger_eq_ok_iff, fun _ => asInteger_eq_error,
    fun _ _ => UnaryOp.complement_eq_ok_iff, fun left right result => ?_,
    fun left right result => ?_,
    fun call e state value mid hterm => ⟨fun _ => Eval.writeColor_of_hasInteger hterm,
      Eval.writeColor_of_not_hasInteger hterm⟩⟩
  · simp only [asInteger_eq_ok_iff]
    exact exists_hasInteger_number_iff
  · rw [BinaryOp.apply, BinaryOp.bitwise_eq_ok_iff]
  · rw [BinaryOp.apply, BinaryOp.bitwise_eq_ok_iff]

theorem integer_coercion_exact_sixtySecondPower :
    rational? (Float.ofInt 4611686018427387904) = some (4611686018427387904 : Int) ∧
      UnaryOp.complement.apply (number (Float.ofInt 4611686018427387904)) =
        .ok (.integer (-4611686018427387905)) := by
  obtain ⟨-, -, -, -, hcomplement, -⟩ := integer_coercion_exact (Float.ofInt 4611686018427387904)
  have hexact : rational? (Float.ofInt 4611686018427387904) =
      some (((4611686018427387904 : Int64).toInt : Int) : ℚ) := by
    rw [← Binary64.toInt?_ofFloat_eq_some_iff]
    decide +kernel
  exact ⟨hexact, (hcomplement _ _).2 ⟨_, .number hexact (by decide), rfl⟩⟩

/-- The double-precision number `-2 ^ 63`. -/
def leastInteger : Float := Float.ofInt (-9223372036854775808)

/-- The least integer of 64 bits is a number that no operator on bits takes. -/
theorem least_integer_refused :
    rational? leastInteger = some ((-2 ^ 63 : Int) : ℚ) ∧
      (number leastInteger).asInteger = .error (.coercion .number .integer) ∧
      UnaryOp.complement.apply (number leastInteger) = .error (.coercion .number .integer) := by
  have hexact : rational? leastInteger = some ((-2 ^ 63 : Int) : ℚ) := by
    rw [← Binary64.toInt?_ofFloat_eq_some_iff]
    decide +kernel
  have hrefused : (number leastInteger).asInteger = .error (.coercion .number .integer) := by
    apply asInteger_eq_error
    intro n h
    obtain ⟨m, hm, hleast, -⟩ := exists_hasInteger_number_iff.1 ⟨n, h⟩
    have heq : m = -2 ^ 63 := Int.cast_inj.1 (Option.some.inj (hm.symm.trans hexact))
    omega
  refine ⟨hexact, hrefused, ?_⟩
  rw [UnaryOp.apply, hrefused]
  rfl

end MessageTemplate
