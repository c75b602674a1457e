import MessageTemplate.Proofs.Grammar.RoundTrip
import MessageTemplate.Proofs.Resolution.Reserved
import MessageTemplate.Proofs.Token.Longest

/-!
# Literals without a value

A literal of a tree that was read has the characters of a token. Numbers of
these characters always have a value. Behind the mark of a marked literal,
however, there can be letters, nothing at all, or an integer that is too large,
and these are all the literals that are refused.
-/

namespace MessageTemplate

/-! ## Numbers -/

namespace Decimal

theorem natOfDigits?_eq_some_iff {text : List Char} {n : Nat} : natOfDigits? text = some n ↔
    text ≠ [] ∧ (∀ c ∈ text, c.isDigit = true) ∧ ofDigits text = n := by
  simp [natOfDigits?, and_assoc]

/-- Digits, and a point with more digits if there is a fraction. -/
inductive IsPlain : List Char → Prop
  | whole {digits : List Char} (hne : digits ≠ []) (hdigits : ∀ c ∈ digits, c.isDigit = true) :
      IsPlain digits
  | decimal {digits fraction : List Char} (hne : digits ≠ [])
      (hdigits : ∀ c ∈ digits, c.isDigit = true) (hfraction : fraction ≠ [])
      (hpart : ∀ c ∈ fraction, c.isDigit = true) : IsPlain (digits ++ '.' :: fraction)

namespace IsPlain

variable {text : List Char}

theorem significand? (h : IsPlain text) : (significand? text).isSome = true := by
  have hpoint : Char.isDigit '.' = false := rfl
  cases h with
  | whole hne hdigits =>
    have hself : text.takeWhile Char.isDigit = text := List.takeWhile_eq_self_iff.2 hdigits
    have hrest : text.dropWhile Char.isDigit = [] := List.dropWhile_eq_nil_iff.2 hdigits
    simp [Decimal.significand?, hself, hrest, hne]
  | decimal hne hdigits hfraction hpart =>
    simp [Decimal.significand?, List.takeWhile_append_of_pos hdigits,
      List.dropWhile_append_of_pos hdigits, hpoint, hne, hfraction]
    exact hpart

theorem ne_letter (h : IsPlain text) : ∀ c ∈ text, c ≠ 'e' ∧ c ≠ '-' := by
  have hdigit : ∀ c : Char, c.isDigit = true → c ≠ 'e' ∧ c ≠ '-' := by
    intro c hc
    constructor <;> rintro rfl <;> contradiction
  cases h <;> grind

theorem unsigned? (h : IsPlain text) : (unsigned? text).isSome = true := by
  have hne : ∀ c ∈ text, (c != 'e') = true := fun c hc => by simp [(h.ne_letter c hc).1]
  have hself : text.takeWhile (· != 'e') = text := List.takeWhile_eq_self_iff.2 hne
  have hrest : text.dropWhile (· != 'e') = [] := List.dropWhile_eq_nil_iff.2 hne
  obtain ⟨parts, hparts⟩ := Option.isSome_iff_exists.1 h.significand?
  simp [Decimal.unsigned?, hself, hrest, hparts]

theorem ofText? {raw : String} (h : IsPlain raw.toList) : (ofText? raw).isSome = true := by
  unfold Decimal.ofText?
  split
  · rfl
  · rfl
  · rfl
  · split
    · rename_i rest hminus
      rw [hminus] at h
      exact absurd rfl (h.ne_letter '-' (by simp)).2
    · exact h.unsigned?

end IsPlain
end Decimal

theorem Spelled.isPlain {raw : String} {text : List Char} (h : Spelled (.number raw) text) :
    Decimal.IsPlain raw.toList := by
  cases h with
  | whole hne hdigits =>
    rw [String.toList_ofList]
    exact .whole hne hdigits
  | decimal hne hdigits hfraction hpart =>
    rw [String.toList_ofList]
    exact .decimal hne hdigits hfraction hpart

/-- The number of a token has a value. -/
theorem Token.IsStable.number_value {raw : String} (h : (Token.number raw).IsStable) :
    ∃ x, (Literal.number raw).value = .ok (.number x) := by
  obtain ⟨x, hx⟩ := Option.isSome_iff_exists.1 h.spelled.isPlain.ofText?
  exact ⟨x, by rw [Literal.value, hx]⟩

/-! ## Marked integers -/

namespace Literal

/-- A mark with digits behind it that stand for an integer of at most 31 bits. -/
def IsMarkedInteger (raw : String) : Prop :=
  ∃ mark ∈ ["#", "0x"], ∃ digits : List Char, raw.toList = mark.toList ++ digits ∧ digits ≠ [] ∧
    (∀ c ∈ digits, c.isDigit = true) ∧ Decimal.ofDigits digits ≤ 2147483647

/-- A mark with letters and digits behind it. -/
def IsMarked (raw : String) : Prop :=
  ∃ mark ∈ ["#", "0x"], ∃ body : List Char, raw.toList = mark.toList ++ body ∧
    ∀ c ∈ body, c.isAlphanum = true

/-- The first character that marks a literal is the first or the second one. -/
theorem IsMarked.findIdx? {raw : String} (h : IsMarked raw) :
    ∃ i ≤ 1, raw.toList.findIdx? isMark = some i := by
  obtain ⟨mark, hmark, body, hraw, -⟩ := h
  rw [hraw]
  rcases List.mem_pair.1 hmark with rfl | rfl
  · exact ⟨0, by decide, rfl⟩
  · exact ⟨1, by decide, rfl⟩

/-- Only what stands behind the mark counts. -/
theorem markedInteger?_eq {raw mark : String} (hmark : mark ∈ ["#", "0x"]) {body : List Char}
    (hraw : raw.toList = mark.toList ++ body) :
    markedInteger? raw = (Decimal.natOfDigits? body).bind fun n =>
      if n < markedLimit then some (Int64.ofNat n) else none := by
  have hzero : isMark '0' = false := rfl
  have hhash : isMark '#' = true := rfl
  have hx : isMark 'x' = true := rfl
  rw [markedInteger?, hraw]
  rcases List.mem_pair.1 hmark with rfl | rfl <;> simp [hzero, hhash, hx]

theorem IsMarked.markedInteger?_isSome_iff {raw : String} (h : IsMarked raw) :
    (markedInteger? raw).isSome = true ↔ IsMarkedInteger raw := by
  constructor
  · intro hsome
    obtain ⟨mark, hmark, body, hraw, -⟩ := h
    obtain ⟨integer, hinteger⟩ := Option.isSome_iff_exists.1 hsome
    rw [markedInteger?_eq hmark hraw, Option.bind_eq_some_iff] at hinteger
    obtain ⟨n, hn, hlimit⟩ := hinteger
    obtain ⟨hne, hdigits, rfl⟩ := Decimal.natOfDigits?_eq_some_iff.1 hn
    refine ⟨mark, hmark, body, hraw, hne, hdigits, ?_⟩
    split at hlimit
    · rename_i hsmall
      exact Nat.le_of_lt_succ hsmall
    · contradiction
  · rintro ⟨mark, hmark, digits, hraw, hne, hdigits, hlimit⟩
    have hn := Decimal.natOfDigits?_eq_some_iff.2 ⟨hne, hdigits, rfl⟩
    have hsmall : Decimal.ofDigits digits < markedLimit := Nat.lt_succ_of_le hlimit
    rw [markedInteger?_eq hmark hraw, hn, Option.bind_some, if_pos hsmall]
    rfl

end Literal

theorem Spelled.isMarked {raw : String} {text : List Char} (h : Spelled (.hex raw) text) :
    Literal.IsMarked raw := by
  cases h with
  | hex hbody => exact ⟨"0x", by simp, _, by simp, hbody⟩
  | hash hbody => exact ⟨"#", by simp, _, by simp, hbody⟩

/-! ## Faults of trees that were read -/

/-- A literal that is written with a token has no value just if it is marked and what is behind the
mark is not an integer. -/
theorem Literal.fault?_eq_some_iff {literal : Literal} (h : literal.token.IsStable)
    {fault : CompileFault} : literal.fault? = some fault ↔
      ∃ raw, literal = .hex raw ∧ ¬ IsMarkedInteger raw ∧ fault = .invalidHex raw := by
  cases literal with
  | string raw => simp [fault?, value]
  | bool b => simp [fault?, value]
  | number raw =>
    obtain ⟨x, hx⟩ := h.number_value
    simp [fault?, hx]
  | hex raw =>
    have hinteger := h.spelled.isMarked.markedInteger?_isSome_iff
    cases hvalue : markedInteger? raw <;> simp [hvalue] at hinteger <;>
      simp [fault?, value, hvalue, hinteger, eq_comm]

/-- The faults of an expression are its marked literals that are not integers. -/
theorem Expr.mem_faults_iff {file : String} {e : SourceExpr} (h : e.WellFormed)
    {error : CompileError} : error ∈ e.faults file ↔
      ∃ place raw, .literal place (.hex raw) ∈ e.nodes ∧ ¬ Literal.IsMarkedInteger raw ∧
        error = ⟨.invalidHex raw, some ⟨file, place⟩⟩ := by
  rw [faults, List.mem_filterMap]
  constructor
  · rintro ⟨node, hnode, herror⟩
    cases node with
    | literal place literal =>
      obtain ⟨fault, hfault, rfl⟩ := Option.map_eq_some_iff.1 herror
      obtain ⟨raw, rfl, hraw, rfl⟩ := (Literal.fault?_eq_some_iff (h _ hnode)).1 hfault
      exact ⟨place, raw, hnode, hraw, rfl⟩
    | _ => contradiction
  · rintro ⟨place, raw, hnode, hraw, rfl⟩
    have hfault := (Literal.fault?_eq_some_iff (h _ hnode)).2 ⟨raw, rfl, hraw, rfl⟩
    exact ⟨_, hnode, by rw [fault?, hfault]; rfl⟩

namespace Stmt

/-- A marked literal that is not an integer, or a function `now`, anywhere in a statement. -/
inductive HasFault (s : SourceStmt) : Prop
  | mark {e : SourceExpr} {place : Position} {raw : String} (he : e ∈ s.allExprs)
      (hnode : .literal place (.hex raw) ∈ e.nodes) (hraw : ¬ Literal.IsMarkedInteger raw)
  | clock (hname : "now" ∈ s.declaredNames)

theorem WellFormed.expr {s : SourceStmt} (h : s.WellFormed) {e : SourceExpr}
    (he : e ∈ s.allExprs) : e.WellFormed := by
  obtain ⟨node, hnode, he⟩ := List.mem_flatMap.1 he
  exact (h node hnode).2 e he

theorem faults_eq_nil_iff_not_hasFault {file : String} {s : SourceStmt} (h : s.WellFormed) :
    s.faults file = [] ↔ ¬ s.HasFault := by
  have hname : ∀ name, isSystemFunction name = false ↔ name ≠ "now" := by
    simp [isSystemFunction, systemFunction?]
  have hmarks : ∀ e ∈ s.allExprs, e.faults file = [] ↔
      ∀ place raw, .literal place (.hex raw) ∈ e.nodes → Literal.IsMarkedInteger raw := by
    intro e he
    rw [List.eq_nil_iff_forall_not_mem]
    simp only [Expr.mem_faults_iff (h.expr he)]
    grind
  rw [faults_eq_nil_iff, forall₂_congr hmarks]
  simp only [hname]
  constructor
  · rintro ⟨hexprs, hnames⟩ (⟨he, hnode, hraw⟩ | hnow)
    · exact hraw (hexprs _ he _ _ hnode)
    · exact hnames _ hnow rfl
  · intro hfault
    refine ⟨fun e he place raw hnode => ?_, fun name hdeclared hnow => ?_⟩
    · exact of_not_not fun hraw => hfault (.mark he hnode hraw)
    · exact hfault (.clock (hnow ▸ hdeclared))

end Stmt
end MessageTemplate
