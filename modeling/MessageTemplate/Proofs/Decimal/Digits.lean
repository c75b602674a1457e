import MessageTemplate.Decimal.Digits
import Mathlib.Data.List.Induction
import Mathlib.Data.List.TakeWhile

/-!
# Digits and the numbers they stand for

Reading undoes writing, with or without zeros in front, so that a number is
determined by its digits (`padded_inj`). No number but zero is written with a
leading zero, and a number of limited size fills its width exactly.
-/

namespace MessageTemplate

/-! ## Where a run of characters ends -/

section

variable {p : Char → Bool} {run rest : List Char}

/-- A run of characters ends where none of its kind follows. -/
theorem takeWhile_run_append (hrun : ∀ c ∈ run, p c = true)
    (hrest : ∀ c ∈ rest.head?, p c = false) :
    (run ++ rest).takeWhile p = run := by
  rw [List.takeWhile_append_of_pos hrun]
  cases rest with
  | nil => exact List.append_nil run
  | cons c rest => simp [hrest c rfl]

theorem dropWhile_run_append (hrun : ∀ c ∈ run, p c = true)
    (hrest : ∀ c ∈ rest.head?, p c = false) :
    (run ++ rest).dropWhile p = rest := by
  rw [List.dropWhile_append_of_pos hrun]
  cases rest with
  | nil => rfl
  | cons c rest => simp [hrest c rfl]

end

namespace Decimal

/-! ## Digits -/

theorem digits_ne_nil (n : Nat) : digits n ≠ [] := Nat.toDigits_ne_nil

theorem isDigit_of_mem_digits {n : Nat} {c : Char} (h : c ∈ digits n) : c.isDigit = true :=
  Nat.isDigit_of_mem_toDigits (by decide) (by decide) h

theorem ofDigits_digits (n : Nat) : ofDigits (digits n) = n := Nat.ofDigitChars_ten_toDigits

/-- No zero stands in front of other digits. -/
theorem eq_nil_of_digits_eq_zero_cons {n : Nat} {rest : List Char}
    (h : digits n = '0' :: rest) : rest = [] := by
  induction n using Nat.strongRecOn generalizing rest with
  | ind n ih =>
    by_cases hsmall : n < 10
    · rw [digits, Nat.toDigits_of_lt_base hsmall] at h
      exact (List.cons.inj h).2.symm
    · rw [digits, Nat.toDigits_of_base_le (by decide) (by omega)] at h
      -- The digits in front of the last one start with zero as well, so they stand for zero.
      obtain ⟨first, front, hfront⟩ := List.exists_cons_of_ne_nil (digits_ne_nil (n / 10))
      rw [← digits, hfront] at h
      obtain ⟨rfl, -⟩ := List.cons.inj h
      have hnil := ih (n / 10) (by omega) hfront
      have hzero := ofDigits_digits (n / 10)
      rw [hfront, hnil] at hzero
      have : ofDigits ['0'] = 0 := rfl
      omega

/-! ## Numbers of a fixed width -/

theorem length_padded {width n : Nat} (hwidth : 0 < width) (h : n < Nat.pow 10 width) :
    (padded width n).length = width := by
  have hdigits : (digits n).length ≤ width :=
    (Nat.length_toDigits_le_iff (by decide) hwidth).2 h
  rw [padded, List.length_append, List.length_replicate]
  omega

theorem padded_ne_nil (width n : Nat) : padded width n ≠ [] :=
  List.append_ne_nil_of_right_ne_nil _ (digits_ne_nil n)

theorem isDigit_of_mem_padded {width n : Nat} {c : Char} (h : c ∈ padded width n) :
    c.isDigit = true := by
  rcases List.mem_append.1 h with hzero | hdigit
  · rw [List.eq_of_mem_replicate hzero]
    rfl
  · exact isDigit_of_mem_digits hdigit

theorem ofDigits_zeros_append (count : Nat) (back : List Char) :
    ofDigits (List.replicate count '0' ++ back) = ofDigits back := by
  induction count with
  | zero => rfl
  | succ count ih => exact ih

theorem ofDigits_padded (width n : Nat) : ofDigits (padded width n) = n := by
  rw [padded, ofDigits_zeros_append, ofDigits_digits]

theorem padded_inj {width m n : Nat} : padded width m = padded width n ↔ m = n := by
  constructor
  · intro h
    rw [← ofDigits_padded width m, h, ofDigits_padded]
  · rintro rfl
    rfl

/-! ## Numbers without leading zeros -/

theorem digitChar_digitValue {c : Char} (h : c.isDigit = true) :
    (digitValue c).digitChar = c := by
  have hbounds := Char.isDigit_iff_toNat.1 h
  simp only [Char.reduceToNat] at hbounds
  apply Char.toNat_inj.1
  rw [digitValue, Nat.toNat_digitChar_of_lt_ten (by simp only [Char.reduceToNat]; omega)]
  simp only [Char.reduceToNat]
  omega

theorem digitValue_lt {c : Char} (h : c.isDigit = true) : digitValue c < 10 := by
  have hbounds := Char.isDigit_iff_toNat.1 h
  simp only [Char.reduceToNat] at hbounds
  simp only [digitValue, Char.reduceToNat]
  omega

/-- Digits are written again as they are read, if they start with no zero. -/
theorem digits_ofDigits_cons {d : Char} (hd : d.isDigit = true) (hzero : d ≠ '0')
    {more : List Char} (hmore : ∀ c ∈ more, c.isDigit = true) :
    digits (ofDigits (d :: more)) = d :: more := by
  -- Writing divides by ten, which takes away the last digit, so the induction is from the end.
  induction more using List.reverseRecOn with
  | nil =>
    have hvalue : ofDigits [d] = digitValue d := by simp [ofDigits]
    rw [digits, hvalue, Nat.toDigits_of_lt_base (digitValue_lt hd), digitChar_digitValue hd]
  | append_singleton more c ih =>
    obtain ⟨hmore, hc⟩ := List.forall_mem_append.1 hmore
    have hc : c.isDigit = true := hc c (by simp)
    have hfront := ih hmore
    have hpos : 0 < ofDigits (d :: more) := by
      refine Nat.pos_of_ne_zero fun hnone => ?_
      rw [hnone] at hfront
      exact hzero (List.cons.inj hfront).1.symm
    have hvalue : ofDigits (d :: more ++ [c]) = 10 * ofDigits (d :: more) + digitValue c := by
      rw [ofDigits_append]
      rfl
    rw [← List.cons_append, hvalue, digits,
      ← Nat.toDigits_append_toDigits (by decide) hpos (digitValue_lt hc), ← digits, hfront,
      Nat.toDigits_of_lt_base (digitValue_lt hc), digitChar_digitValue hc]

/-- Digits without the zeros in front of them; a zero alone stays. -/
def significant (text : List Char) : List Char :=
  match text.dropWhile (· == '0') with
  | [] => ['0']
  | rest => rest

theorem digits_ofDigits {text : List Char} (h : ∀ c ∈ text, c.isDigit = true) :
    digits (ofDigits text) = significant text := by
  have hvalue : ofDigits text = ofDigits (text.dropWhile (· == '0')) := by
    have hzeros : text.takeWhile (· == '0') =
        List.replicate (text.takeWhile (· == '0')).length '0' :=
      List.eq_replicate_of_mem fun c hc => by simpa using List.mem_takeWhile_imp hc
    calc ofDigits text
        = ofDigits (text.takeWhile (· == '0') ++ text.dropWhile (· == '0')) := by
          rw [List.takeWhile_append_dropWhile]
      _ = ofDigits (text.dropWhile (· == '0')) := by
          rw [hzeros, ofDigits_zeros_append]
  rw [hvalue, significant]
  cases hrest : text.dropWhile (· == '0') with
  | nil => rfl
  | cons d rest =>
    have hall : ∀ c ∈ d :: rest, c.isDigit = true :=
      fun c hc => h c ((List.dropWhile_suffix _).subset (hrest ▸ hc))
    obtain ⟨hd, hrestDigits⟩ := List.forall_mem_cons.1 hall
    have hzero : d ≠ '0' := by
      have hhead := List.head?_dropWhile_not (· == '0') text
      rw [hrest] at hhead
      simpa using hhead
    exact digits_ofDigits_cons hd hzero hrestDigits

end Decimal
end MessageTemplate
