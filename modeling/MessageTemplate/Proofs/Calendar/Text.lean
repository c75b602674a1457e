import MessageTemplate.Calendar.Reading
import MessageTemplate.Calendar.Text
import MessageTemplate.Proofs.Decimal.Digits

/-!
# Instants and their texts

An instant is determined by its text (`Instant.text_inj`). A year ends before
the first hyphen behind its digits; month, day and the parts of the clock have
two digits each; and the length of the fraction tells its unit.
-/

namespace MessageTemplate
namespace Calendar

/-! ## Parts of two digits -/

theorem length_twoDigits {n : Nat} (h : n < 100) : (twoDigits n).length = 2 :=
  Decimal.length_padded (by decide) h

theorem twoDigits_append_inj {m n : Nat} (hm : m < 100) (hn : n < 100) {first second : List Char}
    (h : twoDigits m ++ first = twoDigits n ++ second) : m = n ∧ first = second := by
  have hlength : (twoDigits m).length = (twoDigits n).length := by
    rw [length_twoDigits hm, length_twoDigits hn]
  obtain ⟨hdigits, hrest⟩ := List.append_inj h hlength
  exact ⟨Decimal.padded_inj.1 hdigits, hrest⟩

/-! ## Years -/

/-- What stands in front of the digits of a year. -/
def yearSign (year : Int) : List Char :=
  if 0 ≤ year ∧ year ≤ 9999 then [] else if year < 0 then ['-'] else ['+']

theorem yearText_eq (year : Int) :
    yearText year = yearSign year ++ Decimal.padded 4 year.natAbs := by
  unfold yearText yearSign
  split
  · rename_i h
    rw [show year.toNat = year.natAbs by omega]
    rfl
  · split <;> rfl

theorem not_isDigit_of_mem_yearSign {year : Int} {c : Char} (h : c ∈ yearSign year) :
    c.isDigit = false := by
  unfold yearSign at h
  split at h
  · contradiction
  · split at h
    · rw [List.mem_singleton.1 h]
      rfl
    · rw [List.mem_singleton.1 h]
      rfl

theorem yearSign_eq_minus_iff (year : Int) : yearSign year = ['-'] ↔ year < 0 := by
  unfold yearSign
  split
  · simp only [List.ne_cons_self, false_iff]
    omega
  · split <;> simp_all

/-- The sign of a year that is not written tells as much as one that is. -/
theorem eq_of_yearSign_eq {first second : Int} (hsign : yearSign first = yearSign second)
    (habs : first.natAbs = second.natAbs) : first = second := by
  have hfirst := yearSign_eq_minus_iff first
  rw [hsign, yearSign_eq_minus_iff] at hfirst
  omega

theorem takeWhile_padded_append (width n : Nat) (rest : List Char) :
    (Decimal.padded width n ++ '-' :: rest).takeWhile Char.isDigit = Decimal.padded width n := by
  rw [List.takeWhile_append_of_pos fun _ => Decimal.isDigit_of_mem_padded,
    List.takeWhile_cons_of_neg (by decide), List.append_nil]

/-- A year ends where a hyphen follows its digits. -/
theorem yearText_append_inj {first second : Int} {rest others : List Char}
    (h : yearText first ++ '-' :: rest = yearText second ++ '-' :: others) :
    first = second ∧ rest = others := by
  have hsplit : ∀ (year : Int) (more : List Char),
      (yearText year ++ '-' :: more).takeWhile (fun c => !c.isDigit) = yearSign year := by
    intro year more
    have hsign : ∀ c ∈ yearSign year, (!c.isDigit) = true := by
      intro c hc
      rw [not_isDigit_of_mem_yearSign hc]
      rfl
    obtain ⟨d, digits, hdigits⟩ := List.exists_cons_of_ne_nil
      (Decimal.padded_ne_nil 4 year.natAbs)
    have hd : d.isDigit = true := Decimal.isDigit_of_mem_padded (hdigits ▸ List.mem_cons_self)
    rw [yearText_eq, List.append_assoc, List.takeWhile_append_of_pos hsign, hdigits,
      List.cons_append, List.takeWhile_cons_of_neg (by simp [hd]), List.append_nil]
  have hsign : yearSign first = yearSign second := by
    rw [← hsplit first rest, h, hsplit]
  rw [yearText_eq, yearText_eq, hsign, List.append_assoc, List.append_assoc,
    List.append_cancel_left_eq] at h
  have hdigits : Decimal.padded 4 first.natAbs = Decimal.padded 4 second.natAbs := by
    rw [← takeWhile_padded_append 4 first.natAbs rest, h, takeWhile_padded_append]
  rw [hdigits, List.append_cancel_left_eq] at h
  exact ⟨eq_of_yearSign_eq hsign (Decimal.padded_inj.1 hdigits), (List.cons.inj h).2⟩

/-! ## Dates and times -/

theorem daysInMonth_lt (year : Int) (month : Nat) : daysInMonth year month < 100 := by
  unfold daysInMonth
  split
  · split <;> omega
  all_goals omega

theorem Date.text_append_inj {first second : Date} {rest others : List Char}
    (h : first.text ++ rest = second.text ++ others) : first = second ∧ rest = others := by
  obtain ⟨year, month, day, hmonth, hday⟩ := first
  obtain ⟨otherYear, otherMonth, otherDay, hotherMonth, hotherDay⟩ := second
  have hdayLt : day < 100 := Nat.lt_of_le_of_lt hday.2 (daysInMonth_lt _ _)
  have hotherDayLt : otherDay < 100 := Nat.lt_of_le_of_lt hotherDay.2 (daysInMonth_lt _ _)
  simp only [Date.text, List.append_assoc, List.cons_append] at h
  obtain ⟨hyears, hmonths⟩ := yearText_append_inj h
  have hmonthLt : month < 100 := by omega
  obtain ⟨hmonthEq, hdays⟩ := twoDigits_append_inj hmonthLt (by omega) hmonths
  obtain ⟨hdayEq, hrest⟩ := twoDigits_append_inj hdayLt hotherDayLt (List.cons.inj hdays).2
  subst hyears hmonthEq hdayEq
  exact ⟨rfl, hrest⟩

/-- Reading the digits of a fraction gives its nanoseconds. -/
theorem nanoseconds_fractionText {n : Nat} (h : n < 1000000000) :
    TimestampReader.nanoseconds (fractionText n).tail = n := by
  -- A fraction with this many digits counts in units of this many nanoseconds.
  have hread : ∀ width unit : Nat, 0 < width → width ≤ 9 → n / unit < 10 ^ width →
      n / unit * 10 ^ (9 - width) = n →
      TimestampReader.nanoseconds (Decimal.padded width (n / unit)) = n := by
    intro width unit hpos hle hlt hexact
    have hlength := Decimal.length_padded hpos hlt
    have htake : (Decimal.padded width (n / unit)).take 9 = Decimal.padded width (n / unit) :=
      List.take_of_length_le (by omega)
    rw [TimestampReader.nanoseconds, htake, Decimal.ofDigits_padded, hlength]
    exact hexact
  unfold fractionText
  split
  · rename_i hzero
    rw [hzero]
    rfl
  split
  · exact hread 3 1000000 (by decide) (by decide) (by omega) (by omega)
  split
  · exact hread 6 1000 (by decide) (by decide) (by omega) (by omega)
  · have hwhole := hread 9 1 (by decide) (by decide) (by omega) (by omega)
    rwa [Nat.div_one] at hwhole

theorem fractionText_inj {first second : Nat} (hfirst : first < 1000000000)
    (hsecond : second < 1000000000) (h : fractionText first = fractionText second) :
    first = second := by
  rw [← nanoseconds_fractionText hfirst, h, nanoseconds_fractionText hsecond]

theorem TimeOfDay.ext_parts {first second : TimeOfDay} (hhour : first.hour = second.hour)
    (hminute : first.minute = second.minute) (hsecond : first.second = second.second)
    (hnanosecond : first.nanosecond = second.nanosecond) : first = second := by
  obtain ⟨hour, minute, second, nanosecond⟩ := first
  simp_all

theorem TimeOfDay.clockText_append_inj {first second : TimeOfDay} {rest others : List Char}
    (h : first.clockText ++ rest = second.clockText ++ others) :
    first.hour = second.hour ∧ first.minute = second.minute ∧ first.second = second.second ∧
      rest = others := by
  simp only [clockText, List.append_assoc, List.cons_append] at h
  obtain ⟨hhour, h⟩ := twoDigits_append_inj (by omega) (by omega) h
  obtain ⟨hminute, h⟩ := twoDigits_append_inj (by omega) (by omega) (List.cons.inj h).2
  obtain ⟨hsecond, h⟩ := twoDigits_append_inj (by omega) (by omega) (List.cons.inj h).2
  exact ⟨Fin.ext hhour, Fin.ext hminute, Fin.ext hsecond, h⟩

/-- An instant is determined by its text. -/
theorem Instant.text_inj {first second : Instant} {mark : ZoneMark} :
    first.text mark = second.text mark ↔ first = second := by
  constructor
  · intro h
    have hchars := String.ofList_injective h
    rw [List.append_assoc, List.append_assoc, List.append_assoc, List.append_assoc,
      List.cons_append, List.cons_append] at hchars
    obtain ⟨hdate, hchars⟩ := Date.text_append_inj hchars
    obtain ⟨hhour, hminute, hsecond, hchars⟩ :=
      TimeOfDay.clockText_append_inj (List.cons.inj hchars).2
    have hnanosecond := fractionText_inj first.time.nanosecond.isLt second.time.nanosecond.isLt
      (List.append_cancel_right hchars)
    obtain ⟨date, time⟩ := first
    obtain ⟨otherDate, otherTime⟩ := second
    rw [Instant.mk.injEq]
    exact ⟨hdate, TimeOfDay.ext_parts hhour hminute hsecond (Fin.ext hnanosecond)⟩
  · rintro rfl
    rfl

end Calendar
end MessageTemplate
