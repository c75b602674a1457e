import MessageTemplate.Proofs.Calendar.Text

/-!
# Instants are read back from their texts

Each reader takes the characters that the writer of the same part gives, and
leaves what stands behind them. An instant of a year with four digits is read
back from its text, with either mark of universal time (`Instant.ofText_text`).
-/

namespace MessageTemplate
namespace Calendar
namespace TimestampReader

variable {α β : Type} {source mid rest : List Char} {first : α} {value : β}

/-- The reader reads the value and leaves `rest`. -/
def Yields (reader : TimestampReader α) (source : List Char) (value : α) (rest : List Char) :
    Prop :=
  reader source = .ok (value, rest)

theorem Yields.pure : Yields (Pure.pure value) rest value rest := rfl

theorem Yields.bind {reader : TimestampReader α} {next : α → TimestampReader β}
    (h : Yields reader source first mid) (hnext : Yields (next first) mid value rest) :
    Yields (reader >>= next) source value rest := by
  have hrun : (reader >>= next) source = (reader source >>= fun out => next out.1 out.2) := rfl
  rw [Yields, hrun, h]
  exact hnext

theorem Yields.get {next : List Char → TimestampReader β}
    (h : Yields (next source) source value rest) :
    Yields (MonadState.get >>= next) source value rest := h

theorem Yields.set {next : PUnit → TimestampReader β} (h : Yields (next ⟨⟩) mid value rest) :
    Yields (MonadStateOf.set mid >>= next) source value rest := h

theorem Yields.discard {reader : TimestampReader α} (h : Yields reader source first rest) :
    Yields (Functor.discard reader) source () rest := by
  have hrun : (Functor.discard reader) source =
      (reader source >>= fun out => .ok ((), out.2)) := rfl
  rw [Yields, hrun, h]
  rfl

theorem charWhere_yields {p : Char → Bool} {c : Char} (h : p c = true) :
    Yields (charWhere p) (c :: rest) c rest := by
  change (if p c then _ else _ : TimestampReader Char) (c :: rest) = _
  rw [if_pos h]
  rfl

theorem exactly_yields (c : Char) : Yields (exactly c) (c :: rest) () rest :=
  (charWhere_yields (beq_self_eq_true c)).discard

theorem digit_yields {c : Char} (h : c.isDigit = true) :
    Yields digit (c :: rest) (Decimal.digitValue c) rest :=
  (charWhere_yields h).bind .pure

theorem digitsFrom_yields {text : List Char} (h : ∀ c ∈ text, c.isDigit = true) (front : Nat) :
    Yields (digitsFrom front text.length) (text ++ rest)
      (text.foldl (fun value digit => 10 * value + Decimal.digitValue digit) front) rest := by
  induction text generalizing front with
  | nil => exact .pure
  | cons c text ih =>
    obtain ⟨hc, htext⟩ := List.forall_mem_cons.1 h
    exact (digit_yields hc).bind (ih htext _)

/-- A number is read back from digits that fill their width. -/
theorem digits_yields {width n : Nat} (hwidth : 0 < width) (h : n < Nat.pow 10 width) :
    Yields (digits width) (Decimal.padded width n ++ rest) n rest := by
  have hall : ∀ c ∈ Decimal.padded width n, c.isDigit = true :=
    fun _ => Decimal.isDigit_of_mem_padded
  have hread : Yields _ (Decimal.padded width n ++ rest) _ rest := digitsFrom_yields hall 0
  rw [Decimal.length_padded hwidth h] at hread
  rw [digits]
  have hvalue := Decimal.ofDigits_padded width n
  rw [Decimal.ofDigits] at hvalue
  rwa [hvalue] at hread

theorem twoDigits_yields {n : Nat} (h : n < 100) :
    Yields (digits 2) (twoDigits n ++ rest) n rest :=
  digits_yields (by decide) h

theorem orOutOfRange_yields {found : Option α} (h : found = some first) :
    Yields (orOutOfRange found) rest first rest := by
  rw [h]
  exact .pure

/-! ## Dates and times -/

theorem date_yields {t : Date} (h : 0 ≤ t.year ∧ t.year ≤ 9999) :
    Yields date (t.text ++ rest) t rest := by
  have hyear : yearText t.year = Decimal.padded 4 t.year.toNat := if_pos h
  have hmonth := t.month_bounds
  have hday : t.day < 100 := Nat.lt_of_le_of_lt t.day_bounds.2 (daysInMonth_lt _ _)
  rw [Date.text, hyear, List.append_assoc, List.cons_append, List.append_assoc, List.cons_append]
  refine (digits_yields (by decide) (by omega : t.year.toNat < 10000)).bind ?_
  refine (exactly_yields '-').bind ((twoDigits_yields (by omega)).bind ?_)
  refine (exactly_yields '-').bind ((twoDigits_yields hday).bind ?_)
  apply orOutOfRange_yields
  rw [Int.toNat_of_nonneg h.1, Date.of?_parts]

/-- A fraction is left out or consists of a point and digits. -/
theorem fractionText_cases (n : Nat) :
    fractionText n = [] ∨
      ∃ d more, fractionText n = '.' :: d :: more ∧ d.isDigit = true ∧
        ∀ c ∈ more, c.isDigit = true := by
  by_cases hzero : n = 0
  · exact .inl (if_pos hzero)
  · obtain ⟨width, m, htext⟩ : ∃ width m, fractionText n = '.' :: Decimal.padded width m := by
      rw [fractionText, if_neg hzero]
      split
      · exact ⟨_, _, rfl⟩
      · split <;> exact ⟨_, _, rfl⟩
    obtain ⟨d, more, hpadded⟩ := List.exists_cons_of_ne_nil (Decimal.padded_ne_nil width m)
    have hall : ∀ c ∈ d :: more, c.isDigit = true :=
      hpadded ▸ fun _ => Decimal.isDigit_of_mem_padded
    exact .inr ⟨d, more, by rw [htext, hpadded], List.forall_mem_cons.1 hall⟩

/-- A fraction is read back, unless what is behind it would go on with it. -/
theorem fraction_yields {n : Nat} (h : n < 1000000000)
    (hrest : ∀ c ∈ rest.head?, c ≠ '.' ∧ c.isDigit = false) :
    Yields fraction (fractionText n ++ rest) n rest := by
  have hread := nanoseconds_fractionText h
  apply Yields.get
  rcases fractionText_cases n with hnone | ⟨d, more, hsome, hd, hmore⟩
  · rw [hnone] at hread ⊢
    obtain rfl : n = 0 := hread.symm
    rw [List.nil_append]
    split
    · exact absurd rfl (hrest '.' rfl).1
    · exact .pure
  · have hstop : ∀ c ∈ rest.head?, c.isDigit = false := fun c hc => (hrest c hc).2
    rw [hsome] at hread ⊢
    refine .set ((charWhere_yields hd).bind (.get ?_))
    change Except.ok (nanoseconds (d :: (more ++ rest).takeWhile Char.isDigit),
      (more ++ rest).dropWhile Char.isDigit) = _
    rw [takeWhile_run_append hmore hstop, dropWhile_run_append hmore hstop]
    exact congrArg (fun n => Except.ok (n, rest)) hread

theorem time_yields (t : TimeOfDay) (hrest : ∀ c ∈ rest.head?, c ≠ '.' ∧ c.isDigit = false) :
    Yields time (t.clockText ++ fractionText t.nanosecond ++ rest) t rest := by
  rw [TimeOfDay.clockText, List.append_assoc, List.append_assoc, List.cons_append,
    List.append_assoc, List.cons_append]
  refine (twoDigits_yields (by omega)).bind ((exactly_yields ':').bind ?_)
  refine (twoDigits_yields (by omega)).bind ((exactly_yields ':').bind ?_)
  refine (twoDigits_yields (by omega)).bind ((fraction_yields t.nanosecond.isLt hrest).bind ?_)
  apply orOutOfRange_yields
  rw [TimeOfDay.of?, dif_pos ⟨t.hour.isLt, t.minute.isLt, t.second.isLt, t.nanosecond.isLt⟩]

theorem offset_yields (mark : ZoneMark) :
    Yields offset (mark.letters ++ rest) (false, 0, 0) rest := by
  cases mark <;> rfl

theorem instant_yields {t : Instant} (h : 0 ≤ t.date.year ∧ t.date.year ≤ 9999)
    (mark : ZoneMark) : Yields instant (t.text mark).toList t [] := by
  have hmark : ∀ c ∈ mark.letters.head?, c ≠ '.' ∧ c.isDigit = false := by
    cases mark <;> simp [ZoneMark.letters]
  rw [Instant.text, String.toList_ofList, List.append_assoc, List.append_assoc,
    List.cons_append, ← List.append_assoc]
  refine (date_yields h).bind ((charWhere_yields rfl).discard.bind ?_)
  refine (time_yields t.time hmark).bind ?_
  have hoffset : Yields offset (mark.letters ++ []) (false, 0, 0) [] := offset_yields mark
  rw [List.append_nil] at hoffset
  refine hoffset.bind ?_
  change Except.ok (Instant.ofLocal t.date t.time 0, []) = _
  rw [Instant.ofLocal_zero]

end TimestampReader

theorem length_le_utf8ByteSize (text : List Char) :
    text.length ≤ (String.ofList text).utf8ByteSize := by
  induction text with
  | nil => exact Nat.zero_le _
  | cons c text ih =>
    have hc := c.utf8Size_pos
    rw [String.ofList_cons, String.utf8ByteSize_append, String.utf8ByteSize_singleton,
      List.length_cons]
    omega

theorem Date.length_text {t : Date} (h : 0 ≤ t.year ∧ t.year ≤ 9999) : t.text.length = 10 := by
  have hyear : yearText t.year = Decimal.padded 4 t.year.toNat := if_pos h
  have hmonth := t.month_bounds
  have hday : t.day < 100 := Nat.lt_of_le_of_lt t.day_bounds.2 (daysInMonth_lt _ _)
  have hdigits : (Decimal.padded 4 t.year.toNat).length = 4 :=
    Decimal.length_padded (by decide) (by omega : t.year.toNat < 10000)
  simp [Date.text, hyear, hdigits, length_twoDigits hday,
    length_twoDigits (by omega : t.month < 100)]

theorem TimeOfDay.length_clockText (t : TimeOfDay) : t.clockText.length = 8 := by
  simp [clockText, length_twoDigits (by omega : t.hour.val < 100),
    length_twoDigits (by omega : t.minute.val < 100),
    length_twoDigits (by omega : t.second.val < 100)]

/-- An instant is read back from its text, with either mark, if its year has four digits. -/
theorem Instant.ofText_text {t : Instant} (h : 0 ≤ t.date.year ∧ t.date.year ≤ 9999)
    (mark : ZoneMark) : ofText (t.text mark) = .ok t := by
  have hsize : ¬ (t.text mark).utf8ByteSize < leastTimestampSize := by
    have hlength := length_le_utf8ByteSize (t.date.text ++ 'T' :: t.time.clockText ++
      fractionText t.time.nanosecond ++ mark.letters)
    simp only [List.length_append, List.length_cons, Date.length_text h,
      TimeOfDay.length_clockText] at hlength
    rw [Instant.text, leastTimestampSize]
    omega
  have hread := TimestampReader.instant_yields h mark
  rw [TimestampReader.Yields] at hread
  rw [ofText, if_neg hsize, StateT.run', hread]
  rfl

end Calendar
end MessageTemplate
