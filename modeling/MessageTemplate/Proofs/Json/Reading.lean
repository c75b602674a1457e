import MessageTemplate.Json.Reader
import MessageTemplate.Json.Writer
import MessageTemplate.Proofs.Decimal.Digits

/-!
# Reading what was written

Each rule of the reader takes what the writer puts down for the same thing and
leaves what stands behind it. A number alone needs to know what follows, since
more digits would belong to it.
-/

namespace MessageTemplate
namespace Json
namespace Reader

section

variable {α β : Type}

/-- In front of the text the rule gives a value and leaves the rest. -/
def Gives (rule : Reader α) (text : List Char) (value : α) (rest : List Char) : Prop :=
  rule text = some (value, rest)

namespace Gives

variable {rule : Reader α} {next : α → Reader β} {text mid rest : List Char} {value : α}
  {result : β}

theorem pure (value : α) (text : List Char) : Gives (pure value) text value text := rfl

theorem bind (h : Gives rule text value mid) (hnext : Gives (next value) mid result rest) :
    Gives (rule >>= next) text result rest := by
  change (rule text >>= fun out => next out.1 out.2) = _
  rw [h]
  exact hnext

theorem get (text : List Char) : Gives get text text text := rfl

theorem bounded {rule : Nat → Reader α} (h : Gives (rule (text.length + 1)) text value rest) :
    Gives (bounded rule) text value rest :=
  bind (get text) h

end Gives

variable {text rest : List Char} {c : Char}

/-! ## Single characters -/

theorem next_gives : Gives next (c :: rest) c rest := rfl

theorem accept_gives : Gives (accept c) (c :: rest) true rest := by
  change (if c = c then _ else _ : Reader Bool) (c :: rest) = _
  rw [if_pos rfl]
  rfl

theorem accept_refuses (h : rest.head? ≠ some c) : Gives (accept c) rest false rest := by
  cases rest with
  | nil => rfl
  | cons d rest =>
    change (if c = d then _ else _ : Reader Bool) (d :: rest) = _
    rw [if_neg (by simpa [eq_comm] using h)]
    rfl

theorem require_gives : Gives (require c) (c :: rest) () rest := accept_gives.bind rfl

theorem requireAll_gives (word rest : List Char) :
    Gives (requireAll word) (word ++ rest) () rest := by
  induction word with
  | nil => rfl
  | cons c word ih => exact require_gives.bind ih

theorem skipBlanks_gives {blanks : List Char} (hblanks : ∀ c ∈ blanks, isBlank c = true)
    (hrest : ∀ c ∈ rest.head?, isBlank c = false) : Gives skipBlanks (blanks ++ rest) () rest := by
  change some ((), (blanks ++ rest).dropWhile isBlank) = _
  rw [dropWhile_run_append hblanks hrest]

theorem skipBlanks_stays (hrest : ∀ c ∈ rest.head?, isBlank c = false) :
    Gives skipBlanks rest () rest :=
  have hnone : ∀ c ∈ ([] : List Char), isBlank c = true := fun _ h => by contradiction
  skipBlanks_gives hnone hrest

end

/-! ## Strings -/

section

variable {text rest chars : List Char} {c : Char}

theorem hexValue?_hexDigit (n : Nat) : hexValue? (Json.hexDigit n) = some (n % 16) := by
  have hall : ∀ n < 16, hexValue? (Nat.digitChar n) = some n := by decide
  exact hall _ (Nat.mod_lt n (by decide))

theorem hexDigit_gives (n : Nat) :
    Gives Reader.hexDigit (Json.hexDigit n :: rest) (n % 16) rest := by
  apply next_gives.bind
  change (hexValue? (Json.hexDigit n)).bind _ = _
  rw [hexValue?_hexDigit]
  rfl

/-- A control character is read back from its code unit. -/
theorem unicodeEscape_gives (h : c.toNat < 0x20) :
    Gives unicodeEscape
      ('0' :: '0' :: Json.hexDigit (c.toNat / 16) :: Json.hexDigit c.toNat :: rest) c rest := by
  have hunit : Gives codeUnit
      ('0' :: '0' :: Json.hexDigit (c.toNat / 16) :: Json.hexDigit c.toNat :: rest) c.toNat
      rest := by
    refine (hexDigit_gives 0).bind ((hexDigit_gives 0).bind ((hexDigit_gives _).bind
      ((hexDigit_gives _).bind ?_)))
    change some (((0 * 16 + 0) * 16 + c.toNat / 16 % 16) * 16 + c.toNat % 16, rest) = _
    rw [show ((0 * 16 + 0) * 16 + c.toNat / 16 % 16) * 16 + c.toNat % 16 = c.toNat by omega]
  have hhigh : isHighSurrogate c.toNat = false := by simp [isHighSurrogate]; omega
  have hlow : isLowSurrogate c.toNat = false := by simp [isLowSurrogate]; omega
  apply hunit.bind
  simp only [hhigh, hlow, Bool.false_eq_true, if_false, Char.ofNat_toNat]
  exact .pure c rest

/-- The reader of a string takes an escaped character for the character itself. -/
theorem stringRest_escape {rounds : Nat} (h : Gives (stringRest rounds) text chars rest) :
    Gives (stringRest (rounds + 1)) (escape c ++ text) (c :: chars) rest := by
  have hescaped : ∀ code : List Char, Gives escapeSequence (code ++ text) c text →
      Gives (stringRest (rounds + 1)) ('\\' :: code ++ text) (c :: chars) rest :=
    fun _ hcode => next_gives.bind (hcode.bind (h.bind (.pure _ _)))
  unfold escape
  split
  · exact hescaped ['"'] rfl
  · exact hescaped ['\\'] rfl
  · exact hescaped ['b'] rfl
  · exact hescaped ['t'] rfl
  · exact hescaped ['n'] rfl
  · exact hescaped ['f'] rfl
  · exact hescaped ['r'] rfl
  · split
    · rename_i hcontrol
      exact hescaped ['u', '0', '0', _, _]
        (next_gives.bind (unicodeEscape_gives hcontrol))
    · rename_i hquote hbackslash _ _ _ _ _ hplain
      apply next_gives.bind
      split
      · exact absurd rfl hquote
      · exact absurd rfl hbackslash
      · rw [if_neg hplain]
        exact h.bind (.pure _ _)

theorem stringRest_gives (chars rest : List Char) {rounds : Nat} (h : chars.length < rounds) :
    Gives (stringRest rounds) (chars.flatMap escape ++ '"' :: rest) chars rest := by
  induction chars generalizing rounds with
  | nil =>
    obtain ⟨rounds, rfl⟩ := Nat.exists_eq_add_of_lt h
    exact next_gives.bind (.pure _ _)
  | cons c chars ih =>
    obtain ⟨rounds, rfl⟩ : ∃ fewer, rounds = fewer + 1 := ⟨rounds - 1, by simp at h; omega⟩
    rw [List.flatMap_cons, List.append_assoc]
    exact stringRest_escape (ih (by simpa using h))

theorem length_le_flatMap_escape (chars : List Char) :
    chars.length ≤ (chars.flatMap escape).length := by
  induction chars with
  | nil => exact Nat.le_refl 0
  | cons c chars ih =>
    have hone : 1 ≤ (escape c).length := by
      unfold escape
      split <;> first | decide | (split <;> simp)
    rw [List.flatMap_cons, List.length_append, List.length_cons]
    omega

/-- A quoted text is read back behind its opening quote. -/
theorem string_gives (text : String) (rest : List Char) :
    Gives string (text.toList.flatMap escape ++ '"' :: rest) text rest := by
  have hrounds : text.toList.length < (text.toList.flatMap escape ++ '"' :: rest).length + 1 := by
    have := length_le_flatMap_escape text.toList
    rw [List.length_append]
    omega
  apply (Gives.bounded (stringRest_gives text.toList rest hrounds)).bind
  change some (String.ofList text.toList, rest) = _
  rw [String.ofList_toList]

end

/-! ## Numbers -/

section

variable {rest : List Char}

/-- No digit, point or exponent follows, so that a number in front is over. -/
def EndsNumber (rest : List Char) : Prop :=
  ∀ c ∈ rest.head?, c.isDigit = false ∧ c ≠ '.' ∧ c ≠ 'e' ∧ c ≠ 'E'

theorem EndsNumber.head?_ne (h : EndsNumber rest) {c : Char} (hc : c = '.' ∨ c = 'e' ∨ c = 'E') :
    rest.head? ≠ some c := by
  intro hhead
  obtain ⟨-, hpoint, hsmall, hlarge⟩ := h c hhead
  simp_all

theorem digits_gives (n : Nat) (hrest : EndsNumber rest) :
    Gives digits (Decimal.digits n ++ rest) (Decimal.digits n) rest := by
  change some ((Decimal.digits n ++ rest).takeWhile Char.isDigit,
    (Decimal.digits n ++ rest).dropWhile Char.isDigit) = _
  have hall : ∀ c ∈ Decimal.digits n, c.isDigit = true := fun _ => Decimal.isDigit_of_mem_digits
  have hstop : ∀ c ∈ rest.head?, c.isDigit = false := fun c hc => (hrest c hc).1
  rw [takeWhile_run_append hall hstop, dropWhile_run_append hall hstop]

theorem le_foldl_digits (value : Nat) (digits : List Char) :
    value ≤ digits.foldl (fun value digit => 10 * value + Decimal.digitValue digit) value := by
  induction digits generalizing value with
  | nil => exact Nat.le_refl value
  | cons digit digits ih =>
    have hstep : value ≤ 10 * value + Decimal.digitValue digit := by omega
    exact Nat.le_trans hstep (ih _)

/-- All digits are taken if the number stays below the limit. -/
theorem takeBelow_of_lt {limit value : Nat} {digits : List Char}
    (h : digits.foldl (fun value digit => 10 * value + Decimal.digitValue digit) value < limit) :
    takeBelow limit value digits =
      (digits.foldl (fun value digit => 10 * value + Decimal.digitValue digit) value, []) := by
  induction digits generalizing value with
  | nil => rfl
  | cons digit digits ih =>
    have hlarger := Nat.lt_of_le_of_lt (le_foldl_digits _ digits) h
    rw [takeBelow, if_pos hlarger]
    exact ih h

theorem exponent?_gives (hrest : EndsNumber rest) : Gives exponent? rest none rest :=
  (accept_refuses (hrest.head?_ne (by simp))).bind
    ((accept_refuses (hrest.head?_ne (by simp))).bind (.pure _ _))

/-- Whole numbers are read exactly if they fit into 64 bits. -/
theorem numberFrom_gives {negative : Bool} {n : Nat} (hlt : n < significandLimit)
    (hnegative : negative = true → 0 < n ∧ n ≤ Nat.pow 2 63) (hrest : EndsNumber rest) :
    Gives (numberFrom negative (Decimal.digits n)) rest
      (.integer (if negative then -Int.ofNat n else Int.ofNat n)) rest := by
  have htaken : takeBelow significandLimit 0 (Decimal.digits n) = (n, []) := by
    have hread := Decimal.ofDigits_digits n
    rw [Decimal.ofDigits] at hread
    rw [takeBelow_of_lt (by rwa [hread]), hread]
  have hinteger : (negative && (n = 0 || Nat.pow 2 63 < n)) = false := by
    cases negative with
    | false => rfl
    | true =>
      obtain ⟨hpos, hle⟩ := hnegative rfl
      rw [Bool.true_and, Bool.or_eq_false_iff, decide_eq_false_iff_not, decide_eq_false_iff_not]
      omega
  rw [numberFrom, htaken]
  refine (accept_refuses (hrest.head?_ne (by simp))).bind ?_
  refine Gives.bind (.pure none rest) ((exponent?_gives hrest).bind ?_)
  change (if (negative && (n = 0 || Nat.pow 2 63 < n)) = true then _ else _ : Reader Json) rest = _
  rw [hinteger]
  rfl

/-- The integers that JSON text keeps exactly. -/
def IsExact (n : Int) : Prop := -Int.ofNat (Nat.pow 2 63) ≤ n ∧ n < Int.ofNat significandLimit

theorem number_gives {n : Int} (h : IsExact n) (hrest : EndsNumber rest) :
    Gives number (Decimal.intDigits n ++ rest) (.integer n) rest := by
  obtain ⟨hlower, hupper⟩ := h
  rw [significandLimit, Nat.pow_eq, Int.ofNat_eq_natCast] at hupper
  rw [Nat.pow_eq, Int.ofNat_eq_natCast] at hlower
  obtain ⟨first, others, hdigits⟩ := List.exists_cons_of_ne_nil (Decimal.digits_ne_nil n.natAbs)
  have hsign : ∀ (negative : Bool) (text : List Char),
      Gives (numberFrom negative (Decimal.digits n.natAbs)) rest (.integer n) rest →
      Gives (accept '-') text negative (Decimal.digits n.natAbs ++ rest) →
      Gives number text (.integer n) rest := by
    intro negative text hnumber haccept
    apply haccept.bind
    apply (digits_gives n.natAbs hrest).bind
    -- The digits are zero alone, or start with another digit.
    split
    · exact absurd ‹_› (Decimal.digits_ne_nil _)
    · rename_i hzero
      rwa [hzero] at hnumber
    · rename_i hzero hmore
      exact absurd (Decimal.eq_nil_of_digits_eq_zero_cons hmore) (by simp_all)
    · exact hnumber
  have hlimit : n.natAbs < significandLimit := by
    rw [significandLimit, Nat.pow_eq]
    omega
  unfold Decimal.intDigits
  split
  · rename_i hminus
    have hsize : 0 < n.natAbs ∧ n.natAbs ≤ Nat.pow 2 63 := by
      rw [Nat.pow_eq]
      omega
    have hnumber := numberFrom_gives hlimit (fun _ : true = true => hsize) hrest
    rw [if_pos rfl, Int.ofNat_eq_natCast, show -(n.natAbs : Int) = n by omega] at hnumber
    exact hsign true _ hnumber accept_gives
  · rename_i hminus
    have hhead : (Decimal.digits n.natAbs ++ rest).head? ≠ some '-' := by
      rw [hdigits, List.cons_append, List.head?_cons]
      intro hfirst
      have hdigit : first.isDigit = true :=
        Decimal.isDigit_of_mem_digits (hdigits ▸ List.mem_cons_self)
      rw [Option.some.inj hfirst] at hdigit
      contradiction
    have hnumber := numberFrom_gives hlimit (fun h : false = true => by contradiction) hrest
    rw [if_neg (by decide), Int.ofNat_eq_natCast, show (n.natAbs : Int) = n by omega] at hnumber
    exact hsign false _ hnumber (accept_refuses hhead)

end

end Reader
end Json
end MessageTemplate
