import MessageTemplate.Proofs.Token.Scanning

/-!
# The longest token

`Spelled token text` says which characters a token may be written with, one
kind of token after the other and without a word about what stands behind them.
What is read in front of a text is spelled with its characters (`Scans.spelled`),
and no token that could be written there is longer (`Spelled.scans`).
-/

namespace MessageTemplate

/-- What may stand between two quotes: a backslash with any character behind it, and all
characters that are neither a backslash nor the quote. -/
inductive Quoted (quote : Char) : List Char → Prop
  | nil : Quoted quote []
  | escape (c : Char) {body : List Char} (h : Quoted quote body) : Quoted quote ('\\' :: c :: body)
  | char {c : Char} {body : List Char} (hescape : c ≠ '\\') (hquote : c ≠ quote)
      (h : Quoted quote body) : Quoted quote (c :: body)

def IsQuote (c : Char) : Prop := c = '"' ∨ c = '\''

theorem IsQuote.ne_escape {c : Char} (h : IsQuote c) : c ≠ '\\' := by
  rcases h with rfl | rfl <;> decide

/-- The characters that a token is written with. -/
inductive Spelled : Token → List Char → Prop
  | whole {digits : List Char} (hne : digits ≠ []) (hdigits : ∀ c ∈ digits, c.isDigit = true) :
      Spelled (.number (.ofList digits)) digits
  | decimal {digits fraction : List Char} (hne : digits ≠ [])
      (hdigits : ∀ c ∈ digits, c.isDigit = true) (hfraction : fraction ≠ [])
      (hpart : ∀ c ∈ fraction, c.isDigit = true) :
      Spelled (.number (.ofList (digits ++ '.' :: fraction))) (digits ++ '.' :: fraction)
  | hex {body : List Char} (hbody : ∀ c ∈ body, c.isAlphanum = true) :
      Spelled (.hex (.ofList ('0' :: 'x' :: body))) ('0' :: 'x' :: body)
  | hash {body : List Char} (hbody : ∀ c ∈ body, c.isAlphanum = true) :
      Spelled (.hex (.ofList ('#' :: body))) ('#' :: body)
  | string {quote : Char} {body : List Char} (hquote : IsQuote quote) (hbody : Quoted quote body) :
      Spelled (.string (.ofList (quote :: (body ++ [quote])))) (quote :: (body ++ [quote]))
  | word {c : Char} {body : List Char} (hstart : isWordStart c = true)
      (hbody : ∀ c ∈ body, isWordPart c = true) :
      Spelled (.ident (.ofList (c :: body))) (c :: body)
  | symbol (symbol : Symbol) : Spelled (.symbol symbol) symbol.letters
  | unknown {c : Char} (hblank : isBlank c = false) (hraw : startsRaw c = false)
      (hsymbol : ∀ symbol : Symbol, symbol.letters ≠ [c]) : Spelled (.unknown c) [c]

/-! ## String literals -/

theorem Quoted.splitString {quote : Char} {body : List Char} (h : Quoted quote body)
    (hquote : quote ≠ '\\') (more : List Char) :
    splitString quote (body ++ quote :: more) = some (body ++ [quote], more) := by
  induction h with
  | nil => rw [List.nil_append, splitString_cons hquote, if_pos rfl, List.nil_append]
  | escape c h ih =>
    simp [MessageTemplate.splitString, ih, prependSplit]
  | char hescape hne h ih =>
    rw [List.cons_append, splitString_cons hescape, if_neg hne, ih]
    rfl

theorem quoted_of_splitString {quote : Char} {text closed rest : List Char}
    (h : splitString quote text = some (closed, rest)) :
    ∃ body, closed = body ++ [quote] ∧ Quoted quote body := by
  fun_induction splitString quote text generalizing closed rest with
  | case1 => simp at h
  | case2 c text ih =>
    obtain ⟨front, hfront, rfl⟩ := prependSplit_eq_some h
    obtain ⟨body, rfl, hbody⟩ := ih hfront
    exact ⟨'\\' :: c :: body, rfl, .escape c hbody⟩
  | case3 text hescape =>
    cases h
    exact ⟨[], rfl, .nil⟩
  | case4 c text hescape hne ih =>
    obtain ⟨front, hfront, rfl⟩ := prependSplit_eq_some h
    obtain ⟨body, rfl, hbody⟩ := ih hfront
    refine ⟨c :: body, rfl, .char ?_ hne hbody⟩
    -- A backslash at the very end of the text has no quote behind it.
    rintro rfl
    cases text with
    | nil => simp [MessageTemplate.splitString] at hfront
    | cons d text => exact hescape d text rfl rfl

/-- A literal is open if the text has no end of it. -/
theorem splitString_eq_none_iff {quote : Char} (hquote : quote ≠ '\\') {text : List Char} :
    splitString quote text = none ↔
      ∀ body more, text = body ++ quote :: more → ¬ Quoted quote body := by
  constructor
  · rintro h body more rfl hbody
    simp [hbody.splitString hquote] at h
  · intro h
    rw [Option.eq_none_iff_forall_ne_some]
    rintro ⟨closed, rest⟩ hsplit
    obtain ⟨body, rfl, hbody⟩ := quoted_of_splitString hsplit
    refine h body rest ?_ hbody
    rw [← splitString_append hsplit, List.append_assoc, List.singleton_append]

/-! ## What is read is spelled -/

theorem all_takeWhile (p : Char → Bool) (text : List Char) :
    ∀ c ∈ text.takeWhile p, p c = true :=
  fun _ hc => List.mem_takeWhile_imp hc

/-- A fraction is a point with digits behind it. -/
theorem splitFraction_cases (text : List Char) :
    (splitFraction text).1 = [] ∨
      ∃ fraction, (splitFraction text).1 = '.' :: fraction ∧ fraction ≠ [] ∧
        ∀ c ∈ fraction, c.isDigit = true := by
  unfold splitFraction
  split
  · rename_i d rest
    by_cases hd : d.isDigit = true
    · refine .inr ⟨d :: rest.takeWhile Char.isDigit, by simp [hd], by simp, ?_⟩
      exact List.forall_mem_cons.2 ⟨hd, all_takeWhile _ rest⟩
    · simp [hd]
  · simp

theorem Scan.number_spelled {d : Char} (hd : d.isDigit = true) (rest : List Char) :
    Spelled (Scan.number d rest).token (Scan.number d rest).text := by
  have hdigits : ∀ c ∈ d :: rest.takeWhile Char.isDigit, c.isDigit = true :=
    List.forall_mem_cons.2 ⟨hd, all_takeWhile _ rest⟩
  simp only [Scan.number]
  rcases splitFraction_cases (rest.dropWhile Char.isDigit) with
    hnone | ⟨fraction, hsome, hne, hpart⟩
  · rw [hnone, List.append_nil]
    exact .whole (by simp) hdigits
  · rw [hsome]
    exact .decimal (by simp) hdigits hne hpart

theorem Scan.mark_spelled {c : Char} (hblank : isBlank c = false) (hraw : startsRaw c = false)
    (rest : List Char) : Spelled (Scan.mark c rest).token (Scan.mark c rest).text := by
  unfold Scan.mark
  split
  · rename_i symbol _
    exact .symbol symbol
  · split
    · rename_i symbol hsymbol
      exact Symbol.ofChar?_eq_some_iff.1 hsymbol ▸ .symbol symbol
    · rename_i hnone
      refine .unknown hblank hraw fun symbol hletters => ?_
      simp [Symbol.ofChar?_eq_some_iff.2 hletters] at hnone

theorem Scans.spelled {c : Char} {rest : List Char} {scan : Scan} (h : Scans c rest scan)
    (hblank : isBlank c = false) : Spelled scan.token scan.text := by
  cases h with
  | marked rest => exact .hex (all_takeWhile _ rest)
  | number hdigit hmark => exact Scan.number_spelled hdigit rest
  | string hquote hbody =>
    obtain ⟨body, rfl, hquoted⟩ := quoted_of_splitString hbody
    exact .string hquote hquoted
  | hash rest => exact .hash (all_takeWhile _ rest)
  | word hstart => exact .word hstart (all_takeWhile _ rest)
  | mark hraw => exact Scan.mark_spelled hblank hraw rest

/-! ## Nothing longer is spelled -/

/-- The token read is at least as long as `text`, and it is `token` if it is not longer. -/
def Scan.Reaches (scan : Scan) (token : Token) (text : List Char) : Prop :=
  text.length ≤ scan.text.length ∧ (scan.text.length = text.length → scan.token = token)

theorem Scan.reaches_run (kind : String → Token) {p : Char → Bool} {body : List Char}
    (hbody : ∀ c ∈ body, p c = true) (front more : List Char) :
    (Scan.run kind p front (body ++ more)).Reaches (kind (.ofList (front ++ body)))
      (front ++ body) := by
  rw [Scan.Reaches, Scan.run, List.takeWhile_append_of_pos hbody]
  refine ⟨by simp, fun hlength => ?_⟩
  simp only [List.length_append] at hlength
  have hmore : more.takeWhile p = [] := List.length_eq_zero_iff.1 (by omega)
  simp [hmore]

theorem Scan.reaches_whole {d : Char} {digits : List Char}
    (hdigits : ∀ c ∈ digits, c.isDigit = true) (more : List Char) :
    (Scan.number d (digits ++ more)).Reaches (.number (.ofList (d :: digits))) (d :: digits) := by
  rw [Scan.Reaches, Scan.number, List.takeWhile_append_of_pos hdigits]
  refine ⟨by simp, fun hlength => ?_⟩
  simp only [List.length_append, List.length_cons] at hlength
  have hmore : more.takeWhile Char.isDigit = [] := List.length_eq_zero_iff.1 (by omega)
  have hfraction : (splitFraction ((digits ++ more).dropWhile Char.isDigit)).1 = [] :=
    List.length_eq_zero_iff.1 (by omega)
  simp [hmore, hfraction]

theorem splitFraction_decimal {e : Char} {fraction : List Char} (he : e.isDigit = true)
    (hfraction : ∀ c ∈ fraction, c.isDigit = true) (more : List Char) :
    (splitFraction ('.' :: e :: (fraction ++ more))).1 =
      '.' :: e :: (fraction ++ more.takeWhile Char.isDigit) := by
  simp only [splitFraction, he, if_true, List.takeWhile_append_of_pos hfraction]

theorem Scan.reaches_decimal {d e : Char} {digits fraction : List Char}
    (hdigits : ∀ c ∈ digits, c.isDigit = true) (he : e.isDigit = true)
    (hfraction : ∀ c ∈ fraction, c.isDigit = true) (more : List Char) :
    (Scan.number d (digits ++ '.' :: e :: (fraction ++ more))).Reaches
      (.number (.ofList (d :: digits ++ '.' :: e :: fraction)))
      (d :: digits ++ '.' :: e :: fraction) := by
  have hpoint : ¬ Char.isDigit '.' = true := by decide
  rw [Scan.Reaches, Scan.number, List.takeWhile_append_of_pos hdigits,
    List.dropWhile_append_of_pos hdigits, List.takeWhile_cons_of_neg hpoint,
    List.dropWhile_cons_of_neg hpoint, splitFraction_decimal he hfraction]
  refine ⟨by simp, fun hlength => ?_⟩
  simp only [List.length_append, List.length_cons, List.length_nil] at hlength
  have hmore : more.takeWhile Char.isDigit = [] := List.length_eq_zero_iff.1 (by omega)
  simp [hmore]

theorem startsRaw_letters {symbol : Symbol} {c : Char} {body : List Char}
    (h : symbol.letters = c :: body) : startsRaw c = false := by
  cases symbol <;> cases h <;> decide

theorem Scan.reaches_symbol {symbol : Symbol} {c : Char} {body : List Char}
    (h : symbol.letters = c :: body) (more : List Char) :
    (Scan.mark c (body ++ more)).Reaches (.symbol symbol) (c :: body) := by
  match body with
  | [] =>
    have hsymbol := Symbol.ofChar?_eq_some_iff.2 h
    unfold Scan.mark
    split
    · rename_i pair hpair
      obtain ⟨d, -, hd⟩ := Option.bind_eq_some_iff.1 hpair
      simp [Scan.Reaches, Symbol.ofPair?_eq_some_iff.1 hd]
    · simp [Scan.Reaches, hsymbol]
  | d :: body =>
    obtain rfl : body = [] := by cases symbol <;> simp_all [Symbol.letters]
    have hsymbol := Symbol.ofPair?_eq_some_iff.2 h
    simp [Scan.Reaches, Scan.mark, hsymbol, h]

theorem Scan.reaches_unknown {c : Char} (hsymbol : ∀ symbol : Symbol, symbol.letters ≠ [c])
    (more : List Char) : (Scan.mark c more).Reaches (.unknown c) [c] := by
  have hchar : Symbol.ofChar? c = none :=
    Option.eq_none_iff_forall_ne_some.2 fun symbol h =>
      hsymbol symbol (Symbol.ofChar?_eq_some_iff.1 h)
  unfold Scan.mark
  split
  · rename_i pair hpair
    obtain ⟨d, -, hd⟩ := Option.bind_eq_some_iff.1 hpair
    simp [Scan.Reaches, Symbol.ofPair?_eq_some_iff.1 hd]
  · simp [Scan.Reaches, hchar]

/-- In front of a text that starts with the characters of a token, a token is read, and it is that
one or a longer one. -/
theorem Spelled.scans {token : Token} {text : List Char} (h : Spelled token text)
    (more : List Char) :
    ∃ c rest scan, text ++ more = c :: rest ∧ Scans c rest scan ∧ scan.Reaches token text := by
  cases h with
  | @whole digits hne hdigits =>
    obtain ⟨d, digits, rfl⟩ := List.exists_cons_of_ne_nil hne
    obtain ⟨hd, hdigits⟩ := List.forall_mem_cons.1 hdigits
    by_cases hmark : d = '0' ∧ (digits ++ more).head? = some 'x'
    · obtain ⟨rfl, hhead⟩ := hmark
      obtain rfl : digits = [] := by
        cases digits with
        | nil => rfl
        | cons e digits =>
          obtain rfl : e = 'x' := by simpa using hhead
          exact absurd (hdigits 'x' (by simp)) (by decide)
      obtain ⟨tail, rfl⟩ := List.head?_eq_some_iff.1 hhead
      exact ⟨_, _, _, rfl, .marked tail, by simp [Scan.Reaches, Scan.run]⟩
    · exact ⟨d, digits ++ more, _, rfl, .number hd fun hzero hhead => hmark ⟨hzero, hhead⟩,
        Scan.reaches_whole hdigits more⟩
  | @decimal digits fraction hne hdigits hfraction hpart =>
    obtain ⟨d, digits, rfl⟩ := List.exists_cons_of_ne_nil hne
    obtain ⟨e, fraction, rfl⟩ := List.exists_cons_of_ne_nil hfraction
    obtain ⟨hd, hdigits⟩ := List.forall_mem_cons.1 hdigits
    obtain ⟨he, hpart⟩ := List.forall_mem_cons.1 hpart
    refine ⟨d, digits ++ '.' :: e :: (fraction ++ more), _, by simp,
      .number hd fun _ hhead => ?_, Scan.reaches_decimal hdigits he hpart more⟩
    cases digits with
    | nil => simp at hhead
    | cons f digits =>
      obtain rfl : f = 'x' := by simpa using hhead
      exact absurd (hdigits 'x' (by simp)) (by decide)
  | hex hbody => exact ⟨_, _, _, rfl, .marked _, Scan.reaches_run .hex hbody ['0', 'x'] more⟩
  | hash hbody => exact ⟨_, _, _, rfl, .hash _, Scan.reaches_run .hex hbody ['#'] more⟩
  | @string quote body hquote hbody =>
    have hsplit := hbody.splitString hquote.ne_escape more
    refine ⟨quote, body ++ quote :: more, _, by simp, .string hquote hsplit, ?_⟩
    simp [Scan.Reaches]
  | @word c body hstart hbody =>
    exact ⟨c, body ++ more, _, rfl, .word hstart, Scan.reaches_run .ident hbody [c] more⟩
  | symbol symbol =>
    obtain ⟨c, body, hletters⟩ := List.exists_cons_of_ne_nil
      (by cases symbol <;> simp [Symbol.letters] : symbol.letters ≠ [])
    refine ⟨c, body ++ more, _, by rw [hletters]; rfl, .mark (startsRaw_letters hletters), ?_⟩
    rw [hletters]
    exact Scan.reaches_symbol hletters more
  | @unknown c hblank hraw hsymbol =>
    exact ⟨c, more, _, rfl, .mark hraw, Scan.reaches_unknown hsymbol more⟩

/-- A token has at least one character. -/
theorem Spelled.ne_nil {token : Token} {text : List Char} (h : Spelled token text) :
    text ≠ [] := by
  cases h with
  | whole hne hdigits => exact hne
  | symbol symbol => cases symbol <;> simp [Symbol.letters]
  | _ => simp

/-- No token starts with a blank. -/
theorem Spelled.ne_blank {token : Token} {c : Char} {body : List Char}
    (h : Spelled token (c :: body)) : isBlank c = false := by
  by_contra hc
  have hblank : isBlank c = true := by simpa using hc
  have hdigit := isDigit_of_isBlank hblank
  have hpart := isWordPart_of_isBlank hblank
  have hword : isWordStart c = false := by
    simp_all [isWordPart, isWordStart, Char.isAlphanum]
  generalize htext : c :: body = text at h
  cases h with
  | whole hne hdigits => simp [hdigits c (by simp [← htext])] at hdigit
  | @decimal digits fraction hne hdigits hfraction hpart =>
    obtain ⟨d, digits, rfl⟩ := List.exists_cons_of_ne_nil hne
    obtain ⟨rfl, -⟩ := List.cons.inj htext
    simp [hdigits c (by simp)] at hdigit
  | hex hbody => exact ne_of_isBlank hblank (by decide) (List.cons.inj htext).1
  | hash hbody => exact ne_of_isBlank hblank (by decide) (List.cons.inj htext).1
  | string hquote hbody =>
    obtain ⟨rfl, -⟩ := List.cons.inj htext
    rcases hquote with rfl | rfl <;> exact absurd hblank (by decide)
  | word hstart hbody =>
    obtain ⟨rfl, -⟩ := List.cons.inj htext
    simp [hstart] at hword
  | symbol symbol => cases symbol <;> cases htext <;> exact absurd hblank (by decide)
  | unknown hnone hraw hsymbol =>
    obtain ⟨rfl, -⟩ := List.cons.inj htext
    exact hc hnone

/-- A token in front of a text: no token that is written with the first characters of the text is
longer. -/
structure IsLongest (token : Token) (text rest : List Char) : Prop where
  spelled : Spelled token text
  longest : ∀ other front, Spelled other front → front <+: text ++ rest →
    front.length ≤ text.length

theorem Scans.isLongest {c : Char} {rest : List Char} {scan : Scan} (h : Scans c rest scan)
    (hblank : isBlank c = false) : IsLongest scan.token scan.text scan.rest := by
  refine ⟨h.spelled hblank, ?_⟩
  rintro other front hother ⟨more, hmore⟩
  obtain ⟨d, tail, found, htext, hscans, hreach, -⟩ := hother.scans more
  rw [hmore, scanToken_append (scans_iff.1 h)] at htext
  obtain ⟨rfl, rfl⟩ := List.cons.inj htext
  have hsame := (scans_iff.1 h).symm.trans (scans_iff.1 hscans)
  obtain rfl : scan = found := Option.some.inj hsame
  exact hreach

theorem IsLongest.scans {token : Token} {text rest : List Char} (h : IsLongest token text rest) :
    ∃ c tail, text ++ rest = c :: tail ∧ isBlank c = false ∧
      Scans c tail ⟨token, text, rest⟩ := by
  obtain ⟨c, tail, scan, htext, hscans, hreach, hsame⟩ := h.spelled.scans rest
  have happend := (scanToken_append (scans_iff.1 hscans)).trans htext.symm
  have hblank : isBlank c = false := by
    obtain ⟨d, body, rfl⟩ := List.exists_cons_of_ne_nil h.spelled.ne_nil
    obtain ⟨rfl, -⟩ := List.cons.inj htext
    exact h.spelled.ne_blank
  have hle := h.longest _ _ (hscans.spelled hblank) ⟨scan.rest, happend⟩
  have hlength : scan.text.length = text.length := by omega
  obtain ⟨hfirst, hsecond⟩ := List.append_inj happend hlength
  refine ⟨c, tail, htext, hblank, ?_⟩
  rw [← hfirst, ← hsecond, ← hsame hlength]
  exact hscans

/-- A blank behind a text, and whatever stands behind the blank, changes no token in front. -/
theorem IsLongest.append_blank {token : Token} {text rest : List Char}
    (h : IsLongest token text rest) {w : Char} (hw : isBlank w = true) (more : List Char) :
    IsLongest token text (rest ++ w :: more) := by
  obtain ⟨c, tail, htext, hblank, hscans⟩ := h.scans
  exact (hscans.append_blank hw more).isLongest hblank

end MessageTemplate
