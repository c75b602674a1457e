import MessageTemplate.Token.Lexer
import Mathlib.Data.List.TakeWhile

/-!
# What decides a token

Reading a token depends on nothing behind the characters that it consists of: a
blank put there ends the token where it ended before (`scanToken_append_blank`),
and so does the end of the text (`scanToken_of_text`). A token's characters are
those that it is written with.
-/

namespace MessageTemplate

namespace Token

/-- The characters that a token is written with; an end has none. -/
def letters : Token → List Char
  | number raw | string raw | hex raw | ident raw => raw.toList
  | symbol mark => mark.letters
  | unknown c => [c]
  | unterminated _ | endOfInput => []

/-- The tokens behind which nothing stands. -/
def isFinal : Token → Bool
  | unterminated _ | endOfInput => true
  | _ => false

end Token

/-! ## Blanks end what is in front of them -/

theorem isAlpha_eq (c : Char) : c.isAlpha =
    (decide (65 ≤ c.val ∧ c.val ≤ 90) || decide (97 ≤ c.val) && decide (c.val ≤ 122)) := rfl

theorem isWordPart_of_isBlank {w : Char} (h : isBlank w = true) : isWordPart w = false := by
  have hranges : w.toNat ≤ 0x20 ∨ 0x85 ≤ w.toNat := by
    simp [isBlank, blankRanges] at h
    omega
  have hnot : ∀ c : Char, 0x20 < c.toNat → c.toNat < 0x85 → w ≠ c := by
    rintro c hlow hhigh rfl
    omega
  have hval : w.val.toNat = w.toNat := rfl
  simp [isWordPart, Char.isAlphanum, isAlpha_eq, Char.isDigit,
    UInt32.le_iff_toNat_le, hval, hnot '_' (by decide) (by decide)]
  omega

theorem isAlphanum_of_isBlank {w : Char} (h : isBlank w = true) : w.isAlphanum = false := by
  have := isWordPart_of_isBlank h
  simp_all [isWordPart]

theorem isDigit_of_isBlank {w : Char} (h : isBlank w = true) : w.isDigit = false := by
  have := isAlphanum_of_isBlank h
  simp_all [Char.isAlphanum]

/-- A blank is no character that is not blank. -/
theorem ne_of_isBlank {w c : Char} (h : isBlank w = true) (hc : isBlank c = false) : w ≠ c := by
  rintro rfl
  simp [h] at hc

theorem takeWhile_append_stop {p : Char → Bool} {w : Char} (h : p w = false)
    (text more : List Char) :
    (text ++ w :: more).takeWhile p = text.takeWhile p := by
  induction text with
  | nil => simp [h]
  | cons c text ih => by_cases hc : p c <;> simp [hc, ih]

theorem dropWhile_append_stop {p : Char → Bool} {w : Char} (h : p w = false)
    (text more : List Char) :
    (text ++ w :: more).dropWhile p = text.dropWhile p ++ w :: more := by
  induction text with
  | nil => simp [h]
  | cons c text ih => by_cases hc : p c <;> simp [hc, ih]

namespace Scan

/-- The same token in front of a longer text. -/
def followedBy (scan : Scan) (more : List Char) : Scan := { scan with rest := scan.rest ++ more }

theorem run_append_blank (kind : String → Token) {p : Char → Bool} {w : Char} (h : p w = false)
    (front rest more : List Char) :
    run kind p front (rest ++ w :: more) = (run kind p front rest).followedBy (w :: more) := by
  simp [run, followedBy, takeWhile_append_stop h, dropWhile_append_stop h]

theorem run_of_text (kind : String → Token) (p : Char → Bool) (front rest : List Char) :
    run kind p front (rest.takeWhile p) =
      ⟨(run kind p front rest).token, (run kind p front rest).text, []⟩ := by
  have hall : ∀ c ∈ rest.takeWhile p, p c = true := fun c hc => List.mem_takeWhile_imp hc
  have htake : (rest.takeWhile p).takeWhile p = rest.takeWhile p :=
    List.takeWhile_eq_self_iff.2 hall
  have hdrop : (rest.takeWhile p).dropWhile p = [] := List.dropWhile_eq_nil_iff.2 hall
  simp [run, htake, hdrop]

end Scan

theorem splitFraction_append_blank {w : Char} (h : isBlank w = true) (text more : List Char) :
    splitFraction (text ++ w :: more) =
      ((splitFraction text).1, (splitFraction text).2 ++ w :: more) := by
  have hdigit := isDigit_of_isBlank h
  have hpoint : w ≠ '.' := ne_of_isBlank h (by decide)
  match text with
  | [] => simp [splitFraction, hpoint]
  | [c] =>
    by_cases hc : c = '.'
    · subst hc
      simp [splitFraction, hdigit]
    · simp [splitFraction, hc]
  | c :: d :: text =>
    by_cases hc : c = '.'
    · subst hc
      by_cases hd : d.isDigit = true
      · simp [splitFraction, hd, takeWhile_append_stop hdigit, dropWhile_append_stop hdigit]
      · simp [splitFraction, hd]
    · simp [splitFraction, hc]

theorem Scan.number_append_blank {w : Char} (h : isBlank w = true) (d : Char)
    (rest more : List Char) :
    Scan.number d (rest ++ w :: more) = (Scan.number d rest).followedBy (w :: more) := by
  have hdigit := isDigit_of_isBlank h
  simp [Scan.number, Scan.followedBy, takeWhile_append_stop hdigit, dropWhile_append_stop hdigit,
    splitFraction_append_blank h]

/-- A fraction has nothing behind it that could go on with it. -/
theorem splitFraction_of_fraction (text : List Char) :
    splitFraction (splitFraction text).1 = ((splitFraction text).1, []) := by
  match text with
  | [] => rfl
  | [c] => rw [show splitFraction [c] = ([], [c]) by unfold splitFraction; split <;> simp_all]; rfl
  | c :: d :: text =>
    by_cases hpoint : c = '.' ∧ d.isDigit = true
    · obtain ⟨rfl, hdigit⟩ := hpoint
      have hall : ∀ c ∈ text.takeWhile Char.isDigit, c.isDigit = true :=
        fun c hc => List.mem_takeWhile_imp hc
      simpa [splitFraction, hdigit, List.takeWhile_eq_self_iff.2 hall] using hall
    · have hnone : splitFraction (c :: d :: text) = ([], c :: d :: text) := by
        unfold splitFraction
        split <;> simp_all
      rw [hnone]
      rfl

/-- A fraction starts with no digit. -/
theorem fraction_eq_nil_or_cons (text : List Char) :
    (splitFraction text).1 = [] ∨ ∃ tail, (splitFraction text).1 = '.' :: tail := by
  unfold splitFraction
  split
  · split <;> simp
  · simp

theorem Scan.number_of_text {d : Char} {rest body : List Char}
    (h : (Scan.number d rest).text = d :: body) :
    Scan.number d body = ⟨(Scan.number d rest).token, d :: body, []⟩ := by
  have hbody : body = rest.takeWhile Char.isDigit ++
      (splitFraction (rest.dropWhile Char.isDigit)).1 := by simpa [Scan.number] using h.symm
  have hall : ∀ c ∈ rest.takeWhile Char.isDigit, c.isDigit = true :=
    fun c hc => List.mem_takeWhile_imp hc
  have hfraction := splitFraction_of_fraction (rest.dropWhile Char.isDigit)
  have hsplit : body.takeWhile Char.isDigit = rest.takeWhile Char.isDigit ∧
      body.dropWhile Char.isDigit = (splitFraction (rest.dropWhile Char.isDigit)).1 := by
    rw [hbody, List.takeWhile_append_of_pos hall, List.dropWhile_append_of_pos hall]
    rcases fraction_eq_nil_or_cons (rest.dropWhile Char.isDigit) with hnil | ⟨tail, hcons⟩
    · simp [hnil]
    · simp [hcons]
  simp only [Scan.number, hsplit, hfraction, List.cons_append]
  rw [hbody]

/-- Backslashes apart, the characters of a string literal are passed over one by one. -/
theorem splitString_cons {quote c : Char} (hc : c ≠ '\\') (text : List Char) :
    splitString quote (c :: text) =
      if c = quote then some ([c], text) else prependSplit [c] (splitString quote text) := by
  rw [splitString]
  rintro _ _ rfl
  exact absurd rfl hc

theorem splitString_append_more {quote : Char} (hquote : quote ≠ '\\') {text body rest : List Char}
    (h : splitString quote text = some (body, rest)) (more : List Char) :
    splitString quote (text ++ more) = some (body, rest ++ more) := by
  fun_induction splitString quote text generalizing body rest with
  | case1 => simp at h
  | case2 c text ih =>
    obtain ⟨front, hfront, rfl⟩ := prependSplit_eq_some h
    simp [splitString, ih hfront, prependSplit]
  | case3 text hescape =>
    cases h
    rw [List.cons_append, splitString_cons hquote, if_pos rfl]
  | case4 c text hescape hne ih =>
    obtain ⟨front, hfront, rfl⟩ := prependSplit_eq_some h
    have hc : c ≠ '\\' := by
      rintro rfl
      cases text with
      | nil => simp [splitString] at hfront
      | cons d text => exact hescape d text rfl rfl
    rw [List.cons_append, splitString_cons hc, if_neg hne, ih hfront]
    rfl

/-- A string literal is closed by its own last character. -/
theorem splitString_of_body {quote : Char} (hquote : quote ≠ '\\') {text body rest : List Char}
    (h : splitString quote text = some (body, rest)) :
    splitString quote body = some (body, []) := by
  fun_induction splitString quote text generalizing body rest with
  | case1 => simp at h
  | case2 c text ih =>
    obtain ⟨front, hfront, rfl⟩ := prependSplit_eq_some h
    simp [splitString, ih hfront, prependSplit]
  | case3 text hescape =>
    cases h
    rw [splitString_cons hquote, if_pos rfl]
  | case4 c text hescape hne ih =>
    obtain ⟨front, hfront, rfl⟩ := prependSplit_eq_some h
    have hc : c ≠ '\\' := by
      rintro rfl
      cases text with
      | nil => simp [splitString] at hfront
      | cons d text => exact hescape d text rfl rfl
    rw [List.singleton_append, splitString_cons hc, if_neg hne, ih hfront]
    rfl

theorem Scan.mark_append_blank {w : Char} (h : isBlank w = true) (c : Char)
    (rest more : List Char) :
    Scan.mark c (rest ++ w :: more) = (Scan.mark c rest).followedBy (w :: more) := by
  have hpair : Symbol.ofPair? c w = none := by
    rw [Option.eq_none_iff_forall_ne_some]
    intro symbol hsymbol
    have hletters := Symbol.ofPair?_eq_some_iff.1 hsymbol
    cases symbol <;> simp [Symbol.letters] at hletters <;>
      exact absurd h (by rw [← hletters.2]; decide)
  cases rest with
  | nil =>
    unfold Scan.mark
    simp only [List.nil_append, List.head?_cons, Option.bind_some, hpair, List.head?_nil,
      Option.bind_none]
    split <;> rfl
  | cons d rest =>
    unfold Scan.mark
    simp only [List.cons_append, List.head?_cons, Option.bind_some, List.tail_cons]
    split
    · rfl
    · split <;> rfl

/-- The characters of an operator or punctuation mark are read as that mark. -/
theorem Scan.mark_of_text {c : Char} {rest body : List Char}
    (h : (Scan.mark c rest).text = c :: body) :
    Scan.mark c body = ⟨(Scan.mark c rest).token, c :: body, []⟩ := by
  unfold Scan.mark at h ⊢
  split at h
  · rename_i symbol hpair
    obtain ⟨d, -, hd⟩ := Option.bind_eq_some_iff.1 hpair
    have hletters := Symbol.ofPair?_eq_some_iff.1 hd
    obtain rfl : body = [d] := by simpa [hletters] using h.symm
    simp [hd, hletters]
  · obtain rfl : body = [] := by split at h <;> simpa using h.symm
    simp only [List.head?_nil, Option.bind_none]
    split <;> rfl

/-! ## The kinds of token -/

/-- The characters that a literal or a word starts with. -/
def startsRaw (c : Char) : Bool :=
  c.isDigit || c == '"' || c == '\'' || c == '#' || isWordStart c

theorem isDigit_of_isWordStart {c : Char} (h : isWordStart c = true) : c.isDigit = false := by
  have hnot : c = '_' → c.isDigit = false := by rintro rfl; decide
  simp only [isWordStart, isAlpha_eq, Bool.or_eq_true, beq_iff_eq,
    Bool.and_eq_true, decide_eq_true_eq, UInt32.le_iff_toNat_le] at h
  rcases h with h | h
  · simp only [Char.isDigit, Bool.and_eq_false_iff, decide_eq_false_iff_not,
      UInt32.le_iff_toNat_le, ge_iff_le]
    simp at h ⊢
    omega
  · exact hnot h

/-- What the tokens of each kind consist of. -/
inductive Scans : Char → List Char → Scan → Prop
  | marked (rest : List Char) : Scans '0' ('x' :: rest) (.run .hex Char.isAlphanum ['0', 'x'] rest)
  | number {d : Char} {rest : List Char} (hdigit : d.isDigit = true)
      (hmark : d = '0' → rest.head? ≠ some 'x') : Scans d rest (.number d rest)
  | string {quote : Char} {rest body tail : List Char} (hquote : quote = '"' ∨ quote = '\'')
      (hbody : splitString quote rest = some (body, tail)) :
      Scans quote rest ⟨.string (String.ofList (quote :: body)), quote :: body, tail⟩
  | hash (rest : List Char) : Scans '#' rest (.run .hex Char.isAlphanum ['#'] rest)
  | word {c : Char} {rest : List Char} (hstart : isWordStart c = true) :
      Scans c rest (.run .ident isWordPart [c] rest)
  | mark {c : Char} {rest : List Char} (hraw : startsRaw c = false) : Scans c rest (.mark c rest)

theorem scans_iff {c : Char} {rest : List Char} {scan : Scan} :
    Scans c rest scan ↔ scanToken c rest = some scan := by
  constructor
  · intro h
    cases h with
    | marked rest => rfl
    | number hdigit hmark =>
      unfold scanToken
      rw [if_pos hdigit]
      split
      · simp at hmark
      · rfl
    | string hquote hbody =>
      rcases hquote with rfl | rfl <;> simp [scanToken, hbody]
    | hash rest => rfl
    | @word c rest hstart =>
      have hdigit := isDigit_of_isWordStart hstart
      have hother : ∀ d : Char, isWordStart d = false → c ≠ d := by
        rintro d hd rfl
        simp [hstart] at hd
      simp [scanToken, hstart, hdigit, hother '"' (by decide), hother '\'' (by decide),
        hother '#' (by decide)]
    | mark hraw =>
      simp [startsRaw] at hraw
      simp [scanToken, hraw]
  · intro h
    unfold scanToken at h
    split at h
    · rename_i hdigit
      split at h <;> cases h
      · exact .marked _
      · rename_i hmark
        refine .number hdigit ?_
        rintro rfl hhead
        obtain ⟨tail, rfl⟩ := List.head?_eq_some_iff.1 hhead
        exact hmark tail rfl rfl
    · split at h
      · rename_i hquote
        obtain ⟨parts, hparts, rfl⟩ := Option.map_eq_some_iff.1 h
        exact .string hquote hparts
      · split at h
        · rename_i hhash
          subst hhash
          cases h
          exact .hash _
        · split at h <;> cases h
          · exact .word ‹_›
          · exact .mark (by simp_all [startsRaw])

namespace Scans

variable {c : Char} {rest : List Char} {scan : Scan}

theorem letters_token (h : Scans c rest scan) : scan.token.letters = scan.text := by
  cases h with
  | mark hraw =>
    unfold Scan.mark
    split
    · rfl
    · split
      · rename_i symbol hsymbol
        exact Symbol.ofChar?_eq_some_iff.1 hsymbol
      · rfl
  | _ => simp [Token.letters, Scan.run, Scan.number]

/-- A blank behind a text, and whatever stands behind the blank, changes no token in front. -/
theorem append_blank (h : Scans c rest scan) {w : Char} (hw : isBlank w = true)
    (more : List Char) : Scans c (rest ++ w :: more) (scan.followedBy (w :: more)) := by
  cases h with
  | marked tail =>
    rw [← Scan.run_append_blank _ (isAlphanum_of_isBlank hw)]
    exact .marked _
  | number hdigit hmark =>
    rw [← Scan.number_append_blank hw]
    refine .number hdigit fun hzero => ?_
    cases rest with
    | nil => simpa using ne_of_isBlank hw (by decide)
    | cons d rest => exact hmark hzero
  | string hquote hbody =>
    have hescape : c ≠ '\\' := by rcases hquote with rfl | rfl <;> decide
    exact .string hquote (splitString_append_more hescape hbody _)
  | hash rest =>
    rw [← Scan.run_append_blank _ (isAlphanum_of_isBlank hw)]
    exact .hash _
  | word hstart =>
    rw [← Scan.run_append_blank _ (isWordPart_of_isBlank hw)]
    exact .word hstart
  | mark hraw =>
    rw [← Scan.mark_append_blank hw]
    exact .mark hraw

/-- A token is read back from its own characters. -/
theorem of_text (h : Scans c rest scan) {body : List Char} (htext : scan.text = c :: body) :
    Scans c body ⟨scan.token, c :: body, []⟩ := by
  cases h with
  | marked tail =>
    obtain rfl : body = 'x' :: tail.takeWhile Char.isAlphanum := by
      simpa [Scan.run] using htext.symm
    rw [← htext, ← Scan.run_of_text]
    exact .marked _
  | number hdigit hmark =>
    rw [← Scan.number_of_text htext]
    refine .number hdigit fun hzero hhead => ?_
    have hbody : body = rest.takeWhile Char.isDigit ++
        (splitFraction (rest.dropWhile Char.isDigit)).1 := by simpa [Scan.number] using htext.symm
    cases rest with
    | nil => simp [hbody, splitFraction] at hhead
    | cons e rest =>
      by_cases he : e.isDigit = true
      · obtain rfl : e = 'x' := by simpa [hbody, he] using hhead
        exact hmark hzero rfl
      · rcases fraction_eq_nil_or_cons (e :: rest) with hnil | ⟨tail, hcons⟩
        · simp [hbody, he, hnil] at hhead
        · simp [hbody, he, hcons] at hhead
  | string hquote hbody =>
    obtain rfl := List.cons.inj htext |>.2
    have hescape : c ≠ '\\' := by rcases hquote with rfl | rfl <;> decide
    exact .string hquote (splitString_of_body hescape hbody)
  | hash rest =>
    obtain rfl : body = rest.takeWhile Char.isAlphanum := by simpa [Scan.run] using htext.symm
    rw [← htext, ← Scan.run_of_text]
    exact .hash _
  | word hstart =>
    obtain rfl : body = rest.takeWhile isWordPart := by simpa [Scan.run] using htext.symm
    rw [← htext, ← Scan.run_of_text]
    exact .word hstart
  | mark hraw =>
    rw [← Scan.mark_of_text htext]
    exact .mark hraw

end Scans
end MessageTemplate
