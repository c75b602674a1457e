import MessageTemplate.Proofs.Token.Longest

/-!
# Spelling tokens

A token is *stable* if it is read back from its own characters alone. All tokens
of a text but the one at its end are stable (`stable_of_mem_lexemes`), and a row
of stable tokens is read back when it is written with single spaces in between
(`tokens_spell`).
-/

namespace MessageTemplate

/-- The tokens of a text without their places. -/
def tokens (source : String) : List Token := (lexemes source).map Lexeme.token

/-- The tokens of some characters. -/
def tokensOf (text : List Char) : List Token := (lexemesFrom .start text).map Lexeme.token

theorem tokens_eq (source : String) : tokens source = tokensOf source.toList := rfl

/-! ## Equations for reading -/

section

variable {position : Position} {source gap rest : List Char} {c : Char} {scan : Scan}

theorem lexemesFrom_open (h : splitGap .between source = none) :
    lexemesFrom position source = [⟨.unterminated .blockComment, position.advance source⟩] := by
  rw [lexemesFrom]
  split <;> simp_all

theorem lexemesFrom_end (h : splitGap .between source = some (gap, [])) :
    lexemesFrom position source = [⟨.endOfInput, position.advance gap⟩] := by
  rw [lexemesFrom]
  split <;> simp_all

theorem lexemesFrom_string (h : splitGap .between source = some (gap, c :: rest))
    (hscan : scanToken c rest = none) :
    lexemesFrom position source = [⟨.unterminated .stringLiteral, position.advance gap⟩] := by
  rw [lexemesFrom]
  split
  · simp_all
  · simp_all
  · rename_i heq
    rw [h] at heq
    cases heq
    simp only []
    split
    · rfl
    · simp_all

theorem lexemesFrom_token (h : splitGap .between source = some (gap, c :: rest))
    (hscan : scanToken c rest = some scan) :
    lexemesFrom position source = ⟨scan.token, position.advance gap⟩ ::
      lexemesFrom ((position.advance gap).advance scan.text) scan.rest := by
  rw [lexemesFrom]
  split
  · simp_all
  · simp_all
  · rename_i heq
    rw [h] at heq
    cases heq
    simp only []
    split
    · simp_all
    · rename_i found
      rw [hscan] at found
      cases found
      rfl

end

theorem tokens_lexemesFrom_congr (first second : Position) (source : List Char) :
    (lexemesFrom first source).map Lexeme.token = (lexemesFrom second source).map Lexeme.token := by
  fun_induction lexemesFrom first source generalizing second with
  | case1 position source h => rw [lexemesFrom_open h]; rfl
  | case2 position source gap h => rw [lexemesFrom_end h]; rfl
  | case3 position source gap c rest h here hscan => rw [lexemesFrom_string h hscan]; rfl
  | case4 position source gap c rest h here scan hscan ih =>
    rw [lexemesFrom_token h hscan, List.map_cons, List.map_cons, ih]

/-- Where a text starts does not matter for its tokens. -/
theorem tokens_lexemesFrom (position : Position) (source : List Char) :
    (lexemesFrom position source).map Lexeme.token = tokensOf source :=
  tokens_lexemesFrom_congr position .start source

theorem tokensOf_token {source gap rest : List Char} {c : Char} {scan : Scan}
    (h : splitGap .between source = some (gap, c :: rest)) (hscan : scanToken c rest = some scan) :
    tokensOf source = scan.token :: tokensOf scan.rest := by
  rw [tokensOf, lexemesFrom_token h hscan, List.map_cons, tokens_lexemesFrom]

@[simp] theorem tokensOf_nil : tokensOf [] = [.endOfInput] := by
  rw [tokensOf, lexemesFrom_end rfl]
  rfl

/-! ## Gaps -/

theorem prependSplit_ne_start {front : List Char} (h : front ≠ [])
    (split : Option (List Char × List Char)) (rest : List Char) :
    prependSplit front split ≠ some ([], rest) := by
  intro heq
  obtain ⟨body, -, hbody⟩ := prependSplit_eq_some heq
  exact h (List.append_eq_nil_iff.1 hbody.symm).1

/-- A character starts a token if it is not blank and opens no comment. -/
theorem splitGap_start_iff {c : Char} {rest : List Char} :
    splitGap .between (c :: rest) = some ([], c :: rest) ↔
      isBlank c = false ∧ (c = '/' → rest.head? ≠ some '/' ∧ rest.head? ≠ some '*') := by
  constructor
  · intro h
    have hcomment : c = '/' → rest.head? ≠ some '/' ∧ rest.head? ≠ some '*' := by
      rintro rfl
      constructor <;> intro hhead <;>
        obtain ⟨tail, rfl⟩ := List.head?_eq_some_iff.1 hhead <;>
        rw [splitGap] at h <;>
        exact absurd h (prependSplit_ne_start (by simp) _ _)
    refine ⟨?_, hcomment⟩
    by_contra hblank
    rw [splitGap, if_pos (by simpa using hblank)] at h
    · exact absurd h (prependSplit_ne_start (by simp) _ _)
    · rintro tail rfl rfl
      simp at hcomment
    · rintro tail rfl rfl
      simp at hcomment
  · rintro ⟨hblank, hcomment⟩
    rw [splitGap]
    · simp [hblank]
    · rintro tail rfl rfl
      simp at hcomment
    · rintro tail rfl rfl
      simp at hcomment

/-- What is behind a gap has no gap in front. -/
theorem splitGap_rest {place : GapPlace} {source gap rest : List Char}
    (h : splitGap place source = some (gap, rest)) : splitGap .between rest = some ([], rest) := by
  fun_induction splitGap place source generalizing gap rest with
  | case3 c source h1 h2 hblank ih =>
    obtain ⟨body, hbody, rfl⟩ := prependSplit_eq_some h
    exact ih hbody
  | case4 c source hline hblock hblank =>
    cases h
    refine splitGap_start_iff.2 ⟨by simpa using hblank, fun hslash =>
      ⟨fun hhead => ?_, fun hhead => ?_⟩⟩
    · obtain ⟨tail, rfl⟩ := List.head?_eq_some_iff.1 hhead
      exact hline tail hslash rfl
    · obtain ⟨tail, rfl⟩ := List.head?_eq_some_iff.1 hhead
      exact hblock tail hslash rfl
  | case8 => simp at h
  | case9 => cases h; rfl
  | _ =>
    rename_i ih
    obtain ⟨body, hbody, rfl⟩ := prependSplit_eq_some h
    exact ih hbody

/-! ## Stable tokens -/

/-- A token that is read back from its own characters. -/
def Token.IsStable (token : Token) : Prop := tokensOf token.letters = [token, .endOfInput]

/-- What is read from the characters of a stable token. -/
theorem Token.IsStable.scans {token : Token} (h : token.IsStable) :
    ∃ c body, token.letters = c :: body ∧
      splitGap .between (c :: body) = some ([], c :: body) ∧
      Scans c body ⟨token, c :: body, []⟩ := by
  rw [Token.IsStable, tokensOf] at h
  match hgap : splitGap .between token.letters with
  | none => simp [lexemesFrom_open hgap] at h
  | some (gap, []) => simp [lexemesFrom_end hgap] at h
  | some (gap, c :: rest) =>
    match hscan : scanToken c rest with
    | none => simp [lexemesFrom_string hgap hscan] at h
    | some scan =>
      rw [lexemesFrom_token hgap hscan, List.map_cons] at h
      obtain ⟨rfl, -⟩ := List.cons.inj h
      have hletters := (scans_iff.2 hscan).letters_token
      have hsource := splitGap_append hgap
      have hrest := scanToken_append hscan
      have hlength := congrArg List.length hsource
      rw [hletters, ← hrest, List.length_append, List.length_append] at hlength
      obtain rfl : gap = [] := List.length_eq_zero_iff.1 (by omega)
      have htail : scan.rest = [] := List.length_eq_zero_iff.1 (by omega)
      rw [List.nil_append, hletters] at hsource
      rw [htail, List.append_nil] at hrest
      refine ⟨c, rest, hletters.trans hrest, splitGap_rest hgap, ?_⟩
      rw [← hrest, ← htail]
      exact scans_iff.2 hscan

/-- The characters of a token at the start of a text are its own text. -/
theorem Scans.text_eq_cons {c : Char} {rest : List Char} {scan : Scan} (h : Scans c rest scan) :
    ∃ body, scan.text = c :: body := by
  have happend := scanToken_append (scans_iff.1 h)
  have hne := scanToken_text_ne_nil (scans_iff.1 h)
  obtain ⟨d, body, htext⟩ := List.exists_cons_of_ne_nil hne
  rw [htext, List.cons_append] at happend
  obtain ⟨rfl, -⟩ := List.cons.inj happend
  exact ⟨body, htext⟩

/-- A slash that opens no comment is an operator alone. -/
theorem scanToken_slash (rest : List Char) :
    scanToken '/' rest = some ⟨.symbol .slash, ['/'], rest⟩ := by
  have hpair : rest.head?.bind (Symbol.ofPair? '/') = none := by
    cases rest <;> rfl
  change some (Scan.mark '/' rest) = _
  rw [Scan.mark, hpair]
  rfl

/-- A token that is read from some text is stable. -/
theorem Scans.isStable {c : Char} {rest : List Char} {scan : Scan} (h : Scans c rest scan)
    (hstart : splitGap .between (c :: rest) = some ([], c :: rest)) : scan.token.IsStable := by
  obtain ⟨body, htext⟩ := h.text_eq_cons
  have hself := h.of_text htext
  have hgap : splitGap .between (c :: body) = some ([], c :: body) := by
    have hstart := splitGap_start_iff.1 hstart
    refine splitGap_start_iff.2 ⟨hstart.1, ?_⟩
    rintro rfl
    obtain rfl : body = [] := by
      have hmark := scanToken_slash rest
      rw [scans_iff.1 h, Option.some.injEq] at hmark
      simpa [hmark] using htext.symm
    simp
  rw [Token.IsStable, h.letters_token, htext, tokensOf_token hgap (scans_iff.1 hself), tokensOf_nil]

theorem stable_of_mem_lexemesFrom {position : Position} {source : List Char} {lexeme : Lexeme}
    (h : lexeme ∈ lexemesFrom position source) (hfinal : lexeme.token.isFinal = false) :
    lexeme.token.IsStable := by
  fun_induction lexemesFrom position source with
  | case1 position source hgap =>
    rw [List.mem_singleton] at h
    subst h
    simp [Token.isFinal] at hfinal
  | case2 position source gap hgap =>
    rw [List.mem_singleton] at h
    subst h
    simp [Token.isFinal] at hfinal
  | case3 position source gap c rest hgap here hscan =>
    rw [List.mem_singleton] at h
    subst h
    simp [Token.isFinal] at hfinal
  | case4 position source gap c rest hgap here scan hscan ih =>
    rcases List.mem_cons.1 h with rfl | h
    · exact (scans_iff.2 hscan).isStable (splitGap_rest hgap)
    · exact ih h

/-- A token that is read back from its characters is spelled with them. -/
theorem Token.IsStable.spelled {token : Token} (h : token.IsStable) :
    Spelled token token.letters := by
  obtain ⟨c, body, hletters, hgap, hscans⟩ := h.scans
  rw [hletters]
  exact hscans.spelled (splitGap_start_iff.1 hgap).1

/-- What is spelled is read back. -/
theorem Spelled.isStable {token : Token} {text : List Char} (h : Spelled token text) :
    token.IsStable := by
  obtain ⟨c, rest, scan, htext, hscans, hlength, htoken⟩ := h.scans []
  rw [List.append_nil] at htext
  subst htext
  have happend := congrArg List.length (scanToken_append (scans_iff.1 hscans))
  simp only [List.length_append, List.length_cons] at happend hlength htoken
  obtain rfl : scan.token = token := htoken (by omega)
  refine hscans.isStable (splitGap_start_iff.2 ⟨h.ne_blank, ?_⟩)
  rintro rfl
  -- A slash is a token alone, so the text has nothing behind it.
  obtain rfl : scan = ⟨.symbol .slash, ['/'], rest⟩ :=
    Option.some.inj ((scans_iff.1 hscans).symm.trans (scanToken_slash rest))
  obtain rfl : rest = [] := by
    simp only [List.length_cons, List.length_nil] at hlength
    exact List.length_eq_zero_iff.1 (by omega)
  simp

theorem stable_symbol (mark : Symbol) : (Token.symbol mark).IsStable := by
  have hscan : ∃ c body, mark.letters = c :: body ∧
      splitGap .between (c :: body) = some ([], c :: body) ∧
      scanToken c body = some ⟨.symbol mark, c :: body, []⟩ := by
    cases mark <;> exact ⟨_, _, rfl, rfl, rfl⟩
  obtain ⟨c, body, -, hgap, hscan⟩ := hscan
  exact (scans_iff.2 hscan).isStable hgap

/-- A word of a template: a letter or an underscore, then letters, digits and underscores. -/
def isWord (word : String) : Bool :=
  match word.toList with
  | [] => false
  | c :: rest => isWordStart c && rest.all isWordPart

theorem stable_ident {word : String} (h : isWord word = true) : (Token.ident word).IsStable := by
  unfold isWord at h
  match htext : word.toList with
  | [] => simp [htext] at h
  | c :: rest =>
    rw [htext, Bool.and_eq_true, List.all_eq_true] at h
    have hscan : Scan.run .ident isWordPart [c] rest = ⟨.ident word, c :: rest, []⟩ := by
      simp [Scan.run, List.takeWhile_eq_self_iff.2 h.2, ← htext]
      exact h.2
    have hword : Scans c rest ⟨.ident word, c :: rest, []⟩ := hscan ▸ .word h.1
    refine hword.isStable (splitGap_start_iff.2 ⟨?_, ?_⟩)
    · by_contra hblank
      have := isWordPart_of_isBlank (by simpa using hblank : isBlank c = true)
      simp_all [isWordStart, isWordPart, Char.isAlphanum]
    · rintro rfl
      exact absurd h.1 (by decide)

/-- Words that are read are words. -/
theorem isWord_of_stable {word : String} (h : (Token.ident word).IsStable) :
    isWord word = true := by
  obtain ⟨c, body, hletters, -, hscans⟩ := h.scans
  generalize hscan : Scan.mk (.ident word) (c :: body) [] = scan at hscans
  cases hscans with
  | word hstart =>
    have hbody : body.takeWhile isWordPart = body := by
      simpa [Scan.run] using (congrArg Scan.text hscan).symm
    have hword : word.toList = c :: body := hletters
    rw [isWord, hword, Bool.and_eq_true, List.all_eq_true]
    exact ⟨hstart, List.takeWhile_eq_self_iff.1 hbody⟩
  | mark hraw =>
    have htoken := congrArg Scan.token hscan
    unfold Scan.mark at htoken
    split at htoken
    · simp at htoken
    · split at htoken <;> simp at htoken
  | _ => simp [Scan.run, Scan.number] at hscan

/-- A stable token with a blank behind it is read first, and the rest of the text after it. -/
theorem Token.IsStable.tokensOf_append {token : Token} (h : token.IsStable) {w : Char}
    (hw : isBlank w = true) (more : List Char) :
    tokensOf (token.letters ++ w :: more) = token :: tokensOf (w :: more) := by
  obtain ⟨c, body, hletters, hstart, hscans⟩ := h.scans
  have hgap : splitGap .between (c :: (body ++ w :: more)) =
    some ([], c :: (body ++ w :: more)) := by
    have hstart := splitGap_start_iff.1 hstart
    refine splitGap_start_iff.2 ⟨hstart.1, fun hslash => ?_⟩
    cases body with
    | nil => simpa using ⟨ne_of_isBlank hw (by decide), ne_of_isBlank hw (by decide)⟩
    | cons d body => exact hstart.2 hslash
  have hscans := scans_iff.1 (hscans.append_blank hw more)
  rw [hletters, List.cons_append, tokensOf_token hgap hscans]
  rfl

/-- What is passed over in front of a text is in front of no other tokens. -/
theorem tokensOf_of_splitGap {front source more : List Char}
    (h : splitGap .between source = prependSplit front (splitGap .between more)) :
    tokensOf source = tokensOf more := by
  match hmore : splitGap .between more with
  | none =>
    rw [tokensOf, tokensOf, lexemesFrom_open hmore, lexemesFrom_open (by rw [h, hmore]; rfl)]
    rfl
  | some (gap, []) =>
    rw [tokensOf, tokensOf, lexemesFrom_end hmore, lexemesFrom_end (by rw [h, hmore]; rfl)]
    rfl
  | some (gap, c :: rest) =>
    have hsource : splitGap .between source = some (front ++ gap, c :: rest) := by
      rw [h, hmore]
      rfl
    match hscan : scanToken c rest with
    | none =>
      rw [tokensOf, tokensOf, lexemesFrom_string hmore hscan, lexemesFrom_string hsource hscan]
      rfl
    | some scan => rw [tokensOf_token hmore hscan, tokensOf_token hsource hscan]

theorem splitGap_blank {c : Char} (hc : isBlank c = true) (rest : List Char) :
    splitGap .between (c :: rest) = prependSplit [c] (splitGap .between rest) := by
  have hslash : c ≠ '/' := ne_of_isBlank hc (by decide)
  rw [splitGap, if_pos hc]
  · exact fun tail heq => absurd heq hslash
  · exact fun tail heq => absurd heq hslash

theorem tokensOf_blank {w : Char} (hw : isBlank w = true) (more : List Char) :
    tokensOf (w :: more) = tokensOf more :=
  tokensOf_of_splitGap (splitGap_blank hw more)

/-- A row of tokens as a text, with single spaces in between. -/
def spell (row : List Token) : String :=
  String.ofList (List.intercalate [' '] (row.map Token.letters))

theorem tokens_spell {row : List Token} (h : ∀ token ∈ row, token.IsStable) :
    tokens (spell row) = row ++ [.endOfInput] := by
  rw [tokens_eq, spell, String.toList_ofList]
  induction row with
  | nil => exact tokensOf_nil
  | cons token row ih =>
    cases row with
    | nil =>
      rw [List.map_cons, List.map_nil, List.intercalate_singleton]
      exact h token (by simp)
    | cons next row =>
      have hrow := ih fun token htoken => h token (by simp [htoken])
      have htoken := h token (by simp)
      rw [List.map_cons, List.map_cons, List.intercalate_cons_cons, List.append_assoc,
        List.singleton_append, htoken.tokensOf_append isBlank_space, tokensOf_blank isBlank_space,
        ← List.map_cons, hrow]
      rfl

end MessageTemplate
