import MessageTemplate.Proofs.Token.Longest
import MessageTemplate.Proofs.Token.Spelling

/-!
# A text divided into tokens

Every text has exactly one division into gaps and tokens in which each token is
as long as it can be, and reading the text gives the tokens of this division
with their places (`lexemes_division`). The division names the characters of
the text, `Divided before rest lexemes` taking those of `rest` in order behind
the characters `before`; the place of a token depends on the characters in front
of it only.
-/

namespace MessageTemplate

/-- The place behind some characters of a text: the lines are counted from one, and the columns
from zero behind the last line feed. -/
def Position.behind (text : List Char) : Position :=
  ⟨1 + text.count '\n', (text.reverse.takeWhile (· != '\n')).length⟩

namespace Position

theorem behind_concat (text : List Char) (c : Char) :
    behind (text ++ [c]) = (behind text).step c := by
  by_cases hc : c = '\n'
  · subst hc
    simp [behind, step, Nat.add_assoc]
  · simp [behind, step, hc]

theorem advance_behind (before text : List Char) :
    (behind before).advance text = behind (before ++ text) := by
  induction text generalizing before with
  | nil => simp
  | cons c text ih =>
    rw [advance_cons, ← behind_concat, ih, List.append_assoc, List.singleton_append]

theorem behind_nil : behind [] = start := rfl

end Position

/-! ## Gaps -/

/-- Blanks and complete comments in front of the text `rest`. A comment on a line goes up to the
line feed or to the end of the text, one in a block up to the first mark that closes it. -/
inductive IsGap : List Char → List Char → Prop
  | nil (rest : List Char) : IsGap [] rest
  | blank {c : Char} {gap rest : List Char} (hc : isBlank c = true) (h : IsGap gap rest) :
      IsGap (c :: gap) rest
  | line {body gap rest : List Char} (hbody : '\n' ∉ body)
      (hend : gap ++ rest = [] ∨ (gap ++ rest).head? = some '\n') (h : IsGap gap rest) :
      IsGap ('/' :: '/' :: (body ++ gap)) rest
  | block {body gap rest : List Char} (hbody : ¬ ['*', '/'] <:+: body) (h : IsGap gap rest) :
      IsGap ('/' :: '*' :: (body ++ '*' :: '/' :: gap)) rest

theorem prependSplit_prependSplit (first second : List Char)
    (split : Option (List Char × List Char)) :
    prependSplit first (prependSplit second split) = prependSplit (first ++ second) split := by
  cases split <;> simp [prependSplit]

theorem prependSplit_nil (split : Option (List Char × List Char)) :
    prependSplit [] split = split := by
  cases split <;> simp [prependSplit]

theorem splitGap_line {body rest : List Char} (hbody : '\n' ∉ body)
    (hend : rest = [] ∨ rest.head? = some '\n') :
    splitGap .lineComment (body ++ rest) = prependSplit body (splitGap .between rest) := by
  induction body with
  | nil =>
    rw [List.nil_append, prependSplit_nil]
    rcases hend with rfl | hhead
    · rfl
    · obtain ⟨tail, rfl⟩ := List.head?_eq_some_iff.1 hhead
      rw [splitGap_blank isBlank_newline, splitGap, if_pos rfl]
  | cons c body ih =>
    simp only [List.mem_cons, not_or] at hbody
    rw [List.cons_append, splitGap, if_neg (Ne.symm hbody.1), ih hbody.2,
      prependSplit_prependSplit, List.singleton_append]

/-- Inside a block comment, a character is passed over unless it starts the mark that closes the
comment. -/
theorem splitGap_inBlock {c : Char} {rest : List Char} (h : ¬ ['*', '/'] <+: c :: rest) :
    splitGap .blockComment (c :: rest) = prependSplit [c] (splitGap .blockComment rest) := by
  rw [splitGap]
  rintro tail rfl rfl
  exact h ⟨tail, rfl⟩

theorem splitGap_block {body : List Char} (hbody : ¬ ['*', '/'] <:+: body) (rest : List Char) :
    splitGap .blockComment (body ++ '*' :: '/' :: rest) =
      prependSplit (body ++ ['*', '/']) (splitGap .between rest) := by
  induction body with
  | nil => rfl
  | cons c body ih =>
    rw [List.infix_cons_iff, not_or] at hbody
    have hstart : ¬ ['*', '/'] <+: c :: (body ++ '*' :: '/' :: rest) := by
      rw [List.cons_prefix_cons] at hbody ⊢
      rintro ⟨rfl, hhead⟩
      cases body with
      | nil => simp at hhead
      | cons d body => exact hbody.1 ⟨rfl, by simpa using hhead⟩
    rw [List.cons_append, splitGap_inBlock hstart, ih hbody.2, prependSplit_prependSplit]
    rfl

/-- A block comment that nothing closes has no end. -/
theorem splitGap_openBlock {body : List Char} (hbody : ¬ ['*', '/'] <:+: body) :
    splitGap .blockComment body = none := by
  induction body with
  | nil => rfl
  | cons c body ih =>
    rw [List.infix_cons_iff, not_or] at hbody
    rw [splitGap_inBlock hbody.1, ih hbody.2]
    rfl

/-- A gap is passed over, whatever stands behind it. -/
theorem IsGap.splitGap_append {gap rest : List Char} (h : IsGap gap rest) :
    splitGap .between (gap ++ rest) = prependSplit gap (splitGap .between rest) := by
  induction h with
  | nil rest => rw [List.nil_append, prependSplit_nil]
  | blank hc h ih =>
    rw [List.cons_append, splitGap_blank hc, ih, prependSplit_prependSplit, List.singleton_append]
  | @line body gap rest hbody hend h ih =>
    rw [List.cons_append, List.cons_append, List.append_assoc, splitGap, splitGap_line hbody hend,
      ih, prependSplit_prependSplit, prependSplit_prependSplit]
    rfl
  | @block body gap rest hbody h ih =>
    have htext : '/' :: '*' :: (body ++ '*' :: '/' :: gap) ++ rest =
        '/' :: '*' :: (body ++ '*' :: '/' :: (gap ++ rest)) := by simp
    rw [htext, splitGap, splitGap_block hbody, ih, prependSplit_prependSplit,
      prependSplit_prependSplit]
    simp

/-- A text opens a comment with its first characters. -/
def OpensComment (text : List Char) : Prop := ['/', '/'] <+: text ∨ ['/', '*'] <+: text

theorem OpensComment.of_append_blank {c w : Char} {text more : List Char} (hw : isBlank w = true)
    (h : OpensComment (c :: text ++ w :: more)) : OpensComment (c :: text) := by
  cases text with
  | nil =>
    have hslash : w ≠ '/' := ne_of_isBlank hw (by decide)
    have hstar : w ≠ '*' := ne_of_isBlank hw (by decide)
    simp [OpensComment, hslash.symm, hstar.symm] at h
  | cons d text => simpa [OpensComment] using h

/-- A block comment that goes on to the end of the text. -/
def IsOpenComment (text : List Char) : Prop :=
  ∃ body, text = '/' :: '*' :: body ∧ ¬ ['*', '/'] <:+: body

theorem splitGap_of_start {c : Char} {rest : List Char} (hblank : isBlank c = false)
    (hcomment : ¬ OpensComment (c :: rest)) :
    splitGap .between (c :: rest) = some ([], c :: rest) := by
  refine splitGap_start_iff.2 ⟨hblank, ?_⟩
  rintro rfl
  constructor <;> intro hhead <;> obtain ⟨tail, rfl⟩ := List.head?_eq_some_iff.1 hhead
  · exact hcomment (.inl ⟨tail, rfl⟩)
  · exact hcomment (.inr ⟨tail, rfl⟩)

theorem IsOpenComment.splitGap {text : List Char} (h : IsOpenComment text) :
    splitGap .between text = none := by
  obtain ⟨body, rfl, hbody⟩ := h
  rw [MessageTemplate.splitGap, splitGap_openBlock hbody]
  rfl

theorem exists_first_close {text : List Char} (h : ['*', '/'] <:+: text) :
    ∃ body rest, text = body ++ '*' :: '/' :: rest ∧ ¬ ['*', '/'] <:+: body := by
  induction text with
  | nil => simp at h
  | cons c text ih =>
    by_cases hstart : ['*', '/'] <+: c :: text
    · obtain ⟨rest, hrest⟩ := hstart
      exact ⟨[], rest, hrest.symm, by simp⟩
    · obtain ⟨body, rest, rfl, hbody⟩ := ih ((List.infix_cons_iff.1 h).resolve_left hstart)
      refine ⟨c :: body, rest, rfl, ?_⟩
      rw [List.infix_cons_iff, not_or]
      refine ⟨fun hclose => hstart (hclose.trans ?_), hbody⟩
      exact (List.prefix_cons_inj c).2 (List.prefix_append body _)

/-- The rest of a line ends at a line feed or with the text. -/
theorem dropWhile_line (text : List Char) :
    text.dropWhile (· != '\n') = [] ∨ (text.dropWhile (· != '\n')).head? = some '\n' := by
  induction text with
  | nil => exact .inl rfl
  | cons c text ih =>
    by_cases hc : c = '\n'
    · exact .inr (by simp [hc])
    · rwa [List.dropWhile_cons_of_pos (by simpa using hc)]

/-- Every text starts with a gap, up to its end, a token or a comment that nothing closes. -/
theorem exists_gap (source : List Char) :
    ∃ gap rest, source = gap ++ rest ∧ IsGap gap rest ∧
      (rest = [] ∨ IsOpenComment rest ∨
        ∃ c tail, rest = c :: tail ∧ isBlank c = false ∧ ¬ OpensComment rest) := by
  -- On the length, because a comment is passed over as a whole.
  induction hlength : source.length using Nat.strongRecOn generalizing source with
  | _ length ih =>
  subst hlength
  match source with
  | [] => exact ⟨[], [], rfl, .nil _, .inl rfl⟩
  | c :: source =>
    by_cases hblank : isBlank c = true
    · obtain ⟨gap, rest, rfl, hgap, hrest⟩ := ih source.length (by simp) source rfl
      exact ⟨c :: gap, rest, rfl, .blank hblank hgap, hrest⟩
    by_cases hline : ['/', '/'] <+: c :: source
    · obtain ⟨text, htext⟩ := hline
      have hshort : (text.dropWhile (· != '\n')).length < (c :: source).length := by
        have hle := (List.dropWhile_sublist (· != '\n') (l := text)).length_le
        simp only [← htext, List.length_append, List.length_cons]
        omega
      obtain ⟨gap, rest, hsplit, hgap, hrest⟩ := ih _ hshort _ rfl
      refine ⟨'/' :: '/' :: (text.takeWhile (· != '\n') ++ gap), rest, ?_, .line ?_ ?_ hgap, hrest⟩
      · rw [← htext]
        simp [← hsplit]
      · exact fun hmem => by simpa using List.mem_takeWhile_imp hmem
      · rw [← hsplit]
        exact dropWhile_line text
    by_cases hblock : ['/', '*'] <+: c :: source
    · obtain ⟨text, htext⟩ := hblock
      by_cases hclose : ['*', '/'] <:+: text
      · obtain ⟨body, text, rfl, hbody⟩ := exists_first_close hclose
        have hshort : text.length < (c :: source).length := by
          simp only [← htext, List.length_append, List.length_cons]
          omega
        obtain ⟨gap, rest, rfl, hgap, hrest⟩ := ih _ hshort text rfl
        exact ⟨_, rest, by rw [← htext]; simp, .block hbody hgap, hrest⟩
      · exact ⟨[], c :: source, rfl, .nil _, .inr (.inl ⟨text, htext.symm, hclose⟩)⟩
    · refine ⟨[], c :: source, rfl, .nil _, .inr (.inr ⟨c, source, rfl, by simpa using hblank, ?_⟩)⟩
      exact fun h => h.elim hline hblock

/-! ## The division -/

/-- The tokens of the text `rest` behind the characters `before`, with a division of `rest` into
gaps and tokens. What is left open at the end takes all the characters that are left. -/
inductive Divided : List Char → List Char → List Lexeme → Prop
  | token {before gap text rest : List Char} {token : Token} {ls : List Lexeme}
      (hgap : IsGap gap (text ++ rest)) (hcomment : ¬ OpensComment (text ++ rest))
      (hlongest : IsLongest token text rest)
      (hrest : Divided (before ++ gap ++ text) rest ls) :
      Divided before (gap ++ text ++ rest) (⟨token, .behind (before ++ gap)⟩ :: ls)
  | endOfInput {before gap : List Char} (hgap : IsGap gap []) :
      Divided before gap [⟨.endOfInput, .behind (before ++ gap)⟩]
  | openString {before gap body : List Char} {quote : Char} (hquote : IsQuote quote)
      (hgap : IsGap gap (quote :: body))
      (hopen : ∀ closed more, body = closed ++ quote :: more → ¬ Quoted quote closed) :
      Divided before (gap ++ quote :: body)
        [⟨.unterminated .stringLiteral, .behind (before ++ gap)⟩]
  | openComment {before gap rest : List Char} (hgap : IsGap gap rest)
      (hopen : IsOpenComment rest) :
      Divided before (gap ++ rest) [⟨.unterminated .blockComment, .behind (before ++ gap ++ rest)⟩]

theorem scanToken_string {quote : Char} (hquote : IsQuote quote) (body : List Char) :
    scanToken quote body = none ↔
      ∀ closed more, body = closed ++ quote :: more → ¬ Quoted quote closed := by
  rw [← splitString_eq_none_iff hquote.ne_escape]
  rcases hquote with rfl | rfl <;> simp [scanToken]

/-- Only a string literal can be open where a token starts. -/
theorem isQuote_of_scanToken {c : Char} {rest : List Char} (h : scanToken c rest = none) :
    IsQuote c := by
  unfold scanToken at h
  split at h
  · split at h <;> cases h
  · split at h
    · assumption
    · split at h
      · cases h
      · split at h <;> cases h

theorem IsGap.splitGap_of_start {gap rest : List Char} {c : Char} (h : IsGap gap (c :: rest))
    (hblank : isBlank c = false) (hcomment : ¬ OpensComment (c :: rest)) :
    splitGap .between (gap ++ c :: rest) = some (gap, c :: rest) := by
  rw [h.splitGap_append, MessageTemplate.splitGap_of_start hblank hcomment]
  simp [prependSplit]

theorem IsGap.splitGap_nil {gap : List Char} (h : IsGap gap []) :
    splitGap .between gap = some (gap, []) := by
  have hsplit := h.splitGap_append
  rw [List.append_nil] at hsplit
  rw [hsplit]
  simp [MessageTemplate.splitGap, prependSplit]

/-- What is read is a division of the text. -/
theorem divided_lexemesFrom (before source : List Char) :
    Divided before source (lexemesFrom (.behind before) source) := by
  induction hlength : source.length using Nat.strongRecOn generalizing before source with
  | _ length ih =>
  subst hlength
  obtain ⟨gap, rest, rfl, hgap, hrest⟩ := exists_gap source
  rcases hrest with rfl | hopen | ⟨c, tail, rfl, hblank, hcomment⟩
  · rw [List.append_nil, lexemesFrom_end hgap.splitGap_nil, Position.advance_behind]
    exact .endOfInput hgap
  · rw [lexemesFrom_open (by rw [hgap.splitGap_append, hopen.splitGap]; rfl),
      Position.advance_behind, ← List.append_assoc]
    exact .openComment hgap hopen
  · have hsplit := hgap.splitGap_of_start hblank hcomment
    match hscan : scanToken c tail with
    | none =>
      rw [lexemesFrom_string hsplit hscan, Position.advance_behind]
      have hquote := isQuote_of_scanToken hscan
      exact .openString hquote hgap ((scanToken_string hquote tail).1 hscan)
    | some scan =>
      have htext := scanToken_append hscan
      rw [lexemesFrom_token hsplit hscan, Position.advance_behind, Position.advance_behind, ← htext,
        ← List.append_assoc]
      rw [← htext] at hgap hcomment
      refine .token hgap hcomment ((scans_iff.2 hscan).isLongest hblank) (ih _ ?_ _ _ rfl)
      exact length_rest_lt hsplit hscan

/-- No other list of tokens is a division of the text. -/
theorem Divided.eq_lexemesFrom {before source : List Char} {ls : List Lexeme}
    (h : Divided before source ls) : ls = lexemesFrom (.behind before) source := by
  induction h with
  | @token before gap text rest token ls hgap hcomment hlongest hrest ih =>
    -- The longest token that can stand here is the one that is scanned.
    obtain ⟨c, tail, htext, hblank, hscans⟩ := hlongest.scans
    have hsplit : splitGap .between (gap ++ text ++ rest) = some (gap, c :: tail) := by
      rw [List.append_assoc, htext]
      rw [htext] at hgap hcomment
      exact hgap.splitGap_of_start hblank hcomment
    rw [lexemesFrom_token hsplit (scans_iff.1 hscans), Position.advance_behind,
      Position.advance_behind, ← ih]
  | endOfInput hgap => rw [lexemesFrom_end hgap.splitGap_nil, Position.advance_behind]
  | @openString before gap body quote hquote hgap hopen =>
    have hsplit : splitGap .between (gap ++ quote :: body) = some (gap, quote :: body) := by
      refine hgap.splitGap_of_start ?_ ?_
      · rcases hquote with rfl | rfl <;> decide
      · rcases hquote with rfl | rfl <;> simp [OpensComment]
    rw [lexemesFrom_string hsplit ((scanToken_string hquote body).2 hopen),
      Position.advance_behind]
  | @openComment before gap rest hgap hopen =>
    rw [lexemesFrom_open (by rw [hgap.splitGap_append, hopen.splitGap]; rfl),
      Position.advance_behind, List.append_assoc]

theorem Divided.isFinal {before source : List Char} {ls : List Lexeme}
    (h : Divided before source ls) :
    ∃ front last, ls = front ++ [last] ∧ last.token.isFinal = true ∧
      ∀ lexeme ∈ front, lexeme.token.isFinal = false := by
  induction h with
  | token hgap hcomment hlongest hrest ih =>
    obtain ⟨front, last, rfl, hlast, hfront⟩ := ih
    refine ⟨_ :: front, last, rfl, hlast, List.forall_mem_cons.2 ⟨?_, hfront⟩⟩
    cases hlongest.spelled <;> rfl
  | _ => exact ⟨[], _, rfl, rfl, by simp⟩

/-- Reading a text ends with exactly one final token, and it loses nothing: its tokens are those of
the one division of the text into gaps and tokens as long as they can be, with the places at which
they stand in the text. -/
theorem lexemes_division (source : String) :
    (∃ front last, lexemes source = front ++ [last] ∧ last.token.isFinal = true ∧
      ∀ lexeme ∈ front, lexeme.token.isFinal = false) ∧
    ∀ ls, Divided [] source.toList ls ↔ lexemes source = ls := by
  have hread := divided_lexemesFrom [] source.toList
  refine ⟨hread.isFinal, fun ls => ⟨fun h => h.eq_lexemesFrom.symm, ?_⟩⟩
  rintro rfl
  exact hread

end MessageTemplate
