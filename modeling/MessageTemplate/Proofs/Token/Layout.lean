import MessageTemplate.Proofs.Token.Division

/-!
# Layout between tokens

Blanks and comments that are closed can be put in front of any token, as long as
they start with a blank: the tokens are the same (`tokensOf_insert_iff`). The end
of a text is different, because the text may end inside a comment on its last
line, which then goes on up to the first line feed of what is put there.
-/

namespace MessageTemplate

/-! ## Layout -/

/-- Blanks, comments in blocks, and comments on lines with the line feeds that end them. -/
inductive IsLayout : List Char → Prop
  | nil : IsLayout []
  | blank {c : Char} {layout : List Char} (hc : isBlank c = true) (h : IsLayout layout) :
      IsLayout (c :: layout)
  | line {body layout : List Char} (hbody : '\n' ∉ body) (h : IsLayout layout) :
      IsLayout ('/' :: '/' :: (body ++ '\n' :: layout))
  | block {body layout : List Char} (hbody : ¬ ['*', '/'] <:+: body) (h : IsLayout layout) :
      IsLayout ('/' :: '*' :: (body ++ '*' :: '/' :: layout))

theorem IsLayout.of_blank {c : Char} {layout : List Char} (h : IsLayout (c :: layout))
    (hc : isBlank c = true) : IsLayout layout := by
  cases h with
  | blank _ h => exact h
  | line | block => exact absurd hc (by decide)

/-- Layout is a gap in front of any text. -/
theorem IsLayout.append_gap {layout gap rest : List Char} (h : IsLayout layout)
    (hgap : IsGap gap rest) : IsGap (layout ++ gap) rest := by
  induction h with
  | nil => exact hgap
  | blank hc _ ih => exact .blank hc ih
  | @line body layout hbody _ ih =>
    have hline : IsGap ('/' :: '/' :: (body ++ '\n' :: (layout ++ gap))) rest :=
      .line hbody (.inr rfl) (.blank isBlank_newline ih)
    simpa using hline
  | block hbody _ ih =>
    have hblock := IsGap.block hbody ih
    simpa using hblock

theorem IsLayout.isGap {layout : List Char} (h : IsLayout layout) (rest : List Char) :
    IsGap layout rest := by
  have hgap := h.append_gap (.nil rest)
  rwa [List.append_nil] at hgap

/-- The text ends inside a comment on its last line. -/
def IsOpenLine (text : List Char) : Prop :=
  ∃ layout body, text = layout ++ '/' :: '/' :: body ∧ IsLayout layout ∧ '\n' ∉ body

/-- A gap is layout, unless its last comment is ended by nothing but the end of the text. -/
theorem IsGap.isLayout_or_open {gap rest : List Char} (h : IsGap gap rest)
    (hrest : rest.head? ≠ some '\n') : IsLayout gap ∨ rest = [] ∧ IsOpenLine gap := by
  induction h with
  | nil => exact .inl .nil
  | @blank c gap rest hc _ ih =>
    rcases ih hrest with hlayout | ⟨hnil, front, more, rfl, hfront, hmore⟩
    · exact .inl (.blank hc hlayout)
    · exact .inr ⟨hnil, c :: front, more, rfl, .blank hc hfront, hmore⟩
  | @line body gap rest hbody hend _ ih =>
    cases gap with
    | nil =>
      refine .inr ⟨?_, [], body, by simp, .nil, hbody⟩
      exact hend.resolve_right hrest
    | cons c gap =>
      obtain rfl : c = '\n' := by simpa using hend
      rcases ih hrest with hlayout | ⟨hnil, front, more, hgap, hfront, hmore⟩
      · exact .inl (.line hbody (hlayout.of_blank isBlank_newline))
      · cases front with
        | nil => simp at hgap
        | cons d front =>
          obtain ⟨rfl, rfl⟩ := List.cons.inj hgap
          have hline := IsLayout.line hbody (hfront.of_blank isBlank_newline)
          exact .inr ⟨hnil, _, more, by simp, hline, hmore⟩
  | @block body gap rest hbody _ ih =>
    rcases ih hrest with hlayout | ⟨hnil, front, more, rfl, hfront, hmore⟩
    · exact .inl (.block hbody hlayout)
    · exact .inr ⟨hnil, _, more, by simp, .block hbody hfront, hmore⟩

/-! ## Tokens behind a gap -/

theorem IsGap.tokensOf_append {gap rest : List Char} (h : IsGap gap rest) :
    tokensOf (gap ++ rest) = tokensOf rest :=
  tokensOf_of_splitGap h.splitGap_append

/-- There is no token in a text that is a gap, and in no other. -/
theorem tokensOf_eq_end_iff {text : List Char} : tokensOf text = [.endOfInput] ↔ IsGap text [] := by
  constructor
  · intro h
    have hdivided := divided_lexemesFrom [] text
    rw [tokensOf, ← Position.behind_nil] at h
    generalize lexemesFrom (.behind []) text = ls at h hdivided
    cases hdivided with
    | token _ _ hlongest _ =>
      obtain ⟨rfl, -⟩ := List.cons.inj h
      cases hlongest.spelled
    | endOfInput hgap => exact hgap
    | openString | openComment => cases h
  · intro h
    have hsource := h.tokensOf_append
    rwa [List.append_nil, tokensOf_nil] at hsource

/-- A comment on a line that has no end yet goes on up to the first line feed. -/
theorem tokensOf_openLine {body : List Char} (hbody : '\n' ∉ body) (text : List Char) :
    tokensOf ('/' :: '/' :: (body ++ text)) = tokensOf (text.dropWhile (· != '\n')).tail := by
  have hline : '\n' ∉ body ++ text.takeWhile (· != '\n') := by
    rw [List.mem_append, not_or]
    exact ⟨hbody, fun hmem => by simpa using List.mem_takeWhile_imp hmem⟩
  have hgap : IsGap ('/' :: '/' :: (body ++ text.takeWhile (· != '\n') ++ []))
      (text.dropWhile (· != '\n')) := .line hline (dropWhile_line text) (.nil _)
  have htext : '/' :: '/' :: (body ++ text) =
      '/' :: '/' :: (body ++ text.takeWhile (· != '\n') ++ []) ++ text.dropWhile (· != '\n') := by
    simp
  rw [htext, hgap.tokensOf_append]
  rcases dropWhile_line text with hnil | hnewline
  · rw [hnil, List.tail_nil]
  · obtain ⟨tail, htail⟩ := List.head?_eq_some_iff.1 hnewline
    rw [htail, tokensOf_blank isBlank_newline, List.tail_cons]

/-- A token is read behind its gap, and then what stands behind it. -/
theorem IsLongest.tokensOf_append {token : Token} {gap text rest : List Char}
    (h : IsLongest token text rest) (hgap : IsGap gap (text ++ rest))
    (hcomment : ¬ OpensComment (text ++ rest)) :
    tokensOf (gap ++ text ++ rest) = token :: tokensOf rest := by
  obtain ⟨c, tail, htext, hblank, hscans⟩ := h.scans
  rw [htext] at hgap hcomment
  have hsplit := hgap.splitGap_of_start hblank hcomment
  rw [List.append_assoc, htext, tokensOf_token hsplit (scans_iff.1 hscans)]

/-! ## Cutting a text in front of a token -/

/-- A text as a row of tokens with gaps in front of them, and with `last` behind them. -/
inductive Parted : List Char → List Token → List Char → Prop
  | last (text : List Char) : Parted text [] text
  | token {gap text rest last : List Char} {token : Token} {row : List Token}
      (hgap : IsGap gap (text ++ rest)) (hcomment : ¬ OpensComment (text ++ rest))
      (hlongest : IsLongest token text rest) (hrest : Parted rest row last) :
      Parted (gap ++ text ++ rest) (token :: row) last

/-- What is in front of a token is a gap in front of all texts that start like the token. -/
theorem IsGap.congr_head {gap rest more : List Char} {c : Char} (h : IsGap gap (c :: rest)) :
    IsGap gap (c :: more) := by
  generalize htext : c :: rest = text at h
  induction h with
  | nil => exact .nil _
  | blank hc _ ih => exact .blank hc (ih htext)
  | line hbody hend _ ih =>
    subst htext
    refine .line hbody (.inr ?_) (ih rfl)
    rcases hend with hend | hend
    · simp at hend
    · simpa [List.head?_append] using hend
  | block hbody _ ih => exact .block hbody (ih htext)

/-- A row of tokens is read if nothing stands behind the text, or a blank. -/
theorem Parted.tokensOf_append {first last rest : List Char} {row : List Token}
    (h : Parted first row last) (hrest : ∀ w ∈ rest.head?, isBlank w = true) :
    tokensOf (first ++ rest) = row ++ tokensOf (last ++ rest) := by
  induction h with
  | last => rfl
  | @token gap text inside last token row hgap hcomment hlongest _ ih =>
    obtain ⟨c, body, rfl⟩ := List.exists_cons_of_ne_nil hlongest.spelled.ne_nil
    have hsame : IsLongest token (c :: body) (inside ++ rest) ∧
        ¬ OpensComment (c :: body ++ (inside ++ rest)) := by
      cases rest with
      | nil => exact ⟨by rwa [List.append_nil], by rwa [List.append_nil]⟩
      | cons w rest =>
        have hw : isBlank w = true := hrest w rfl
        rw [← List.append_assoc]
        exact ⟨hlongest.append_blank hw rest, fun hopens => hcomment (hopens.of_append_blank hw)⟩
    rw [List.append_assoc _ inside, hsame.1.tokensOf_append hgap.congr_head hsame.2, ih,
      List.cons_append]

/-- A text that is cut behind `first`, where a token starts or the text ends: `row` stands in front
of the cut, `last` between `row` and the cut, and what is behind the cut is read as it is there. -/
structure Cut (first rest : List Char) (row : List Token) (last : List Char) : Prop where
  parted : Parted first row last
  gap : IsGap last rest
  head : rest.head? ≠ some '\n'
  tokens : tokensOf (first ++ rest) = row ++ tokensOf rest

theorem Cut.ofGap {gap rest : List Char} (h : IsGap gap rest) (hhead : rest.head? ≠ some '\n') :
    Cut gap rest [] gap :=
  ⟨.last gap, h, hhead, h.tokensOf_append⟩

theorem Cut.behind {token : Token} {gap text first rest last : List Char} {row : List Token}
    (h : Cut first rest row last) (hgap : IsGap gap (text ++ (first ++ rest)))
    (hcomment : ¬ OpensComment (text ++ (first ++ rest)))
    (hlongest : IsLongest token text (first ++ rest)) :
    Cut (gap ++ text ++ first) rest (token :: row) last := by
  obtain ⟨c, body, rfl⟩ := List.exists_cons_of_ne_nil hlongest.spelled.ne_nil
  have hprefix : c :: body ++ first <+: c :: body ++ (first ++ rest) := by
    rw [← List.append_assoc]
    exact List.prefix_append _ _
  refine ⟨.token hgap.congr_head ?_ ⟨hlongest.spelled, ?_⟩ h.parted, h.gap, h.head, ?_⟩
  · exact fun hopens => hcomment (hopens.imp (·.trans hprefix) (·.trans hprefix))
  · exact fun other front hother hfront =>
      hlongest.longest other front hother (hfront.trans hprefix)
  · rw [List.append_assoc _ first, hlongest.tokensOf_append hgap hcomment, h.tokens,
      List.cons_append]

/-- A text is cut at the place of each of its tokens, but not at a comment that is not closed. -/
theorem Divided.cut {before source : List Char} {ls : List Lexeme} (h : Divided before source ls)
    {lexeme : Lexeme} (hmem : lexeme ∈ ls) (hopen : lexeme.token ≠ .unterminated .blockComment) :
    ∃ first rest row last, source = first ++ rest ∧
      lexeme.position = .behind (before ++ first) ∧ Cut first rest row last := by
  induction h with
  | @token before gap text rest token ls hgap hcomment hlongest hrest ih =>
    rcases List.mem_cons.1 hmem with rfl | hmem
    · refine ⟨gap, text ++ rest, [], gap, List.append_assoc _ _ _, rfl, .ofGap hgap fun hhead => ?_⟩
      obtain ⟨c, body, rfl⟩ := List.exists_cons_of_ne_nil hlongest.spelled.ne_nil
      obtain rfl := Option.some.inj hhead
      exact absurd hlongest.spelled.ne_blank (by decide)
    · obtain ⟨first, rest, row, last, rfl, hplace, hcut⟩ := ih hmem
      refine ⟨_, rest, token :: row, last, (List.append_assoc _ _ _).symm, ?_,
        hcut.behind hgap hcomment hlongest⟩
      rw [hplace]
      simp
  | @endOfInput before gap hgap =>
    obtain rfl := List.mem_singleton.1 hmem
    exact ⟨gap, [], [], gap, (List.append_nil _).symm, rfl, .ofGap hgap (by simp)⟩
  | @openString before gap body quote hquote hgap _ =>
    obtain rfl := List.mem_singleton.1 hmem
    refine ⟨gap, quote :: body, [], gap, rfl, rfl, .ofGap hgap fun hhead => ?_⟩
    obtain rfl := Option.some.inj hhead
    rcases hquote with hquote | hquote <;> exact absurd hquote (by decide)
  | openComment _ _ =>
    rw [List.mem_singleton.1 hmem] at hopen
    exact absurd rfl hopen

/-- Different beginnings of a text end at different places. -/
theorem Position.behind_append_ne {text more : List Char}
    (h : behind (text ++ more) = behind text) : more = [] := by
  obtain ⟨hlines, hcolumns⟩ := Position.mk.inj h
  have hline : '\n' ∉ more := by
    rw [List.count_append] at hlines
    exact List.count_eq_zero.1 (by omega)
  have hall : ∀ c ∈ more.reverse, (c != '\n') = true := by
    intro c hc
    rw [List.mem_reverse] at hc
    simpa using ne_of_mem_of_not_mem hc hline
  rw [List.reverse_append, List.takeWhile_append_of_pos hall, List.length_append] at hcolumns
  exact List.reverse_eq_nil_iff.1 (List.length_eq_zero_iff.1 (by omega))

theorem Position.behind_injective {first second source : List Char} (hfirst : first <+: source)
    (hsecond : second <+: source) (h : behind first = behind second) : first = second := by
  rcases List.prefix_or_prefix_of_prefix hfirst hsecond with ⟨more, rfl⟩ | ⟨more, rfl⟩
  · rw [behind_append_ne h.symm, List.append_nil]
  · rw [behind_append_ne h, List.append_nil]

theorem exists_cut {first rest : List Char} {lexeme : Lexeme}
    (hmem : lexeme ∈ lexemesFrom .start (first ++ rest)) (hplace : lexeme.position = .behind first)
    (hopen : lexeme.token ≠ .unterminated .blockComment) :
    ∃ row last, Cut first rest row last := by
  have hdivided := divided_lexemesFrom [] (first ++ rest)
  obtain ⟨front, after, row, last, hsource, hbehind, hcut⟩ := hdivided.cut hmem hopen
  obtain rfl : first = front := by
    refine Position.behind_injective (List.prefix_append first rest) ?_ (hplace.symm.trans hbehind)
    exact hsource ▸ List.prefix_append front after
  obtain rfl := List.append_cancel_left hsource
  exact ⟨row, last, hcut⟩

/-! ## Putting layout in front of a token -/

/-- The text ends inside a comment on its last line: behind its last token there is such a comment,
and no line feed ends it. -/
def EndsInLineComment (text : List Char) : Prop :=
  ∃ row last, Parted text row last ∧ IsOpenLine last

/-- Layout may stand where a text is cut. If the text ends there inside a comment on its last line,
then there must be no token in what the comment leaves of the layout. -/
def MayInsert (first rest layout : List Char) : Prop :=
  rest = [] → EndsInLineComment first → IsGap (layout.dropWhile (· != '\n')).tail []

theorem IsOpenLine.tokensOf_append {text : List Char} (h : IsOpenLine text) (more : List Char) :
    tokensOf (text ++ more) = tokensOf (more.dropWhile (· != '\n')).tail := by
  obtain ⟨layout, body, rfl, hlayout, hbody⟩ := h
  rw [List.append_assoc, (hlayout.isGap _).tokensOf_append, List.cons_append, List.cons_append,
    tokensOf_openLine hbody]

theorem tokensOf_insert_iff {first rest layout : List Char} {lexeme : Lexeme}
    (hmem : lexeme ∈ lexemesFrom .start (first ++ rest)) (hplace : lexeme.position = .behind first)
    (hopen : lexeme.token ≠ .unterminated .blockComment) (hlayout : IsLayout layout)
    (hblank : ∃ w ∈ layout.head?, isBlank w = true) :
    tokensOf (first ++ layout ++ rest) = tokensOf (first ++ rest) ↔
      MayInsert first rest layout := by
  obtain ⟨row, last, hcut⟩ := exists_cut hmem hplace hopen
  have hhead : ∀ after, ∀ w ∈ (layout ++ after).head?, isBlank w = true := by
    obtain ⟨w, hw, hblank⟩ := hblank
    obtain ⟨layout, rfl⟩ := List.head?_eq_some_iff.1 hw
    intro after c hc
    rwa [← Option.some.inj hc]
  have hinserted := hcut.parted.tokensOf_append (hhead rest)
  rw [List.append_assoc, hinserted, hcut.tokens]
  constructor
  · -- The text may be parted in another way than at the cut, so both readings are compared with
    -- the row that belongs to the comment.
    rintro hsame rfl ⟨front, comment, hparted, hcomment⟩
    have hlonger := hparted.tokensOf_append (hhead [])
    have hnone : ∀ w ∈ ([] : List Char).head?, isBlank w = true := by simp
    have hshort := hparted.tokensOf_append hnone
    rw [hinserted, hsame, ← hcut.tokens, hshort, List.append_cancel_left_eq,
      hcomment.tokensOf_append, hcomment.tokensOf_append, List.append_nil] at hlonger
    exact tokensOf_eq_end_iff.1 (hlonger.symm.trans tokensOf_nil)
  · intro hmay
    rcases hcut.gap.isLayout_or_open hcut.head with hlast | ⟨rfl, hcomment⟩
    · have hgap := hlast.append_gap (hlayout.isGap rest)
      rw [← List.append_assoc, hgap.tokensOf_append]
    · have hgap := hmay rfl ⟨row, last, hcut.parted, hcomment⟩
      rw [hcomment.tokensOf_append, List.append_nil, tokensOf_eq_end_iff.2 hgap, tokensOf_nil]

end MessageTemplate
