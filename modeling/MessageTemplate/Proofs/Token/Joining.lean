import MessageTemplate.Proofs.Token.Division

/-!
# Two texts one behind the other

A text that is read to its end may have a line feed and another text behind it:
its own tokens stay as they are, and those of the second text follow, each as
many lines further down as the first text takes (`lexemes_join`). The line feed
closes a comment on the last line, and it ends every token in front of it.
-/

namespace MessageTemplate

/-! ## Moving down -/

namespace Position

/-- The place `lines` lines below. -/
def down (lines : Nat) (position : Position) : Position :=
  ⟨position.line + lines, position.column⟩

theorem step_down (lines : Nat) (position : Position) (c : Char) :
    (position.down lines).step c = (position.step c).down lines := by
  by_cases hc : c = '\n'
  · simp [step, down, hc, Nat.add_right_comm]
  · simp [step, down, hc]

theorem advance_down (lines : Nat) (position : Position) (text : List Char) :
    (position.down lines).advance text = (position.advance text).down lines := by
  induction text generalizing position with
  | nil => rfl
  | cons c text ih => rw [advance_cons, advance_cons, step_down, ih]

/-- The place behind a line feed. -/
theorem behind_newline (text : List Char) :
    behind (text ++ ['\n']) = start.down (1 + text.count '\n') := by
  simp [behind, down, start, Nat.add_comm]

end Position

/-- The same token at another place. -/
def Lexeme.move (f : Position → Position) (lexeme : Lexeme) : Lexeme :=
  ⟨lexeme.token, f lexeme.position⟩

theorem lexemesFrom_down (lines : Nat) (position : Position) (source : List Char) :
    lexemesFrom (position.down lines) source =
      (lexemesFrom position source).map (Lexeme.move (.down lines)) := by
  fun_induction lexemesFrom position source with
  | case1 position source h =>
    rw [lexemesFrom_open h, Position.advance_down]
    rfl
  | case2 position source gap h =>
    rw [lexemesFrom_end h, Position.advance_down]
    rfl
  | case3 position source gap c rest h here hscan =>
    rw [lexemesFrom_string h hscan, Position.advance_down]
    rfl
  | case4 position source gap c rest h here scan hscan ih =>
    rw [lexemesFrom_token h hscan, Position.advance_down, Position.advance_down, ih]
    rfl

/-! ## Joining -/

/-- What is in front of a text stays a gap if a line feed is put behind the text. -/
theorem IsGap.append_newline {gap rest : List Char} (h : IsGap gap rest) (more : List Char) :
    IsGap gap (rest ++ '\n' :: more) := by
  induction h with
  | nil rest => exact .nil _
  | blank hc h ih => exact .blank hc ih
  | @line body gap rest hbody hend h ih =>
    refine .line hbody (.inr ?_) ih
    rw [← List.append_assoc, List.head?_append]
    rcases hend with hend | hend <;> rw [hend] <;> rfl
  | block hbody h ih => exact .block hbody ih

/-- Two gaps with a line feed in between are a gap. -/
theorem IsGap.join {first second rest : List Char} (h : IsGap first [])
    (hsecond : IsGap second rest) : IsGap (first ++ '\n' :: second) rest := by
  generalize hnil : [] = last at h
  induction h with
  | nil => exact .blank isBlank_newline hsecond
  | blank hc h ih => exact .blank hc (ih hnil)
  | @line body gap last hbody hend h ih =>
    subst hnil
    have hjoined := ih rfl
    rw [List.cons_append, List.cons_append, List.append_assoc]
    refine .line hbody (.inr ?_) hjoined
    rw [List.append_nil] at hend
    rcases hend with rfl | hend
    · rfl
    · simp [List.head?_append, hend]
  | @block body gap last hbody h ih =>
    have hjoined := ih hnil
    simpa using IsGap.block hbody hjoined

/-- A gap and a line feed in front of a text that is divided. -/
theorem Divided.behind_gap {before first source : List Char} {ls : List Lexeme}
    (hfirst : IsGap first []) (h : Divided (before ++ first ++ ['\n']) source ls) :
    Divided before (first ++ '\n' :: source) ls := by
  have hbefore : ∀ gap : List Char,
      before ++ first ++ ['\n'] ++ gap = before ++ (first ++ '\n' :: gap) := by simp
  cases h with
  | token hgap hcomment hlongest hrest =>
    rw [hbefore] at hrest ⊢
    have hdivided := Divided.token (hfirst.join hgap) hcomment hlongest hrest
    simpa using hdivided
  | endOfInput hgap =>
    rw [hbefore]
    exact .endOfInput (hfirst.join hgap)
  | openString hquote hgap hopen =>
    rw [hbefore]
    have hdivided : Divided before _ _ := .openString hquote (hfirst.join hgap) hopen
    simpa using hdivided
  | openComment hgap hopen =>
    rw [hbefore]
    have hdivided : Divided before _ _ := .openComment (hfirst.join hgap) hopen
    simpa using hdivided

theorem Divided.join {before source more : List Char} {front ls : List Lexeme} {place : Position}
    (h : Divided before source (front ++ [⟨.endOfInput, place⟩]))
    (hmore : Divided (before ++ source ++ ['\n']) more ls) :
    Divided before (source ++ '\n' :: more) (front ++ ls) := by
  generalize hall : front ++ [⟨.endOfInput, place⟩] = all at h
  induction h generalizing front with
  | @token before gap text rest token all hgap hcomment hlongest hrest ih =>
    cases front with
    | nil =>
      -- The end of the input is spelled by nothing, so it is no token of this case.
      obtain ⟨hlast, -⟩ := List.cons.inj hall
      have hspelled := hlongest.spelled
      rw [← (Lexeme.mk.inj hlast).1] at hspelled
      cases hspelled
    | cons first front =>
      obtain ⟨rfl, hfront⟩ := List.cons.inj hall
      have hsame : before ++ gap ++ text ++ rest ++ ['\n'] =
          before ++ (gap ++ text ++ rest) ++ ['\n'] := by simp
      have hjoined := ih (by rw [hsame]; exact hmore) hfront
      -- No token goes on over the line feed, so gap and token are the same with more behind them.
      have hgap := hgap.append_newline more
      have hlongest := hlongest.append_blank isBlank_newline more
      obtain ⟨c, text, rfl⟩ := List.exists_cons_of_ne_nil hlongest.spelled.ne_nil
      rw [List.append_assoc] at hgap
      have hopens : ¬ OpensComment (c :: text ++ (rest ++ '\n' :: more)) := by
        rw [← List.append_assoc]
        exact fun hopens => hcomment (hopens.of_append_blank isBlank_newline)
      have hdivided := Divided.token hgap hopens hlongest hjoined
      simpa using hdivided
  | endOfInput hgap =>
    obtain rfl : front = [] := by
      have hlength := congrArg List.length hall
      simpa using hlength
    exact hmore.behind_gap hgap
  -- What is left open would be the last token in place of the end of the input.
  | openString hquote hgap hopen =>
    obtain ⟨-, hlast⟩ := List.append_inj' (hall.trans (List.nil_append _).symm) rfl
    cases hlast
  | openComment hgap hopen =>
    obtain ⟨-, hlast⟩ := List.append_inj' (hall.trans (List.nil_append _).symm) rfl
    cases hlast

/-- A text that is read to its end, and another one behind a line feed. -/
theorem lexemes_join {first : String} {front : List Lexeme} {place : Position}
    (h : lexemes first = front ++ [⟨.endOfInput, place⟩]) (second : String) :
    lexemes (first ++ "\n" ++ second) =
      front ++ (lexemes second).map (Lexeme.move (.down (1 + first.toList.count '\n'))) := by
  have hfirst := divided_lexemesFrom [] first.toList
  have hsecond := divided_lexemesFrom ([] ++ first.toList ++ ['\n']) second.toList
  have hread : lexemesFrom (.behind []) first.toList = front ++ [⟨.endOfInput, place⟩] := h
  rw [hread] at hfirst
  have hjoined := (hfirst.join hsecond).eq_lexemesFrom
  rw [List.nil_append, Position.behind_newline, lexemesFrom_down] at hjoined
  rw [lexemes, lexemes, hjoined]
  simp [Position.behind_nil]

end MessageTemplate
