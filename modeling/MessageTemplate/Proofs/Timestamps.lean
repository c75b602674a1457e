import MessageTemplate.Proofs.Calendar.Reading
import MessageTemplate.Proofs.SingleStatement

/-!
# Timestamps by way of their texts

An instant of a year with four digits survives its own text, so a timestamp can
be set to the text of the current time as well as to the current time itself
(`instant_survives_text`).
-/

namespace MessageTemplate

/-- The statement that sets the timestamp to the value of the expression. -/
def stampStmt (e : Expr Literal Unit) : Stmt (Expr Literal Unit) Unit :=
  .embed () [⟨(), .member .timestamp e⟩]

theorem wellFormed_stampStmt {e : Expr Literal Unit} (h : e.WellFormed) :
    (stampStmt e).WellFormed := by
  simp [stampStmt, Stmt.WellFormed, Stmt.nodes, Stmt.Fits, PartBody.Fits, Stmt.exprs,
    EmbedPart.exprs, PartBody.exprs, h]

theorem written_stampStmt {e : Expr Literal Unit} {row : List Token}
    (h : e.Written Level.whole row) :
    (stampStmt e).Written (.ident "embed" :: .symbol .dot :: .ident "timestamp" ::
      .symbol .assign :: (row ++ [.symbol .semicolon])) := by
  have hpart : EmbedPart.Written (P := Unit) ⟨(), .member .timestamp e⟩ _ := ⟨.member h⟩
  exact .embed () (.single hpart)

/-- The timestamp is set in the first embed. -/
def stamped (t : Calendar.Instant) : Document :=
  Document.blank.editEmbed fun embed => { embed with timestamp := some t }

theorem outcome_stampStmt {e : Expr Literal Unit} {row : List Token} {source : String}
    (hwell : e.WellFormed) (hrow : e.Written Level.whole row)
    (htokens : tokens source = .ident "embed" :: .symbol .dot :: .ident "timestamp" ::
      .symbol .assign :: (row ++ [.symbol .semicolon, .endOfInput]))
    {rounds : Nat} {constants : Table Value} {clock t : Calendar.Instant} {value : Value}
    (hvalue : value.asInstant = .ok (some t))
    (h : e.Computes (Eval.callWithin rounds) (.initial constants clock) value)
    (allowance : Nat) (name : String) (compiled : Calendar.Instant) :
    Template.outcome allowance rounds name source constants compiled clock = .ok (stamped t) := by
  refine Template.outcome_of_writes (written_stampStmt hrow) (wellFormed_stampStmt hwell) ?_
    (.member ?_ h) allowance name compiled
  · rw [htokens]
    simp
  · rw [Eval.memberEdit, hvalue]
    rfl

def nowCall : Expr Literal Unit := .call () "now" []

/-- The current time behind an empty text. -/
def nowText : Expr Literal Unit := .binary () .add (.literal () (.string "\"\"")) nowCall

theorem wellFormed_nowCall : nowCall.WellFormed := by
  have hname : IsName "now" := by
    rw [IsName]
    decide
  exact Expr.wellFormed_call.2 ⟨hname, by simp⟩

theorem wellFormed_nowText : nowText.WellFormed := by
  have hempty : Spelled (.string "\"\"") ['"', '"'] := .string (.inl rfl) .nil
  exact Expr.wellFormed_binary.2
    ⟨Expr.wellFormed_literal.2 hempty.isStable, wellFormed_nowCall⟩

theorem written_nowCall (limit : Nat) :
    nowCall.Written limit [.ident "now", .symbol .parenOpen, .symbol .parenClose] :=
  .call () "now" (fun _ _ h => h) .nil

theorem written_nowText :
    nowText.Written Level.whole [.string "\"\"", .symbol .plus, .ident "now", .symbol .parenOpen,
      .symbol .parenClose] :=
  .binary () .add (by decide) (.literal () _) (written_nowCall _)

/-- An instant is read back from its text if its year has four digits. So a timestamp is set to the
time of the rendering by that time and by its text. -/
theorem instant_survives_text {t : Calendar.Instant} (h : 0 ≤ t.date.year ∧ t.date.year ≤ 9999) :
    (Value.string (Value.instant t).text).asInstant = .ok (some t) ∧
    (Value.instant t).asInstant = .ok (some t) ∧
    ∀ (allowance rounds : Nat) (name : String) (constants : Table Value)
      (compiled : Calendar.Instant),
      Template.outcome allowance (rounds + 1) name "embed.timestamp = now();" constants compiled
        t = .ok (stamped t) ∧
      Template.outcome allowance (rounds + 1) name "embed.timestamp = \"\" + now();" constants
        compiled t = .ok (stamped t) := by
  have htext : (Value.string (Value.instant t).text).asInstant = .ok (some t) := by
    rw [Value.text, Value.asInstant, Calendar.Instant.ofText_text h]
  refine ⟨htext, rfl, fun allowance rounds name constants compiled => ⟨?_, ?_⟩⟩
  · exact outcome_stampStmt wellFormed_nowCall (written_nowCall _) (by decide +kernel) rfl
      (Expr.computes_now rounds constants t) allowance name compiled
  · have hempty : Expr.Computes (Eval.callWithin (rounds + 1)) (.initial constants t)
        (.literal () (.string "\"\"")) (.string "") := .literal rfl
    have hconcat := hempty.add (Expr.computes_now rounds constants t)
    rw [String.empty_append] at hconcat
    exact outcome_stampStmt wellFormed_nowText written_nowText (by decide +kernel) htext hconcat
      allowance name compiled

/-- A leap second behind the last day of February of a leap year. -/
def leapSecond : Calendar.Instant := ⟨.lastOf 0 2 (by decide), ⟨23, 59, 60, 7⟩⟩

theorem instant_survives_text_leapSecond :
    (0 ≤ leapSecond.date.year ∧ leapSecond.date.year ≤ 9999) ∧
      (Value.string "0000-02-29T23:59:60.000000007+00:00").asInstant = .ok (some leapSecond) ∧
      Template.outcome 0 1 "t" "embed.timestamp = \"\" + now();" .empty leapSecond leapSecond =
        .ok (stamped leapSecond) := by
  have hyear : 0 ≤ leapSecond.date.year ∧ leapSecond.date.year ≤ 9999 := by decide
  have hboth := instant_survives_text hyear
  have htext : (Value.instant leapSecond).text = "0000-02-29T23:59:60.000000007+00:00" := by
    decide +kernel
  rw [htext] at hboth
  exact ⟨hyear, hboth.1, (hboth.2.2 0 0 "t" .empty leapSecond).2⟩

end MessageTemplate
