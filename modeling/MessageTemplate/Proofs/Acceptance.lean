import MessageTemplate.Proofs.Compiling
import MessageTemplate.Proofs.Resolution.Literal

/-!
# Which templates compile

A template without constants is accepted or refused by what is written in it,
whether it would ever run or not: by its marked literals and by the names of its
functions. Numbers never make a difference.
-/

namespace MessageTemplate

namespace Template

variable {name source : String} {constants : Table Value} {clock : Calendar.Instant}
  {allowance : Nat}

theorem compile_stmts {body : List SourceStmt} (h : parse name source = .ok (body.map .stmt)) :
    compile allowance name source constants clock =
      (Resolve.firstOr ⟨name, body.map (Stmt.ready name), constants⟩
        (body.flatMap (Stmt.faults name))).mapError fun error => .failed (.compile error) := by
  have hrun := Compile.template_stmts allowance name body (.initial constants clock)
  cases hfaults : body.flatMap (Stmt.faults name) with
  | nil =>
    rw [hfaults] at hrun
    exact compile_of_template h hrun
  | cons error more =>
    rw [hfaults] at hrun
    exact compile_of_template_error h hrun

/-- A template without constants compiles if there is no fault in it, and is refused otherwise. -/
theorem compile_stmts_iff {body : List SourceStmt} (h : parse name source = .ok (body.map .stmt))
    (allowance : Nat) (constants : Table Value) (clock : Calendar.Instant) :
    ((∃ error, compile allowance name source constants clock = .error (.failed (.compile error))) ↔
      ¬ ∀ s ∈ body, s.faults name = []) ∧
    ((∃ template, compile allowance name source constants clock = .ok template) ↔
      ∀ s ∈ body, s.faults name = []) := by
  rw [compile_stmts h, ← List.flatMap_eq_nil_iff]
  cases body.flatMap (Stmt.faults name) <;> simp [Resolve.firstOr, Except.mapError]

end Template

/-! ## Numbers are never refused -/

/-- A statement is refused for a marked literal or for the name of a function. -/
theorem Stmt.cause_ne_invalidNumber {file : String} {s : SourceStmt} (h : s.WellFormed)
    {error : CompileError} (herror : error ∈ s.faults file) (raw : String) :
    error.cause ≠ .invalidNumber raw := by
  rcases mem_faults_iff.1 herror with ⟨e, he, herror⟩ | ⟨node, hnode, herror⟩
  · obtain ⟨place, written, -, -, rfl⟩ := (Expr.mem_faults_iff (h.expr he)).1 herror
    simp
  · obtain ⟨place, name, namePlace, parameters, body, -, -, rfl⟩ := fault?_eq_some_iff.1 herror
    simp

theorem Compile.FailsAt.cause_ne_invalidNumber {allowance : Nat} {file : String}
    {clock : Calendar.Instant} {seeds : Table Value} {i : SourceItem} {error : CompileError}
    (hfails : FailsAt allowance file clock seeds i (.failed error)) (h : i.WellFormed)
    (raw : String) : error.cause ≠ .invalidNumber raw := by
  generalize hstop : Stop.failed error = stop at hfails
  cases hfails with
  | @stmt s refused hs =>
    obtain rfl := Stop.failed.inj hstop
    exact Stmt.cause_ne_invalidNumber h ((Resolve.stmt_reports s).mem_of_error hs) raw
  | @literal place name e refused he =>
    obtain rfl := Stop.failed.inj hstop
    obtain ⟨place, written, -, -, rfl⟩ :=
      (Expr.mem_faults_iff h.2).1 ((Resolve.expr_reports e).mem_of_error he)
    simp
  | @initializer place name e term stop hterm hrun =>
    cases stop with
    | failed failure =>
      obtain rfl := Stop.failed.inj hstop
      simp [constantError]
    | exhausted => contradiction

theorem Template.compile_error_cause {name source : String} {constants : Table Value}
    {clock : Calendar.Instant} {allowance : Nat} {error : CompileError}
    (h : compile allowance name source constants clock = .error (.failed (.compile error)))
    (raw : String) : error.cause ≠ .invalidNumber raw := by
  cases hparse : parse name source with
  | error refused =>
    rw [compile_of_parse_error hparse] at h
    simp at h
  | ok items =>
    rcases Compile.evaluates_or_fails allowance name clock items constants with
      ⟨values, hvalues⟩ | ⟨front, i, back, values, stop, rfl, hfront, hfails⟩
    · rw [compile_of_template hparse hvalues.template_run] at h
      contradiction
    · rw [compile_of_template_error hparse (hfront.template_error hfails back)] at h
      cases stop with
      | exhausted => simp [Stop.map] at h
      | failed refused =>
        obtain rfl : refused = error := by simpa [Stop.map] using h
        exact hfails.cause_ne_invalidNumber (isFrom_of_parse hparse i (by simp)).wellFormed raw

/-- A template without constants is refused just if a marked literal anywhere in it is not an
integer of at most 31 bits in decimal digits, or if a function that it declares anywhere is called
`now`. No template is refused for a number: those that are read always have a value. The mark of a
marked literal that is read is its first or its second character. -/
theorem compile_refused_iff (allowance : Nat) (name source : String) (constants : Table Value)
    (clock : Calendar.Instant) :
    (∀ body : List SourceStmt, parse name source = .ok (body.map .stmt) →
      ((∃ error, Template.compile allowance name source constants clock =
          .error (.failed (.compile error))) ↔ ∃ s ∈ body, s.HasFault) ∧
      ((∃ template, Template.compile allowance name source constants clock = .ok template) ↔
        ¬ ∃ s ∈ body, s.HasFault)) ∧
    (∀ error, Template.compile allowance name source constants clock =
      .error (.failed (.compile error)) → ∀ raw, error.cause ≠ .invalidNumber raw) ∧
    ∀ lexeme ∈ lexemes source,
      (∀ raw, lexeme.token = .number raw → ∃ x, (Literal.number raw).value = .ok (.number x)) ∧
      ∀ raw, lexeme.token = .hex raw → ∃ i ≤ 1, raw.toList.findIdx? Literal.isMark = some i := by
  refine ⟨fun body hparse => ?_, fun error h => Template.compile_error_cause h,
    fun lexeme hlexeme => ⟨?_, ?_⟩⟩
  · have hwell := fun i hi => (isFrom_of_parse hparse i hi).wellFormed
    have hfaults : (∀ s ∈ body, s.faults name = []) ↔ ¬ ∃ s ∈ body, s.HasFault := by
      rw [forall₂_congr fun s hs =>
        Stmt.faults_eq_nil_iff_not_hasFault (hwell (.stmt s) (List.mem_map_of_mem hs))]
      simp
    have hcompiled := Template.compile_stmts_iff hparse allowance constants clock
    rw [hfaults, not_not] at hcompiled
    exact hcompiled
  · intro raw htoken
    have hstable := stableTokens_lexemes source lexeme hlexeme (by rw [htoken]; rfl)
    rw [htoken] at hstable
    exact hstable.number_value
  · intro raw htoken
    have hstable := stableTokens_lexemes source lexeme hlexeme (by rw [htoken]; rfl)
    rw [htoken] at hstable
    exact hstable.spelled.isMarked.findIdx?

/-- Items that are no constants are statements. -/
theorem Item.exists_stmts {items : SourceTemplate}
    (h : ∀ i ∈ items, i.constantName? = none) :
    ∃ body : List SourceStmt, items = body.map .stmt := by
  induction items with
  | nil => exact ⟨[], rfl⟩
  | cons i items ih =>
    obtain ⟨hfirst, hrest⟩ := List.forall_mem_cons.1 h
    obtain ⟨body, rfl⟩ := ih hrest
    cases i with
    | constant place name value => contradiction
    | stmt s => exact ⟨s :: body, rfl⟩

/-- A function that is never called, with a literal that is not an integer. -/
def letterBehindMark : String := "if (1.5 < 2) function f() \x7b g(#1A); \x7d"

theorem compile_refused_iff_letterBehindMark :
    ∃ (body : List SourceStmt) (error : CompileError),
      parse "t" letterBehindMark = .ok (body.map .stmt) ∧ (∃ s ∈ body, s.HasFault) ∧
      Template.compile 1 "t" letterBehindMark .empty .newMonth =
        .error (.failed (.compile error)) ∧
      (∀ raw, error.cause ≠ .invalidNumber raw) ∧
      (∃ x, (Literal.number "1.5").value = .ok (.number x)) ∧
      ∃ i ≤ 1, "#1A".toList.findIdx? Literal.isMark = some i := by
  obtain ⟨hcompile, hcause, hlexemes⟩ :=
    compile_refused_iff 1 "t" letterBehindMark .empty .newMonth
  have hstmts : ((parse "t" letterBehindMark).toOption.any fun items =>
      items.all fun i => i.constantName? = none) = true := by
    decide +kernel
  have hrefused :
      (Template.compile 1 "t" letterBehindMark .empty .newMonth).toOption.isNone = true := by
    decide +kernel
  have hnumber : (⟨.number "1.5", ⟨1, 4⟩⟩ : Lexeme) ∈ lexemes letterBehindMark := by
    decide +kernel
  have hmark : (⟨.hex "#1A", ⟨1, 30⟩⟩ : Lexeme) ∈ lexemes letterBehindMark := by
    decide +kernel
  cases hparse : parse "t" letterBehindMark with
  | error error =>
    rw [hparse] at hstmts
    contradiction
  | ok items =>
    rw [hparse] at hstmts
    obtain ⟨body, rfl⟩ := Item.exists_stmts (by simpa [Except.toOption] using hstmts)
    obtain ⟨herror, hok⟩ := hcompile body hparse
    have hfault : ∃ s ∈ body, s.HasFault := by
      by_contra hnone
      obtain ⟨template, htemplate⟩ := hok.2 hnone
      rw [htemplate] at hrefused
      contradiction
    obtain ⟨error, hfails⟩ := herror.2 hfault
    exact ⟨body, error, rfl, hfault, hfails, hcause error hfails, (hlexemes _ hnumber).1 _ rfl,
      (hlexemes _ hmark).2 _ rfl⟩

end MessageTemplate
