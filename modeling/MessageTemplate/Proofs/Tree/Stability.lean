import MessageTemplate.Proofs.Tree.Printing

/-!
# The tokens of printed trees

A well-formed tree is printed with stable tokens only. So its tokens are read
back from its text.
-/

namespace MessageTemplate

variable {P : Type}

def StableRow (row : List Token) : Prop := ∀ token ∈ row, token.IsStable

@[simp] theorem stableRow_nil : StableRow [] := by
  simp [StableRow]

@[simp] theorem stableRow_cons {token : Token} {row : List Token} :
    StableRow (token :: row) ↔ token.IsStable ∧ StableRow row :=
  List.forall_mem_cons

@[simp] theorem stableRow_append {first second : List Token} :
    StableRow (first ++ second) ↔ StableRow first ∧ StableRow second :=
  List.forall_mem_append

attribute [simp] stable_symbol

theorem stableRow_flatMap {α : Type} {values : List α} {row : α → List Token}
    (h : ∀ value ∈ values, StableRow (row value)) : StableRow (values.flatMap row) :=
  List.forall_mem_flatMap.2 h

theorem stableRow_commaRow {rows : List (List Token)} (h : ∀ row ∈ rows, StableRow row) :
    StableRow (commaRow rows) := by
  induction rows with
  | nil => simp [commaRow]
  | cons first rows ih =>
    rw [List.forall_mem_cons] at h
    have hrows := ih h.2
    cases rows with
    | nil => simpa [commaRow] using h.1
    | cons second rows =>
      rw [commaRow, List.intercalate_cons_cons]
      simpa [commaRow] using ⟨h.1, hrows⟩

@[simp] theorem Keyword.stable_token (keyword : Keyword) : keyword.token.IsStable :=
  stable_ident (by cases keyword <;> decide)

theorem IsName.stable {word : String} (h : IsName word) : (Token.ident word).IsStable :=
  stable_ident h.1

/-! ## Expressions -/

theorem Expr.stableRow_grouped (limit level : Nat) {row : List Token} (h : StableRow row) :
    StableRow (grouped limit level row) := by
  unfold grouped
  split
  · exact h
  · simpa using h

theorem Expr.stable_spelling (e : Expr Literal P) (h : e.WellFormed) : StableRow e.spelling := by
  induction e using Expr.induct with
  | step e ih =>
    obtain ⟨hfits, hchildren⟩ := wellFormed_iff.1 h
    have hinside := fun child hchild => ih child hchild (hchildren child hchild)
    have hrows : ∀ row ∈ e.children.map spelling, StableRow row := List.forall_mem_map.2 hinside
    cases e with
    | literal place value => simpa [spelling, Fits] using hfits
    | var place name => simpa [spelling] using hfits.stable
    | list place items =>
      have hrow : StableRow (commaRow (items.map spelling)) := stableRow_commaRow hrows
      simpa [spelling, spellings_eq] using hrow
    | call place name arguments =>
      have hrow : StableRow (commaRow (arguments.map spelling)) := stableRow_commaRow hrows
      simpa [spelling, spellings_eq] using ⟨hfits.stable, hrow⟩
    | unary place op operand =>
      have hoperand := stableRow_grouped Level.signed operand.level
        (hinside operand (by simp [children]))
      simpa [spelling] using hoperand
    | binary place op left right =>
      have hleft := stableRow_grouped op.leftLevel left.level
        (hinside left (by simp [children]))
      have hright := stableRow_grouped op.rightLevel right.level
        (hinside right (by simp [children]))
      simpa [spelling] using ⟨hleft, hright⟩

/-! ## Parts of an embed -/

theorem stableRow_objectRow {rows : List (List Token)} (h : ∀ row ∈ rows, StableRow row) :
    StableRow (objectRow rows) := by
  simpa [objectRow] using stableRow_commaRow h

theorem stableRow_exprs {exprs : List (Expr Literal P)} (h : ∀ e ∈ exprs, e.WellFormed) :
    StableRow (commaRow (exprs.map Expr.spelling)) :=
  stableRow_commaRow (List.forall_mem_map.2 fun e he => e.stable_spelling (h e he))

theorem Section.stable_spelling {F K : Type} {word : K → String} {flow : F → List Token}
    {flowExprs : F → List (Expr Literal P)} (mode : WriteMode) (body : Section F K (Expr Literal P))
    (hword : ∀ key, (Token.ident (word key)).IsStable)
    (hflow : ∀ values, (∀ e ∈ flowExprs values, e.WellFormed) → StableRow (flow values))
    (h : ∀ e ∈ body.exprs flowExprs, e.WellFormed) : StableRow (body.spelling word flow mode) := by
  cases body with
  | flow values => simpa [spelling] using hflow values h
  | object entries =>
    have hrows : StableRow (objectRow
        (entries.map fun entry => entryRow (word entry.1) entry.2.spelling)) := by
      refine stableRow_objectRow (List.forall_mem_map.2 fun entry hentry => ?_)
      have hvalue := entry.2.stable_spelling (h _ (List.mem_map_of_mem hentry))
      simpa [entryRow] using ⟨hword entry.1, hvalue⟩
    simpa [spelling] using hrows
  | property key value =>
    have hvalue := value.stable_spelling (h value (by simp [exprs]))
    simpa [spelling] using ⟨hword key, hvalue⟩

theorem FieldSetting.stable_word (setting : FieldSetting (Expr Literal P)) :
    (Token.ident setting.word).IsStable := by
  cases setting <;> rw [word] <;> exact stable_ident (by decide)

theorem FieldSetting.stable_spelling (setting : FieldSetting (Expr Literal P))
    (h : ∀ e ∈ setting.exprs, e.WellFormed) : StableRow setting.spelling := by
  cases setting with
  | title value => exact value.stable_spelling (h value (by simp [exprs]))
  | text value => exact value.stable_spelling (h value (by simp [exprs]))
  | inline value =>
    rw [spelling, stableRow_cons]
    refine ⟨?_, stableRow_nil⟩
    cases value
    · exact Keyword.stable_token .falsity
    · exact Keyword.stable_token .truth

theorem FieldSpec.stable_spelling (spec : FieldSpec (Expr Literal P) P)
    (h : ∀ e ∈ spec.exprs, e.WellFormed) : StableRow spec.spelling := by
  cases spec with
  | flow place title text inline =>
    have htitle := title.stable_spelling (h title (by simp [exprs]))
    have htext := text.stable_spelling (h text (by simp [exprs]))
    have hinline : StableRow (inlineRow inline) := by cases inline <;> simp [inlineRow]
    simpa [spelling] using ⟨htitle, htext, hinline⟩
  | object place settings =>
    rw [exprs, List.forall_mem_flatMap] at h
    refine stableRow_objectRow (List.forall_mem_map.2 fun setting hsetting => ?_)
    have hvalue := setting.stable_spelling (h setting hsetting)
    simpa [entryRow] using ⟨setting.stable_word, hvalue⟩

theorem FieldsBody.stable_spelling (mode : WriteMode) (body : FieldsBody (Expr Literal P) P)
    (h : ∀ e ∈ body.exprs, e.WellFormed) : StableRow (body.spelling mode) := by
  cases body with
  | part field => simpa [spelling] using field.stable_spelling h
  | list fields =>
    rw [exprs, List.forall_mem_flatMap] at h
    have hrow : StableRow (commaRow (fields.map FieldSpec.spelling)) :=
      stableRow_commaRow (List.forall_mem_map.2 fun field hfield =>
        field.stable_spelling (h field hfield))
    simpa [spelling] using hrow
  | property setting => simpa [spelling] using ⟨setting.stable_word, setting.stable_spelling h⟩

theorem EmbedPart.stable_spelling (part : EmbedPart (Expr Literal P) P)
    (h : ∀ e ∈ part.exprs, e.WellFormed) : StableRow part.spelling := by
  have hauthor : (Token.ident "author").IsStable := stable_ident (by decide)
  have hfooter : (Token.ident "footer").IsStable := stable_ident (by decide)
  have hfields : (Token.ident "fields").IsStable := stable_ident (by decide)
  have hbody : StableRow part.body.spelling := by
    rw [exprs] at h
    cases hpart : part.body with
    | member key value =>
      have hkey : (Token.ident key.name).IsStable := stable_ident (by cases key <;> decide)
      have hvalue := value.stable_spelling (h value (by simp [hpart, PartBody.exprs]))
      simpa [PartBody.spelling] using ⟨hkey, hvalue⟩
    | author mode body =>
      rw [hpart] at h
      have hkeys : ∀ key : AuthorKey, (Token.ident key.word).IsStable :=
        fun key => stable_ident (by cases key <;> decide)
      have hbody := body.stable_spelling mode hkeys (fun _ => stableRow_exprs) h
      simpa [PartBody.spelling] using ⟨hauthor, hbody⟩
    | footer mode body =>
      rw [hpart] at h
      have hkeys : ∀ key : FooterKey, (Token.ident key.word).IsStable :=
        fun key => stable_ident (by cases key <;> decide)
      have hbody := body.stable_spelling mode hkeys (fun _ => stableRow_exprs) h
      simpa [PartBody.spelling] using ⟨hfooter, hbody⟩
    | fields mode body =>
      rw [hpart] at h
      simpa [PartBody.spelling] using ⟨hfields, body.stable_spelling mode h⟩
  simpa [spelling] using hbody

/-! ## Statements -/

namespace Stmt

theorem stable_conditionRow {test : Expr Literal P} (h : test.WellFormed) :
    StableRow (conditionRow test) := by
  simpa [conditionRow] using test.stable_spelling h

theorem stable_clause (s : Stmt (Expr Literal P) P) (h : s.WellFormed) : StableRow s.clause := by
  obtain ⟨⟨hfits, hexprs⟩, -⟩ := wellFormed_iff.1 h
  cases s with
  | assign place name value =>
    have hvalue := value.stable_spelling (hexprs value (by simp [exprs]))
    simpa [clause] using ⟨IsName.stable hfits, hvalue⟩
  | expr place value => exact value.stable_spelling (hexprs value (by simp [exprs]))
  | _ => exact stableRow_nil

theorem stable_clause? (s : Option (Stmt (Expr Literal P) P)) (h : ∀ c ∈ s.toList, c.WellFormed) :
    StableRow (clause? s) := by
  cases s with
  | none => exact stableRow_nil
  | some s => exact s.stable_clause (h s (by simp))

theorem stable_spelling (s : Stmt (Expr Literal P) P) (h : s.WellFormed) :
    StableRow s.spelling := by
  induction s using Stmt.induct with
  | step s ih =>
    obtain ⟨⟨hfits, hexprs⟩, hchildren⟩ := wellFormed_iff.1 h
    have hinside := fun child hchild => ih child hchild (hchildren child hchild)
    have hrows := fun e he => Expr.stable_spelling e (hexprs e he)
    cases s with
    | empty place => simp [spelling]
    | block place body =>
      have hbody : StableRow (body.flatMap spelling) := stableRow_flatMap hinside
      simpa [spelling, spellingOfAll_eq] using hbody
    | assign place name value =>
      simpa [spelling] using ⟨IsName.stable hfits, hrows value (by simp [exprs])⟩
    | function place name namePlace parameters body =>
      have hparameters : StableRow
        (commaRow (parameters.map fun parameter => [.ident parameter])) :=
        stableRow_commaRow (List.forall_mem_map.2 fun parameter hparameter => by
          simpa using (hfits.2.1 parameter hparameter).stable)
      simpa [spelling] using ⟨hfits.1.stable, hparameters, hinside body (by simp [children])⟩
    | branch place test yes no =>
      have htest := stable_conditionRow (hexprs test (by simp [exprs]))
      have hyes := hinside yes (by simp [children])
      have hno : StableRow (otherwise no) := by
        cases no with
        | none => simp [otherwise]
        | some no => simpa [otherwise] using hinside no (by simp [children])
      simpa [spelling] using ⟨htest, hyes, hno⟩
    | forLoop place init check step body =>
      have hinit := stable_clause? init fun c hc => hchildren c (by simp [children, hc])
      have hstep := stable_clause? step fun c hc => hchildren c (by simp [children, hc])
      have hcheck : StableRow (check.elim [] Expr.spelling) := by
        cases check with
        | none => exact stableRow_nil
        | some check => exact hrows check (by simp [exprs])
      have hbody := hinside body (by simp [children])
      simpa [spelling] using ⟨hinit, hcheck, hstep, hbody⟩
    | foreach place name iterable body =>
      have hbody := hinside body (by simp [children])
      simpa [spelling] using ⟨IsName.stable hfits, hrows iterable (by simp [exprs]), hbody⟩
    | whileLoop place test body =>
      have htest := stable_conditionRow (hexprs test (by simp [exprs]))
      simpa [spelling] using ⟨htest, hinside body (by simp [children])⟩
    | doWhile place body test =>
      have htest := stable_conditionRow (hexprs test (by simp [exprs]))
      simpa [spelling] using ⟨hinside body (by simp [children]), htest⟩
    | embed place parts =>
      have hparts : StableRow (parts.flatMap EmbedPart.spelling) :=
        stableRow_flatMap fun part hpart =>
          part.stable_spelling fun e he => hexprs e (List.mem_flatMap.2 ⟨part, hpart, he⟩)
      simpa [spelling] using hparts
    | expr place value | result place value | text place value | attachment place value =>
      simpa [spelling] using hrows value (by simp [exprs])

end Stmt

theorem stable_template {items : List (Item (Expr Literal P) P)} (h : WellFormedTemplate items) :
    StableRow (items.flatMap Item.spelling) := by
  apply stableRow_flatMap
  intro item hitem
  have hwell := h item hitem
  cases item with
  | constant place name value =>
    simpa [Item.spelling] using ⟨hwell.1.stable, value.stable_spelling hwell.2⟩
  | stmt s => exact s.stable_spelling hwell

/-- The tokens of a printed template are those it is printed with. -/
theorem tokens_printTemplate {items : List (Item (Expr Literal P) P)}
    (h : WellFormedTemplate items) :
    tokens (printTemplate items) = items.flatMap Item.spelling ++ [.endOfInput] :=
  tokens_spell (stable_template h)

end MessageTemplate
