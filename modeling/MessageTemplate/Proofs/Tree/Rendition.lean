import MessageTemplate.Proofs.Tree.Printing
import Mathlib.Data.List.Forall2

/-!
# The ways to write a tree

A tree can be written with more or fewer tokens than its printed row has. There
are five liberties: parentheses around any expression, also more than one pair;
a field in order without the parentheses of its tuple; a comma behind the last
entry of an object; `field` for `fields`; and a dot in front of the only part of
an embed where the printed row has braces. The relations `Written` say what may
be written so, node by node; everything else is as it is printed.
-/

namespace MessageTemplate

variable {P : Type}

@[simp] theorem commaRow_singleton (row : List Token) : commaRow [row] = row := by
  rw [commaRow, List.intercalate_singleton]

theorem commaRow_cons_cons (first second : List Token) (rows : List (List Token)) :
    commaRow (first :: second :: rows) = first ++ .symbol .comma :: commaRow (second :: rows) := by
  rw [commaRow, List.intercalate_cons_cons, List.append_assoc, List.singleton_append, commaRow]

theorem commaRow_cons (row : List Token) (rows : List (List Token)) :
    commaRow (row :: rows) = row ++ rows.flatMap fun row => .symbol .comma :: row := by
  induction rows generalizing row with
  | nil => simp
  | cons second rows ih => rw [commaRow_cons_cons, ih, List.flatMap_cons, List.cons_append]

/-! ## Expressions -/

namespace Expr

/-- The rows of an expression where at most the level `limit` can stand without parentheses. The
items of lists are described by any relation that implies being written, so that an induction has
its hypothesis for them too. -/
inductive Written : Nat → Expr Literal P → List Token → Prop
  | literal {limit : Nat} (place : P) (value : Literal) :
      Written limit (.literal place value) [value.token]
  | var {limit : Nat} (place : P) (name : String) : Written limit (.var place name) [.ident name]
  | list {limit : Nat} (place : P) {items : List (Expr Literal P)} {rows : List (List Token)}
      {item : Expr Literal P → List Token → Prop}
      (hitem : ∀ e row, item e row → Written Level.whole e row)
      (hitems : List.Forall₂ item items rows) :
      Written limit (.list place items)
        (.symbol .bracketOpen :: (commaRow rows ++ [.symbol .bracketClose]))
  | call {limit : Nat} (place : P) (name : String) {arguments : List (Expr Literal P)}
      {rows : List (List Token)} {item : Expr Literal P → List Token → Prop}
      (hitem : ∀ e row, item e row → Written Level.whole e row)
      (hitems : List.Forall₂ item arguments rows) :
      Written limit (.call place name arguments)
        (.ident name :: .symbol .parenOpen :: (commaRow rows ++ [.symbol .parenClose]))
  | unary {limit : Nat} (place : P) (op : UnaryOp) {operand : Expr Literal P} {row : List Token}
      (hlevel : Level.signed ≤ limit) (h : Written Level.signed operand row) :
      Written limit (.unary place op operand) (.symbol op.symbol :: row)
  | binary {limit : Nat} (place : P) (op : BinaryOp) {left right : Expr Literal P}
      {first second : List Token} (hlevel : op.level ≤ limit)
      (hleft : Written op.leftLevel left first) (hright : Written op.rightLevel right second) :
      Written limit (.binary place op left right) (first ++ .symbol op.symbol :: second)
  | paren {limit : Nat} {e : Expr Literal P} {row : List Token} (h : Written Level.whole e row) :
      Written limit e (.symbol .parenOpen :: (row ++ [.symbol .parenClose]))

theorem Written.mono {limit other : Nat} {e : Expr Literal P} {row : List Token}
    (h : e.Written limit row) (hle : limit ≤ other) : e.Written other row := by
  cases h with
  | literal place value => exact .literal place value
  | var place name => exact .var place name
  | list place hitem hitems => exact .list place hitem hitems
  | call place name hitem hitems => exact .call place name hitem hitems
  | unary place op hlevel h => exact .unary place op (hlevel.trans hle) h
  | binary place op hlevel hleft hright => exact .binary place op (hlevel.trans hle) hleft hright
  | paren h => exact .paren h

theorem level_le_whole (e : Expr Literal P) : e.level ≤ Level.whole := by
  cases e with
  | binary place op left right => exact op.level_le_whole
  | _ => exact of_decide_eq_true rfl

theorem Written.grouped {level : Nat} {e : Expr Literal P} {row : List Token}
    (h : e.Written level row) (hlevel : level ≤ Level.whole) (limit : Nat) :
    e.Written limit (grouped limit level row) := by
  unfold Expr.grouped
  split
  · exact h.mono ‹_›
  · exact .paren (h.mono hlevel)

/-- The printed row of an expression. -/
theorem written_spelling (e : Expr Literal P) : e.Written e.level e.spelling := by
  induction e using Expr.induct with
  | step e ih =>
    have hwhole : ∀ items : List (Expr Literal P), (∀ item ∈ items, item ∈ e.children) →
        List.Forall₂ (Written Level.whole) items (items.map spelling) := by
      intro items hitems
      rw [List.forall₂_map_right_iff, List.forall₂_same]
      exact fun item hitem => (ih item (hitems item hitem)).mono item.level_le_whole
    cases e with
    | literal place value => exact .literal place value
    | var place name => exact .var place name
    | list place items =>
      rw [spelling, spellings_eq]
      exact .list place (fun _ _ h => h) (hwhole items fun _ h => h)
    | call place name arguments =>
      rw [spelling, spellings_eq]
      exact .call place name (fun _ _ h => h) (hwhole arguments fun _ h => h)
    | unary place op operand =>
      have hoperand := ih operand (by simp [children])
      exact .unary place op le_rfl (hoperand.grouped operand.level_le_whole _)
    | binary place op left right =>
      have hleft := ih left (by simp [children])
      have hright := ih right (by simp [children])
      exact .binary place op le_rfl (hleft.grouped left.level_le_whole _)
        (hright.grouped right.level_le_whole _)

theorem written_whole (e : Expr Literal P) : e.Written Level.whole e.spelling :=
  e.written_spelling.mono e.level_le_whole

theorem written_all (items : List (Expr Literal P)) :
    List.Forall₂ (Written Level.whole) items (items.map spelling) := by
  rw [List.forall₂_map_right_iff, List.forall₂_same]
  exact fun item _ => item.written_whole

end Expr

/-! ## Parts of an embed -/

section

variable {α : Type}

/-- An object, with a comma behind its last entry or without. -/
inductive ObjectWritten (entry : α → List Token → Prop) : List α → List Token → Prop
  | plain {values : List α} {rows : List (List Token)} (h : List.Forall₂ entry values rows) :
      ObjectWritten entry values (objectRow rows)
  | trailing {values : List α} {rows : List (List Token)} (hne : values ≠ [])
      (h : List.Forall₂ entry values rows) :
      ObjectWritten entry values
        (.symbol .braceOpen :: (commaRow rows ++ [.symbol .comma, .symbol .braceClose]))

/-- An entry of an object. -/
inductive EntryWritten (word : α → String) (value : α → List Token → Prop) :
    α → List Token → Prop
  | mk {a : α} {row : List Token} (h : value a row) :
    EntryWritten word value a (entryRow (word a) row)

theorem objectWritten_entries {word : α → String} {value : α → List Token → Prop}
    {spelling : α → List Token} (h : ∀ a, value a (spelling a)) (values : List α) :
    ObjectWritten (EntryWritten word value) values
      (objectRow (values.map fun a => entryRow (word a) (spelling a))) := by
  refine .plain ?_
  rw [List.forall₂_map_right_iff, List.forall₂_same]
  exact fun a _ => .mk (h a)

end

inductive Section.Written {F K : Type} (word : K → String) (flow : F → List Token → Prop)
    (mode : WriteMode) : Section F K (Expr Literal P) → List Token → Prop
  | flow {values : F} {row : List Token} (h : flow values row) :
      Written word flow mode (.flow values) (.symbol mode.symbol :: row)
  | object {entries : List (K × Expr Literal P)} {row : List Token}
      (h : ObjectWritten (EntryWritten (fun entry => word entry.1)
        fun entry => entry.2.Written Level.whole) entries row) :
      Written word flow mode (.object entries) (.symbol mode.symbol :: row)
  | property {key : K} {value : Expr Literal P} {row : List Token}
      (h : value.Written Level.whole row) :
      Written word flow mode (.property key value)
        (.symbol .dot :: .ident (word key) :: .symbol mode.symbol :: row)

theorem Section.written_spelling {F K : Type} (word : K → String) {flow : F → List Token → Prop}
    {spelling : F → List Token} (h : ∀ values, flow values (spelling values)) (mode : WriteMode)
    (body : Section F K (Expr Literal P)) :
    body.Written word flow mode (body.spelling word spelling mode) := by
  cases body with
  | flow values => exact .flow (h values)
  | object entries =>
    exact .object (objectWritten_entries (fun entry => entry.2.written_whole) entries)
  | property key value => exact .property value.written_whole

/-- Values in order. -/
inductive FlowWritten : List (Expr Literal P) → List Token → Prop
  | mk {values : List (Expr Literal P)} {rows : List (List Token)}
      (h : List.Forall₂ (Expr.Written Level.whole) values rows) : FlowWritten values (commaRow rows)

theorem flowWritten_spelling (values : List (Expr Literal P)) :
    FlowWritten values (commaRow (values.map Expr.spelling)) := ⟨Expr.written_all values⟩

inductive FieldSetting.Written : FieldSetting (Expr Literal P) → List Token → Prop
  | title {value : Expr Literal P} {row : List Token} (h : value.Written Level.whole row) :
      Written (.title value) row
  | text {value : Expr Literal P} {row : List Token} (h : value.Written Level.whole row) :
      Written (.text value) row
  | inline (value : Bool) : Written (.inline value) [(Literal.bool value).token]

theorem FieldSetting.written_spelling (setting : FieldSetting (Expr Literal P)) :
    setting.Written setting.spelling := by
  cases setting with
  | title value => exact .title value.written_whole
  | text value => exact .text value.written_whole
  | inline value => exact .inline value

/-- A title, a text and perhaps a mark. -/
inductive FieldFlowWritten (title text : Expr Literal P) (inline : Bool) : List Token → Prop
  | mk {first second : List Token} (htitle : title.Written Level.whole first)
      (htext : text.Written Level.whole second) :
      FieldFlowWritten title text inline
        (first ++ .symbol .comma :: (second ++ inlineRow inline))

/-- A field in order needs no parentheses. -/
inductive FieldSpec.Written : FieldSpec (Expr Literal P) P → List Token → Prop
  | tuple {place : P} {title text : Expr Literal P} {inline : Bool} {row : List Token}
      (h : FieldFlowWritten title text inline row) :
      Written (.flow place title text inline)
        (.symbol .parenOpen :: (row ++ [.symbol .parenClose]))
  | flow {place : P} {title text : Expr Literal P} {inline : Bool} {row : List Token}
      (h : FieldFlowWritten title text inline row) : Written (.flow place title text inline) row
  | object {place : P} {settings : List (FieldSetting (Expr Literal P))} {row : List Token}
      (h : ObjectWritten (EntryWritten FieldSetting.word FieldSetting.Written) settings row) :
      Written (.object place settings) row

theorem FieldSpec.written_spelling (spec : FieldSpec (Expr Literal P) P) :
    spec.Written spec.spelling := by
  cases spec with
  | flow place title text inline =>
    have hflow : FieldFlowWritten title text inline _ := ⟨title.written_whole, text.written_whole⟩
    have htuple : (FieldSpec.flow place title text inline).Written _ := .tuple hflow
    simpa [spelling] using htuple
  | object place settings =>
    exact .object (objectWritten_entries FieldSetting.written_spelling settings)

theorem FieldSpec.Written.ne_nil {spec : FieldSpec (Expr Literal P) P} {row : List Token}
    (h : spec.Written row) : row ≠ [] := by
  cases h with
  | tuple => simp
  | flow h =>
    obtain ⟨-, -⟩ := h
    simp
  | object h => cases h <;> simp [objectRow]

/-- Where a bracket would open a list of fields, a single field cannot start with one. -/
inductive FieldsBody.Written (mode : WriteMode) :
    FieldsBody (Expr Literal P) P → List Token → Prop
  | part {field : FieldSpec (Expr Literal P) P} {row : List Token} (h : field.Written row)
      (hhead : row.head? ≠ some (.symbol .bracketOpen)) :
      Written mode (.part field) (.symbol mode.symbol :: row)
  | list {fields : List (FieldSpec (Expr Literal P) P)} {rows : List (List Token)}
      (h : List.Forall₂ FieldSpec.Written fields rows) :
      Written mode (.list fields)
        (.symbol mode.symbol :: .symbol .bracketOpen ::
          (commaRow rows ++ [.symbol .bracketClose]))
  | property {setting : FieldSetting (Expr Literal P)} {row : List Token}
      (h : setting.Written row) :
      Written mode (.property setting)
        (.symbol .dot :: .ident setting.word :: .symbol mode.symbol :: row)

theorem FieldsBody.written_spelling (mode : WriteMode) (body : FieldsBody (Expr Literal P) P) :
    body.Written mode (body.spelling mode) := by
  cases body with
  | part field =>
    refine .part field.written_spelling ?_
    cases field <;> simp [FieldSpec.spelling, objectRow]
  | list fields =>
    refine .list ?_
    rw [List.forall₂_map_right_iff, List.forall₂_same]
    exact fun field _ => field.written_spelling
  | property setting => exact .property setting.written_spelling

inductive PartBody.Written : PartBody (Expr Literal P) P → List Token → Prop
  | member {key : EmbedMember} {value : Expr Literal P} {row : List Token}
      (h : value.Written Level.whole row) :
      Written (.member key value) (.ident key.name :: .symbol .assign :: row)
  | author {mode : WriteMode}
      {body : Section (AuthorFlow (Expr Literal P)) AuthorKey (Expr Literal P)} {row : List Token}
      (h : body.Written AuthorKey.word (fun values => FlowWritten values.exprs) mode row) :
      Written (.author mode body) (.ident "author" :: row)
  | footer {mode : WriteMode}
      {body : Section (FooterFlow (Expr Literal P)) FooterKey (Expr Literal P)} {row : List Token}
      (h : body.Written FooterKey.word (fun values => FlowWritten values.exprs) mode row) :
      Written (.footer mode body) (.ident "footer" :: row)
  | fields {mode : WriteMode} {body : FieldsBody (Expr Literal P) P} {word : String}
      {row : List Token} (hword : word = "field" ∨ word = "fields") (h : body.Written mode row) :
      Written (.fields mode body) (.ident word :: row)

theorem PartBody.written_spelling (body : PartBody (Expr Literal P) P) :
    body.Written body.spelling := by
  cases body with
  | member key value => exact .member value.written_whole
  | author mode body =>
    exact .author (body.written_spelling _ (fun values => flowWritten_spelling values.exprs) mode)
  | footer mode body =>
    exact .footer (body.written_spelling _ (fun values => flowWritten_spelling values.exprs) mode)
  | fields mode body => exact .fields (.inr rfl) (body.written_spelling mode)

inductive EmbedPart.Written : EmbedPart (Expr Literal P) P → List Token → Prop
  | mk {part : EmbedPart (Expr Literal P) P} {row : List Token} (h : part.body.Written row) :
      Written part (row ++ [.symbol .semicolon])

theorem EmbedPart.written_spelling (part : EmbedPart (Expr Literal P) P) :
    part.Written part.spelling :=
  ⟨part.body.written_spelling⟩

/-! ## Statements -/

/-- What may be left out. -/
inductive OptionalWritten {α : Type} (value : α → List Token → Prop) : Option α → List Token → Prop
  | none : OptionalWritten value none []
  | some {a : α} {row : List Token} (h : value a row) : OptionalWritten value (some a) row

/-- The parts of an embed between braces, or a single one behind a dot. -/
inductive PartsWritten : List (EmbedPart (Expr Literal P) P) → List Token → Prop
  | braces {parts : List (EmbedPart (Expr Literal P) P)} {rows : List (List Token)}
      (h : List.Forall₂ EmbedPart.Written parts rows) :
      PartsWritten parts (.symbol .braceOpen :: (rows.flatten ++ [.symbol .braceClose]))
  | single {part : EmbedPart (Expr Literal P) P} {row : List Token} (h : part.Written row) :
      PartsWritten [part] (.symbol .dot :: row)

/-- A condition in parentheses. -/
inductive ConditionWritten : Expr Literal P → List Token → Prop
  | mk {test : Expr Literal P} {row : List Token} (h : test.Written Level.whole row) :
      ConditionWritten test (.symbol .parenOpen :: (row ++ [.symbol .parenClose]))

/-- An expression and a semicolon. -/
inductive ClosedWritten : Expr Literal P → List Token → Prop
  | mk {value : Expr Literal P} {row : List Token} (h : value.Written Level.whole row) :
      ClosedWritten value (row ++ [.symbol .semicolon])

namespace Stmt

/-- A clause of a loop, without a semicolon. -/
inductive ClauseWritten : Stmt (Expr Literal P) P → List Token → Prop
  | assign {place : P} {name : String} {value : Expr Literal P} {row : List Token}
      (h : value.Written Level.whole row) :
      ClauseWritten (.assign place name value) (.ident name :: .symbol .assign :: row)
  | expr {place : P} {value : Expr Literal P} {row : List Token}
      (h : value.Written Level.whole row) : ClauseWritten (.expr place value) row

/-- The rows of a statement. As for expressions, the statements of a block are described by any
relation that implies being written. -/
inductive Written : Stmt (Expr Literal P) P → List Token → Prop
  | empty (place : P) : Written (.empty place) [.symbol .semicolon]
  | clause {s : Stmt (Expr Literal P) P} {row : List Token} (h : s.ClauseWritten row) :
      Written s (row ++ [.symbol .semicolon])
  | block (place : P) {body : List (Stmt (Expr Literal P) P)} {rows : List (List Token)}
      {item : Stmt (Expr Literal P) P → List Token → Prop}
      (hitem : ∀ s row, item s row → Written s row) (hbody : List.Forall₂ item body rows) :
      Written (.block place body) (.symbol .braceOpen :: (rows.flatten ++ [.symbol .braceClose]))
  | function (place : P) (name : String) (namePlace : P) (parameters : List String)
      {body : Stmt (Expr Literal P) P} {row : List Token} (hbody : Written body row) :
      Written (.function place name namePlace parameters body)
        (Keyword.function.token :: .ident name :: .symbol .parenOpen ::
          (commaRow (parameters.map fun parameter => [.ident parameter]) ++
            .symbol .parenClose :: row))
  | result (place : P) {value : Expr Literal P} {row : List Token} (h : ClosedWritten value row) :
      Written (.result place value) (Keyword.result.token :: row)
  | branch (place : P) {test : Expr Literal P} {yes : Stmt (Expr Literal P) P}
      {first second : List Token} (htest : ConditionWritten test first)
      (hyes : Written yes second) :
      Written (.branch place test yes none) (Keyword.branch.token :: (first ++ second))
  | branchElse (place : P) {test : Expr Literal P} {yes no : Stmt (Expr Literal P) P}
      {first second third : List Token} (htest : ConditionWritten test first)
      (hyes : Written yes second) (hno : Written no third) :
      Written (.branch place test yes (some no))
        (Keyword.branch.token :: (first ++ (second ++ Keyword.otherwise.token :: third)))
  | forLoop (place : P) {init : Option (Stmt (Expr Literal P) P)} {check : Option (Expr Literal P)}
      {step : Option (Stmt (Expr Literal P) P)} {body : Stmt (Expr Literal P) P}
      {first second third row : List Token} (hinit : OptionalWritten ClauseWritten init first)
      (hcheck : OptionalWritten (Expr.Written Level.whole) check second)
      (hstep : OptionalWritten ClauseWritten step third) (hbody : Written body row) :
      Written (.forLoop place init check step body)
        (Keyword.forLoop.token :: .symbol .parenOpen :: (first ++ .symbol .semicolon ::
          (second ++ .symbol .semicolon :: (third ++ .symbol .parenClose :: row))))
  | foreach (place : P) (name : String) {iterable : Expr Literal P} {body : Stmt (Expr Literal P) P}
      {first row : List Token} (hiterable : iterable.Written Level.whole first)
      (hbody : Written body row) :
      Written (.foreach place name iterable body)
        (Keyword.foreach.token :: .symbol .parenOpen :: .ident name :: Keyword.among.token ::
          (first ++ .symbol .parenClose :: row))
  | whileLoop (place : P) {test : Expr Literal P} {body : Stmt (Expr Literal P) P}
      {first row : List Token} (htest : ConditionWritten test first) (hbody : Written body row) :
      Written (.whileLoop place test body) (Keyword.whileLoop.token :: (first ++ row))
  | doWhile (place : P) {body : Stmt (Expr Literal P) P} {test : Expr Literal P}
      {row second : List Token} (hbody : Written body row) (htest : ConditionWritten test second) :
      Written (.doWhile place body test)
        (Keyword.doLoop.token :: (row ++
          Keyword.whileLoop.token :: (second ++ [.symbol .semicolon])))
  | text (place : P) {value : Expr Literal P} {row : List Token} (h : ClosedWritten value row) :
      Written (.text place value) (Keyword.text.token :: row)
  | attachment (place : P) {value : Expr Literal P} {row : List Token}
      (h : ClosedWritten value row) :
      Written (.attachment place value) (Keyword.attachment.token :: row)
  | embed (place : P) {parts : List (EmbedPart (Expr Literal P) P)} {row : List Token}
      (h : PartsWritten parts row) :
      Written (.embed place parts) (Keyword.embed.token :: row)

theorem clauseWritten_clause {s : Stmt (Expr Literal P) P} (h : s.isSimple = true) :
    s.ClauseWritten s.clause := by
  cases s with
  | assign place name value => exact .assign value.written_whole
  | expr place value => exact .expr value.written_whole
  | _ => contradiction

theorem optionalWritten_clause {s : Option (Stmt (Expr Literal P) P)}
    (h : ∀ clause ∈ s, clause.isSimple = true) :
    OptionalWritten ClauseWritten s (clause? s) := by
  cases s with
  | none => exact .none
  | some s => exact .some (clauseWritten_clause (h s rfl))

theorem optionalWritten_check (check : Option (Expr Literal P)) :
    OptionalWritten (Expr.Written Level.whole) check (check.elim [] Expr.spelling) := by
  cases check with
  | none => exact .none
  | some e => exact .some e.written_whole

/-- The printed row of a statement. -/
theorem written_spelling (s : Stmt (Expr Literal P) P) (h : ∀ node ∈ s.nodes, node.Fits) :
    s.Written s.spelling := by
  induction s using Stmt.induct with
  | step s ih =>
    rw [nodes_eq, List.forall_mem_cons, List.forall_mem_flatMap] at h
    obtain ⟨hfits, hchildren⟩ := h
    have hinside := fun child hchild => ih child hchild (hchildren child hchild)
    cases s with
    | empty place => exact .empty place
    | block place body =>
      rw [spelling, spellingOfAll_eq, List.flatMap_def]
      refine .block place (fun _ _ h => h) ?_
      rw [List.forall₂_map_right_iff, List.forall₂_same]
      exact hinside
    | assign place name value =>
      exact .clause (s := .assign place name value) (.assign value.written_whole)
    | expr place value => exact .clause (s := .expr place value) (.expr value.written_whole)
    | function place name namePlace parameters body =>
      exact .function place name namePlace parameters (hinside body (by simp [children]))
    | result place value => exact .result place ⟨value.written_whole⟩
    | branch place test yes no =>
      have hyes := hinside yes (by simp [children])
      cases no with
      | none =>
        rw [spelling, otherwise, List.append_nil]
        exact .branch place ⟨test.written_whole⟩ hyes
      | some no =>
        exact .branchElse place ⟨test.written_whole⟩ hyes (hinside no (by simp [children]))
    | forLoop place init check step body =>
      exact .forLoop place (optionalWritten_clause hfits.1) (optionalWritten_check check)
        (optionalWritten_clause hfits.2) (hinside body (by simp [children]))
    | foreach place name iterable body =>
      exact .foreach place name iterable.written_whole (hinside body (by simp [children]))
    | whileLoop place test body =>
      exact .whileLoop place ⟨test.written_whole⟩ (hinside body (by simp [children]))
    | doWhile place body test =>
      exact .doWhile place (hinside body (by simp [children])) ⟨test.written_whole⟩
    | text place value => exact .text place ⟨value.written_whole⟩
    | attachment place value => exact .attachment place ⟨value.written_whole⟩
    | embed place parts =>
      rw [spelling, List.flatMap_def]
      refine .embed place (.braces ?_)
      rw [List.forall₂_map_right_iff, List.forall₂_same]
      exact fun part _ => part.written_spelling

end Stmt

/-! ## Templates -/

inductive Item.Written : Item (Expr Literal P) P → List Token → Prop
  | constant (place : P) (name : String) {value : Expr Literal P} {row : List Token}
      (h : ClosedWritten value row) :
      Written (.constant place name value)
        (Keyword.constant.token :: .ident name :: .symbol .assign :: row)
  | stmt {s : Stmt (Expr Literal P) P} {row : List Token} (h : s.Written row) :
      Written (.stmt s) row

/-- The rows of a template: the rows of its items one after another. -/
inductive TemplateWritten : List (Item (Expr Literal P) P) → List Token → Prop
  | mk {items : List (Item (Expr Literal P) P)} {rows : List (List Token)}
      (h : List.Forall₂ Item.Written items rows) : TemplateWritten items rows.flatten

theorem Item.written_spelling (i : Item (Expr Literal P) P) (h : i.WellFormed) :
    i.Written i.spelling := by
  cases i with
  | constant place name value => exact .constant place name ⟨value.written_whole⟩
  | stmt s => exact .stmt (s.written_spelling fun node hnode => (h node hnode).1)

/-- The printed row of a template is one of its rows. -/
theorem templateWritten_spelling {items : List (Item (Expr Literal P) P)}
    (h : WellFormedTemplate items) : TemplateWritten items (items.flatMap Item.spelling) := by
  rw [List.flatMap_def]
  refine ⟨?_⟩
  rw [List.forall₂_map_right_iff, List.forall₂_same]
  exact fun i hi => i.written_spelling (h i hi)

end MessageTemplate
