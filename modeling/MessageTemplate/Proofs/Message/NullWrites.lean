import MessageTemplate.Proofs.Evaluation.Bare
import MessageTemplate.Proofs.SingleStatement

/-!
# Writing a null

A statement that writes one value leaves the document alone if the value is
null, as long as it writes a content, an attachment or a member of an embed. The
property of an author, a footer or a field is left alone as well, but the thing
itself is made if it is not there, and made anew by a statement that starts
afresh.
-/

namespace MessageTemplate

/-! ## Statements with one value -/

/-- The one value that a part of an embed writes. -/
def PartBody.singleValue? {E P : Type} : PartBody E P → Option E
  | .member _ value | .author _ (.property _ value) | .footer _ (.property _ value)
  | .fields _ (.property (.title value)) | .fields _ (.property (.text value)) => some value
  | _ => none

/-- The one value that a statement writes into the message. -/
def Stmt.singleValue? {E P : Type} : Stmt E P → Option E
  | .text _ value | .attachment _ value => some value
  | .embed _ [part] => part.body.singleValue?
  | _ => none

/-- What a property is written to: what is there, unless the statement starts afresh. -/
def WriteMode.base {α : Type} (blank : α) : WriteMode → Option α → α
  | .replace, _ => blank
  | .append, value => value.getD blank

/-- The fields of which the last one is written to. -/
def WriteMode.fields (fields : List Field) : WriteMode → List Field
  | .replace => [.blank]
  | .append => if fields = [] then [.blank] else fields

/-- What a part of an embed leaves when its one value is null. -/
def PartBody.leaves (document : Document) : PartBody Term Location → Document
  | .member _ _ => document
  | .author mode _ => document.editEmbed fun embed =>
    { embed with author := some (mode.base .blank embed.author) }
  | .footer mode _ => document.editEmbed fun embed =>
    { embed with footer := some (mode.base .blank embed.footer) }
  | .fields mode _ => document.editEmbed fun embed =>
    { embed with fields := mode.fields embed.fields }

/-- What a statement leaves when its one value is null. -/
def Stmt.leaves (document : Document) : Code → Document
  | .embed _ [part] => part.body.leaves document
  | _ => document

/-! ## What is there already -/

/-- An edit that would change an empty embed changes nothing if there is an embed that it leaves. -/
theorem Document.editEmbed_eq_self_iff {document : Document} {edit : Embed → Embed}
    (hblank : edit .blank ≠ .blank) :
    document.editEmbed edit = document ↔ edit document.embed = document.embed := by
  obtain ⟨content, attachments, embeds⟩ := document
  cases embeds with
  | nil => simp [editEmbed, Document.embed, hblank]
  | cons first others => simp [editEmbed, Document.embed]

/-- The same for an edit that puts a value into one member, one that an empty embed does not
have. -/
theorem Document.editEmbed_member_iff {α : Type} {get : Embed → α} {put : Embed → α → Embed}
    (hput : ∀ embed x, put embed x = embed ↔ x = get embed) {value : Embed → α}
    (hblank : value .blank ≠ get .blank) {document : Document} :
    (document.editEmbed fun embed => put embed (value embed)) = document ↔
      value document.embed = get document.embed := by
  rw [editEmbed_eq_self_iff fun h => hblank ((hput _ _).1 h), hput]

/-- What a null leaves is there already. -/
def PartBody.IsThere (document : Document) : PartBody Term Location → Prop
  | .member _ _ => True
  | .author .replace _ => document.embed.author = some .blank
  | .author .append _ => document.embed.author.isSome = true
  | .footer .replace _ => document.embed.footer = some .blank
  | .footer .append _ => document.embed.footer.isSome = true
  | .fields .replace _ => document.embed.fields = [.blank]
  | .fields .append _ => document.embed.fields ≠ []

def Stmt.IsThere (document : Document) : Code → Prop
  | .embed _ [part] => part.body.IsThere document
  | _ => True

theorem WriteMode.base_eq_iff {α : Type} (blank : α) (mode : WriteMode) (value : Option α) :
    some (mode.base blank value) = value ↔
      match mode with
      | .replace => value = some blank
      | .append => value.isSome = true := by
  cases mode with
  | replace => exact eq_comm
  | append => cases value <;> simp [base]

theorem WriteMode.fields_eq_iff (mode : WriteMode) (fields : List Field) :
    mode.fields fields = fields ↔
      match mode with
      | .replace => fields = [.blank]
      | .append => fields ≠ [] := by
  cases mode with
  | replace => exact eq_comm
  | append => by_cases hnil : fields = [] <;> simp [WriteMode.fields, hnil]

theorem PartBody.leaves_eq_iff (body : PartBody Term Location) (document : Document) :
    body.leaves document = document ↔ body.IsThere document := by
  cases body with
  | member member value => exact iff_of_true rfl trivial
  | author mode body =>
    have hauthor : ∀ (embed : Embed) author, { embed with author } = embed ↔
        author = embed.author :=
      fun _ _ => ⟨congrArg Embed.author, fun h => by rw [h]⟩
    rw [leaves, Document.editEmbed_member_iff hauthor (Option.some_ne_none _),
      WriteMode.base_eq_iff]
    cases mode <;> exact Iff.rfl
  | footer mode body =>
    have hfooter : ∀ (embed : Embed) footer, { embed with footer } = embed ↔
        footer = embed.footer :=
      fun _ _ => ⟨congrArg Embed.footer, fun h => by rw [h]⟩
    rw [leaves, Document.editEmbed_member_iff hfooter (Option.some_ne_none _),
      WriteMode.base_eq_iff]
    cases mode <;> exact Iff.rfl
  | fields mode body =>
    have hfields : ∀ (embed : Embed) fields, { embed with fields } = embed ↔
        fields = embed.fields :=
      fun _ _ => ⟨congrArg Embed.fields, fun h => by rw [h]⟩
    have hblank : mode.fields [] ≠ [] := by cases mode <;> simp [WriteMode.fields]
    rw [leaves, Document.editEmbed_member_iff hfields hblank, WriteMode.fields_eq_iff]
    cases mode <;> exact Iff.rfl

theorem Stmt.leaves_eq_iff (s : Code) (document : Document) :
    s.leaves document = document ↔ s.IsThere document := by
  unfold leaves IsThere
  split
  · exact PartBody.leaves_eq_iff _ document
  · exact iff_of_true rfl trivial

/-! ## Null values -/

namespace Eval

variable {call : Caller} {e : Term} {state : State}

theorem text?_of_null (h : term call e state = .ok .null state) :
    text? call e state = .ok none state := by
  rw [text?, Run.bind_of_ok h]
  rfl

theorem memberEdit_null (member : EmbedMember) : memberEdit member .null = .ok none := by
  cases member <;> rfl

theorem edits_of_null {K R : Type} (edit : K → String → R → R) (key : K)
    (h : term call e state = .ok .null state) :
    edits call edit [(key, e)] state = .ok [] state := by
  rw [edits, Run.bind_of_ok (text?_of_null h)]
  rfl

theorem writeContent_of_null (h : term call e state = .ok .null state) :
    writeContent call e state = .ok () state := by
  rw [writeContent, Run.bind_of_ok (text?_of_null h)]
  rfl

theorem attach_of_null (h : term call e state = .ok .null state) :
    attach call e state = .ok () state := by
  rw [attach, Run.bind_of_ok (text?_of_null h)]
  rfl

theorem writeMember_of_null (h : term call e state = .ok .null state) (member : EmbedMember) :
    writeMember call member e state = .ok () state := by
  rw [writeMember, Run.bind_of_ok h, memberEdit_null]
  rfl

theorem writeAuthorEntries_of_null (h : term call e state = .ok .null state) (mode : WriteMode)
    (key : AuthorKey) : writeAuthorEntries call mode [(key, e)] state =
      .ok () (state.editDocument fun document => document.editEmbed fun embed =>
        { embed with author := some (mode.base .blank embed.author) }) := by
  rw [writeAuthorEntries, Run.bind_of_ok (edits_of_null authorEdit key h)]
  cases mode <;> rfl

theorem writeFooterEntries_of_null (h : term call e state = .ok .null state) (mode : WriteMode)
    (key : FooterKey) : writeFooterEntries call mode [(key, e)] state =
      .ok () (state.editDocument fun document => document.editEmbed fun embed =>
        { embed with footer := some (mode.base .blank embed.footer) }) := by
  rw [writeFooterEntries, Run.bind_of_ok (edits_of_null footerEdit key h)]
  cases mode <;> rfl

/-- The last field is written to as it is. -/
theorem editLastField_clearFields (mode : WriteMode) (embed : Embed) :
    (clearFields mode embed).editLastField id =
      { embed with fields := mode.fields embed.fields } := by
  cases mode with
  | replace => rfl
  | append =>
    have hlast : embed.fields.dropLast ++ [embed.fields.getLast?.getD .blank] =
        WriteMode.append.fields embed.fields := by
      rcases List.eq_nil_or_concat embed.fields with hnil | ⟨front, last, hconcat⟩
      · rw [hnil]
        rfl
      · simp [hconcat, WriteMode.fields]
    exact congrArg (fun fields => { embed with fields }) hlast

theorem writeFieldSetting_of_null {setting : FieldSetting Term}
    (hedit : fieldEdit? call setting state = .ok none state) (mode : WriteMode) :
    writeFieldSetting call mode setting state =
      .ok () (state.editDocument fun document => document.editEmbed fun embed =>
        { embed with fields := mode.fields embed.fields }) := by
  rw [writeFieldSetting, Run.bind_of_ok hedit]
  simp only [Option.getD_none, editLastField_clearFields]
  rfl

theorem partBody_of_null {body : PartBody Term Location} (hbody : body.singleValue? = some e)
    (h : term call e state = .ok .null state) :
    partBody call body state = .ok () (state.editDocument body.leaves) := by
  have hfield : ∀ edit : String → Field → Field,
      (do return (← text? call e).map edit : Eval (Option (Field → Field))) state =
        .ok none state := by
    intro edit
    rw [Run.bind_of_ok (text?_of_null h)]
    rfl
  cases body with
  | member member value =>
    obtain rfl := Option.some.inj hbody
    exact writeMember_of_null h member
  | author mode body =>
    cases body with
    | property key value =>
      obtain rfl := Option.some.inj hbody
      exact writeAuthorEntries_of_null h mode key
    | _ => contradiction
  | footer mode body =>
    cases body with
    | property key value =>
      obtain rfl := Option.some.inj hbody
      exact writeFooterEntries_of_null h mode key
    | _ => contradiction
  | fields mode body =>
    cases body with
    | property setting =>
      cases setting with
      | title value =>
        obtain rfl := Option.some.inj hbody
        have hedit : fieldEdit? call (.title value) state = .ok none state := hfield _
        exact writeFieldSetting_of_null hedit mode
      | text value =>
        obtain rfl := Option.some.inj hbody
        have hedit : fieldEdit? call (.text value) state = .ok none state := hfield _
        exact writeFieldSetting_of_null hedit mode
      | inline value => contradiction
    | _ => contradiction

/-- A null goes through a statement with one value. -/
theorem stmt_of_null {s : Code} (hs : s.singleValue? = some e) (rounds : Nat)
    (h : term call e state = .ok .null state) :
    stmt call rounds s state = .ok () (state.editDocument s.leaves) := by
  cases s with
  | text here value =>
    obtain rfl := Option.some.inj hs
    rw [stmt]
    exact Run.adaptExcept_of_ok (writeContent_of_null h)
  | attachment here value =>
    obtain rfl := Option.some.inj hs
    rw [stmt]
    exact Run.adaptExcept_of_ok (attach_of_null h)
  | embed here parts =>
    rcases parts with - | ⟨part, - | ⟨second, rest⟩⟩
    · contradiction
    · have hpart : embedPart call part state = .ok () (state.editDocument part.body.leaves) :=
        Run.adaptExcept_of_ok (partBody_of_null hs h)
      exact stmt_singlePart hpart
    · contradiction
  | _ => contradiction

end Eval

/-- A statement that writes one value, null, goes through and changes nothing but the document. What
it leaves is the document as it was just if it writes no property of an author, a footer or a field,
or if these are there already, empty ones if the statement starts afresh. -/
theorem null_write_unchanged_iff (allowance rounds : Nat) (state after : State) (s : Code)
    (e : Term) (hs : s.singleValue? = some e) (hfree : e.IsCallFree)
    (hnull : Eval.expression allowance e state = .ok .null after) :
    Eval.stmt (Eval.callWithin allowance) rounds s state = .ok () (state.editDocument s.leaves) ∧
      (s.leaves state.document = state.document ↔ s.IsThere state.document) := by
  have hafter : Eval.after (Eval.expression allowance e) state = state :=
    Eval.after_term_of_isCallFree hfree state
  rw [Eval.after, hnull] at hafter
  obtain rfl : after = state := hafter
  exact ⟨Eval.stmt_of_null hs rounds hnull, s.leaves_eq_iff after.document⟩

/-- The name of the author is put to the constant `n`. -/
def namedByConstant : Code :=
  .embed ⟨"t", .start⟩ [⟨⟨"t", .start⟩, .author .append (.property .name (.var ⟨"t", .start⟩ "n"))⟩]

theorem null_write_unchanged_iff_namedByConstant :
    namedByConstant.singleValue? = some (.var ⟨"t", .start⟩ "n") ∧
      Expr.IsCallFree (.var ⟨"t", .start⟩ "n" : Term) ∧
      Eval.expression 1 (.var ⟨"t", .start⟩ "n") nullConstant = .ok .null nullConstant ∧
      Eval.stmt (Eval.callWithin 1) 1 namedByConstant nullConstant =
        .ok () (nullConstant.editDocument namedByConstant.leaves) ∧
      (namedByConstant.leaves nullConstant.document = nullConstant.document ↔
        namedByConstant.IsThere nullConstant.document) := by
  have hfree : Expr.IsCallFree (.var ⟨"t", .start⟩ "n" : Term) := by
    simp [Expr.IsCallFree, Expr.nodes, Expr.isCall]
  have hnull : Eval.expression 1 (.var ⟨"t", .start⟩ "n") nullConstant = .ok .null nullConstant :=
    rfl
  exact ⟨rfl, hfree, hnull,
    null_write_unchanged_iff 1 1 nullConstant nullConstant namedByConstant _ rfl hfree hnull⟩

/-- Not every null is ignored: a null name makes an embed with an author where there was none. -/
theorem null_write_not_ignored :
    ¬ ∀ (state after : State) (s : Code) (e : Term), s.singleValue? = some e → e.IsCallFree →
      Eval.expression 1 e state = .ok .null after →
      (Eval.after (Eval.stmt (Eval.callWithin 1) 1 s) state).document = state.document := by
  intro h
  have hfree : Expr.IsCallFree (.var ⟨"t", .start⟩ "n" : Term) := by
    simp [Expr.IsCallFree, Expr.nodes, Expr.isCall]
  have hignored := h nullConstant nullConstant namedByConstant _ rfl hfree rfl
  have hmade : (Eval.after (Eval.stmt (Eval.callWithin 1) 1 namedByConstant)
      nullConstant).document = Document.blank.editEmbed fun embed =>
        { embed with author := some .blank } := rfl
  rw [hmade] at hignored
  exact absurd hignored (by decide)

end MessageTemplate
