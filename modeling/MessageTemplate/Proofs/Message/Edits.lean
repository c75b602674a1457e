import MessageTemplate.Evaluation.Message

/-!
# Edits and their targets

A part of an embed edits the embed in a few ways of its own. Each edit rewrites
one member of the embed, its target, by what that member is and nothing else, so
edits with different targets can change places.
-/

namespace MessageTemplate

/-- The edits of an embed that a part of it can ask for. -/
inductive PartBody.Edits : PartBody Term Location → (Embed → Embed) → Prop
  | member {member : EmbedMember} {e : Term} {value : Value} {edit : Embed → Embed}
      (h : Eval.memberEdit member value = .ok (some edit)) : Edits (.member member e) edit
  | authorFlow {mode : WriteMode} {flow : AuthorFlow Term} (author : Author) :
      Edits (.author mode (.flow flow)) fun embed => { embed with author := some author }
  | newAuthor {body : Section (AuthorFlow Term) AuthorKey Term} (edits : List (Author → Author)) :
      Edits (.author .replace body) fun embed =>
        { embed with author := some (Eval.applyEdits edits .blank) }
  | author {body : Section (AuthorFlow Term) AuthorKey Term} (edits : List (Author → Author)) :
      Edits (.author .append body) fun embed => embed.editAuthor (Eval.applyEdits edits)
  | footerFlow {mode : WriteMode} {flow : FooterFlow Term} (footer : Footer) :
      Edits (.footer mode (.flow flow)) fun embed => { embed with footer := some footer }
  | newFooter {body : Section (FooterFlow Term) FooterKey Term} (edits : List (Footer → Footer)) :
      Edits (.footer .replace body) fun embed =>
        { embed with footer := some (Eval.applyEdits edits .blank) }
  | footer {body : Section (FooterFlow Term) FooterKey Term} (edits : List (Footer → Footer)) :
      Edits (.footer .append body) fun embed => embed.editFooter (Eval.applyEdits edits)
  | clear (body : FieldsBody Term Location) :
      Edits (.fields .replace body) (Eval.clearFields .replace)
  | addField {mode : WriteMode} {body : FieldsBody Term Location} (field : Field) :
      Edits (.fields mode body) fun embed => embed.addField field
  | lastField {mode : WriteMode} {setting : FieldSetting Term} (edit : Field → Field) :
      Edits (.fields mode (.property setting)) fun embed =>
        (Eval.clearFields mode embed).editLastField edit

/-! ## Targets -/

/-- What a statement writes to: a part of the document, or a member of its first embed. -/
inductive Target
  | content
  | attachments
  | member (member : EmbedMember)
  | author
  | footer
  | fields
deriving Repr, DecidableEq

namespace Target

/-- The edits of an embed that read and rewrite one member. -/
inductive Edits : Target → (Embed → Embed) → Prop
  | title (f : Option String → Option String) :
      Edits (.member .title) fun embed => { embed with title := f embed.title }
  | description (f : Option String → Option String) :
      Edits (.member .description) fun embed => { embed with description := f embed.description }
  | url (f : Option String → Option String) :
      Edits (.member .url) fun embed => { embed with url := f embed.url }
  | timestamp (f : Option Calendar.Instant → Option Calendar.Instant) :
      Edits (.member .timestamp) fun embed => { embed with timestamp := f embed.timestamp }
  | color (f : Option Int64 → Option Int64) :
      Edits (.member .color) fun embed => { embed with color := f embed.color }
  | image (f : Option String → Option String) :
      Edits (.member .image) fun embed => { embed with image := f embed.image }
  | author (f : Option Author → Option Author) :
      Edits .author fun embed => { embed with author := f embed.author }
  | footer (f : Option Footer → Option Footer) :
      Edits .footer fun embed => { embed with footer := f embed.footer }
  | fields (f : List Field → List Field) :
      Edits .fields fun embed => { embed with fields := f embed.fields }

/-- The changes of a document that leave everything but one target alone. A target in the embed
brings an embed with it. -/
inductive Changes : Target → (Document → Document) → Prop
  | none (target : Target) : Changes target id
  | content (f : Option String → Option String) :
      Changes .content fun document => { document with content := f document.content }
  | attachments (f : List String → List String) :
      Changes .attachments fun document => { document with attachments := f document.attachments }
  | embed {target : Target} {edit : Embed → Embed} (h : target.Edits edit) :
      Changes target fun document => document.editEmbed edit

section

variable {target other : Target} {edit second : Embed → Embed} {change next : Document → Document}

theorem Edits.comp (h : target.Edits edit) (hsecond : target.Edits second) :
    target.Edits fun embed => second (edit embed) := by
  cases h with
  | title f => cases hsecond with | title g => exact .title fun value => g (f value)
  | description f =>
    cases hsecond with | description g => exact .description fun value => g (f value)
  | url f => cases hsecond with | url g => exact .url fun value => g (f value)
  | timestamp f => cases hsecond with | timestamp g => exact .timestamp fun value => g (f value)
  | color f => cases hsecond with | color g => exact .color fun value => g (f value)
  | image f => cases hsecond with | image g => exact .image fun value => g (f value)
  | author f => cases hsecond with | author g => exact .author fun value => g (f value)
  | footer f => cases hsecond with | footer g => exact .footer fun value => g (f value)
  | fields f => cases hsecond with | fields g => exact .fields fun value => g (f value)

/-- Edits of different members change places. -/
theorem Edits.commute (hne : target ≠ other) (h : target.Edits edit) (hsecond : other.Edits second)
    (embed : Embed) : second (edit embed) = edit (second embed) := by
  cases h <;> cases hsecond <;> first | rfl | exact absurd rfl hne

theorem Changes.comp (h : target.Changes change) (hnext : target.Changes next) :
    target.Changes fun document => next (change document) := by
  cases h with
  | none => exact hnext
  | content f =>
    cases hnext with
    | none => exact .content f
    | content g => exact .content fun value => g (f value)
    | embed h => cases h
  | attachments f =>
    cases hnext with
    | none => exact .attachments f
    | attachments g => exact .attachments fun value => g (f value)
    | embed h => cases h
  | embed h =>
    cases hnext with
    | none => exact .embed h
    | content => cases h
    | attachments => cases h
    | embed hsecond => exact .embed (h.comp hsecond)

/-- Changes of different targets change places, also if both bring the embed. -/
theorem Changes.commute (hne : target ≠ other) (h : target.Changes change)
    (hnext : other.Changes next) (document : Document) :
    next (change document) = change (next document) := by
  cases h with
  | none => rfl
  | content f =>
    cases hnext with
    | content => exact absurd rfl hne
    | _ => rfl
  | attachments f =>
    cases hnext with
    | attachments => exact absurd rfl hne
    | _ => rfl
  | embed h =>
    cases hnext with
    | embed hsecond =>
      change (document.editEmbed _).editEmbed _ = (document.editEmbed _).editEmbed _
      rw [Document.editEmbed_editEmbed, Document.editEmbed_editEmbed]
      exact congrArg document.editEmbed (funext (h.commute hne hsecond))
    | _ => rfl

end
end Target

/-! ## The target of a part -/

/-- What a part of an embed writes to. -/
def PartBody.target {E P : Type} : PartBody E P → Target
  | .member key _ => .member key
  | .author _ _ => .author
  | .footer _ _ => .footer
  | .fields _ _ => .fields

/-- A value is put into a member, whatever was there. -/
inductive EmbedMember.Puts : EmbedMember → (Embed → Embed) → Prop
  | title (text : String) : Puts .title fun embed => { embed with title := some text }
  | description (text : String) :
      Puts .description fun embed => { embed with description := some text }
  | url (text : String) : Puts .url fun embed => { embed with url := some text }
  | timestamp (instant : Calendar.Instant) :
      Puts .timestamp fun embed => { embed with timestamp := some instant }
  | color (color : Int64) : Puts .color fun embed => { embed with color := some color }
  | image (text : String) : Puts .image fun embed => { embed with image := some text }

theorem Eval.memberEdit_puts {member : EmbedMember} {value : Value} {edit : Embed → Embed}
    (h : memberEdit member value = .ok (some edit)) : member.Puts edit := by
  cases member with
  | timestamp =>
    rw [memberEdit] at h
    cases hvalue : value.asInstant with
    | error fault =>
      rw [hvalue] at h
      contradiction
    | ok instant? =>
      rw [hvalue] at h
      obtain ⟨instant, -, rfl⟩ := Option.map_eq_some_iff.1 (Except.ok.inj h)
      exact .timestamp instant
  | color =>
    rw [memberEdit] at h
    cases hvalue : value.asInteger with
    | error fault =>
      rw [hvalue] at h
      contradiction
    | ok color? =>
      rw [hvalue] at h
      obtain ⟨color, -, rfl⟩ := Option.map_eq_some_iff.1 (Except.ok.inj h)
      exact .color color
  | title =>
    obtain ⟨text, -, rfl⟩ := Option.map_eq_some_iff.1 (Except.ok.inj h)
    exact .title text
  | description =>
    obtain ⟨text, -, rfl⟩ := Option.map_eq_some_iff.1 (Except.ok.inj h)
    exact .description text
  | url =>
    obtain ⟨text, -, rfl⟩ := Option.map_eq_some_iff.1 (Except.ok.inj h)
    exact .url text
  | image =>
    obtain ⟨text, -, rfl⟩ := Option.map_eq_some_iff.1 (Except.ok.inj h)
    exact .image text

theorem EmbedMember.Puts.target {member : EmbedMember} {edit : Embed → Embed}
    (h : member.Puts edit) : (Target.member member).Edits edit := by
  cases h with
  | title text => exact .title fun _ => some text
  | description text => exact .description fun _ => some text
  | url text => exact .url fun _ => some text
  | timestamp instant => exact .timestamp fun _ => some instant
  | color color => exact .color fun _ => some color
  | image text => exact .image fun _ => some text

/-- A part edits nothing but its target. -/
theorem PartBody.Edits.target {body : PartBody Term Location} {edit : Embed → Embed}
    (h : body.Edits edit) : body.target.Edits edit := by
  cases h with
  | member h => exact (Eval.memberEdit_puts h).target
  | authorFlow author => exact .author fun _ => some author
  | newAuthor edits => exact .author fun _ => some (Eval.applyEdits edits .blank)
  | author edits => exact .author fun author => some (Eval.applyEdits edits (author.getD .blank))
  | footerFlow footer => exact .footer fun _ => some footer
  | newFooter edits => exact .footer fun _ => some (Eval.applyEdits edits .blank)
  | footer edits => exact .footer fun footer => some (Eval.applyEdits edits (footer.getD .blank))
  | clear => exact .fields fun _ => []
  | addField field => exact .fields fun fields => fields ++ [field]
  | @lastField mode setting edit =>
    cases mode with
    | replace => exact .fields fun _ => [edit .blank]
    | append =>
      exact .fields fun fields => fields.dropLast ++ [edit (fields.getLast?.getD .blank)]

end MessageTemplate
