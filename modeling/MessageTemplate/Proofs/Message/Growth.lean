import MessageTemplate.Proofs.Evaluation.Effects
import MessageTemplate.Proofs.Message.Described

/-!
# Documents grow

A rendering adds to its document. Attachments are put behind those that are
there, the one embed is never removed, and what has been written can be written
anew but is not taken away. The fields alone are removed, by a statement that
puts others in their place.
-/

namespace MessageTemplate

/-- The members of an embed of which there is one or none. -/
inductive EmbedSlot
  | title | description | url | timestamp | color | author | image | footer
deriving Repr, DecidableEq

/-- Is the member there? -/
def Embed.holds (embed : Embed) : EmbedSlot → Bool
  | .title => embed.title.isSome
  | .description => embed.description.isSome
  | .url => embed.url.isSome
  | .timestamp => embed.timestamp.isSome
  | .color => embed.color.isSome
  | .author => embed.author.isSome
  | .image => embed.image.isSome
  | .footer => embed.footer.isSome

namespace Document

/-- What is in the first document is still there in the second one, apart from fields. Embeds behind
the first one are the same. -/
structure Grows (before after : Document) : Prop where
  content : before.content.isSome = true → after.content.isSome = true
  attachments : before.attachments <+: after.attachments
  embeds : before.embeds.length ≤ after.embeds.length
  others : after.embeds.tail = before.embeds.tail
  slots : ∀ slot, before.embed.holds slot = true → after.embed.holds slot = true

namespace Grows

variable {first second third : Document}

theorem refl (document : Document) : Grows document document :=
  ⟨id, List.prefix_refl _, Nat.le_refl _, rfl, fun _ => id⟩

theorem trans (h : Grows first second) (hthen : Grows second third) : Grows first third where
  content := fun hfirst => hthen.content (h.content hfirst)
  attachments := h.attachments.trans hthen.attachments
  embeds := Nat.le_trans h.embeds hthen.embeds
  others := hthen.others.trans h.others
  slots := fun slot hfirst => hthen.slots slot (h.slots slot hfirst)

theorem write (document : Document) (text : String) :
    Grows document { document with content := some text } :=
  ⟨fun _ => rfl, List.prefix_refl _, Nat.le_refl _, rfl, fun _ => id⟩

theorem attach (document : Document) (url : String) : Grows document (document.attach url) :=
  ⟨id, List.prefix_append _ _, Nat.le_refl _, rfl, fun _ => id⟩

theorem editEmbed (document : Document) {edit : Embed → Embed}
    (h : ∀ embed slot, embed.holds slot = true → (edit embed).holds slot = true) :
    Grows document (document.editEmbed edit) where
  content := id
  attachments := List.prefix_refl _
  embeds := by
    rw [Document.editEmbed, List.length_cons, List.length_tail]
    omega
  others := rfl
  slots := h _

/-- A document with at most one embed does not get a second one. -/
theorem length_embeds (h : Grows first second) (hfirst : first.embeds.length ≤ 1) :
    second.embeds.length ≤ 1 := by
  have hlength := congrArg List.length h.others
  rw [List.length_tail, List.length_tail] at hlength
  omega

end Grows

/-- The second document has at least as many fields. -/
def HasMoreFields (before after : Document) : Prop :=
  before.embed.fields.length ≤ after.embed.fields.length

namespace HasMoreFields

theorem refl (document : Document) : HasMoreFields document document := Nat.le_refl _

theorem trans {first second third : Document} (h : HasMoreFields first second)
    (hthen : HasMoreFields second third) : HasMoreFields first third := Nat.le_trans h hthen

end HasMoreFields
end Document

/-! ## Edits of an embed -/

def EmbedMember.slot : EmbedMember → EmbedSlot
  | .title => .title
  | .description => .description
  | .url => .url
  | .timestamp => .timestamp
  | .color => .color
  | .image => .image

/-- A member is put there and nothing is removed. -/
theorem Eval.memberEdit_adds {member : EmbedMember} {value : Value} {edit : Embed → Embed}
    (h : memberEdit member value = .ok (some edit)) (embed : Embed) :
    (edit embed).fields = embed.fields ∧
      ∀ slot, (edit embed).holds slot = (decide (slot = member.slot) || embed.holds slot) := by
  cases memberEdit_puts h <;> exact ⟨rfl, fun slot => by cases slot <;> rfl⟩

/-- Does a part remove the fields that are there? -/
def PartBody.Clears (body : PartBody Term Location) : Prop :=
  ∃ fields, body = .fields .replace fields

namespace PartBody.Edits

variable {body : PartBody Term Location} {edit : Embed → Embed}

theorem holds (h : body.Edits edit) (embed : Embed) (slot : EmbedSlot)
    (hslot : embed.holds slot = true) : (edit embed).holds slot = true := by
  cases h with
  | member h => rw [(Eval.memberEdit_adds h embed).2, hslot, Bool.or_true]
  | @lastField mode setting edit => cases mode <;> cases slot <;> exact hslot
  | _ => cases slot <;> first | exact hslot | rfl

/-- Only a part that starts afresh leaves fewer fields than there were. -/
theorem fields (h : body.Edits edit) (hclears : ¬ body.Clears) (embed : Embed) :
    embed.fields.length ≤ (edit embed).fields.length := by
  cases h with
  | member h => exact Nat.le_of_eq (congrArg List.length (Eval.memberEdit_adds h embed).1).symm
  | clear body => exact absurd ⟨body, rfl⟩ hclears
  | addField field => simp [Embed.addField]
  | @lastField mode setting edit =>
    cases mode with
    | replace => exact absurd ⟨_, rfl⟩ hclears
    | append =>
      change _ ≤ (embed.fields.dropLast ++ [_]).length
      rw [List.length_append, List.length_dropLast, List.length_singleton]
      omega
  | _ => exact Nat.le_refl _

end PartBody.Edits

namespace Activity

variable {activity : Activity} {effect : Effect} {change : Document → Document}

/-- Does an activity remove fields? -/
def Clears : Activity → Prop
  | .part _ p => p.body.Clears
  | _ => False

theorem Changes.grows (h : activity.Changes (.edit change)) (document : Document) :
    document.Grows (change document) := by
  cases h with
  | content text => exact .write document text
  | attach url => exact .attach document url
  | part h => exact .editEmbed document h.holds

theorem Changes.fields (h : activity.Changes (.edit change)) (hclears : ¬ activity.Clears)
    (document : Document) :
    document.embed.fields.length ≤ (change document).embed.fields.length := by
  cases h with
  | content text => exact Nat.le_refl _
  | attach url => exact Nat.le_refl _
  | part h => exact h.fields hclears document.embed

variable {outer : Activity} {state before : State}

/-- No edit of a run removes anything but fields. -/
theorem editsWithin_grows (outer : Activity) (state : State) :
    outer.EditsWithin Document.Grows state := by
  intro change mid hdoes
  obtain ⟨activity, start, -, hchanges⟩ := hdoes.changes
  exact hchanges.grows mid.document

theorem editsWithin_fields
    (h : ∀ activity before, outer.Reaches state activity before → ¬ activity.Clears) :
    outer.EditsWithin Document.HasMoreFields state := by
  intro change mid hdoes
  obtain ⟨activity, start, hreaches, hchanges⟩ := hdoes.changes
  exact hchanges.fields (h activity start hreaches) mid.document

end Activity

/-- While a template is rendered the document never has more than one embed, and whatever is done,
also if it fails, the document grows: attachments go behind those that are there, and the content,
the embed and its members stay there once they are. If fields are lost, a part of an embed that
starts the fields afresh is run for it. -/
theorem rendering_grows (template : Template) (allowance : Nat) (clock : Calendar.Instant)
    (activity : Activity) (before : State)
    (hreaches : (template.rendering allowance).Reaches (template.start clock) activity before) :
    before.document.embeds.length ≤ 1 ∧
      (Eval.after activity.run before).document.embeds.length ≤ 1 ∧
      before.document.Grows (Eval.after activity.run before).document ∧
      ((Eval.after activity.run before).document.embed.fields.length <
          before.document.embed.fields.length →
        ∃ inner mid, activity.Reaches before inner mid ∧ inner.Clears) := by
  have hbefore : (template.start clock).document.Grows before.document :=
    (Activity.editsWithin_grows _ _).reaches .refl .trans hreaches
  have hafter : before.document.Grows (Eval.after activity.run before).document :=
    (Activity.editsWithin_grows _ _).run .refl .trans
  have hlength := hbefore.length_embeds (Nat.zero_le 1)
  refine ⟨hlength, hafter.length_embeds hlength, hafter, fun hfewer => ?_⟩
  by_contra hnone
  have hkept : activity.EditsWithin Document.HasMoreFields before :=
    Activity.editsWithin_fields fun inner mid hinner hclears => hnone ⟨inner, mid, hinner, hclears⟩
  exact absurd hfewer (Nat.not_lt.2 (hkept.run .refl .trans))

def addTwoFields : Code :=
  .embed ⟨"t", .start⟩
    [⟨⟨"t", .start⟩, .fields .append (.list [plainField "a", plainField "b"])⟩]

def replaceFields : Code :=
  .embed ⟨"t", .start⟩ [⟨⟨"t", .start⟩, .fields .replace (.part (plainField "c"))⟩]

/-- Two fields, and then another one in their place. -/
def replacedFields : Template := ⟨"t", [addTwoFields, replaceFields], .empty⟩

theorem rendering_grows_replacedFields :
    ∃ before, (replacedFields.rendering 1).Reaches (replacedFields.start .newMonth)
        (.stmt 1 1 replaceFields) before ∧
      before.document.embed.fields.length = 2 ∧
      (Eval.after (Activity.stmt 1 1 replaceFields).run before).document.embed.fields.length = 1 ∧
      before.document.Grows
        (Eval.after (Activity.stmt 1 1 replaceFields).run before).document ∧
      ∃ inner mid, (Activity.stmt 1 1 replaceFields).Reaches before inner mid ∧ inner.Clears := by
  obtain ⟨before, hrun⟩ : ∃ before, (Activity.stmt 1 1 addTwoFields).run
      (replacedFields.start .newMonth) = .ok () before := ⟨_, rfl⟩
  have hreaches : (replacedFields.rendering 1).Reaches (replacedFields.start .newMonth)
      (.stmt 1 1 replaceFields) before := .inside .self (.behind hrun (.here _ _))
  obtain rfl := (EStateM.Result.ok.inj hrun).2
  obtain ⟨-, -, hgrows, hfewer⟩ := rendering_grows replacedFields 1 .newMonth _ _ hreaches
  exact ⟨_, hreaches, rfl, rfl, hgrows, hfewer (by decide +kernel)⟩

end MessageTemplate
