import MessageTemplate.Proofs.Calendar.Text
import MessageTemplate.Proofs.Json.Nulls

/-!
# The text of a document

The JSON value of each part of a document is canonical, and its members keep
everything even without nulls: the parts with a name or a text of their own are
never null, so that an absent part is told from an empty one. The text of a
document therefore determines the document, in both layouts and under both
policies (`Document.text_eq_iff`).
-/

namespace MessageTemplate

namespace Json

section

variable {α : Type} {encode : α → Json} {depth : Nat}

theorem Canonical.optional (h : ∀ value, Canonical depth (encode value)) (value : Option α) :
    Canonical depth (.optional encode value) := by
  cases value with
  | none => exact .null
  | some value => exact h value

theorem Canonical.array_map (h : ∀ value, Canonical depth (encode value)) (values : List α) :
    Canonical (depth + 1) (.array (values.map encode)) := by
  refine .array fun item hitem => ?_
  obtain ⟨value, -, rfl⟩ := List.mem_map.1 hitem
  exact h value

end

theorem Lossless.text : Lossless (Json.optional .string) := Lossless.string.optional fun _ => rfl

theorem canonical_link (depth : Nat) (url : String) : Canonical (depth + 1) (.link url) :=
  .object (List.pairwise_singleton _ _) (by simp [Canonical.string])

theorem lossless_link : Lossless .link := by
  refine Lossless.object (fun _ => rfl) (show ["url"].Nodup by decide) fun first second h => ?_
  exact Json.string.inj (List.cons.inj h).1

theorem isExact_toInt (color : Int64) : Reader.IsExact color.toInt := by
  have hupper := color.toInt_lt
  refine ⟨color.le_toInt, ?_⟩
  rw [Reader.significandLimit, Nat.pow_eq, Int.ofNat_eq_natCast]
  omega

end Json

open Json (Canonical Lossless)

theorem Author.canonical_toJson (depth : Nat) (author : Author) :
    Canonical (depth + 1) author.toJson := by
  refine .object (show ["icon_url", "name", "url"].Pairwise (· < ·) by decide) ?_
  simp [Canonical.string, Canonical.optional]

theorem Author.lossless_toJson : Lossless toJson := by
  refine Lossless.object (fun _ => rfl) (show ["icon_url", "name", "url"].Nodup by decide) ?_
  intro ⟨name, url, icon⟩ ⟨name', url', icon'⟩ h
  simp only [List.map_cons, List.cons.injEq] at h
  obtain ⟨hicon, hname, hurl, -⟩ := h
  rw [Lossless.text _ _ hicon, Lossless.string _ _ hname, Lossless.text _ _ hurl]

theorem Footer.canonical_toJson (depth : Nat) (footer : Footer) :
    Canonical (depth + 1) footer.toJson := by
  refine .object (show ["icon_url", "text"].Pairwise (· < ·) by decide) ?_
  simp [Canonical.string, Canonical.optional]

theorem Footer.lossless_toJson : Lossless toJson := by
  refine Lossless.object (fun _ => rfl) (show ["icon_url", "text"].Nodup by decide) ?_
  intro ⟨text, icon⟩ ⟨text', icon'⟩ h
  simp only [List.map_cons, List.cons.injEq] at h
  obtain ⟨hicon, htext, -⟩ := h
  rw [Lossless.text _ _ hicon, Lossless.string _ _ htext]

theorem Field.canonical_toJson (depth : Nat) (field : Field) :
    Canonical (depth + 1) field.toJson := by
  refine .object (show ["inline", "name", "value"].Pairwise (· < ·) by decide) ?_
  simp [Canonical.string, Canonical.bool]

theorem Field.lossless_toJson : Lossless toJson := by
  refine Lossless.object (fun _ => rfl) (show ["inline", "name", "value"].Nodup by decide) ?_
  intro ⟨title, text, inline⟩ ⟨title', text', inline'⟩ h
  simp only [List.map_cons, List.cons.injEq] at h
  obtain ⟨hinline, htitle, htext, -⟩ := h
  rw [Lossless.bool _ _ hinline, Lossless.string _ _ htitle, Lossless.string _ _ htext]

namespace Embed

/-- The keys of an embed in order. -/
def keys : List String :=
  ["author", "color", "description", "fields", "footer", "image", "timestamp", "title", "type",
    "url"]

theorem pairwise_keys : keys.Pairwise (· < ·) := by decide

theorem canonical_toJson (depth : Nat) (embed : Embed) : Canonical (depth + 3) embed.toJson := by
  refine .object pairwise_keys ?_
  have hlink := Json.canonical_link (depth + 1)
  have hauthor := Author.canonical_toJson (depth + 1)
  have hfooter := Footer.canonical_toJson (depth + 1)
  have hfields := Canonical.array_map (Field.canonical_toJson depth) embed.fields
  simp [Canonical.string, Canonical.optional, Canonical.integer, Json.isExact_toInt, *]

theorem lossless_color : Lossless fun color : Int64 => .integer color.toInt :=
  fun _ _ h => Int64.toInt_inj.1 (Json.integer.inj h)

theorem lossless_timestamp :
    Lossless fun instant : Calendar.Instant => .string (instant.text .letter) :=
  fun _ _ h => Calendar.Instant.text_inj.1 (Json.string.inj h)

theorem lossless_toJson : Lossless toJson := by
  refine Lossless.object (fun _ => rfl) (show keys.Nodup by decide) ?_
  intro first second h
  simp only [List.map_cons, List.cons.injEq] at h
  obtain ⟨hauthor, hcolor, hdescription, hfields, hfooter, himage, htimestamp, htitle, -, hurl,
    -⟩ := h
  cases first
  cases second
  rw [Embed.mk.injEq]
  exact ⟨Lossless.text _ _ htitle, Lossless.text _ _ hdescription, Lossless.text _ _ hurl,
    lossless_timestamp.optional (fun _ => rfl) _ _ htimestamp,
    lossless_color.optional (fun _ => rfl) _ _ hcolor,
    Author.lossless_toJson.optional (fun _ => rfl) _ _ hauthor,
    Json.lossless_link.optional (fun _ => rfl) _ _ himage,
    Footer.lossless_toJson.optional (fun _ => rfl) _ _ hfooter,
    Field.lossless_toJson.array _ _ hfields⟩

end Embed

namespace Document

theorem canonical_toJson (depth : Nat) (document : Document) :
    Canonical (depth + 5) document.toJson := by
  refine .object (show ["attachments", "content", "embeds"].Pairwise (· < ·) by decide) ?_
  have hattachments := Canonical.array_map (Json.canonical_link (depth + 2)) document.attachments
  have hembeds := Canonical.array_map (Embed.canonical_toJson depth) document.embeds
  simp [Canonical.string, Canonical.optional, *]

theorem lossless_toJson : Lossless toJson := by
  refine Lossless.object (fun _ => rfl)
    (show ["attachments", "content", "embeds"].Nodup by decide) ?_
  intro ⟨content, attachments, embeds⟩ ⟨content', attachments', embeds'⟩ h
  simp only [List.map_cons, List.cons.injEq] at h
  obtain ⟨hattachments, hcontent, hembeds, -⟩ := h
  rw [Lossless.text _ _ hcontent, Json.lossless_link.array _ _ hattachments,
    Embed.lossless_toJson.array _ _ hembeds]

theorem toJsonUnder_inj {first second : Document} {policy : NullPolicy}
    (h : first.toJsonUnder policy = second.toJsonUnder policy) : first = second := by
  match policy with
  | .omit => exact lossless_toJson first second h
  | .include => exact lossless_toJson first second (congrArg Json.dropNulls h)

/-- The text of a document is read back as its JSON value. -/
theorem ofText?_text (document : Document) (policy : NullPolicy) (layout : Json.Layout) :
    Json.ofText? (document.text policy layout) = some (document.toJsonUnder policy) := by
  have hcanonical : Canonical Json.Reader.depthLimit document.toJson :=
    document.canonical_toJson 122
  apply Json.ofText?_write
  match policy with
  | .omit => exact hcanonical.dropNulls
  | .include => exact hcanonical

/-- Documents have the same text only if they are the same. -/
theorem text_eq_iff (first second : Document) (policy : NullPolicy) (layout : Json.Layout) :
    first.text policy layout = second.text policy layout ↔ first = second := by
  constructor
  · intro h
    have hjson := first.ofText?_text policy layout
    rw [h, ofText?_text] at hjson
    exact (toJsonUnder_inj (Option.some.inj hjson)).symm
  · rintro rfl
    rfl

end Document
end MessageTemplate
