import MessageTemplate.Calendar.Text
import MessageTemplate.Json.Writer
import MessageTemplate.Message.Document

/-!
# Documents as JSON

The members of each object stand in increasing order of their keys. Members
without a value are null; the policy says whether they are written.
-/

namespace MessageTemplate

inductive NullPolicy
  | omit | include
deriving Repr, DecidableEq

def Json.optional {α : Type} (encode : α → Json) : Option α → Json
  | some value => encode value
  | none => .null

def Author.toJson (author : Author) : Json :=
  .object [("icon_url", .optional .string author.icon), ("name", .string author.name),
    ("url", .optional .string author.url)]

def Footer.toJson (footer : Footer) : Json :=
  .object [("icon_url", .optional .string footer.icon), ("text", .string footer.text)]

def Field.toJson (field : Field) : Json :=
  .object [("inline", .bool field.inline), ("name", .string field.title),
    ("value", .string field.text)]

/-- An address as the only member of an object. -/
def Json.link (url : String) : Json := .object [("url", .string url)]

def Embed.toJson (embed : Embed) : Json :=
  .object [
    ("author", .optional Author.toJson embed.author),
    ("color", .optional (fun color => .integer color.toInt) embed.color),
    ("description", .optional .string embed.description),
    ("fields", .array (embed.fields.map Field.toJson)),
    ("footer", .optional Footer.toJson embed.footer),
    ("image", .optional .link embed.image),
    ("timestamp", .optional (fun instant => .string (instant.text .letter)) embed.timestamp),
    ("title", .optional .string embed.title),
    ("type", .string "rich"),
    ("url", .optional .string embed.url)]

namespace Document

def toJson (document : Document) : Json :=
  .object [
    ("attachments", .array (document.attachments.map .link)),
    ("content", .optional .string document.content),
    ("embeds", .array (document.embeds.map Embed.toJson))]

/-- The JSON value that is written under a policy. -/
def toJsonUnder (document : Document) : NullPolicy → Json
  | .include => document.toJson
  | .omit => document.toJson.dropNulls

/-- The text of a document. -/
def text (document : Document) (policy : NullPolicy) (layout : Json.Layout) : String :=
  (document.toJsonUnder policy).write layout

end Document
end MessageTemplate
