import MessageTemplate.Calendar.Instant

/-!
# Message documents

A document is what a template makes: the content of a chat message, its
attachments and its embeds. Most edits go to the first embed. An edit of
something that is not there yet makes it first, so that statements need not ask.
-/

namespace MessageTemplate

structure Author where
  name : String
  url : Option String
  icon : Option String
deriving DecidableEq

structure Footer where
  text : String
  icon : Option String
deriving DecidableEq

structure Field where
  title : String
  text : String
  inline : Bool
deriving DecidableEq

/-- A framed part of a message. An image is known by its address. -/
structure Embed where
  title : Option String
  description : Option String
  url : Option String
  timestamp : Option Calendar.Instant
  color : Option Int64
  author : Option Author
  image : Option String
  footer : Option Footer
  fields : List Field
deriving DecidableEq

/-- A whole message. An attachment is known by its address. -/
structure Document where
  content : Option String
  attachments : List String
  embeds : List Embed
deriving DecidableEq

def Author.blank : Author := ⟨"", none, none⟩

def Footer.blank : Footer := ⟨"", none⟩

def Field.blank : Field := ⟨"", "", false⟩

namespace Embed

def blank : Embed := ⟨none, none, none, none, none, none, none, none, []⟩

/-- Change the author, of whom an empty one is made first if there is none. -/
def editAuthor (embed : Embed) (edit : Author → Author) : Embed :=
  { embed with author := some (edit (embed.author.getD .blank)) }

def editFooter (embed : Embed) (edit : Footer → Footer) : Embed :=
  { embed with footer := some (edit (embed.footer.getD .blank)) }

def editImage (embed : Embed) (edit : String → String) : Embed :=
  { embed with image := some (edit (embed.image.getD "")) }

def addField (embed : Embed) (field : Field) : Embed :=
  { embed with fields := embed.fields ++ [field] }

/-- Change the last field, which is made first if there is none. -/
def editLastField (embed : Embed) (edit : Field → Field) : Embed :=
  { embed with fields := embed.fields.dropLast ++ [edit (embed.fields.getLast?.getD .blank)] }

end Embed

namespace Document

def blank : Document := ⟨none, [], []⟩

instance : Inhabited Document := ⟨blank⟩

/-- The first embed, or the one that an edit would start from. -/
def embed (document : Document) : Embed := document.embeds.head?.getD .blank

/-- Change the first embed, which is made first if there is none. -/
def editEmbed (document : Document) (edit : Embed → Embed) : Document :=
  { document with embeds := edit document.embed :: document.embeds.tail }

def attach (document : Document) (url : String) : Document :=
  { document with attachments := document.attachments ++ [url] }

@[simp] theorem content_editEmbed (document : Document) (edit : Embed → Embed) :
    (document.editEmbed edit).content = document.content := rfl

@[simp] theorem attachments_editEmbed (document : Document) (edit : Embed → Embed) :
    (document.editEmbed edit).attachments = document.attachments := rfl

@[simp] theorem embed_editEmbed (document : Document) (edit : Embed → Embed) :
    (document.editEmbed edit).embed = edit document.embed := rfl

@[simp] theorem tail_editEmbed (document : Document) (edit : Embed → Embed) :
    (document.editEmbed edit).embeds.tail = document.embeds.tail := rfl

theorem editEmbed_editEmbed (document : Document) (first second : Embed → Embed) :
    (document.editEmbed first).editEmbed second =
      document.editEmbed fun embed => second (first embed) := rfl

end Document
end MessageTemplate
