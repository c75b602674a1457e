/-!
# Parts of an embed

The statements that fill an embed, generic in the expressions `E` and in the
marks `P` of their places. An author and a footer are written in one of three
ways, which `Section` collects: their values in a fixed order, an object that
names the properties, or one property alone.
-/

namespace MessageTemplate

/-- `=` starts afresh, `+=` goes on with what is there. -/
inductive WriteMode
  | replace | append
deriving Repr, DecidableEq

/-- The members of an embed that hold a single value. -/
inductive EmbedMember
  | title | description | url | timestamp | color | image
deriving Repr, DecidableEq

namespace EmbedMember

def name : EmbedMember → String
  | title => "title"
  | description => "description"
  | url => "url"
  | timestamp => "timestamp"
  | color => "color"
  | image => "image"

def all : List EmbedMember := [title, description, url, timestamp, color, image]

def ofName? (name : String) : Option EmbedMember := all.find? fun member => member.name == name

end EmbedMember

inductive AuthorKey
  | name | url | icon
deriving Repr, DecidableEq

namespace AuthorKey

def word : AuthorKey → String
  | name => "name"
  | url => "url"
  | icon => "icon"

def all : List AuthorKey := [name, url, icon]

def ofWord? (word : String) : Option AuthorKey := all.find? fun key => key.word == word

end AuthorKey

inductive FooterKey
  | text | icon
deriving Repr, DecidableEq

namespace FooterKey

def word : FooterKey → String
  | text => "text"
  | icon => "icon"

def all : List FooterKey := [text, icon]

def ofWord? (word : String) : Option FooterKey := all.find? fun key => key.word == word

end FooterKey

/-- The values of an author in order. -/
structure AuthorFlow (E : Type) where
  name : E
  url : Option E
  icon : Option E

/-- The values of a footer in order. -/
structure FooterFlow (E : Type) where
  text : E
  icon : Option E

/-- The ways to write an author or a footer. -/
inductive Section (F K E : Type)
  | flow (values : F)
  | object (entries : List (K × E))
  | property (key : K) (value : E)

/-- One property of a field. Whether a field is inline is said by a plain word. -/
inductive FieldSetting (E : Type)
  | title (value : E)
  | text (value : E)
  | inline (value : Bool)

/-- A whole field, by its values in order or by its properties. -/
inductive FieldSpec (E P : Type)
  | flow (place : P) (title text : E) (inline : Bool)
  | object (place : P) (settings : List (FieldSetting E))

inductive FieldsBody (E P : Type)
  | part (field : FieldSpec E P)
  | list (fields : List (FieldSpec E P))
  | property (setting : FieldSetting E)

inductive PartBody (E P : Type)
  | member (member : EmbedMember) (value : E)
  | author (mode : WriteMode) (body : Section (AuthorFlow E) AuthorKey E)
  | footer (mode : WriteMode) (body : Section (FooterFlow E) FooterKey E)
  | fields (mode : WriteMode) (body : FieldsBody E P)

structure EmbedPart (E P : Type) where
  place : P
  body : PartBody E P

end MessageTemplate
