import MessageTemplate.Context
import MessageTemplate.Proofs.Message.Text
import MessageTemplate.Proofs.Table

/-!
# Documents as contexts

The text of a document is a context. Its constants hold each part of the
document under the key that the part has in JSON, with null for what is absent;
leaving nulls out of the text leaves them out of the constants and changes
nothing else (`Document.constantsOfText_text`).
-/

namespace MessageTemplate

namespace Value

/-! ## Leaving out nulls -/

mutual

/-- Leave out the entries of maps that are null, at every depth. Items of lists stay. -/
def dropNulls : Value → Value
  | list items => list (dropNullsAll items)
  | map entries => map (dropNullEntries entries)
  | value => value

def dropNullsAll : List Value → List Value
  | [] => []
  | item :: rest => item.dropNulls :: dropNullsAll rest

def dropNullEntries : List (String × Value) → List (String × Value)
  | [] => []
  | (name, value) :: rest =>
    if value.kind = .null then dropNullEntries rest
    else (name, value.dropNulls) :: dropNullEntries rest

end

theorem names_dropNullEntries (entries : List (String × Value)) :
    ((dropNullEntries entries).map Prod.fst).Sublist (entries.map Prod.fst) := by
  induction entries with
  | nil => exact .slnil
  | cons entry entries ih =>
    rw [dropNullEntries, List.map_cons]
    split
    · exact ih.cons _
    · exact ih.cons_cons _

/-! ## Values of JSON -/

theorem ofJsonItems_eq (items : List Json) : ofJsonItems items = items.map ofJson := by
  induction items with
  | nil => rfl
  | cons item items ih => rw [ofJsonItems, ih, List.map_cons]

theorem ofJsonMembers_eq (members : List (String × Json)) :
    ofJsonMembers members = members.map fun member => (member.1, ofJson member.2) := by
  induction members with
  | nil => rfl
  | cons member members ih => rw [ofJsonMembers, ih, List.map_cons]

theorem pairwise_ofJsonMembers {members : List (String × Json)}
    (h : (members.map Prod.fst).Pairwise (· < ·)) :
    (ofJsonMembers members).Pairwise fun a b => a.1 < b.1 := by
  rw [ofJsonMembers_eq, List.pairwise_map]
  exact List.pairwise_map.1 h

theorem kind_ofJson_eq_null (json : Json) : (ofJson json).kind = .null ↔ json.isNull = true := by
  cases json <;> simp [ofJson, kind, Json.isNull]

/-- The members of an object in order become the entries of a map as they are. -/
theorem entries_ofList_ofJsonMembers {members : List (String × Json)}
    (h : (members.map Prod.fst).Pairwise (· < ·)) :
    (Table.ofList (ofJsonMembers members)).entries = ofJsonMembers members :=
  Table.entries_ofList (pairwise_ofJsonMembers h)

theorem ofJsonMembers_dropNullMembers {members : List (String × Json)}
    (h : ∀ member ∈ members, ofJson member.2.dropNulls = (ofJson member.2).dropNulls) :
    ofJsonMembers (Json.dropNullMembers members) = dropNullEntries (ofJsonMembers members) := by
  induction members with
  | nil => rfl
  | cons member members ih =>
    obtain ⟨hfirst, hrest⟩ := List.forall_mem_cons.1 h
    rw [Json.dropNullMembers, ofJsonMembers, dropNullEntries, ← ih hrest]
    simp only [kind_ofJson_eq_null]
    split
    · rfl
    · rw [ofJsonMembers, hfirst]

theorem ofJsonItems_dropNullsAll {items : List Json}
    (h : ∀ item ∈ items, ofJson item.dropNulls = (ofJson item).dropNulls) :
    ofJsonItems (Json.dropNullsAll items) = dropNullsAll (ofJsonItems items) := by
  induction items with
  | nil => rfl
  | cons item items ih =>
    obtain ⟨hfirst, hrest⟩ := List.forall_mem_cons.1 h
    rw [Json.dropNullsAll, ofJsonItems, hfirst, ih hrest, ofJsonItems, dropNullsAll]

/-- Nulls can be left out before or after JSON is turned into values. -/
theorem ofJson_dropNulls {depth : Nat} {json : Json} (h : json.Canonical depth) :
    ofJson json.dropNulls = (ofJson json).dropNulls := by
  induction h with
  | null => rfl
  | bool => rfl
  | integer => rfl
  | string => rfl
  | array h ih => rw [Json.dropNulls, ofJson, ofJson, dropNulls, ofJsonItems_dropNullsAll ih]
  | @object _ members hkeys h ih =>
    have hkept := hkeys.sublist (Json.keys_dropNullMembers members)
    rw [Json.dropNulls, ofJson, ofJson, dropNulls, entries_ofList_ofJsonMembers hkeys,
      entries_ofList_ofJsonMembers hkept, ofJsonMembers_dropNullMembers ih]

/-! ## What a value holds -/

section

variable {α : Type} {p : α → Value → Prop} {encode : α → Json}

/-- The value is a map with an entry under the key that satisfies `p`. -/
def HasEntry (key : String) (p : Value → Prop) (value : Value) : Prop :=
  ∃ entries entry, value = .map entries ∧ entries.lookup key = some entry ∧ p entry

/-- The value is a list of the same length, item by item. -/
def IsList (p : α → Value → Prop) (items : List α) (value : Value) : Prop :=
  ∃ values, value = .list values ∧ List.Forall₂ p items values

/-- The value is null for what is absent. -/
def IsOptional (p : α → Value → Prop) : Option α → Value → Prop
  | some item, value => p item value
  | none, value => value = .null

def IsString (text : String) (value : Value) : Prop := value = .string text

def IsBool (truth : Bool) (value : Value) : Prop := value = .bool truth

theorem isString_ofJson (text : String) : IsString text (ofJson (.string text)) := rfl

theorem isBool_ofJson (truth : Bool) : IsBool truth (ofJson (.bool truth)) := rfl

theorem isOptional_ofJson (h : ∀ item, p item (ofJson (encode item))) (item : Option α) :
    IsOptional p item (ofJson (.optional encode item)) := by
  cases item with
  | none => rfl
  | some item => exact h item

theorem isList_ofJson (h : ∀ item, p item (ofJson (encode item))) (items : List α) :
    IsList p items (ofJson (.array (items.map encode))) := by
  refine ⟨_, rfl, ?_⟩
  rw [ofJsonItems_eq, List.map_map, List.forall₂_map_right_iff]
  exact List.forall₂_same.2 fun item _ => h item

theorem hasEntry_ofJson {p : Value → Prop} {depth : Nat} {members : List (String × Json)}
    (h : Json.Canonical depth (.object members)) {key : String} {json : Json}
    (hmember : (key, json) ∈ members) (hjson : p (ofJson json)) :
    HasEntry key p (ofJson (.object members)) := by
  cases h with
  | object hkeys _ =>
    have hentry : (key, ofJson json) ∈ ofJsonMembers members := by
      rw [ofJsonMembers_eq]
      exact List.mem_map.2 ⟨_, hmember, rfl⟩
    refine ⟨_, _, by rw [ofJson], ?_, hjson⟩
    rw [entries_ofList_ofJsonMembers hkeys]
    exact Table.lookup_of_mem (pairwise_ofJsonMembers hkeys) hentry

end

end Value

/-- A table without its null entries and those of the maps inside it. -/
def Table.dropNulls (table : Table Value) : Table Value where
  entries := Value.dropNullEntries table.entries
  sorted := List.pairwise_map.1
    ((List.pairwise_map.2 table.sorted).sublist (Value.names_dropNullEntries table.entries))

open Value (HasEntry IsBool IsList IsOptional IsString hasEntry_ofJson isBool_ofJson isList_ofJson
  isOptional_ofJson isString_ofJson)

/-- An address under the key `url`. -/
def IsLink (url : String) : Value → Prop := HasEntry "url" (IsString url)

theorem isLink_ofJson (url : String) : IsLink url (.ofJson (.link url)) :=
  hasEntry_ofJson (Json.canonical_link 0 url) (by simp) (isString_ofJson url)

structure Author.IsHeldBy (author : Author) (value : Value) : Prop where
  name : value.HasEntry "name" (IsString author.name)
  url : value.HasEntry "url" (IsOptional IsString author.url)
  icon : value.HasEntry "icon_url" (IsOptional IsString author.icon)

theorem Author.isHeldBy_ofJson (author : Author) : author.IsHeldBy (.ofJson author.toJson) where
  name := hasEntry_ofJson (author.canonical_toJson 0) (by simp) (isString_ofJson _)
  url := hasEntry_ofJson (author.canonical_toJson 0) (by simp) (isOptional_ofJson isString_ofJson _)
  icon :=
    hasEntry_ofJson (author.canonical_toJson 0) (by simp) (isOptional_ofJson isString_ofJson _)

structure Footer.IsHeldBy (footer : Footer) (value : Value) : Prop where
  text : value.HasEntry "text" (IsString footer.text)
  icon : value.HasEntry "icon_url" (IsOptional IsString footer.icon)

theorem Footer.isHeldBy_ofJson (footer : Footer) : footer.IsHeldBy (.ofJson footer.toJson) where
  text := hasEntry_ofJson (footer.canonical_toJson 0) (by simp) (isString_ofJson _)
  icon :=
    hasEntry_ofJson (footer.canonical_toJson 0) (by simp) (isOptional_ofJson isString_ofJson _)

structure Field.IsHeldBy (field : Field) (value : Value) : Prop where
  title : value.HasEntry "name" (IsString field.title)
  text : value.HasEntry "value" (IsString field.text)
  inline : value.HasEntry "inline" (IsBool field.inline)

theorem Field.isHeldBy_ofJson (field : Field) : field.IsHeldBy (.ofJson field.toJson) where
  title := hasEntry_ofJson (field.canonical_toJson 0) (by simp) (isString_ofJson _)
  text := hasEntry_ofJson (field.canonical_toJson 0) (by simp) (isString_ofJson _)
  inline := hasEntry_ofJson (field.canonical_toJson 0) (by simp) (isBool_ofJson _)

/-- The number for a color. -/
def IsColor (color : Int64) (value : Value) : Prop := value = .number (Float.ofInt color.toInt)

theorem isColor_ofJson (color : Int64) : IsColor color (.ofJson (.integer color.toInt)) := by
  rw [IsColor, Value.ofJson]

def IsTimestamp (instant : Calendar.Instant) : Value → Prop := IsString (instant.text .letter)

structure Embed.IsHeldBy (embed : Embed) (value : Value) : Prop where
  title : value.HasEntry "title" (IsOptional IsString embed.title)
  type : value.HasEntry "type" (IsString "rich")
  description : value.HasEntry "description" (IsOptional IsString embed.description)
  url : value.HasEntry "url" (IsOptional IsString embed.url)
  timestamp : value.HasEntry "timestamp" (IsOptional IsTimestamp embed.timestamp)
  color : value.HasEntry "color" (IsOptional IsColor embed.color)
  author : value.HasEntry "author" (IsOptional Author.IsHeldBy embed.author)
  image : value.HasEntry "image" (IsOptional IsLink embed.image)
  footer : value.HasEntry "footer" (IsOptional Footer.IsHeldBy embed.footer)
  fields : value.HasEntry "fields" (IsList Field.IsHeldBy embed.fields)

theorem Embed.isHeldBy_ofJson (embed : Embed) : embed.IsHeldBy (.ofJson embed.toJson) := by
  have hcanonical := embed.canonical_toJson 0
  constructor
  · exact hasEntry_ofJson hcanonical (by simp) (isOptional_ofJson isString_ofJson _)
  · exact hasEntry_ofJson hcanonical (by simp) (isString_ofJson _)
  · exact hasEntry_ofJson hcanonical (by simp) (isOptional_ofJson isString_ofJson _)
  · exact hasEntry_ofJson hcanonical (by simp) (isOptional_ofJson isString_ofJson _)
  · exact hasEntry_ofJson hcanonical (by simp) (isOptional_ofJson (fun _ => isString_ofJson _) _)
  · exact hasEntry_ofJson hcanonical (by simp) (isOptional_ofJson isColor_ofJson _)
  · exact hasEntry_ofJson hcanonical (by simp) (isOptional_ofJson Author.isHeldBy_ofJson _)
  · exact hasEntry_ofJson hcanonical (by simp) (isOptional_ofJson isLink_ofJson _)
  · exact hasEntry_ofJson hcanonical (by simp) (isOptional_ofJson Footer.isHeldBy_ofJson _)
  · exact hasEntry_ofJson hcanonical (by simp) (isList_ofJson Field.isHeldBy_ofJson _)

structure Document.IsHeldBy (document : Document) (value : Value) : Prop where
  content : value.HasEntry "content" (IsOptional IsString document.content)
  attachments : value.HasEntry "attachments" (IsList IsLink document.attachments)
  embeds : value.HasEntry "embeds" (IsList Embed.IsHeldBy document.embeds)

namespace Document

theorem isHeldBy_ofJson (document : Document) : document.IsHeldBy (.ofJson document.toJson) where
  content := hasEntry_ofJson (document.canonical_toJson 0) (by simp)
    (isOptional_ofJson isString_ofJson _)
  attachments := hasEntry_ofJson (document.canonical_toJson 0) (by simp)
    (isList_ofJson isLink_ofJson _)
  embeds := hasEntry_ofJson (document.canonical_toJson 0) (by simp)
    (isList_ofJson Embed.isHeldBy_ofJson _)

/-- The text of a document is a context that holds the document, and without nulls it is the same
context without nulls. -/
theorem constantsOfText_text (document : Document) :
    ∃ constants : Table Value, constants.names = ["attachments", "content", "embeds"] ∧
      document.IsHeldBy (.map constants.entries) ∧
      (∀ layout, constantsOfText (document.text .include layout) = .ok constants) ∧
      ∀ layout, constantsOfText (document.text .omit layout) = .ok constants.dropNulls := by
  obtain ⟨members, hjson, hnames⟩ : ∃ members, document.toJson = .object members ∧
      members.map Prod.fst = ["attachments", "content", "embeds"] := ⟨_, rfl, rfl⟩
  have hkeys : (members.map Prod.fst).Pairwise (· < ·) := by
    rw [hnames]
    decide
  have hheld : document.IsHeldBy (.ofJson (.object members)) := hjson ▸ document.isHeldBy_ofJson
  have hcanonical : Json.Canonical 5 (.object members) := hjson ▸ document.canonical_toJson 0
  rw [Value.ofJson] at hheld
  refine ⟨.ofList (Value.ofJsonMembers members), ?_, hheld, fun layout => ?_, fun layout => ?_⟩
  · rw [Table.names, Value.entries_ofList_ofJsonMembers hkeys, Value.ofJsonMembers_eq, List.map_map]
    exact hnames
  · rw [constantsOfText, ofText?_text, toJsonUnder, hjson]
  · have hentries := Value.ofJson_dropNulls hcanonical
    rw [Json.dropNulls, Value.ofJson, Value.ofJson, Value.dropNulls] at hentries
    rw [constantsOfText, ofText?_text, toJsonUnder, hjson, Json.dropNulls]
    exact congrArg Except.ok (Table.eq_of_entries_eq (Value.map.inj hentries))

end Document
end MessageTemplate
