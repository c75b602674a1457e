import Mathlib.Data.List.Forall2
import MessageTemplate.Proofs.Json.Reading

/-!
# Reading undoes writing

A canonical value that does not nest too deep is read back from its text in
either layout (`ofText?_write`). The items of an array and the members of an object are rows
of the same form, with blanks wherever a layout breaks the line.
-/

namespace MessageTemplate
namespace Json

/-- Values with arrays and objects at most `depth` deep, integers of at most 64 bits, no other
numbers, and the members of each object in increasing order of their keys. -/
inductive Canonical : Nat → Json → Prop
  | null {depth : Nat} : Canonical depth .null
  | bool {depth : Nat} {value : Bool} : Canonical depth (.bool value)
  | integer {depth : Nat} {value : Int} (h : Reader.IsExact value) :
    Canonical depth (.integer value)
  | string {depth : Nat} {value : String} : Canonical depth (.string value)
  | array {depth : Nat} {items : List Json} (h : ∀ item ∈ items, Canonical depth item) :
      Canonical (depth + 1) (.array items)
  | object {depth : Nat} {members : List (String × Json)}
      (hkeys : (members.map Prod.fst).Pairwise (· < ·))
      (h : ∀ member ∈ members, Canonical depth member.2) : Canonical (depth + 1) (.object members)

/-! ## The writer on lists -/

section

variable (layout : Layout) (depth : Nat)

theorem writeItems_eq (items : List Json) :
    writeItems layout depth items = items.map (writeAt layout depth) := by
  induction items with
  | nil => rfl
  | cons item items ih => rw [writeItems, ih, List.map_cons]

theorem writeMembers_eq (members : List (String × Json)) :
    writeMembers layout depth members = members.map fun member =>
      quoted member.1 ++ layout.colon ++ member.2.writeAt layout depth := by
  induction members with
  | nil => rfl
  | cons member members ih => rw [writeMembers, ih, List.map_cons]

theorem isBlank_of_mem_lineBreak {c : Char} (h : c ∈ layout.lineBreak depth) :
    Reader.isBlank c = true := by
  cases layout with
  | compact => contradiction
  | pretty =>
    rcases List.mem_cons.1 h with rfl | hspace
    · rfl
    · rw [List.eq_of_mem_replicate hspace]
      rfl

end

namespace Reader

/-! ## Rows -/

section

variable {α : Type}

/-- One thing or more, separated by commas, up to a closing character. -/
def rowWithin (rule : Reader α) (closing : Char) : Nat → Reader (List α)
  | 0 => failure
  | rounds + 1 => do
    let first ← rule
    skipBlanks
    if ← accept ',' then
      return first :: (← rowWithin rule closing rounds)
    else
      require closing
      return [first]

theorem itemsWithin_eq (item : Reader Json) (rounds : Nat) :
    itemsWithin item rounds = rowWithin item ']' rounds := by
  induction rounds with
  | zero => rfl
  | succ rounds ih => rw [itemsWithin, rowWithin, ih]

theorem membersWithin_eq (item : Reader Json) (rounds : Nat) :
    membersWithin item rounds = rowWithin (member item) '}' rounds := by
  induction rounds with
  | zero => rfl
  | succ rounds ih => rw [membersWithin, rowWithin, ih]

/-- Behind any blanks, and in front of anything but a longer number, the rule takes the text for the
value. -/
def Reads (rule : Reader α) (text : List Char) (value : α) : Prop :=
  ∀ blanks rest : List Char, (∀ c ∈ blanks, isBlank c = true) → EndsNumber rest →
    Gives rule (blanks ++ (text ++ rest)) value rest

/-- The characters that stand behind an item. -/
def IsDelimiter (c : Char) : Prop := c = ',' ∨ c = ']' ∨ c = '}'

theorem IsDelimiter.isBlank {c : Char} (h : IsDelimiter c) : isBlank c = false := by
  rcases h with rfl | rfl | rfl <;> decide

/-- Behind an item comes a delimiter, perhaps with a line break in front of it. -/
theorem endsNumber_of_delimiter (layout : Layout) (depth : Nat) {c : Char} (hc : IsDelimiter c)
    (rest : List Char) : EndsNumber (layout.lineBreak depth ++ c :: rest) := by
  intro first hfirst
  cases layout with
  | compact =>
    obtain rfl := Option.some.inj hfirst
    rcases hc with rfl | rfl | rfl <;> decide
  | pretty =>
    obtain rfl := Option.some.inj hfirst
    decide

variable {rule : Reader α} {layout : Layout} {depth : Nat} {closing : Char}

/-- What a layout puts behind the first item of a row: the others, each behind a comma, and the
closing character. -/
def rowRest (layout : Layout) (depth : Nat) (closing : Char) (texts : List (List Char)) :
    List Char :=
  texts.flatMap (fun text => ',' :: (layout.lineBreak (depth + 1) ++ text)) ++
    (layout.lineBreak depth ++ [closing])

theorem length_le_rowRest (texts : List (List Char)) :
    texts.length ≤ (rowRest layout depth closing texts).length := by
  induction texts with
  | nil => exact Nat.zero_le _
  | cons text texts ih =>
    rw [rowRest, List.flatMap_cons, List.append_assoc, List.length_append]
    change _ ≤ _ + (rowRest layout depth closing texts).length
    simp only [List.length_cons]
    omega

theorem enclose_cons (opening : Char) (text : List Char) (texts : List (List Char)) :
    enclose layout depth opening closing (text :: texts) =
      opening ::
        (layout.lineBreak (depth + 1) ++ (text ++ rowRest layout depth closing texts)) := by
  have hrow : [','].intercalate
      ((text :: texts).map fun text => layout.lineBreak (depth + 1) ++ text) =
      layout.lineBreak (depth + 1) ++ (text ++
        texts.flatMap fun text => ',' :: (layout.lineBreak (depth + 1) ++ text)) := by
    induction texts generalizing text with
    | nil => simp
    | cons second texts ih =>
      rw [List.map_cons, List.map_cons, List.intercalate_cons_cons, ← List.map_cons, ih second]
      simp
  rw [enclose, hrow]
  simp [rowRest]

/-- A written row is read back in as many rounds as it has items. -/
theorem rowWithin_gives (hclosing : closing = ']' ∨ closing = '}') {text : List Char} {value : α}
    {texts : List (List Char)} {values : List α} (hfirst : Reads rule text value)
    (hothers : List.Forall₂ (Reads rule) texts values) {blanks : List Char}
    (hblanks : ∀ c ∈ blanks, isBlank c = true) (rest : List Char) {rounds : Nat}
    (hrounds : values.length < rounds) :
    Gives (rowWithin rule closing rounds)
      (blanks ++ (text ++ (rowRest layout depth closing texts ++ rest))) (value :: values)
      rest := by
  have hdelimiter : IsDelimiter closing := .inr hclosing
  induction hothers generalizing text value blanks rounds with
  | nil =>
    obtain ⟨rounds, rfl⟩ := Nat.exists_eq_add_of_lt hrounds
    have hrest : rowRest layout depth closing [] ++ rest =
        layout.lineBreak depth ++ closing :: rest := by
      simp [rowRest]
    rw [hrest]
    refine (hfirst _ _ hblanks (endsNumber_of_delimiter layout depth hdelimiter rest)).bind ?_
    refine (skipBlanks_gives (fun _ => isBlank_of_mem_lineBreak layout depth) ?_).bind ?_
    · rintro c ⟨⟩
      exact hdelimiter.isBlank
    · refine (accept_refuses ?_).bind (require_gives.bind (.pure _ _))
      rcases hclosing with rfl | rfl <;> simp
  | @cons second secondValue texts values hsecond hmore ih =>
    obtain ⟨rounds, rfl⟩ : ∃ fewer, rounds = fewer + 1 := ⟨rounds - 1, by simp at hrounds; omega⟩
    have hrest : rowRest layout depth closing (second :: texts) ++ rest =
        ',' :: (layout.lineBreak (depth + 1) ++
          (second ++ (rowRest layout depth closing texts ++ rest))) := by
      simp [rowRest]
    have hcomma : IsDelimiter ',' := .inl rfl
    rw [hrest]
    refine (hfirst _ _ hblanks (endsNumber_of_delimiter .compact 0 hcomma _)).bind ?_
    refine (skipBlanks_stays ?_).bind ?_
    · rintro c ⟨⟩
      exact hcomma.isBlank
    · have hblanks : ∀ c ∈ layout.lineBreak (depth + 1), isBlank c = true :=
        fun _ => isBlank_of_mem_lineBreak layout (depth + 1)
      exact accept_gives.bind
        ((ih hsecond hblanks (Nat.lt_of_succ_lt_succ hrounds)).bind (.pure _ _))

/-- The things behind an opening character, where none may be there. -/
def rowsWithin (rule : Reader α) (closing : Char) : Reader (List α) := do
  skipBlanks
  if ← accept closing then return []
  else bounded (rowWithin rule closing)

/-- The text does not start with a blank or the closing character. -/
def Opens (closing : Char) (text : List Char) : Prop :=
  ∃ c others, text = c :: others ∧ isBlank c = false ∧ c ≠ closing

/-- What the writer encloses is read back behind the opening character. -/
theorem rowsWithin_gives (hclosing : closing = ']' ∨ closing = '}') (opening : Char)
    {texts : List (List Char)} {values : List α} (hread : List.Forall₂ (Reads rule) texts values)
    (hopens : ∀ text ∈ texts, Opens closing text) (rest : List Char) :
    Gives (rowsWithin rule closing) ((enclose layout depth opening closing texts).tail ++ rest)
      values rest := by
  cases hread with
  | nil =>
    refine (skipBlanks_stays ?_).bind (accept_gives.bind (.pure _ _))
    rintro c ⟨⟩
    rcases hclosing with rfl | rfl <;> decide
  | @cons text value texts values hfirst hothers =>
    obtain ⟨c, others, rfl, hblank, hne⟩ := hopens text List.mem_cons_self
    have htail : (enclose layout depth opening closing ((c :: others) :: texts)).tail ++ rest =
        layout.lineBreak (depth + 1) ++
          ((c :: others) ++ (rowRest layout depth closing texts ++ rest)) := by
      rw [enclose_cons, List.tail_cons, List.append_assoc, List.append_assoc]
    have hrounds : values.length <
        ((c :: others) ++ (rowRest layout depth closing texts ++ rest)).length + 1 := by
      have hlength : texts.length ≤ (rowRest layout depth closing texts).length :=
        length_le_rowRest texts
      rw [← hothers.length_eq]
      simp only [List.length_append]
      omega
    have hnone : ∀ c ∈ ([] : List Char), isBlank c = true := fun _ h => by contradiction
    rw [htail]
    refine (skipBlanks_gives (fun _ => isBlank_of_mem_lineBreak layout (depth + 1)) ?_).bind ?_
    · rintro c ⟨⟩
      exact hblank
    · exact (accept_refuses (by simpa using hne)).bind
        (Gives.bounded (rowWithin_gives hclosing hfirst hothers hnone rest hrounds))

theorem items_eq (item : Reader Json) : items item = .array <$> rowsWithin item ']' := by
  have hrounds : itemsWithin item = rowWithin item ']' := funext (itemsWithin_eq item)
  simp only [items, rowsWithin, hrounds, map_bind, bind_pure_comp, apply_ite, map_pure]

theorem members_eq (item : Reader Json) :
    members item = .object <$> rowsWithin (member item) '}' := by
  have hrounds : membersWithin item = rowWithin (member item) '}' := funext (membersWithin_eq item)
  simp only [members, rowsWithin, hrounds, map_bind, bind_pure_comp, apply_ite, map_pure]

end

/-! ## Values -/

section

variable {inner : Option (Reader Json)} {text : List Char} {json : Json}

/-- A rule that skips blanks first reads a text behind blanks as it reads the text alone. -/
theorem reads_of_gives {rule : Unit → Reader Json}
    (htext : ∀ rest, ∀ c ∈ (text ++ rest).head?, isBlank c = false)
    (h : ∀ rest, EndsNumber rest → Gives (rule ()) (text ++ rest) json rest) :
    Reads (skipBlanks >>= rule) text json := by
  intro blanks rest hblanks hrest
  exact (skipBlanks_gives hblanks (htext rest)).bind (h rest hrest)

theorem reads_null : Reads (valueRule inner) "null".toList .null := by
  apply reads_of_gives
  · rintro rest c ⟨⟩
    rfl
  · intro rest _
    exact (Gives.get _).bind ((requireAll_gives _ rest).bind (.pure _ _))

theorem reads_bool (value : Bool) :
    Reads (valueRule inner) (if value then "true" else "false").toList (.bool value) := by
  apply reads_of_gives
  · cases value <;>
    · rintro rest c ⟨⟩
      rfl
  · intro rest _
    cases value <;> exact (Gives.get _).bind ((requireAll_gives _ rest).bind (.pure _ _))

theorem reads_string (value : String) : Reads (valueRule inner) (quoted value) (.string value) := by
  apply reads_of_gives
  · rintro rest c ⟨⟩
    rfl
  · intro rest _
    apply (Gives.get _).bind
    rw [quoted, List.append_assoc]
    exact require_gives.bind ((string_gives value rest).bind (.pure _ _))

/-- What the text of an integer starts with. -/
def StartsInteger (c : Char) : Prop := c = '-' ∨ c.isDigit = true

theorem intDigits_eq_cons (n : Int) :
    ∃ c others, Decimal.intDigits n = c :: others ∧ StartsInteger c := by
  unfold Decimal.intDigits
  split
  · exact ⟨_, _, rfl, .inl rfl⟩
  · obtain ⟨c, others, hdigits⟩ := List.exists_cons_of_ne_nil (Decimal.digits_ne_nil n.natAbs)
    exact ⟨c, others, hdigits, .inr (Decimal.isDigit_of_mem_digits (hdigits ▸ List.mem_cons_self))⟩

theorem StartsInteger.ne {c d : Char} (h : StartsInteger c)
    (hd : d ∈ [' ', '\n', '\t', '\r', 'n', 't', 'f', '"', '[', '{', ']']) : c ≠ d := by
  have hothers : [' ', '\n', '\t', '\r', 'n', 't', 'f', '"', '[', '{', ']'].all
      (fun d => d != '-' && !d.isDigit) = true := by decide
  rintro rfl
  have hc := List.all_eq_true.1 hothers c hd
  rcases h with rfl | hdigit
  · contradiction
  · rw [hdigit, Bool.not_true, Bool.and_false] at hc
    contradiction

theorem StartsInteger.isBlank {c : Char} (h : StartsInteger c) : isBlank c = false := by
  have hspace : c ≠ ' ' := h.ne (by simp)
  have hline : c ≠ '\n' := h.ne (by simp)
  have htab : c ≠ '\t' := h.ne (by simp)
  have hreturn : c ≠ '\r' := h.ne (by simp)
  simp [Reader.isBlank, hspace, hline, htab, hreturn]

theorem reads_integer {n : Int} (h : IsExact n) :
    Reads (valueRule inner) (Decimal.intDigits n) (.integer n) := by
  obtain ⟨c, others, hdigits, hc⟩ := intDigits_eq_cons n
  apply reads_of_gives
  · rw [hdigits]
    rintro rest _ ⟨⟩
    exact hc.isBlank
  · intro rest hrest
    have hnumber := number_gives h hrest
    apply (Gives.get _).bind
    rw [hdigits] at hnumber ⊢
    split <;> try exact hnumber
    all_goals
      rename_i hhead
      exact absurd (Option.some.inj hhead) (hc.ne (by simp))

theorem enclose_eq_cons (layout : Layout) (depth : Nat) (opening closing : Char)
    (texts : List (List Char)) :
    enclose layout depth opening closing texts =
      opening :: (enclose layout depth opening closing texts).tail := by
  cases texts with
  | nil => rfl
  | cons text texts => rw [enclose_cons, List.tail_cons]

variable {layout : Layout} {level : Nat} {item : Reader Json}

theorem reads_array {items : List Json}
    (hread : ∀ value ∈ items, Reads item (value.writeAt layout (level + 1)) value)
    (hopens : ∀ value ∈ items, Opens ']' (value.writeAt layout (level + 1))) :
    Reads (valueRule (some item)) (writeAt layout level (.array items)) (.array items) := by
  have hrows : List.Forall₂ (Reads item) (items.map (writeAt layout (level + 1))) items :=
    List.forall₂_map_left_iff.2 (List.forall₂_same.2 hread)
  rw [writeAt, writeItems_eq, enclose_eq_cons]
  apply reads_of_gives
  · rintro rest c ⟨⟩
    rfl
  · intro rest _
    refine (Gives.get _).bind (Gives.bind (.pure item _) (require_gives.bind ?_))
    rw [items_eq, ← bind_pure_comp]
    exact (rowsWithin_gives (.inl rfl) '[' hrows (by simpa using hopens) rest).bind (.pure _ _)

theorem reads_member {member : String × Json}
    (hread : Reads item (member.2.writeAt layout (level + 1)) member.2) :
    Reads (Reader.member item)
      (quoted member.1 ++ layout.colon ++ member.2.writeAt layout (level + 1)) member := by
  intro blanks rest hblanks hrest
  obtain ⟨spaces, hcolon, hspaces⟩ : ∃ spaces, layout.colon = ':' :: spaces ∧
      ∀ c ∈ spaces, isBlank c = true := by
    cases layout with
    | compact => exact ⟨[], rfl, by simp⟩
    | pretty => exact ⟨[' '], rfl, List.forall_mem_singleton.2 rfl⟩
  rw [quoted, hcolon]
  simp only [List.append_assoc, List.cons_append, List.nil_append]
  refine (skipBlanks_gives hblanks ?_).bind (require_gives.bind ((string_gives _ _).bind
    ((skipBlanks_stays ?_).bind (require_gives.bind ?_))))
  · rintro c ⟨⟩
    rfl
  · rintro c ⟨⟩
    rfl
  · exact (hread spaces rest hspaces hrest).bind (.pure _ _)

theorem reads_object {members : List (String × Json)}
    (hread : ∀ member ∈ members, Reads item (member.2.writeAt layout (level + 1)) member.2) :
    Reads (valueRule (some item)) (writeAt layout level (.object members)) (.object members) := by
  have hrows : List.Forall₂ (Reads (member item)) (members.map fun member =>
      quoted member.1 ++ layout.colon ++ member.2.writeAt layout (level + 1)) members :=
    List.forall₂_map_left_iff.2 (List.forall₂_same.2 fun member h => reads_member (hread member h))
  rw [writeAt, writeMembers_eq, enclose_eq_cons]
  apply reads_of_gives
  · rintro rest c ⟨⟩
    rfl
  · intro rest _
    refine (Gives.get _).bind (Gives.bind (.pure item _) (require_gives.bind ?_))
    rw [members_eq, ← bind_pure_comp]
    refine (rowsWithin_gives (.inr rfl) '{' hrows ?_ rest).bind (.pure _ _)
    rintro _ hmem
    obtain ⟨member, -, rfl⟩ := List.mem_map.1 hmem
    exact ⟨'"', _, rfl, rfl, by decide⟩

theorem valueAt_eq (depth : Nat) : ∃ inner, valueAt depth = valueRule inner := by
  cases depth with
  | zero => exact ⟨none, rfl⟩
  | succ depth => exact ⟨some (valueAt depth), rfl⟩

theorem opens_writeAt {depth : Nat} (h : Canonical depth json) :
    Opens ']' (json.writeAt layout level) := by
  cases h with
  | null => exact ⟨'n', _, rfl, rfl, by decide⟩
  | @bool _ value =>
    cases value
    · exact ⟨'f', _, rfl, rfl, by decide⟩
    · exact ⟨'t', _, rfl, rfl, by decide⟩
  | @integer _ value hexact =>
    obtain ⟨c, others, hdigits, hc⟩ := intDigits_eq_cons value
    exact ⟨c, others, hdigits, hc.isBlank, hc.ne (by simp)⟩
  | string => exact ⟨'"', _, rfl, rfl, by decide⟩
  | array => exact ⟨'[', _, by rw [writeAt]; exact enclose_eq_cons .., rfl, by decide⟩
  | object => exact ⟨'{', _, by rw [writeAt]; exact enclose_eq_cons .., rfl, by decide⟩

theorem reads_valueAt {depth : Nat} (h : Canonical depth json) :
    Reads (valueAt depth) (json.writeAt layout level) json := by
  induction h generalizing level with
  | @null depth =>
    obtain ⟨inner, hrule⟩ := valueAt_eq depth
    exact hrule ▸ reads_null
  | @bool depth value =>
    obtain ⟨inner, hrule⟩ := valueAt_eq depth
    exact hrule ▸ reads_bool value
  | @integer depth value hexact =>
    obtain ⟨inner, hrule⟩ := valueAt_eq depth
    exact hrule ▸ reads_integer hexact
  | @string depth value =>
    obtain ⟨inner, hrule⟩ := valueAt_eq depth
    exact hrule ▸ reads_string value
  | array h ih =>
    exact reads_array (fun item hitem => ih item hitem) fun item hitem =>
      opens_writeAt (h item hitem)
  | object hkeys h ih => exact reads_object fun member hmember => ih member hmember

end

end Reader

/-- A canonical value is read back from its text. -/
theorem ofText?_write {json : Json} (h : Canonical Reader.depthLimit json) (layout : Layout) :
    ofText? (json.write layout) = some json := by
  have hdocument : Reader.Gives Reader.document (json.writeAt layout 0) json [] := by
    have hvalue : Reader.Reads (Reader.valueAt Reader.depthLimit) (json.writeAt layout 0) json :=
      Reader.reads_valueAt h
    have hread := hvalue [] [] (by simp) (by simp [Reader.EndsNumber])
    rw [List.append_nil, List.nil_append] at hread
    exact hread.bind ((Reader.skipBlanks_stays (by simp)).bind ((Reader.Gives.get _).bind
      (.pure json [])))
  rw [ofText?, write, String.toList_ofList]
  change (Reader.document _).map _ = _
  rw [hdocument]
  rfl

end Json
end MessageTemplate
