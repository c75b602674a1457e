import MessageTemplate.Proofs.Grammar.Rendition
import MessageTemplate.Proofs.Grammar.Texts

/-!
# Nodes stand at the first token of their texts

What a form takes in front of a list is the text of a node, and is made of the
texts of the nodes inside it. So the tree of a text that is read is a tree of own
texts in which the place of each text stands instead of the text.
-/

namespace MessageTemplate

/-- A text of the language stands in front of `rest`. -/
def Stands (texts : Language Lexeme) (ls rest : List Lexeme) : Prop :=
  ∃ text ∈ texts, ls = text ++ rest

namespace Stands

variable {first second : Language Lexeme} {ls mid next rest : List Lexeme}

theorem one : Stands 1 ls ls := ⟨[], rfl, rfl⟩

theorem takes {token : Token} (h : Takes token ls rest) : Stands (tok token) ls rest := by
  obtain ⟨place, rfl⟩ := h
  exact ⟨_, ⟨place, rfl⟩, rfl⟩

theorem mul (hfirst : Stands first ls mid) (hsecond : Stands second mid rest) :
    Stands (first * second) ls rest := by
  obtain ⟨front, hfront, rfl⟩ := hfirst
  obtain ⟨text, htext, rfl⟩ := hsecond
  exact ⟨front ++ text, Language.append_mem_mul hfront htext, (List.append_assoc _ _ _).symm⟩

theorem left (h : Stands first ls rest) : Stands (first + second) ls rest := by
  obtain ⟨text, htext, hls⟩ := h
  exact ⟨text, .inl htext, hls⟩

theorem right (h : Stands second ls rest) : Stands (first + second) ls rest := by
  obtain ⟨text, htext, hls⟩ := h
  exact ⟨text, .inr htext, hls⟩

theorem between {start stop : Symbol} (hopen : Takes (.symbol start) ls mid)
    (h : Stands first mid next) (hclose : Takes (.symbol stop) next rest) :
    Stands (between start stop first) ls rest :=
  ((takes hopen).mul h).mul (takes hclose)

end Stands

/-- The texts that a form takes have the layout of a marked value, and reading their places off it
gives the value of the form. -/
def Lays {α β : Type} (form : Form α) (read : β → α) (texts : β → Language Lexeme)
    (good : β → Prop) : Prop :=
  ∀ ls value rest, form ls value rest →
    ∃ marked, good marked ∧ read marked = value ∧ Stands (texts marked) ls rest

/-! ## Lists -/

theorem commas_singleton (item : Language Lexeme) : commas [item] = item := by
  rw [commas, List.intersperse_singleton, List.prod_singleton]

theorem commas_cons_cons (first second : Language Lexeme) (items : List (Language Lexeme)) :
    commas (first :: second :: items) = first * (sym .comma * commas (second :: items)) := by
  rw [commas, List.intersperse_cons_cons, List.prod_cons, List.prod_cons, commas]

theorem commas_cons (first : Language Lexeme) (items : List (Language Lexeme)) :
    commas (first :: items) = first * (items.map fun item => sym .comma * item).prod := by
  induction items generalizing first with
  | nil => simp [commas]
  | cons second items ih =>
    rw [commas_cons_cons, ih, List.map_cons, List.prod_cons, mul_assoc]

section

variable {α β : Type} {form : Form α} {read : β → α} {texts : β → Language Lexeme}
  {good : β → Prop} {ls mid rest : List Lexeme} {values : List α} {value? : Option α}

theorem Separated.lays (h : Lays form read texts good) (hitems : Separated form ls values rest) :
    ∃ marked : List β, (∀ m ∈ marked, good m) ∧ marked.map read = values ∧
      Stands (commas (marked.map texts)) ls rest := by
  induction hitems with
  | one hitem =>
    obtain ⟨m, hgood, rfl, hstands⟩ := h _ _ _ hitem
    refine ⟨[m], by simpa using hgood, rfl, ?_⟩
    rw [List.map_singleton, commas_singleton]
    exact hstands
  | more hitem hcomma hmore ih =>
    obtain ⟨m, hgood, rfl, hstands⟩ := h _ _ _ hitem
    obtain ⟨marked, hmarked, rfl, hrest⟩ := ih
    refine ⟨m :: marked, List.forall_mem_cons.2 ⟨hgood, hmarked⟩, rfl, ?_⟩
    cases marked with
    | nil => cases hmore
    | cons next marked =>
      rw [List.map_cons, List.map_cons, commas_cons_cons]
      exact hstands.mul ((Stands.takes hcomma).mul hrest)

theorem Listed.lays (h : Lays form read texts good) {start close : Symbol}
    (hopen : Takes (.symbol start) ls mid) (hitems : Listed form close mid values rest) :
    ∃ marked : List β, (∀ m ∈ marked, good m) ∧ marked.map read = values ∧
      Stands (between start close (commas (marked.map texts))) ls rest := by
  cases hitems with
  | none hclose => exact ⟨[], by simp, rfl, .between hopen .one hclose⟩
  | some hitems hclose =>
    obtain ⟨marked, hgood, hread, hstands⟩ := hitems.lays h
    exact ⟨marked, hgood, hread, .between hopen hstands hclose⟩

theorem Repeated.lays (h : Lays form read texts good) (hitems : Repeated form ls values rest) :
    ∃ marked : List β, (∀ m ∈ marked, good m) ∧ marked.map read = values ∧
      Stands (marked.map texts).prod ls rest := by
  induction hitems with
  | done => exact ⟨[], by simp, rfl, .one⟩
  | more hitem _ ih =>
    obtain ⟨m, hgood, rfl, hstands⟩ := h _ _ _ hitem
    obtain ⟨marked, hmarked, rfl, hrest⟩ := ih
    exact ⟨m :: marked, List.forall_mem_cons.2 ⟨hgood, hmarked⟩, rfl, hstands.mul hrest⟩

theorem Following.lays (h : Lays form read texts good) (hvalue : Following form ls value? rest) :
    ∃ marked : Option β, (∀ m ∈ marked.toList, good m) ∧ marked.map read = value? ∧
      Stands (marked.toList.map fun m => sym .comma * texts m).prod ls rest := by
  cases hvalue with
  | none => exact ⟨Option.none, by simp, rfl, .one⟩
  | some hcomma hitem =>
    obtain ⟨m, hgood, rfl, hstands⟩ := h _ _ _ hitem
    exact ⟨Option.some m, by simpa using hgood, rfl, ((Stands.takes hcomma).mul hstands).mul .one⟩

theorem Optional.lays (h : Lays form read texts good) (hvalue : Optional form ls value? rest) :
    ∃ marked : Option β, (∀ m ∈ marked.toList, good m) ∧ marked.map read = value? ∧
      Stands (optional texts marked) ls rest := by
  cases hvalue with
  | none => exact ⟨Option.none, by simp, rfl, .one⟩
  | some hitem =>
    obtain ⟨m, hgood, rfl, hstands⟩ := h _ _ _ hitem
    exact ⟨Option.some m, by simpa using hgood, rfl, hstands⟩

variable {entry : String → Form α} {word : β → String}

theorem Entries.lays (h : ∀ name, Lays (entry name) read texts fun m => word m = name ∧ good m)
    (hentries : Entries entry ls values rest) :
    ∃ marked : List β, (∀ m ∈ marked, good m) ∧ marked.map read = values ∧
      Stands (commas (marked.map fun m => entryLayout (word m) (texts m)) * (1 + sym .comma))
        ls rest := by
  induction hentries with
  | none => exact ⟨[], by simp, rfl, Stands.one.mul Stands.one.left⟩
  | last hword hcolon hentry =>
    obtain ⟨m, ⟨rfl, hgood⟩, rfl, hstands⟩ := h _ _ _ _ hentry
    refine ⟨[m], by simpa using hgood, rfl, ?_⟩
    rw [List.map_singleton, commas_singleton]
    exact (((Stands.takes hword).mul (.takes hcolon)).mul hstands).mul Stands.one.left
  | more hword hcolon hentry hcomma hmore ih =>
    obtain ⟨m, ⟨rfl, hgood⟩, rfl, hstands⟩ := h _ _ _ _ hentry
    obtain ⟨marked, hmarked, rfl, hrest⟩ := ih
    have hfirst := ((Stands.takes hword).mul (.takes hcolon)).mul hstands
    refine ⟨m :: marked, List.forall_mem_cons.2 ⟨hgood, hmarked⟩, rfl, ?_⟩
    cases marked with
    | nil =>
      cases hmore
      rw [List.map_singleton, commas_singleton]
      exact hfirst.mul (Stands.takes hcomma).right
    | cons next marked =>
      rw [List.map_cons, List.map_cons, commas_cons_cons, mul_assoc, mul_assoc]
      exact hfirst.mul ((Stands.takes hcomma).mul hrest)

theorem ObjectForm.lays
    (h : ∀ name, Lays (entry name) read texts fun m => word m = name ∧ good m)
    (hobject : ObjectForm entry ls values rest) :
    ∃ marked : List β, (∀ m ∈ marked, good m) ∧ marked.map read = values ∧
      Stands (objectLayout (marked.map fun m => entryLayout (word m) (texts m))) ls rest := by
  obtain ⟨hopen, hentries, hclose⟩ := hobject
  obtain ⟨marked, hgood, hread, hstands⟩ := hentries.lays h
  exact ⟨marked, hgood, hread, .between hopen hstands hclose⟩

end

/-! ## Expressions -/

/-- The places that the texts of an expression stand for. -/
abbrev readExpr : Expr Literal Text → SourceExpr := Expr.mapPlace startOf

/-- A text that begins with a token that opens no group starts there. -/
theorem startOf_eq_placeOf {token : Token} {more : Language Lexeme} {text : Text}
    (htext : text ∈ tok token * more) (htoken : token ≠ .symbol .parenOpen)
    (rest : List Lexeme) : startOf text = placeOf (text ++ rest) := by
  obtain ⟨place, behind, -, rfl⟩ := mem_tok_mul.1 htext
  rw [startOf, inner_cons htoken]
  rfl

/-- A node that begins with a token of its own, which opens no group, stands there. -/
theorem exists_laidOut_of_stands {value : SourceExpr} {token : Token} {more : Language Lexeme}
    {ls rest : List Lexeme} (node : Text → Expr Literal Text)
    (hstands : Stands (tok token * more) ls rest) (htoken : token ≠ .symbol .parenOpen)
    (hlayout : ∀ text, (node text).layout = tok token * more)
    (hplace : ∀ text, (node text).place = text)
    (hchildren : ∀ text, ∀ child ∈ (node text).children, child.LaidOut)
    (hread : ∀ text, startOf text = placeOf ls → readExpr (node text) = value) :
    ∃ marked, marked.LaidOut ∧ readExpr marked = value ∧ Stands marked.groupings ls rest := by
  obtain ⟨text, htext, rfl⟩ := hstands
  refine ⟨node text, Expr.laidOut_iff.2 ⟨?_, hchildren text⟩,
    hread text (startOf_eq_placeOf htext htoken rest), text, ?_, rfl⟩
  · rw [hplace, hlayout]
    exact htext
  · change Grouped (node text).place text
    rw [hplace]
    exact .bare

theorem Phrase.lays (level : Nat) : Lays (Phrase level) readExpr Expr.groupings Expr.LaidOut := by
  intro ls value rest hphrase
  induction hphrase with
  | literal value htoken =>
    exact exists_laidOut_of_stands (fun text => .literal text value)
      ((Stands.takes htoken).mul .one) value.token_ne_parenOpen (fun _ => (mul_one _).symm)
      (fun _ => rfl) (fun _ => by simp [Expr.children])
      fun _ hplace => by rw [readExpr, Expr.mapPlace, hplace]
  | @var ls rest name hname hfree =>
    exact exists_laidOut_of_stands (fun text => .var text name)
      ((Stands.takes hname).mul .one) (by simp) (fun _ => (mul_one _).symm) (fun _ => rfl)
      (fun _ => by simp [Expr.children]) fun _ hplace => by rw [readExpr, Expr.mapPlace, hplace]
  | list hopen hitem hitems ih =>
    obtain ⟨marked, hgood, rfl, hstands⟩ := hitems.lays ih hopen
    rw [between, mul_assoc] at hstands
    exact exists_laidOut_of_stands (fun text => .list text marked) hstands (by simp)
      (fun _ => mul_assoc _ _ _) (fun _ => rfl) (fun _ => hgood)
      fun _ hplace => by rw [readExpr, Expr.mapPlace, hplace, Expr.mapPlaces_eq]
  | @call ls mid next rest name arguments item hname hfree hopen hitem hitems ih =>
    obtain ⟨marked, hgood, rfl, hstands⟩ := hitems.lays ih hopen
    exact exists_laidOut_of_stands (fun text => .call text name marked)
      ((Stands.takes hname).mul hstands) (by simp) (fun _ => rfl) (fun _ => rfl) (fun _ => hgood)
      fun _ hplace => by rw [readExpr, Expr.mapPlace, hplace, Expr.mapPlaces_eq]
  | paren hopen hvalue hclose ih =>
    obtain ⟨marked, hgood, hread, text, htext, rfl⟩ := ih
    obtain ⟨before, rfl⟩ := hopen
    obtain ⟨after, rfl⟩ := hclose
    exact ⟨marked, hgood, hread, _, .paren before after htext, by simp⟩
  | unary op hop hoperand ih =>
    obtain ⟨operand, hgood, rfl, hstands⟩ := ih
    exact exists_laidOut_of_stands (fun text => .unary text op operand)
      ((Stands.takes hop).mul hstands) op.token_ne_parenOpen (fun _ => rfl) (fun _ => rfl)
      (fun _ => List.forall_mem_singleton.2 hgood)
      fun _ hplace => by rw [readExpr, Expr.mapPlace, hplace]
  | binary op hleft hop hright ihleft ihright =>
    obtain ⟨left, hgoodLeft, rfl, hstandsLeft⟩ := ihleft
    obtain ⟨right, hgoodRight, rfl, hstandsRight⟩ := ihright
    obtain ⟨text, htext, rfl⟩ := hstandsLeft.mul ((Stands.takes hop).mul hstandsRight)
    have hlaid : (Expr.binary text op left right).LaidOut := by
      refine Expr.laidOut_iff.2 ⟨?_, by simpa [Expr.children] using ⟨hgoodLeft, hgoodRight⟩⟩
      rw [Expr.layout, mul_assoc]
      exact htext
    refine ⟨_, hlaid, ?_, text, .bare, rfl⟩
    -- The whole stands where its left operand does, also if that is in parentheses.
    have hplace : startOf text = startOf left.place := by
      obtain ⟨more, hmore⟩ := hgoodLeft.exists_inner_eq
      obtain ⟨front, hfront, behind, -, rfl⟩ := Language.mem_mul.1 htext
      obtain ⟨rest, hrest⟩ := Grouped.exists_inner_append hfront hmore behind
      exact startOf_eq hrest
    rw [readExpr, Expr.mapPlace, Expr.join, Expr.place_mapPlace, hplace]
  | loosen hvalue ih => exact ih

theorem Whole.lays : Lays Whole readExpr Expr.groupings Expr.LaidOut := Phrase.lays Level.whole

/-! ## Parts of an embed -/

section

variable {ls mid rest : List Lexeme}

theorem AuthorFlowForm.lays :
    Lays AuthorFlowForm (AuthorFlow.map readExpr) (fun values => flowLayout values.exprs)
      fun values => ∀ e ∈ values.exprs, e.LaidOut := by
  intro ls values rest hflow
  cases hflow with
  | name hname =>
    obtain ⟨name, hgood, rfl, hstands⟩ := Whole.lays _ _ _ hname
    refine ⟨⟨name, none, none⟩, by simpa [AuthorFlow.exprs] using hgood, rfl, ?_⟩
    change Stands (flowLayout [name]) _ _
    rw [flowLayout, List.map_singleton, commas_singleton]
    exact hstands
  | url hname hurl hicon =>
    obtain ⟨name, hgood, rfl, hstands⟩ := Whole.lays _ _ _ hname
    obtain ⟨url, hgoodUrl, hreadUrl, hstandsUrl⟩ := hurl.lays Whole.lays
    obtain ⟨icon, hgoodIcon, rfl, hstandsIcon⟩ := hicon.lays Whole.lays
    refine ⟨⟨name, url, icon⟩,
      List.forall_mem_cons.2 ⟨hgood, List.forall_mem_append.2 ⟨hgoodUrl, hgoodIcon⟩⟩, ?_, ?_⟩
    · rw [AuthorFlow.map, hreadUrl]
    · change Stands (flowLayout (name :: (url.toList ++ icon.toList))) _ _
      rw [flowLayout, List.map_cons, commas_cons, List.map_map, List.map_append, List.prod_append]
      exact hstands.mul (hstandsUrl.mul hstandsIcon)

theorem FooterFlowForm.lays :
    Lays FooterFlowForm (FooterFlow.map readExpr) (fun values => flowLayout values.exprs)
      fun values => ∀ e ∈ values.exprs, e.LaidOut := by
  rintro ls _ rest ⟨htext, hicon⟩
  obtain ⟨text, hgood, rfl, hstands⟩ := Whole.lays _ _ _ htext
  obtain ⟨icon, hgoodIcon, rfl, hstandsIcon⟩ := hicon.lays Whole.lays
  refine ⟨⟨text, icon⟩, List.forall_mem_cons.2 ⟨hgood, hgoodIcon⟩, rfl, ?_⟩
  change Stands (flowLayout (text :: icon.toList)) _ _
  rw [flowLayout, List.map_cons, commas_cons, List.map_map]
  exact hstands.mul hstandsIcon

theorem SectionForm.lays {F G K : Type} {ofWord? : String → Option K} {word : K → String}
    {flow : Form F} {readFlow : G → F} {exprs : G → List (Expr Literal Text)}
    (hflow : Lays flow readFlow (fun values => flowLayout (exprs values))
      fun values => ∀ e ∈ exprs values, e.LaidOut)
    (hword : ∀ name key, ofWord? name = some key → word key = name) {mode : WriteMode}
    {body : Section F K SourceExpr} (hbody : SectionForm ofWord? flow ls (mode, body) rest) :
    ∃ marked : Section G K (Expr Literal Text), (∀ e ∈ marked.exprs exprs, e.LaidOut) ∧
      marked.map readFlow readExpr = body ∧ Stands (marked.layout word exprs mode) ls rest := by
  cases hbody with
  | property hdot hname hkey hmode hvalue =>
    obtain ⟨value, hgood, rfl, hstands⟩ := Whole.lays _ _ _ hvalue
    obtain rfl := hword _ _ hkey
    exact ⟨.property _ value, List.forall_mem_singleton.2 hgood, rfl,
      (((Stands.takes hdot).mul (.takes hname)).mul (.takes hmode)).mul hstands⟩
  | object hmode hentries =>
    have hentry : ∀ name, Lays (KeyedForm ofWord? name)
        (fun (e : K × Expr Literal Text) => (e.1, readExpr e.2)) (fun e => e.2.groupings)
        fun e => word e.1 = name ∧ e.2.LaidOut := by
      rintro name ls ⟨key, _⟩ rest ⟨hkey, hvalue⟩
      obtain ⟨value, hgood, rfl, hstands⟩ := Whole.lays _ _ _ hvalue
      exact ⟨(key, value), ⟨hword _ _ hkey, hgood⟩, rfl, hstands⟩
    obtain ⟨entries, hgood, rfl, hstands⟩ := hentries.lays hentry
    exact ⟨.object entries, List.forall_mem_map.2 hgood, rfl, (Stands.takes hmode).mul hstands⟩
  | flow hmode hvalues =>
    obtain ⟨values, hgood, rfl, hstands⟩ := hflow _ _ _ hvalues
    exact ⟨.flow values, hgood, rfl, (Stands.takes hmode).mul hstands⟩

theorem SettingForm.lays (name : String) :
    Lays (SettingForm name) (FieldSetting.map readExpr) FieldSetting.layout
      fun setting => setting.word = name ∧ ∀ e ∈ setting.exprs, e.LaidOut := by
  intro ls setting rest hsetting
  cases hsetting with
  | title hvalue =>
    obtain ⟨value, hgood, rfl, hstands⟩ := Whole.lays _ _ _ hvalue
    exact ⟨.title value, ⟨rfl, List.forall_mem_singleton.2 hgood⟩, rfl, hstands⟩
  | text hvalue =>
    obtain ⟨value, hgood, rfl, hstands⟩ := Whole.lays _ _ _ hvalue
    exact ⟨.text value, ⟨rfl, List.forall_mem_singleton.2 hgood⟩, rfl, hstands⟩
  | inline value hvalue =>
    exact ⟨.inline value, ⟨rfl, by simp [FieldSetting.exprs]⟩, rfl, .takes hvalue⟩

/-- A text that takes something starts where the list does. -/
theorem placeOf_append {text : Text} (h : IsBehind rest (text ++ rest)) :
    placeOf text = placeOf (text ++ rest) := by
  cases text with
  | nil => exact absurd h.length_lt (Nat.lt_irrefl _)
  | cons first more => rfl

theorem FlowForm.lays {title text : SourceExpr} {inline : Bool}
    (hflow : FlowForm ls (title, text, inline) rest) :
    ∃ first second : Expr Literal Text, first.LaidOut ∧ second.LaidOut ∧
      readExpr first = title ∧ readExpr second = text ∧
      Stands (first.groupings * sym .comma * second.groupings *
        if inline then sym .comma * tok Keyword.inline.token else 1) ls rest := by
  obtain ⟨htitle, hcomma, htext, hinline⟩ := hflow
  obtain ⟨first, hgoodFirst, rfl, hstandsFirst⟩ := Whole.lays _ _ _ htitle
  obtain ⟨second, hgoodSecond, rfl, hstandsSecond⟩ := Whole.lays _ _ _ htext
  refine ⟨first, second, hgoodFirst, hgoodSecond, rfl, rfl,
    ((hstandsFirst.mul (.takes hcomma)).mul hstandsSecond).mul ?_⟩
  cases hinline with
  | plain => exact .one
  | marked hcomma hword => exact (Stands.takes hcomma).mul (.takes hword)

theorem FieldForm.lays :
    Lays FieldForm (FieldSpec.map readExpr placeOf) (fun spec => just spec.place)
      fun spec => spec.place ∈ spec.layout ∧ ∀ e ∈ spec.exprs, e.LaidOut := by
  intro ls field rest hfield
  have hbehind := hfield.isBehind
  cases hfield with
  | object hsettings =>
    obtain ⟨settings, hgood, rfl, text, htext, rfl⟩ := hsettings.lays SettingForm.lays
    refine ⟨.object text settings, ⟨htext, List.forall_mem_flatMap.2 hgood⟩, ?_, text, rfl, rfl⟩
    rw [FieldSpec.map, placeOf_append hbehind]
  | tuple hopen hflow hclose =>
    obtain ⟨first, second, hfirst, hsecond, rfl, rfl, hstands⟩ := hflow.lays
    obtain ⟨text, htext, rfl⟩ := Stands.between hopen hstands hclose
    refine ⟨.flow text first second _,
      ⟨.inr htext, by simpa [FieldSpec.exprs] using ⟨hfirst, hsecond⟩⟩, ?_, text, rfl, rfl⟩
    rw [FieldSpec.map, placeOf_append hbehind]
  | flow hflow =>
    obtain ⟨first, second, hfirst, hsecond, rfl, rfl, text, htext, rfl⟩ := hflow.lays
    refine ⟨.flow text first second _,
      ⟨.inl htext, by simpa [FieldSpec.exprs] using ⟨hfirst, hsecond⟩⟩, ?_, text, rfl, rfl⟩
    rw [FieldSpec.map, placeOf_append hbehind]

theorem FieldsForm.lays {mode : WriteMode} {body : FieldsBody SourceExpr Position}
    (hbody : FieldsForm ls (mode, body) rest) :
    ∃ marked : FieldsBody (Expr Literal Text) Text,
      (∀ spec ∈ marked.specs, spec.place ∈ spec.layout) ∧ (∀ e ∈ marked.exprs, e.LaidOut) ∧
      marked.map readExpr placeOf = body ∧ Stands (marked.layout mode) ls rest := by
  cases hbody with
  | property hdot hword hmode hsetting =>
    obtain ⟨setting, ⟨rfl, hgood⟩, rfl, hstands⟩ := SettingForm.lays _ _ _ _ hsetting
    exact ⟨.property setting, by simp [FieldsBody.specs], hgood, rfl,
      (((Stands.takes hdot).mul (.takes hword)).mul (.takes hmode)).mul hstands⟩
  | list hmode hopen hfields hclose =>
    obtain ⟨fields, hgood, rfl, hstands⟩ := hfields.lays FieldForm.lays
    exact ⟨.list fields, fun spec hspec => (hgood spec hspec).1,
      List.forall_mem_flatMap.2 fun spec hspec => (hgood spec hspec).2, rfl,
      (Stands.takes hmode).mul (.between hopen hstands hclose)⟩
  | part hmode hhead hfield =>
    obtain ⟨field, ⟨hplace, hgood⟩, rfl, hstands⟩ := FieldForm.lays _ _ _ hfield
    exact ⟨.part field, List.forall_mem_singleton.2 hplace, hgood, rfl,
      (Stands.takes hmode).mul hstands⟩

theorem PartForm.lays {word : String} {body : PartBody SourceExpr Position}
    (hword : Takes (.ident word) ls mid) (hbody : PartForm word mid body rest) :
    ∃ marked : PartBody (Expr Literal Text) Text,
      (∀ spec ∈ marked.specs, spec.place ∈ spec.layout) ∧ (∀ e ∈ marked.exprs, e.LaidOut) ∧
      marked.map readExpr placeOf = body ∧ Stands marked.layout ls rest := by
  cases hbody with
  | member hkey hassign hvalue =>
    obtain ⟨value, hgood, rfl, hstands⟩ := Whole.lays _ _ _ hvalue
    obtain rfl := EmbedMember.name_of_ofName? hkey
    exact ⟨.member _ value, by simp [PartBody.specs], List.forall_mem_singleton.2 hgood, rfl,
      ((Stands.takes hword).mul (.takes hassign)).mul hstands⟩
  | author hsection =>
    obtain ⟨marked, hgood, rfl, hstands⟩ :=
      hsection.lays AuthorFlowForm.lays AuthorKey.word_of_ofWord?
    exact ⟨.author _ marked, by simp [PartBody.specs], hgood, rfl,
      (Stands.takes hword).mul hstands⟩
  | footer hsection =>
    obtain ⟨marked, hgood, rfl, hstands⟩ :=
      hsection.lays FooterFlowForm.lays FooterKey.word_of_ofWord?
    exact ⟨.footer _ marked, by simp [PartBody.specs], hgood, rfl,
      (Stands.takes hword).mul hstands⟩
  | fields hname hfields =>
    obtain ⟨marked, hplaces, hgood, rfl, hstands⟩ := hfields.lays
    refine ⟨.fields _ marked, hplaces, hgood, rfl, ?_⟩
    rcases hname with rfl | rfl
    · exact (Stands.takes hword).left.mul hstands
    · exact (Stands.takes hword).right.mul hstands

theorem EmbedPartForm.lays :
    Lays EmbedPartForm (EmbedPart.map readExpr placeOf) (fun part => just part.place)
      EmbedPart.LaidOut := by
  intro ls part rest hpart
  have hbehind := hpart.isBehind
  obtain ⟨hword, hbody, hsemicolon⟩ := hpart
  obtain ⟨marked, hplaces, hgood, rfl, hstands⟩ := hbody.lays hword
  obtain ⟨text, htext, rfl⟩ := hstands.mul (.takes hsemicolon)
  refine ⟨⟨text, marked⟩, ⟨htext, hplaces, hgood⟩, ?_, text, rfl, rfl⟩
  rw [EmbedPart.map, placeOf_append hbehind]

theorem PartsForm.lays {parts : List (EmbedPart SourceExpr Position)}
    (hparts : PartsForm ls parts rest) :
    ∃ marked : List (EmbedPart (Expr Literal Text) Text), (∀ part ∈ marked, part.LaidOut) ∧
      marked.map (EmbedPart.map readExpr placeOf) = parts ∧
      Stands (partsLayout marked) ls rest := by
  cases hparts with
  | single hdot hpart =>
    obtain ⟨part, hgood, rfl, hstands⟩ := EmbedPartForm.lays _ _ _ hpart
    exact ⟨[part], List.forall_mem_singleton.2 hgood, rfl,
      ((Stands.takes hdot).mul hstands).right⟩
  | braces hopen hparts hclose =>
    obtain ⟨marked, hgood, rfl, hstands⟩ := hparts.lays EmbedPartForm.lays
    exact ⟨marked, hgood, rfl, (Stands.between hopen hstands hclose).left⟩

end

/-! ## Statements -/

/-- The places that the texts of a statement stand for. -/
abbrev readStmt : Stmt (Expr Literal Text) Text → SourceStmt := Stmt.map readExpr placeOf

section

variable {ls mid next rest : List Lexeme} {s : SourceStmt}

/-- A statement whose own text is taken and whose insides are laid out stands at its first token. -/
theorem Stmt.exists_laidOut {texts : Language Lexeme} (node : Text → Stmt (Expr Literal Text) Text)
    (hbehind : IsBehind rest ls) (hstands : Stands texts ls rest)
    (hlayout : ∀ text, (node text).layout = texts) (hplace : ∀ text, (node text).place = text)
    (hname : ∀ text name own, (node text).named = some (name, own) → own ∈ tok (.ident name))
    (hparts : ∀ text, ∀ part ∈ (node text).parts, part.LaidOut)
    (hexprs : ∀ text, ∀ e ∈ (node text).exprs, e.LaidOut)
    (hchildren : ∀ text, ∀ child ∈ (node text).children, child.LaidOut)
    (hread : ∀ text, placeOf text = placeOf ls → readStmt (node text) = s) :
    ∃ marked, marked.LaidOut ∧ readStmt marked = s ∧ Stands (just marked.place) ls rest := by
  obtain ⟨text, htext, rfl⟩ := hstands
  refine ⟨node text, Stmt.laidOut_iff.2 ⟨⟨?_, hname text, hparts text, hexprs text⟩,
    hchildren text⟩, hread text (placeOf_append hbehind), text, (hplace text).symm, rfl⟩
  rw [hplace, hlayout]
  exact htext

/-- Most statements have neither a name of their own nor parts. -/
theorem Stmt.exists_laidOut_of_plain {texts : Language Lexeme}
    (node : Text → Stmt (Expr Literal Text) Text) (hbehind : IsBehind rest ls)
    (hstands : Stands texts ls rest) (hlayout : ∀ text, (node text).layout = texts)
    (hplace : ∀ text, (node text).place = text) (hnamed : ∀ text, (node text).named = none)
    (hparts : ∀ text, (node text).parts = []) (hexprs : ∀ text, ∀ e ∈ (node text).exprs, e.LaidOut)
    (hchildren : ∀ text, ∀ child ∈ (node text).children, child.LaidOut)
    (hread : ∀ text, placeOf text = placeOf ls → readStmt (node text) = s) :
    ∃ marked, marked.LaidOut ∧ readStmt marked = s ∧ Stands (just marked.place) ls rest := by
  refine Stmt.exists_laidOut node hbehind hstands hlayout hplace (fun text name own h => ?_)
    (fun text => ?_) hexprs hchildren hread
  · exact absurd ((hnamed text).symm.trans h) (Option.some_ne_none _).symm
  · rw [hparts]
    exact List.forall_mem_nil _

/-- A clause of a loop, or a statement with the semicolon behind it. -/
theorem SimpleForm.lays (hsimple : SimpleForm ls s mid)
    (hclose : Stands (1 + sym .semicolon) mid rest) (hsuffix : rest <:+ mid) :
    ∃ marked, marked.LaidOut ∧ readStmt marked = s ∧ Stands (just marked.place) ls rest := by
  have hbehind := hsimple.isBehind.of_suffix_left hsuffix
  cases hsimple with
  | @assign _ _ _ _ name value hname hfree hassign hvalue =>
    obtain ⟨value, hgood, rfl, hstands⟩ := Whole.lays _ _ _ hvalue
    exact Stmt.exists_laidOut_of_plain (fun text => .assign text name value) hbehind
      ((((Stands.takes hname).mul (.takes hassign)).mul hstands).mul hclose) (fun _ => rfl)
      (fun _ => rfl) (fun _ => rfl) (fun _ => rfl) (fun _ => List.forall_mem_singleton.2 hgood)
      (fun _ => List.forall_mem_nil _)
      fun _ hplace => by rw [readStmt, Stmt.map, hplace]
  | expr hvalue =>
    obtain ⟨value, hgood, rfl, hstands⟩ := Whole.lays _ _ _ hvalue
    exact Stmt.exists_laidOut_of_plain (fun text => .expr text value) hbehind (hstands.mul hclose)
      (fun _ => rfl) (fun _ => rfl) (fun _ => rfl) (fun _ => rfl)
      (fun _ => List.forall_mem_singleton.2 hgood) (fun _ => List.forall_mem_nil _)
      fun _ hplace => by rw [readStmt, Stmt.map, hplace]

theorem SimpleForm.lays_clause :
    Lays SimpleForm readStmt (fun s => just s.place) Stmt.LaidOut :=
  fun _ _ _ h => h.lays Stands.one.left List.suffix_rfl

theorem NameForm.lays : Lays NameForm id (fun name => tok (.ident name)) fun _ => True :=
  fun _ name _ h => ⟨name, trivial, rfl, .takes h.1⟩

theorem ClosedForm.lays {value : SourceExpr} (h : ClosedForm ls value rest) :
    ∃ marked : Expr Literal Text, marked.LaidOut ∧ readExpr marked = value ∧
      Stands (closedLayout marked) ls rest := by
  obtain ⟨hvalue, hclose⟩ := h
  obtain ⟨value, hgood, rfl, hstands⟩ := Whole.lays _ _ _ hvalue
  exact ⟨value, hgood, rfl, hstands.mul (.takes hclose)⟩

theorem ConditionForm.lays {test : SourceExpr} (h : ConditionForm ls test rest) :
    ∃ marked : Expr Literal Text, marked.LaidOut ∧ readExpr marked = test ∧
      Stands (conditionLayout marked) ls rest := by
  obtain ⟨hopen, htest, hclose⟩ := h
  obtain ⟨test, hgood, rfl, hstands⟩ := Whole.lays _ _ _ htest
  exact ⟨test, hgood, rfl, .between hopen hstands hclose⟩

theorem BlockForm.lays {item : Form SourceStmt}
    (hitem : Lays item readStmt (fun s => just s.place) Stmt.LaidOut)
    (hbehind : ∀ ls s rest, item ls s rest → IsBehind rest ls) (h : BlockForm item ls s rest) :
    ∃ marked, marked.LaidOut ∧ readStmt marked = s ∧ Stands (just marked.place) ls rest := by
  have hfront := h.isBehind hbehind
  obtain ⟨hopen, hbody, hclose⟩ := h
  obtain ⟨body, hgood, rfl, hstands⟩ := hbody.lays hitem
  exact Stmt.exists_laidOut_of_plain (fun text => .block text body) hfront
    (.between hopen hstands hclose) (fun _ => rfl) (fun _ => rfl) (fun _ => rfl) (fun _ => rfl)
    (fun _ => List.forall_mem_nil _) (fun _ => hgood)
    fun _ hplace => by rw [readStmt, Stmt.map, hplace, Stmt.mapAll_eq]

end

theorem Sentence.lays : Lays Sentence readStmt (fun s => just s.place) Stmt.LaidOut := by
  intro ls s rest h
  induction h with
  | empty hclose =>
    exact Stmt.exists_laidOut_of_plain .empty hclose.isBehind (.takes hclose) (fun _ => rfl)
      (fun _ => rfl) (fun _ => rfl) (fun _ => rfl) (fun _ => List.forall_mem_nil _)
      (fun _ => List.forall_mem_nil _) fun _ hplace => by rw [readStmt, Stmt.map, hplace]
  | simple hsimple hclose => exact hsimple.lays (Stands.takes hclose).right hclose.isBehind.suffix
  | block hitem hblock ih => exact hblock.lays ih fun _ _ _ h => (hitem _ _ _ h).isBehind
  | @function ls mid next after behind rest name parameters body item hword hname hopen hparameters
      hitem hbody ih =>
    have hbehind := (Sentence.function hword hname hopen hparameters hitem hbody).isBehind
    obtain ⟨names, -, rfl, hstandsNames⟩ := hparameters.lays NameForm.lays hopen
    obtain ⟨body, hgood, rfl, hstandsBody⟩ := hbody.lays ih fun _ _ _ h => (hitem _ _ _ h).isBehind
    obtain ⟨place, rfl⟩ := hname.1
    have hstandsName : Stands (just [⟨.ident name, place⟩]) _ next := ⟨_, rfl, rfl⟩
    exact Stmt.exists_laidOut (fun text => .function text name [⟨.ident name, place⟩] names body)
      hbehind ((((Stands.takes hword).mul hstandsName).mul hstandsNames).mul hstandsBody)
      (fun _ => rfl) (fun _ => rfl) (fun _ _ _ h => by cases h; exact ⟨place, rfl⟩)
      (fun _ => List.forall_mem_nil _) (fun _ => List.forall_mem_nil _)
      (fun _ => List.forall_mem_singleton.2 hgood)
      fun _ hplace => by rw [readStmt, Stmt.map, hplace, List.map_id]; rfl
  | result hword hvalue =>
    have hbehind := (Sentence.result hword hvalue).isBehind
    obtain ⟨value, hgood, rfl, hstands⟩ := hvalue.lays
    exact Stmt.exists_laidOut_of_plain (fun text => .result text value) hbehind
      ((Stands.takes hword).mul hstands) (fun _ => rfl) (fun _ => rfl) (fun _ => rfl) (fun _ => rfl)
      (fun _ => List.forall_mem_singleton.2 hgood) (fun _ => List.forall_mem_nil _)
      fun _ hplace => by rw [readStmt, Stmt.map, hplace]
  | branch hword htest hyes ih =>
    have hbehind := (Sentence.branch hword htest hyes).isBehind
    obtain ⟨test, hgoodTest, rfl, hstandsTest⟩ := htest.lays
    obtain ⟨yes, hgoodYes, rfl, hstandsYes⟩ := ih
    exact Stmt.exists_laidOut_of_plain (fun text => .branch text test yes none) hbehind
      ((((Stands.takes hword).mul hstandsTest).mul hstandsYes).mul .one) (fun _ => rfl)
      (fun _ => rfl) (fun _ => rfl) (fun _ => rfl) (fun _ => List.forall_mem_singleton.2 hgoodTest)
      (fun _ => List.forall_mem_singleton.2 hgoodYes)
      fun _ hplace => by rw [readStmt, Stmt.map, hplace, Stmt.map?]
  | branchElse hword htest hyes hclosed helse hno ihyes ihno =>
    have hbehind := (Sentence.branchElse hword htest hyes hclosed helse hno).isBehind
    obtain ⟨test, hgoodTest, rfl, hstandsTest⟩ := htest.lays
    obtain ⟨yes, hgoodYes, rfl, hstandsYes⟩ := ihyes
    obtain ⟨no, hgoodNo, rfl, hstandsNo⟩ := ihno
    exact Stmt.exists_laidOut_of_plain (fun text => .branch text test yes (some no)) hbehind
      ((((Stands.takes hword).mul hstandsTest).mul hstandsYes).mul
        ((Stands.takes helse).mul hstandsNo))
      (fun _ => rfl) (fun _ => rfl) (fun _ => rfl) (fun _ => rfl)
      (fun _ => List.forall_mem_singleton.2 hgoodTest)
      (fun _ => List.forall_mem_cons.2 ⟨hgoodYes, List.forall_mem_singleton.2 hgoodNo⟩)
      fun _ hplace => by rw [readStmt, Stmt.map, hplace, Stmt.map?]
  | forLoop hword hopen hinit hinitClose hcheck hcheckClose hstep hstepClose hbody ih =>
    have hbehind := (Sentence.forLoop hword hopen hinit hinitClose hcheck hcheckClose hstep
      hstepClose hbody).isBehind
    obtain ⟨init, hgoodInit, rfl, hstandsInit⟩ := hinit.lays SimpleForm.lays_clause
    obtain ⟨check, hgoodCheck, rfl, hstandsCheck⟩ := hcheck.lays Whole.lays
    obtain ⟨step, hgoodStep, rfl, hstandsStep⟩ := hstep.lays SimpleForm.lays_clause
    obtain ⟨body, hgoodBody, rfl, hstandsBody⟩ := ih
    have hinside := ((hstandsInit.mul (.takes hinitClose)).mul
      (hstandsCheck.mul (.takes hcheckClose))).mul hstandsStep
    exact Stmt.exists_laidOut_of_plain (fun text => .forLoop text init check step body) hbehind
      (((Stands.takes hword).mul (.between hopen hinside hstepClose)).mul hstandsBody)
      (fun _ => rfl) (fun _ => rfl) (fun _ => rfl) (fun _ => rfl) (fun _ => hgoodCheck)
      (fun _ => List.forall_mem_append.2 ⟨List.forall_mem_append.2 ⟨hgoodInit, hgoodStep⟩,
        List.forall_mem_singleton.2 hgoodBody⟩)
      fun _ hplace => by rw [readStmt, Stmt.map, hplace, Stmt.map?_eq, Stmt.map?_eq]
  | foreach hword hopen hname hamong hiterable hclose hbody ih =>
    have hbehind := (Sentence.foreach hword hopen hname hamong hiterable hclose hbody).isBehind
    obtain ⟨iterable, hgoodItems, rfl, hstandsItems⟩ := Whole.lays _ _ _ hiterable
    obtain ⟨body, hgoodBody, rfl, hstandsBody⟩ := ih
    have hinside := ((Stands.takes hname.1).mul (.takes hamong)).mul hstandsItems
    exact Stmt.exists_laidOut_of_plain (fun text => .foreach text _ iterable body) hbehind
      (((Stands.takes hword).mul (.between hopen hinside hclose)).mul hstandsBody)
      (fun _ => rfl) (fun _ => rfl) (fun _ => rfl) (fun _ => rfl)
      (fun _ => List.forall_mem_singleton.2 hgoodItems)
      (fun _ => List.forall_mem_singleton.2 hgoodBody)
      fun _ hplace => by rw [readStmt, Stmt.map, hplace]
  | whileLoop hword htest hbody ih =>
    have hbehind := (Sentence.whileLoop hword htest hbody).isBehind
    obtain ⟨test, hgoodTest, rfl, hstandsTest⟩ := htest.lays
    obtain ⟨body, hgoodBody, rfl, hstandsBody⟩ := ih
    exact Stmt.exists_laidOut_of_plain (fun text => .whileLoop text test body) hbehind
      (((Stands.takes hword).mul hstandsTest).mul hstandsBody) (fun _ => rfl) (fun _ => rfl)
      (fun _ => rfl) (fun _ => rfl) (fun _ => List.forall_mem_singleton.2 hgoodTest)
      (fun _ => List.forall_mem_singleton.2 hgoodBody)
      fun _ hplace => by rw [readStmt, Stmt.map, hplace]
  | doWhile hword hbody hwhile htest hclose ih =>
    have hbehind := (Sentence.doWhile hword hbody hwhile htest hclose).isBehind
    obtain ⟨body, hgoodBody, rfl, hstandsBody⟩ := ih
    obtain ⟨test, hgoodTest, rfl, hstandsTest⟩ := htest.lays
    exact Stmt.exists_laidOut_of_plain (fun text => .doWhile text body test) hbehind
      (((((Stands.takes hword).mul hstandsBody).mul (.takes hwhile)).mul hstandsTest).mul
        (.takes hclose)) (fun _ => rfl) (fun _ => rfl) (fun _ => rfl) (fun _ => rfl)
      (fun _ => List.forall_mem_singleton.2 hgoodTest)
      (fun _ => List.forall_mem_singleton.2 hgoodBody)
      fun _ hplace => by rw [readStmt, Stmt.map, hplace]
  | text hword hvalue =>
    have hbehind := (Sentence.text hword hvalue).isBehind
    obtain ⟨value, hgood, rfl, hstands⟩ := hvalue.lays
    exact Stmt.exists_laidOut_of_plain (fun text => .text text value) hbehind
      ((Stands.takes hword).mul hstands) (fun _ => rfl) (fun _ => rfl) (fun _ => rfl) (fun _ => rfl)
      (fun _ => List.forall_mem_singleton.2 hgood) (fun _ => List.forall_mem_nil _)
      fun _ hplace => by rw [readStmt, Stmt.map, hplace]
  | attachment hword hvalue =>
    have hbehind := (Sentence.attachment hword hvalue).isBehind
    obtain ⟨value, hgood, rfl, hstands⟩ := hvalue.lays
    exact Stmt.exists_laidOut_of_plain (fun text => .attachment text value) hbehind
      ((Stands.takes hword).mul hstands) (fun _ => rfl) (fun _ => rfl) (fun _ => rfl) (fun _ => rfl)
      (fun _ => List.forall_mem_singleton.2 hgood) (fun _ => List.forall_mem_nil _)
      fun _ hplace => by rw [readStmt, Stmt.map, hplace]
  | embed hword hparts =>
    have hbehind := (Sentence.embed hword hparts).isBehind
    obtain ⟨parts, hgood, rfl, hstands⟩ := hparts.lays
    exact Stmt.exists_laidOut (fun text => .embed text parts) hbehind
      ((Stands.takes hword).mul hstands) (fun _ => rfl) (fun _ => rfl) (fun _ _ _ h => by cases h)
      (fun _ => hgood)
      (fun _ => List.forall_mem_flatMap.2 fun part hpart => (hgood part hpart).exprs)
      (fun _ => List.forall_mem_nil _)
      fun _ hplace => by rw [readStmt, Stmt.map, hplace]

/-! ## Templates -/

theorem ItemForm.lays :
    Lays ItemForm (Item.map readExpr placeOf) (fun i => just i.text) Item.LaidOut := by
  intro ls i rest hitem
  have hbehind := hitem.isBehind
  cases hitem with
  | constant hword hname hassign hvalue =>
    obtain ⟨value, hgood, rfl, hstands⟩ := hvalue.lays
    obtain ⟨text, htext, rfl⟩ :=
      (((Stands.takes hword).mul (.takes hname.1)).mul (.takes hassign)).mul hstands
    refine ⟨.constant text _ value, ⟨htext, hgood⟩, ?_, text, rfl, rfl⟩
    rw [Item.map, placeOf_append hbehind]
  | stmt hstmt =>
    obtain ⟨s, hgood, rfl, hstands⟩ := Sentence.lays _ _ _ hstmt
    exact ⟨.stmt s, hgood, rfl, hstands⟩

theorem mem_prod_just {α : Type} {own : α → Text} {values : List α} {text : Text} :
    text ∈ (values.map fun value => just (own value)).prod ↔ text = values.flatMap own := by
  induction values generalizing text with
  | nil => exact Iff.rfl
  | cons first rest ih =>
    rw [List.map_cons, List.prod_cons, Language.mem_mul, List.flatMap_cons]
    constructor
    · rintro ⟨_, rfl, more, hmore, rfl⟩
      rw [ih.1 hmore]
    · rintro rfl
      exact ⟨_, rfl, _, ih.2 rfl, rfl⟩

/-- Whenever a source is read, its tokens up to the end of the input are divided into the own texts
of the items, and these into tokens and the own texts of the nodes inside. Each node stands at the
first token of its text, and the name of a function at the name. An expression stands behind the
parentheses at the left edge of its text; there is the token of its leftmost leaf, or the unary
operator in front of that. -/
theorem nodes_placed {source : String} {items : SourceTemplate}
    (h : parseTemplate source = .ok items) :
    ∃ (marked : List (Item (Expr Literal Text) Text)) (last : Position),
      (∀ i ∈ marked, i.LaidOut) ∧
      lexemes source = marked.flatMap Item.text ++ [⟨.endOfInput, last⟩] ∧
      items = marked.map (Item.map (Expr.mapPlace startOf) placeOf) ∧
      ∀ i ∈ marked, ∀ e ∈ i.allExprs, ∀ node ∈ e.nodes,
        (inner node.place).head? = some ⟨node.leading, startOf node.place⟩ := by
  obtain ⟨last, hitems, -⟩ := exists_template_run h
  obtain ⟨marked, hgood, rfl, text, htext, hlexemes⟩ := hitems.lays ItemForm.lays
  obtain rfl := mem_prod_just.1 htext
  refine ⟨marked, last, hgood, hlexemes, rfl, fun i hi e he node hnode => ?_⟩
  obtain ⟨more, hmore⟩ := (((hgood i hi).exprs e he).node hnode).exists_inner_eq
  rw [hmore, List.head?_cons]

/-- The sum stands at `a`, not at the parenthesis in front of it. -/
theorem nodes_placed_groupedOperand :
    ∃ (items : SourceTemplate) (marked : List (Item (Expr Literal Text) Text)) (last : Position),
      parseTemplate "text ( a ) + b ;" = .ok items ∧
      items = marked.map (Item.map (Expr.mapPlace startOf) placeOf) ∧
      lexemes "text ( a ) + b ;" = marked.flatMap Item.text ++ [⟨.endOfInput, last⟩] ∧
      (items.flatMap fun i => i.allExprs.flatMap fun e => e.nodes.map Expr.place) =
        [⟨1, 7⟩, ⟨1, 7⟩, ⟨1, 13⟩] := by
  have hplaces : ((parseTemplate "text ( a ) + b ;").toOption.map fun items =>
      items.flatMap fun i => i.allExprs.flatMap fun e => e.nodes.map Expr.place) =
        some [⟨1, 7⟩, ⟨1, 7⟩, ⟨1, 13⟩] := by
    decide +kernel
  cases hparse : parseTemplate "text ( a ) + b ;" with
  | error e =>
    rw [hparse] at hplaces
    cases hplaces
  | ok items =>
    rw [hparse] at hplaces
    obtain ⟨marked, last, -, hlexemes, hread, -⟩ := nodes_placed hparse
    exact ⟨items, marked, last, rfl, hread, hlexemes, Option.some.inj hplaces⟩

end MessageTemplate
