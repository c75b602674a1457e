import MessageTemplate.Tree.Stmt

/-!
# All nodes of a tree

A tree is listed with everything that is inside it, so that a condition on trees
is a condition on each node of a list. Changing the marks or the literals of a
tree changes nothing else.
-/

namespace MessageTemplate

variable {L P Q E F : Type}

namespace Expr

mutual

/-- The expression itself and all expressions inside it. -/
def nodes : Expr L P → List (Expr L P)
  | .literal place value => [.literal place value]
  | .var place name => [.var place name]
  | .list place items => .list place items :: nodesOfAll items
  | .call place name arguments => .call place name arguments :: nodesOfAll arguments
  | .unary place op operand => .unary place op operand :: operand.nodes
  | .binary place op left right => .binary place op left right :: (left.nodes ++ right.nodes)

def nodesOfAll : List (Expr L P) → List (Expr L P)
  | [] => []
  | first :: rest => first.nodes ++ nodesOfAll rest

end

mutual

/-- The same expression with other marks. -/
def mapPlace (f : P → Q) : Expr L P → Expr L Q
  | .literal place value => .literal (f place) value
  | .var place name => .var (f place) name
  | .list place items => .list (f place) (mapPlaces f items)
  | .call place name arguments => .call (f place) name (mapPlaces f arguments)
  | .unary place op operand => .unary (f place) op (operand.mapPlace f)
  | .binary place op left right => .binary (f place) op (left.mapPlace f) (right.mapPlace f)

def mapPlaces (f : P → Q) : List (Expr L P) → List (Expr L Q)
  | [] => []
  | first :: rest => first.mapPlace f :: mapPlaces f rest

end

theorem nodesOfAll_eq (items : List (Expr L P)) : nodesOfAll items = items.flatMap nodes := by
  induction items with
  | nil => rfl
  | cons first rest ih => rw [nodesOfAll, ih, List.flatMap_cons]

theorem place_mapPlace (f : P → Q) (e : Expr L P) : (e.mapPlace f).place = f e.place := by
  cases e <;> rfl

theorem mapPlaces_eq (f : P → Q) (items : List (Expr L P)) :
    mapPlaces f items = items.map (mapPlace f) := by
  induction items with
  | nil => rfl
  | cons first rest ih => rw [mapPlaces, ih, List.map_cons]

/-- The expressions right inside an expression. -/
def children : Expr L P → List (Expr L P)
  | .literal _ _ | .var _ _ => []
  | .list _ items | .call _ _ items => items
  | .unary _ _ operand => [operand]
  | .binary _ _ left right => [left, right]

theorem nodes_eq (e : Expr L P) : e.nodes = e :: e.children.flatMap nodes := by
  cases e <;> simp [nodes, children, nodesOfAll_eq]

@[elab_as_elim]
theorem induct {motive : Expr L P → Prop}
    (step : ∀ e, (∀ child ∈ e.children, motive child) → motive e) (e : Expr L P) : motive e :=
  @Expr.rec L P motive (fun items => ∀ e ∈ items, motive e)
    (fun place value => step (.literal place value) (by simp [children]))
    (fun place name => step (.var place name) (by simp [children]))
    (fun place items => step (.list place items))
    (fun place name arguments => step (.call place name arguments))
    (fun place op operand h => step (.unary place op operand) (by simpa [children] using h))
    (fun place op left right hleft hright =>
      step (.binary place op left right) (by simpa [children] using ⟨hleft, hright⟩))
    (by simp) (fun first rest hfirst hrest => List.forall_mem_cons.2 ⟨hfirst, hrest⟩) e

end Expr

/-! ## Parts of an embed -/

namespace AuthorFlow

def exprs (flow : AuthorFlow E) : List E := flow.name :: (flow.url.toList ++ flow.icon.toList)

def map (f : E → F) (flow : AuthorFlow E) : AuthorFlow F :=
  ⟨f flow.name, flow.url.map f, flow.icon.map f⟩

end AuthorFlow

namespace FooterFlow

def exprs (flow : FooterFlow E) : List E := flow.text :: flow.icon.toList

def map (f : E → F) (flow : FooterFlow E) : FooterFlow F := ⟨f flow.text, flow.icon.map f⟩

end FooterFlow

namespace Section

variable {K G H : Type}

def exprs (flowExprs : G → List E) : Section G K E → List E
  | .flow values => flowExprs values
  | .object entries => entries.map Prod.snd
  | .property _ value => [value]

def map (g : G → H) (f : E → F) : Section G K E → Section H K F
  | .flow values => .flow (g values)
  | .object entries => .object (entries.map fun entry => (entry.1, f entry.2))
  | .property key value => .property key (f value)

end Section

namespace FieldSetting

def exprs : FieldSetting E → List E
  | .title value | .text value => [value]
  | .inline _ => []

def map (f : E → F) : FieldSetting E → FieldSetting F
  | .title value => .title (f value)
  | .text value => .text (f value)
  | .inline value => .inline value

end FieldSetting

namespace FieldSpec

def place : FieldSpec E P → P
  | .flow place _ _ _ | .object place _ => place

def exprs : FieldSpec E P → List E
  | .flow _ title text _ => [title, text]
  | .object _ settings => settings.flatMap FieldSetting.exprs

def map (f : E → F) (g : P → Q) : FieldSpec E P → FieldSpec F Q
  | .flow place title text inline => .flow (g place) (f title) (f text) inline
  | .object place settings => .object (g place) (settings.map (FieldSetting.map f))

end FieldSpec

namespace FieldsBody

/-- The fields that are described as a whole. -/
def specs : FieldsBody E P → List (FieldSpec E P)
  | .part field => [field]
  | .list fields => fields
  | .property _ => []

def exprs : FieldsBody E P → List E
  | .part field => field.exprs
  | .list fields => fields.flatMap FieldSpec.exprs
  | .property setting => setting.exprs

def map (f : E → F) (g : P → Q) : FieldsBody E P → FieldsBody F Q
  | .part field => .part (field.map f g)
  | .list fields => .list (fields.map (FieldSpec.map f g))
  | .property setting => .property (setting.map f)

end FieldsBody

namespace PartBody

/-- The fields that a part describes as a whole. -/
def specs : PartBody E P → List (FieldSpec E P)
  | .fields _ body => body.specs
  | _ => []

def exprs : PartBody E P → List E
  | .member _ value => [value]
  | .author _ body => body.exprs AuthorFlow.exprs
  | .footer _ body => body.exprs FooterFlow.exprs
  | .fields _ body => body.exprs

def map (f : E → F) (g : P → Q) : PartBody E P → PartBody F Q
  | .member key value => .member key (f value)
  | .author mode body => .author mode (body.map (AuthorFlow.map f) f)
  | .footer mode body => .footer mode (body.map (FooterFlow.map f) f)
  | .fields mode body => .fields mode (body.map f g)

end PartBody

namespace EmbedPart

/-- The expressions of a part in the order in which they are written. -/
def exprs (part : EmbedPart E P) : List E := part.body.exprs

/-- The marks of a part and of the fields in it. -/
def marks (part : EmbedPart E P) : List P := part.place :: part.body.specs.map FieldSpec.place

def map (f : E → F) (g : P → Q) (part : EmbedPart E P) : EmbedPart F Q :=
  ⟨g part.place, part.body.map f g⟩

end EmbedPart

/-! ## Statements -/

namespace Stmt

mutual

/-- The statement itself and all statements inside it. -/
def nodes : Stmt E P → List (Stmt E P)
  | .block place body => .block place body :: nodesOfAll body
  | .function place name namePlace parameters body =>
    .function place name namePlace parameters body :: body.nodes
  | .branch place test yes no => .branch place test yes no :: (yes.nodes ++ nodesOf? no)
  | .forLoop place init check step body =>
    .forLoop place init check step body :: (nodesOf? init ++ nodesOf? step ++ body.nodes)
  | .foreach place name iterable body => .foreach place name iterable body :: body.nodes
  | .whileLoop place test body => .whileLoop place test body :: body.nodes
  | .doWhile place body test => .doWhile place body test :: body.nodes
  | stmt => [stmt]

def nodesOfAll : List (Stmt E P) → List (Stmt E P)
  | [] => []
  | first :: rest => first.nodes ++ nodesOfAll rest

def nodesOf? : Option (Stmt E P) → List (Stmt E P)
  | none => []
  | some stmt => stmt.nodes

end

mutual

/-- The same statement with other expressions and marks. -/
def map (f : E → F) (g : P → Q) : Stmt E P → Stmt F Q
  | .empty place => .empty (g place)
  | .block place body => .block (g place) (mapAll f g body)
  | .assign place name value => .assign (g place) name (f value)
  | .expr place value => .expr (g place) (f value)
  | .function place name namePlace parameters body =>
    .function (g place) name (g namePlace) parameters (body.map f g)
  | .result place value => .result (g place) (f value)
  | .branch place test yes no => .branch (g place) (f test) (yes.map f g) (map? f g no)
  | .forLoop place init check step body =>
    .forLoop (g place) (map? f g init) (check.map f) (map? f g step) (body.map f g)
  | .foreach place name iterable body => .foreach (g place) name (f iterable) (body.map f g)
  | .whileLoop place test body => .whileLoop (g place) (f test) (body.map f g)
  | .doWhile place body test => .doWhile (g place) (body.map f g) (f test)
  | .text place value => .text (g place) (f value)
  | .attachment place value => .attachment (g place) (f value)
  | .embed place parts => .embed (g place) (parts.map (EmbedPart.map f g))

def mapAll (f : E → F) (g : P → Q) : List (Stmt E P) → List (Stmt F Q)
  | [] => []
  | first :: rest => first.map f g :: mapAll f g rest

def map? (f : E → F) (g : P → Q) : Option (Stmt E P) → Option (Stmt F Q)
  | none => none
  | some stmt => some (stmt.map f g)

end

/-- The expressions that belong to a statement itself, not to a statement inside it. -/
def exprs : Stmt E P → List E
  | .assign _ _ value | .expr _ value | .result _ value | .text _ value | .attachment _ value =>
    [value]
  | .branch _ test _ _ | .whileLoop _ test _ | .doWhile _ _ test => [test]
  | .forLoop _ _ check _ _ => check.toList
  | .foreach _ _ iterable _ => [iterable]
  | .embed _ parts => parts.flatMap EmbedPart.exprs
  | .empty _ | .block _ _ | .function _ _ _ _ _ => []

/-- The marks that belong to a statement itself. -/
def marks : Stmt E P → List P
  | .function place _ namePlace _ _ => [place, namePlace]
  | .embed place parts => place :: parts.flatMap EmbedPart.marks
  | s => [s.place]

theorem nodesOfAll_eq (body : List (Stmt E P)) : nodesOfAll body = body.flatMap nodes := by
  induction body with
  | nil => rfl
  | cons first rest ih => rw [nodesOfAll, ih, List.flatMap_cons]

theorem mapAll_eq (f : E → F) (g : P → Q) (body : List (Stmt E P)) :
    mapAll f g body = body.map (map f g) := by
  induction body with
  | nil => rfl
  | cons first rest ih => rw [mapAll, ih, List.map_cons]

/-- The statements right inside a statement. -/
def children : Stmt E P → List (Stmt E P)
  | .block _ body => body
  | .branch _ _ yes no => yes :: no.toList
  | .forLoop _ init _ step body => init.toList ++ step.toList ++ [body]
  | .function _ _ _ _ body | .foreach _ _ _ body | .whileLoop _ _ body | .doWhile _ body _ => [body]
  | _ => []

theorem nodesOf?_eq (s : Option (Stmt E P)) : nodesOf? s = s.toList.flatMap nodes := by
  cases s <;> simp [nodesOf?]

theorem nodes_eq (s : Stmt E P) : s.nodes = s :: s.children.flatMap nodes := by
  cases s <;> simp [nodes, children, nodesOfAll_eq, nodesOf?_eq]

@[elab_as_elim]
theorem induct {motive : Stmt E P → Prop}
    (step : ∀ s, (∀ child ∈ s.children, motive child) → motive s) (s : Stmt E P) : motive s :=
  @Stmt.rec E P motive (fun body => ∀ s ∈ body, motive s) (fun s? => ∀ s ∈ s?.toList, motive s)
    (fun place => step (.empty place) (by simp [children]))
    (fun place body => step (.block place body))
    (fun place name value => step (.assign place name value) (by simp [children]))
    (fun place value => step (.expr place value) (by simp [children]))
    (fun place name namePlace parameters body h =>
      step (.function place name namePlace parameters body) (by simpa [children] using h))
    (fun place value => step (.result place value) (by simp [children]))
    (fun place test yes no hyes hno =>
      step (.branch place test yes no) (List.forall_mem_cons.2 ⟨hyes, hno⟩))
    (fun place init check clause body hinit hclause hbody =>
      step (.forLoop place init check clause body) (List.forall_mem_append.2
        ⟨List.forall_mem_append.2 ⟨hinit, hclause⟩, List.forall_mem_singleton.2 hbody⟩))
    (fun place name iterable body h =>
      step (.foreach place name iterable body) (by simpa [children] using h))
    (fun place test body h => step (.whileLoop place test body) (by simpa [children] using h))
    (fun place body test h => step (.doWhile place body test) (by simpa [children] using h))
    (fun place value => step (.text place value) (by simp [children]))
    (fun place value => step (.attachment place value) (by simp [children]))
    (fun place parts => step (.embed place parts) (by simp [children]))
    (by simp) (fun first rest hfirst hrest => List.forall_mem_cons.2 ⟨hfirst, hrest⟩)
    (by simp) (fun s h => List.forall_mem_singleton.2 h) s

end Stmt

namespace Item

def map (f : E → F) (g : P → Q) : Item E P → Item F Q
  | .constant place name value => .constant (g place) name (f value)
  | .stmt s => .stmt (s.map f g)

end Item
end MessageTemplate
