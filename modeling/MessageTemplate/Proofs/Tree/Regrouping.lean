import MessageTemplate.Proofs.Tree.Names

/-!
# Regrouping statements

A block that stands in a list of statements can give way to its own statements,
an empty statement to nothing, and an embed statement to one statement for each
of its parts. `Stmt.Regroups` allows any number of these changes, anywhere in a
list of statements and in what is inside them; all that stays keeps its place.
-/

namespace MessageTemplate

variable {E F P Q : Type}

/-- The second list is the first one with statements regrouped. A body that stands alone is
regrouped as a list of one. -/
inductive Stmt.Regroups : List (Stmt E P) → List (Stmt E P) → Prop
  | refl (body : List (Stmt E P)) : Regroups body body
  | trans {first second third : List (Stmt E P)} (h : Regroups first second)
      (hthen : Regroups second third) : Regroups first third
  | append {first second others more : List (Stmt E P)} (h : Regroups first others)
      (hbehind : Regroups second more) : Regroups (first ++ second) (others ++ more)
  | inline (here : P) (body : List (Stmt E P)) : Regroups [.block here body] body
  | drop (here : P) : Regroups [.empty here] []
  | split (here : P) (parts : List (EmbedPart E P)) :
      Regroups [.embed here parts] (parts.map fun part => .embed here [part])
  | block (here : P) {body other : List (Stmt E P)} (h : Regroups body other) :
      Regroups [.block here body] [.block here other]
  | function (here : P) (name : String) (namePlace : P) (parameters : List String)
      {body other : Stmt E P} (h : Regroups [body] [other]) :
      Regroups [.function here name namePlace parameters body]
        [.function here name namePlace parameters other]
  | branch (here : P) (test : E) {yes yesOther : Stmt E P} {no noOther : Option (Stmt E P)}
      (hyes : Regroups [yes] [yesOther]) (hno : Regroups no.toList noOther.toList) :
      Regroups [.branch here test yes no] [.branch here test yesOther noOther]
  | forLoop (here : P) (check : Option E) {init initOther step stepOther : Option (Stmt E P)}
      {body other : Stmt E P} (hinit : Regroups init.toList initOther.toList)
      (hstep : Regroups step.toList stepOther.toList) (hbody : Regroups [body] [other]) :
      Regroups [.forLoop here init check step body] [.forLoop here initOther check stepOther other]
  | foreach (here : P) (name : String) (iterable : E) {body other : Stmt E P}
      (h : Regroups [body] [other]) :
      Regroups [.foreach here name iterable body] [.foreach here name iterable other]
  | whileLoop (here : P) (test : E) {body other : Stmt E P} (h : Regroups [body] [other]) :
      Regroups [.whileLoop here test body] [.whileLoop here test other]
  | doWhile (here : P) (test : E) {body other : Stmt E P} (h : Regroups [body] [other]) :
      Regroups [.doWhile here body test] [.doWhile here other test]

/-- The second template is the first one with statements regrouped; constants stay where they
are. -/
inductive Item.Regroups : List (Item E P) → List (Item E P) → Prop
  | nil : Regroups [] []
  | constant (here : P) (name : String) (value : E) {rest others : List (Item E P)}
      (h : Regroups rest others) :
      Regroups (.constant here name value :: rest) (.constant here name value :: others)
  | stmts {body other : List (Stmt E P)} {rest others : List (Item E P)}
      (h : Stmt.Regroups body other) (hrest : Regroups rest others) :
      Regroups (body.map .stmt ++ rest) (other.map .stmt ++ others)

/-- A template without constants. -/
theorem Item.Regroups.of_stmts {body other : List (Stmt E P)} (h : Stmt.Regroups body other) :
    Item.Regroups (body.map .stmt) (other.map .stmt) := by
  simpa using Item.Regroups.stmts h .nil

namespace Stmt

/-- Regrouping does not look at expressions and places. -/
theorem Regroups.map (f : E → F) (g : P → Q) {body other : List (Stmt E P)}
    (h : Regroups body other) : Regroups (body.map (map f g)) (other.map (map f g)) := by
  induction h with
  | refl body => exact .refl _
  | trans _ _ ih ihthen => exact ih.trans ihthen
  | append _ _ ih ihbehind =>
    rw [List.map_append, List.map_append]
    exact ih.append ihbehind
  | inline here body =>
    rw [List.map_singleton, Stmt.map, mapAll_eq]
    exact .inline _ _
  | drop here => exact .drop _
  | split here parts =>
    have hparts : (parts.map fun part => Stmt.embed here [part]).map (Stmt.map f g) =
        (parts.map (EmbedPart.map f g)).map fun part => .embed (g here) [part] := by
      rw [List.map_map, List.map_map]
      rfl
    rw [hparts]
    exact .split _ _
  | block here _ ih =>
    rw [List.map_singleton, List.map_singleton, Stmt.map, Stmt.map, mapAll_eq, mapAll_eq]
    exact .block _ ih
  | function here name namePlace parameters _ ih => exact .function _ name _ parameters ih
  | branch here test _ _ ihyes ihno =>
    rw [← toList_map?, ← toList_map?] at ihno
    exact .branch _ _ ihyes ihno
  | forLoop here check _ _ _ ihinit ihstep ihbody =>
    rw [← toList_map?, ← toList_map?] at ihinit ihstep
    exact .forLoop _ _ ihinit ihstep ihbody
  | foreach here name iterable _ ih => exact .foreach _ name _ ih
  | whileLoop here test _ ih => exact .whileLoop _ _ ih
  | doWhile here test _ ih => exact .doWhile _ _ ih

end Stmt
end MessageTemplate
