import MessageTemplate.Proofs.Evaluation.Settling
import MessageTemplate.Proofs.Message.Writes

/-!
# Writes that change places

A write without calls makes a change that is settled by the scope alone. Changes
of different targets commute, so only the order of the writes to each target
matters.
-/

namespace MessageTemplate
namespace Eval

theorem isChangeKind_target (target : Target) : IsChangeKind target.Changes where
  none := .none target
  comp := Target.Changes.comp

/-- A write without calls makes a change of its target, whatever the document is. -/
theorem settled_write {call : Caller} {w : Write} (h : ∀ e ∈ w.exprs, e.IsCallFree)
    (state : State) : Settled w.target.Changes state (w.run call) := by
  have hkind := isChangeKind_target w.target
  have hsettled := isCompositional_settled hkind
  have hexprs : ∀ e ∈ w.exprs, ∀ state, Settled w.target.Changes state (term call e) :=
    fun e he => settled_term hkind (h e he)
  cases w with
  | content here value =>
    refine hsettled.located (hsettled.writeContent (hexprs value (by simp [Write.exprs])) ?_) here _
    exact fun text => settled_editDocument (.content fun _ => some text)
  | attachment here value =>
    refine hsettled.located (hsettled.attach (hexprs value (by simp [Write.exprs])) ?_) here _
    exact fun url => settled_editDocument (.attachments fun urls => urls ++ [url])
  | part p =>
    refine hsettled.embedPart hexprs (fun edit hedit => ?_) state
    exact settled_editDocument (.embed hedit.target)

/-- A write makes a change with every document. -/
def Makes (call : Caller) (state : State) (w : Write) (change : Document → Document) : Prop :=
  w.target.Changes change ∧ ∀ document,
    w.run call { state with document } = .ok () { state with document := change document }

/-- A write that succeeds with one document succeeds with all. -/
theorem exists_makes {call : Caller} {state after : State} {w : Write} {document : Document}
    (h : ∀ e ∈ w.exprs, e.IsCallFree) (hrun : w.run call { state with document } = .ok () after) :
    ∃ change, Makes call state w change ∧ after = { state with document := change document } := by
  obtain ⟨outcome, change, hchange, heq⟩ := settled_write h state
  rw [heq document] at hrun
  cases outcome with
  | error stop => contradiction
  | ok value =>
    obtain ⟨-, rfl⟩ := EStateM.Result.ok.inj hrun
    exact ⟨change, ⟨hchange, heq⟩, rfl⟩

/-- The writes of a row that succeeds with one document succeed with all. -/
theorem exists_makes_of_forM {call : Caller} {state after : State} {writes : List Write}
    {document : Document} (h : ∀ w ∈ writes, ∀ e ∈ w.exprs, e.IsCallFree)
    (hrun : writes.forM (Write.run call) { state with document } = .ok () after) :
    ∀ w ∈ writes, ∃ change, Makes call state w change := by
  induction writes generalizing document with
  | nil => simp
  | cons w writes ih =>
    rw [List.forall_mem_cons] at h ⊢
    obtain ⟨_, mid, hfirst, hrest⟩ := bind_inv hrun
    obtain ⟨change, hmakes, rfl⟩ := exists_makes h.1 hfirst
    exact ⟨⟨change, hmakes⟩, ih h.2 hrest⟩

/-! ## Rows of changes -/

/-- Make the changes of some writes in a row. -/
def changed (change : Write → Document → Document) (writes : List Write) (document : Document) :
    Document :=
  writes.foldl (fun document w => change w document) document

theorem forM_run_eq {call : Caller} {state : State} {change : Write → Document → Document}
    {writes : List Write} (h : ∀ w ∈ writes, Makes call state w (change w)) (document : Document) :
    writes.forM (Write.run call) { state with document } =
      .ok () { state with document := changed change writes document } := by
  induction writes generalizing document with
  | nil => rfl
  | cons w writes ih =>
    rw [List.forall_mem_cons] at h
    exact (Run.bind_of_ok (h.1.2 document)).trans (ih h.2 _)

/-- A change goes past changes of other targets. -/
theorem changed_past {change : Write → Document → Document} {w : Write} {front : List Write}
    (hw : w.target.Changes (change w)) (hfront : ∀ x ∈ front, x.target.Changes (change x))
    (hother : ∀ x ∈ front, x.target ≠ w.target) (document : Document) :
    changed change front (change w document) = change w (changed change front document) := by
  induction front generalizing document with
  | nil => rfl
  | cons x front ih =>
    rw [List.forall_mem_cons] at hfront hother
    have hstep := hw.commute hother.1.symm hfront.1 document
    calc changed change (x :: front) (change w document)
        = changed change front (change x (change w document)) := rfl
      _ = changed change front (change w (change x document)) := by rw [hstep]
      _ = change w (changed change front (change x document)) := ih hfront.2 hother.2 _

/-- Two rows lead to the same document if the changes of each target come in the same order. -/
theorem changed_eq {change : Write → Document → Document} {first second : List Write}
    (hchanges : ∀ w ∈ first, w.target.Changes (change w)) (h : Write.SameForEach first second)
    (document : Document) : changed change first document = changed change second document := by
  induction first generalizing second document with
  | nil =>
    obtain rfl : second = [] := List.eq_nil_iff_forall_not_mem.2 fun w hw => nomatch h.mem hw
    rfl
  | cons w first ih =>
    obtain ⟨front, back, rfl, hother, hrest⟩ := h.exists_split
    have hfront : ∀ x ∈ front, x.target.Changes (change x) := fun x hx =>
      hchanges x (h.mem (List.mem_append_left _ hx))
    rw [List.forall_mem_cons] at hchanges
    calc changed change (w :: first) document
        = changed change first (change w document) := rfl
      _ = changed change (front ++ back) (change w document) := ih hchanges.2 hrest _
      _ = changed change back (changed change front (change w document)) := List.foldl_append
      _ = changed change back (change w (changed change front document)) := by
          rw [changed_past hchanges.1 hfront hother]
      _ = changed change (front ++ w :: back) document := by
          rw [changed, changed, changed, List.foldl_append, List.foldl_cons]

end Eval

/-- Message statements without calls that all succeed in some scope, each with some document, can be
reordered, as long as the writes to each target stay in order: with every document both rows
succeed, and they lead to the same document. -/
theorem independent_writes_commute (call : Eval.Caller) (rounds : Nat) (state : State)
    {first second : List Code} (hfirst : ∀ s ∈ first, s.isMessage = true)
    (hsecond : ∀ s ∈ second, s.isMessage = true)
    (hfree : ∀ s ∈ first, ∀ e ∈ s.exprs, e.IsCallFree)
    (hsucceeds : ∀ s ∈ first, ∃ document after,
      Eval.stmt call rounds s { state with document } = .ok () after)
    (horder : Write.SameForEach (first.flatMap Stmt.writes) (second.flatMap Stmt.writes))
    (document : Document) :
    ∃ last, Eval.stmts call rounds first { state with document } =
        .ok () { state with document := last } ∧
      Eval.stmts call rounds second { state with document } =
        .ok () { state with document := last } := by
  have hmakes : ∀ w ∈ first.flatMap Stmt.writes, ∃ change, Eval.Makes call state w change := by
    rw [List.forall_mem_flatMap]
    intro s hs
    obtain ⟨start, after, hrun⟩ := hsucceeds s hs
    rw [Eval.stmt_of_isMessage call rounds (hfirst s hs)] at hrun
    exact Eval.exists_makes_of_forM (fun w hw e he => hfree s hs e (s.mem_exprs hw he)) hrun
  choose! change hchange using hmakes
  rw [Eval.stmts_of_isMessage call rounds hfirst, Eval.stmts_of_isMessage call rounds hsecond]
  refine ⟨_, Eval.forM_run_eq hchange document, ?_⟩
  rw [Eval.changed_eq (fun w hw => (hchange w hw).1) horder]
  exact Eval.forM_run_eq (fun w hw => hchange w (horder.mem hw)) document

def writingText : Code := .text ⟨"t", .start⟩ (.literal ⟨"t", .start⟩ (.string "a"))

def writingTitle : Code :=
  .embed ⟨"t", .start⟩ [⟨⟨"t", .start⟩, .member .title (.literal ⟨"t", .start⟩ (.string "b"))⟩]

theorem independent_writes_commute_textAndTitle :
    (∀ s ∈ [writingText, writingTitle], s.isMessage = true) ∧
      (∀ s ∈ [writingTitle, writingText], s.isMessage = true) ∧
      (∀ s ∈ [writingText, writingTitle], ∀ e ∈ s.exprs, e.IsCallFree) ∧
      (∀ s ∈ [writingText, writingTitle], ∃ document after, Eval.stmt (Eval.callWithin 1) 1 s
        { State.initial .empty .newMonth with document } = .ok () after) ∧
      Write.SameForEach ([writingText, writingTitle].flatMap Stmt.writes)
        ([writingTitle, writingText].flatMap Stmt.writes) ∧
      ∃ last, Eval.stmts (Eval.callWithin 1) 1 [writingText, writingTitle]
          (State.initial .empty .newMonth) =
            .ok () { State.initial .empty .newMonth with document := last } ∧
        Eval.stmts (Eval.callWithin 1) 1 [writingTitle, writingText]
          (State.initial .empty .newMonth) =
            .ok () { State.initial .empty .newMonth with document := last } := by
  have hfirst : ∀ s ∈ [writingText, writingTitle], s.isMessage = true := by
    simp [writingText, writingTitle, Stmt.isMessage]
  have hsecond : ∀ s ∈ [writingTitle, writingText], s.isMessage = true := by
    simp [writingText, writingTitle, Stmt.isMessage]
  have hfree : ∀ s ∈ [writingText, writingTitle], ∀ e ∈ s.exprs, e.IsCallFree := by
    simp [writingText, writingTitle, Stmt.exprs, EmbedPart.exprs, PartBody.exprs, Expr.IsCallFree,
      Expr.nodes, Expr.isCall]
  have hsucceeds : ∀ s ∈ [writingText, writingTitle], ∃ document after,
      Eval.stmt (Eval.callWithin 1) 1 s { State.initial .empty .newMonth with document } =
        .ok () after := by
    rw [List.forall_mem_cons, List.forall_mem_singleton]
    exact ⟨⟨.blank, _, rfl⟩, .blank, _, rfl⟩
  have horder : Write.SameForEach ([writingText, writingTitle].flatMap Stmt.writes)
      ([writingTitle, writingText].flatMap Stmt.writes) := by
    intro target
    cases target with
    | member key => cases key <;> rfl
    | _ => rfl
  exact ⟨hfirst, hsecond, hfree, hsucceeds, horder, independent_writes_commute (Eval.callWithin 1) 1
    (State.initial .empty .newMonth) hfirst hsecond hfree hsucceeds horder .blank⟩

end MessageTemplate
