import MessageTemplate.Proofs.Evaluation.Bare
import MessageTemplate.Proofs.Evaluation.Reading
import MessageTemplate.Proofs.Message.Writes

/-!
# Writing at once

Everything but whole fields is written at once: all expressions are evaluated
before the document is touched, and then its target changes in one step. So a
write that fails leaves what its expressions left, and a write that succeeds
changes nothing besides its target.
-/

namespace MessageTemplate

/-- The values with which a part of an embed is refused: a null for a value that is required, or
one that cannot be converted for its member. -/
def PartBody.Refuses : PartBody Term Location → List Value → Prop
  | .member key _, values =>
    ∃ value fault, values = [value] ∧ Eval.memberEdit key value = .error fault
  | .author _ (.flow _), values | .footer _ (.flow _), values => values = [.null]
  | _, _ => False

def Write.Refuses : Write → List Value → Prop
  | .part p => p.body.Refuses
  | _ => fun _ => False

/-- No change reaches an embed behind the first one. -/
theorem Target.Changes.tail_embeds {target : Target} {change : Document → Document}
    (h : target.Changes change) (document : Document) :
    (change document).embeds.tail = document.embeds.tail := by
  cases h <;> rfl

namespace Eval

variable {call : Caller} {target : Target}

/-- The document changes in the target and nowhere else. -/
def ChangesOnly (target : Target) (state after : State) : Prop :=
  ∃ change, target.Changes change ∧ after = state.editDocument change

/-- All expressions are evaluated before the target changes. -/
abbrev WritesAtOnce (call : Caller) (exprs : List Term) (refuses : List Value → Prop)
    (target : Target) (run : Eval Unit) : Prop :=
  Reads call exprs refuses (ChangesOnly target) run

theorem completes_pure (target : Target) :
    Completes (ChangesOnly target) (pure () : Eval Unit) :=
  fun state => ⟨(), state, rfl, id, .none target, rfl⟩

theorem completes_editDocument {change : Document → Document} (h : target.Changes change) :
    Completes (ChangesOnly target) (editDocument change) :=
  fun _ => ⟨(), _, rfl, change, h, rfl⟩

theorem completes_editEmbed {edit : Embed → Embed} (h : target.Edits edit) :
    Completes (ChangesOnly target) (editEmbed edit) :=
  completes_editDocument (.embed h)

/-! ## The writes -/

theorem writeContent_atOnce (value : Term) :
    WritesAtOnce call [value] (fun _ => False) .content (writeContent call value) := by
  apply (Reads.text? value).bind_completes
  intro text
  cases text with
  | none => exact completes_pure _
  | some text => exact completes_editDocument (.content fun _ => some text)

theorem attach_atOnce (value : Term) :
    WritesAtOnce call [value] (fun _ => False) .attachments (attach call value) := by
  apply (Reads.text? value).bind_completes
  intro url
  cases url with
  | none => exact completes_pure _
  | some url => exact completes_editDocument (.attachments fun urls => urls ++ [url])

theorem writeMember_atOnce (member : EmbedMember) (value : Term) :
    WritesAtOnce call [value] (PartBody.member (P := Location) member value).Refuses
      (.member member) (writeMember call member value) := by
  apply Reads.check
  intro value
  cases hvalue : memberEdit member value with
  | error fault => exact .inr ⟨⟨_, rfl⟩, value, fault, rfl, hvalue⟩
  | ok edit? =>
    cases edit? with
    | none => exact .inl (completes_pure _)
    | some edit => exact .inl (completes_editEmbed (memberEdit_puts hvalue).target)

theorem writeAuthor_atOnce (mode : WriteMode) (body : Section (AuthorFlow Term) AuthorKey Term) :
    WritesAtOnce call (body.exprs AuthorFlow.exprs) (PartBody.author mode body).Refuses .author
      (writeAuthor call mode body) := by
  have hentries (entries : List (AuthorKey × Term)) :
      WritesAtOnce call (entries.map Prod.snd) (fun _ => False) .author
        (writeAuthorEntries call mode entries) := by
    apply (Reads.edits authorEdit entries).bind_completes
    intro edits
    cases mode with
    | replace => exact completes_editEmbed (.author fun _ => some (applyEdits edits .blank))
    | append =>
      exact completes_editEmbed (.author fun author =>
        some (applyEdits edits (author.getD .blank)))
  cases body with
  | flow flow =>
    apply (Reads.requiredText _ flow.name).bind
    intro name
    apply (Reads.optionalText flow.url).bind
    intro url
    apply (Reads.optionalText flow.icon).bind_completes
    intro icon
    exact completes_editEmbed (.author fun _ => some ⟨name, url, icon⟩)
  | object entries => exact hentries entries
  | property key value => exact hentries [(key, value)]

theorem writeFooter_atOnce (mode : WriteMode) (body : Section (FooterFlow Term) FooterKey Term) :
    WritesAtOnce call (body.exprs FooterFlow.exprs) (PartBody.footer mode body).Refuses .footer
      (writeFooter call mode body) := by
  have hentries (entries : List (FooterKey × Term)) :
      WritesAtOnce call (entries.map Prod.snd) (fun _ => False) .footer
        (writeFooterEntries call mode entries) := by
    apply (Reads.edits footerEdit entries).bind_completes
    intro edits
    cases mode with
    | replace => exact completes_editEmbed (.footer fun _ => some (applyEdits edits .blank))
    | append =>
      exact completes_editEmbed (.footer fun footer =>
        some (applyEdits edits (footer.getD .blank)))
  cases body with
  | flow flow =>
    apply (Reads.requiredText _ flow.text).bind
    intro text
    apply (Reads.optionalText flow.icon).bind_completes
    intro icon
    exact completes_editEmbed (.footer fun _ => some ⟨text, icon⟩)
  | object entries => exact hentries entries
  | property key value => exact hentries [(key, value)]

/-- Without whole fields there is at most one property to write. -/
theorem writeFieldsBody_atOnce (mode : WriteMode) {body : FieldsBody Term Location}
    (h : body.specs = []) :
    WritesAtOnce call body.exprs (fun _ => False) .fields (writeFieldsBody call mode body) := by
  cases body with
  | part spec => contradiction
  | list specs =>
    obtain rfl : specs = [] := h
    apply Reads.of_completes
    cases mode with
    | replace => exact completes_editEmbed (.fields fun _ => [])
    | append => exact completes_pure _
  | property setting =>
    apply (Reads.fieldEdit? setting).bind_completes
    intro edit?
    have hedits : (PartBody.fields mode (.property setting)).Edits _ := .lastField (edit?.getD id)
    exact completes_editEmbed hedits.target

theorem write_atOnce {w : Write} (h : w.specs = []) :
    WritesAtOnce call w.exprs w.Refuses w.target (w.run call) := by
  cases w with
  | content here value => exact (writeContent_atOnce value).located here
  | attachment here value => exact (attach_atOnce value).located here
  | part p =>
    obtain ⟨here, body⟩ := p
    apply Reads.located
    cases body with
    | member member value => exact writeMember_atOnce member value
    | author mode body => exact writeAuthor_atOnce mode body
    | footer mode body => exact writeFooter_atOnce mode body
    | fields mode body => exact writeFieldsBody_atOnce mode h

end Eval

/-- A message statement is a row of writes. Unless a write describes whole fields, it evaluates all
its expressions before it touches the document. If it succeeds, only its target is different from
what the expressions left, and no embed behind the first one is. If it fails, an expression has
failed or a value is refused, and the document is what the expressions up to there left, the same as
before if there are no calls in them. -/
theorem message_writes_atomic (call : Eval.Caller) (rounds : Nat) {s : Code}
    (hs : s.isMessage = true) :
    Eval.stmt call rounds s = s.writes.forM (Write.run call) ∧
      ∀ w ∈ s.writes, w.specs = [] → ∀ state,
        (∀ after, w.run call state = .ok () after → ∃ values mid change,
          Eval.terms call w.exprs state = .ok values mid ∧ w.target.Changes change ∧
            after = State.editDocument mid change ∧
            after.document.embeds.tail = mid.document.embeds.tail) ∧
        ∀ stop after, w.run call state = .error stop after →
          Eval.Interrupted call w.exprs w.Refuses state after ∧
            ((∀ e ∈ w.exprs, e.IsCallFree) → after = state) := by
  refine ⟨Eval.stmt_of_isMessage call rounds hs, fun w _ hspecs state => ⟨?_, ?_⟩⟩
  · intro after hrun
    obtain ⟨values, mid, hvalues, change, hchange, rfl⟩ := (Eval.write_atOnce hspecs).of_ok hrun
    exact ⟨values, mid, change, hvalues, hchange, rfl, hchange.tail_embeds mid.document⟩
  · intro stop after hrun
    have hinterrupted := (Eval.write_atOnce hspecs).of_error hrun
    exact ⟨hinterrupted, hinterrupted.eq_of_isCallFree⟩

/-- An author whose name is the constant `n`. -/
def creditedByConstant : EmbedPart Term Location :=
  ⟨⟨"t", .start⟩, .author .append (.flow ⟨.var ⟨"t", .start⟩ "n", none, none⟩)⟩

theorem message_writes_atomic_creditedByConstant :
    Stmt.isMessage (.embed ⟨"t", .start⟩ [creditedByConstant] : Code) = true ∧
      ∃ stop after,
        (Write.part creditedByConstant).run (Eval.callWithin 1) nullConstant = .error stop after ∧
        Eval.Interrupted (Eval.callWithin 1) (Write.part creditedByConstant).exprs
          (Write.part creditedByConstant).Refuses nullConstant after ∧
        after = nullConstant := by
  obtain ⟨stop, after, hrun⟩ : ∃ stop after,
      (Write.part creditedByConstant).run (Eval.callWithin 1) nullConstant =
        .error stop after := ⟨_, _, rfl⟩
  have hfree : ∀ e ∈ (Write.part creditedByConstant).exprs, e.IsCallFree := by
    simp [creditedByConstant, Write.exprs, EmbedPart.exprs, PartBody.exprs, Section.exprs,
      AuthorFlow.exprs, Expr.IsCallFree, Expr.nodes, Expr.isCall]
  have hatomic := (message_writes_atomic (Eval.callWithin 1) 1
    (s := .embed ⟨"t", .start⟩ [creditedByConstant]) rfl).2
  obtain ⟨hinterrupted, hunchanged⟩ :=
    (hatomic (.part creditedByConstant) (List.mem_singleton_self _) rfl nullConstant).2 _ _ hrun
  exact ⟨rfl, stop, after, hrun, hinterrupted, hunchanged hfree⟩

end MessageTemplate
