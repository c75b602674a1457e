import MessageTemplate.Proofs.Grammar.Origin
import MessageTemplate.Grammar.Stmt

/-!
# Running rules

A rule reads a form if it gives what the form describes and leaves the tokens
behind it. While it reads, the last token of the source stays in front of it, so
a rule that gives up names the place of some token.
-/

namespace MessageTemplate
namespace Parser

section

variable {α β : Type} {ls rest : List Lexeme} {token : Token}

/-! ## Single steps -/

theorem run_bind (rule : Parser α) (next : α → Parser β) :
    (rule >>= next) ls = (rule ls >>= fun out => next out.1 out.2) := rfl

theorem run_peek_bind (next : Token → Parser β) : (peek >>= next) ls = next (headOf ls) ls := rfl

theorem accept_of_headOf_eq (h : headOf ls = token) : accept token ls = .ok (true, ls.tail) := by
  change (if headOf ls = token then _ else _ : Parser Bool) ls = _
  rw [if_pos h]
  rfl

theorem accept_of_headOf_ne (h : headOf ls ≠ token) : accept token ls = .ok (false, ls) := by
  change (if headOf ls = token then _ else _ : Parser Bool) ls = _
  rw [if_neg h]
  rfl

end

/-! ## What is left of a source -/

/-- Tokens at the end of a source, the last of which no rule takes. -/
structure Remains (source ls : List Lexeme) : Prop where
  suffix : ls <:+ source
  closed : ∃ front last, ls = front ++ [last] ∧ last.token.isFinal = true

section

variable {source ls rest : List Lexeme} {token : Token}

theorem Remains.exists_cons (h : Remains source ls) :
    ∃ first more, ls = first :: more ∧ first ∈ source := by
  obtain ⟨front, last, rfl, -⟩ := h.closed
  have hne : front ++ [last] ≠ [] := by simp
  obtain ⟨first, more, heq⟩ := List.exists_cons_of_ne_nil hne
  exact ⟨first, more, heq, h.suffix.subset (heq ▸ List.mem_cons_self)⟩

theorem Remains.isPlaceIn (h : Remains source ls) : IsPlaceIn source (placeOf ls) := by
  obtain ⟨first, more, rfl, hfirst⟩ := h.exists_cons
  exact ⟨first, hfirst, rfl⟩

/-- The token in front is taken, unless it is the last one. -/
theorem Remains.takes (h : Remains source ls) (hhead : headOf ls = token)
    (hfinal : token.isFinal = false) : Takes token ls ls.tail ∧ Remains source ls.tail := by
  obtain ⟨first, more, rfl, -⟩ := h.exists_cons
  rw [headOf_cons] at hhead
  subst hhead
  refine ⟨⟨first.position, rfl⟩, (List.suffix_cons first more).trans h.suffix, ?_⟩
  obtain ⟨front, last, hls, hlast⟩ := h.closed
  cases front with
  | nil =>
    obtain ⟨rfl, -⟩ := List.cons.inj hls
    rw [hlast] at hfinal
    contradiction
  | cons _ front => exact ⟨front, last, (List.cons.inj hls).2, hlast⟩

end

/-! ## Outcomes -/

/-- What comes of a rule that is run somewhere in a source: what it read, with the tokens that are
left, or a complaint about some token. -/
inductive Outcome {α : Type} (source : List Lexeme) (post : α → List Lexeme → Prop) :
    Except SyntaxError (α × List Lexeme) → Prop
  | ok {value rest} (hpost : post value rest) (hrest : Remains source rest) :
      Outcome source post (.ok (value, rest))
  | error {fault place} (hplace : IsPlaceIn source place) :
      Outcome source post (.error ⟨fault, place⟩)

/-- The rule is run on some tokens of a source. -/
def Gives {α : Type} (source : List Lexeme) (rule : Parser α) (ls : List Lexeme)
    (post : α → List Lexeme → Prop) : Prop :=
  Outcome source post (rule ls)

/-- Wherever it is run in a source, the rule reads the form. -/
def Reads {α : Type} (source : List Lexeme) (rule : Parser α) (form : Form α) : Prop :=
  ∀ ls, Remains source ls → Gives source rule ls (form ls)

section

variable {α β : Type} {source ls : List Lexeme} {form : Form α}
variable {mid : α → List Lexeme → Prop} {post : β → List Lexeme → Prop}

namespace Gives

theorem pure {value : β} (hpost : post value ls) (hls : Remains source ls) :
    Gives source (Pure.pure value) ls post :=
  .ok hpost hls

theorem bind {rule : Parser α} {next : α → Parser β} (hrule : Gives source rule ls mid)
    (hnext : ∀ value rest, mid value rest → Remains source rest →
      Gives source (next value) rest post) : Gives source (rule >>= next) ls post := by
  rw [Gives, run_bind]
  unfold Gives at hrule
  generalize rule ls = result at hrule ⊢
  cases hrule with
  | ok hpost hrest => exact hnext _ _ hpost hrest
  | error hplace => exact .error hplace

theorem mono {rule : Parser β} {other : β → List Lexeme → Prop} (h : Gives source rule ls post)
    (himp : ∀ value rest, post value rest → other value rest) : Gives source rule ls other := by
  unfold Gives at h ⊢
  generalize rule ls = result at h ⊢
  cases h with
  | ok hpost hrest => exact .ok (himp _ _ hpost) hrest
  | error hplace => exact .error hplace

theorem of_ok {rule : Parser α} (h : Gives source rule ls mid) {value : α} {rest : List Lexeme}
    (hresult : rule ls = .ok (value, rest)) : mid value rest ∧ Remains source rest := by
  unfold Gives at h
  rw [hresult] at h
  cases h with
  | ok hpost hrest => exact ⟨hpost, hrest⟩

theorem peek {next : Token → Parser β} (h : Gives source (next (headOf ls)) ls post) :
    Gives source (Parser.peek >>= next) ls post := h

theorem here {next : Position → Parser β} (h : Gives source (next (placeOf ls)) ls post) :
    Gives source (Parser.here >>= next) ls post := h

theorem get {next : List Lexeme → Parser β} (h : Gives source (next ls) ls post) :
    Gives source (MonadState.get >>= next) ls post := h

theorem set {next : PUnit → Parser β} {rest : List Lexeme} (h : Gives source (next ⟨⟩) rest post) :
    Gives source (MonadStateOf.set rest >>= next) ls post := h

theorem bounded {rule : Nat → Parser β} (h : Gives source (rule (ls.length + 1)) ls post) :
    Gives source (Parser.bounded rule) ls post := h

theorem failAt {place : Position} {fault : SyntaxFault} (hplace : IsPlaceIn source place) :
    Gives source (Parser.failAt place fault) ls post :=
  .error hplace

theorem fail {fault : SyntaxFault} (hls : Remains source ls) :
    Gives source (Parser.fail fault) ls post :=
  .error hls.isPlaceIn

theorem failExpecting {what : Expectation} (hls : Remains source ls) :
    Gives source (Parser.failExpecting what) ls post :=
  .error hls.isPlaceIn

/-- The token in front is known and not the last one. -/
theorem skip {token : Token} {next : Unit → Parser β} (hls : Remains source ls)
    (hhead : headOf ls = token) (hfinal : token.isFinal = false)
    (hnext : ∀ rest, Takes token ls rest → Remains source rest → Gives source (next ()) rest post) :
    Gives source (Parser.skip >>= next) ls post := by
  obtain ⟨htakes, hrest⟩ := hls.takes hhead hfinal
  exact hnext _ htakes hrest

/-- After an offer to take a token both answers have to be considered. -/
theorem accept {token : Token} {next : Bool → Parser β} (hls : Remains source ls)
    (hfinal : token.isFinal = false)
    (hyes : ∀ rest, Takes token ls rest → Remains source rest → Gives source (next true) rest post)
    (hno : headOf ls ≠ token → Gives source (next false) ls post) :
    Gives source (Parser.accept token >>= next) ls post := by
  rw [Gives, run_bind]
  by_cases hhead : headOf ls = token
  · obtain ⟨htakes, hrest⟩ := hls.takes hhead hfinal
    rw [accept_of_headOf_eq hhead]
    exact hyes _ htakes hrest
  · rw [accept_of_headOf_ne hhead]
    exact hno hhead

end Gives

/-! ## Tokens and names -/

theorem require_reads (symbol : Symbol) :
    Reads source (require symbol) fun ls _ rest => Takes (.symbol symbol) ls rest := by
  intro ls hls
  refine Gives.accept hls rfl (fun rest htakes hrest => .pure htakes hrest) fun _ => ?_
  exact .failExpecting hls

theorem requireWord_reads (keyword : Keyword) :
    Reads source (requireWord keyword) fun ls _ rest => Takes keyword.token ls rest := by
  intro ls hls
  refine Gives.accept hls rfl (fun rest htakes hrest => .pure htakes hrest) fun _ => ?_
  exact .failExpecting hls

theorem name_reads (role : NameRole) : Reads source (name role) NameForm := by
  intro ls hls
  apply Gives.peek
  split
  · rename_i word hhead
    split
    · exact .fail hls
    · rename_i hfree
      exact .skip hls hhead rfl fun rest htakes hrest => .pure ⟨htakes, hfree⟩ hrest
  · exact .failExpecting hls

theorem propertyName_reads :
    Reads source propertyName fun ls word rest => Takes (.ident word) ls rest := by
  intro ls hls
  apply Gives.peek
  split
  · rename_i word hhead
    exact .skip hls hhead rfl fun rest htakes hrest => .pure htakes hrest
  · exact .failExpecting hls

theorem boolean_reads :
    Reads source boolean fun ls value rest => Takes (Literal.bool value).token ls rest := by
  intro ls hls
  refine Gives.accept hls rfl (fun rest htakes hrest => .pure htakes hrest) fun _ => ?_
  refine Gives.accept hls rfl (fun rest htakes hrest => .pure htakes hrest) fun _ => ?_
  exact .failExpecting hls

theorem writeMode_reads :
    Reads source writeMode fun ls mode rest => Takes (.symbol (WriteMode.symbol mode)) ls rest := by
  intro ls hls
  refine Gives.accept hls rfl (fun rest htakes hrest => .pure htakes hrest) fun _ => ?_
  refine Gives.accept hls rfl (fun rest htakes hrest => .pure htakes hrest) fun _ => ?_
  exact .failExpecting hls

/-! ## Lists -/

theorem commaSeparatedWithin_reads {item : Parser α} (hitem : Reads source item form)
    (hbehind : ∀ ls value rest, form ls value rest → IsBehind rest ls) {rounds : Nat}
    {ls : List Lexeme} (hls : Remains source ls) (hrounds : ls.length < rounds) :
    Gives source (commaSeparatedWithin item rounds) ls (Separated form ls) := by
  induction rounds generalizing ls with
  | zero => exact absurd hrounds (Nat.not_lt_zero _)
  | succ rounds ih =>
    rw [commaSeparatedWithin]
    apply (hitem ls hls).bind
    intro first mid hfirst hmid
    refine .accept hmid rfl (fun next hcomma hnext => ?_) fun _ => .pure (.one hfirst) hmid
    have hlength := (hcomma.isBehind.trans (hbehind _ _ _ hfirst)).length_lt
    apply (ih hnext (by omega)).bind
    intro values rest hvalues hrest
    exact .pure (.more hfirst hcomma hvalues) hrest

theorem commaSeparated_reads {item : Parser α} (hitem : Reads source item form)
    (hbehind : ∀ ls value rest, form ls value rest → IsBehind rest ls) :
    Reads source (commaSeparated item) (Separated form) := by
  intro ls hls
  exact .bounded (commaSeparatedWithin_reads hitem hbehind hls (Nat.lt_succ_self _))

theorem listUntil_reads {item : Parser α} (hitem : Reads source item form)
    (hbehind : ∀ ls value rest, form ls value rest → IsBehind rest ls) (close : Symbol) :
    Reads source (listUntil item close) (Listed form close) := by
  intro ls hls
  refine Gives.accept hls rfl (fun rest hclose hrest => .pure (.none hclose) hrest) fun _ => ?_
  apply (commaSeparated_reads hitem hbehind ls hls).bind
  intro items mid hitems hmid
  apply (require_reads close mid hmid).bind
  intro _ rest hclose hrest
  exact .pure (.some hitems hclose) hrest

/-- Items up to a closing brace, which is taken. -/
def Braced (form : Form α) : Form (List α) := fun ls values rest =>
  ∃ mid, Repeated form ls values mid ∧ Takes (.symbol .braceClose) mid rest

theorem untilBraceWithin_reads {item : Parser α} (hitem : Reads source item form)
    (hbehind : ∀ ls value rest, form ls value rest → IsBehind rest ls) {rounds : Nat}
    {ls : List Lexeme} (hls : Remains source ls) (hrounds : ls.length < rounds) :
    Gives source (untilBraceWithin item rounds) ls (Braced form ls) := by
  induction rounds generalizing ls with
  | zero => exact absurd hrounds (Nat.not_lt_zero _)
  | succ rounds ih =>
    apply Gives.peek
    split
    · rename_i hhead
      exact .skip hls hhead rfl fun rest hclose hrest => .pure ⟨ls, .done, hclose⟩ hrest
    · exact .failExpecting hls
    · apply (hitem ls hls).bind
      intro first mid hfirst hmid
      have hlength := (hbehind _ _ _ hfirst).length_lt
      apply (ih hmid (by omega)).bind
      rintro values rest ⟨next, hvalues, hclose⟩ hrest
      exact .pure ⟨next, .more hfirst hvalues, hclose⟩ hrest

theorem untilBrace_reads {item : Parser α} (hitem : Reads source item form)
    (hbehind : ∀ ls value rest, form ls value rest → IsBehind rest ls) :
    Reads source (untilBrace item) (Braced form) := by
  intro ls hls
  exact .bounded (untilBraceWithin_reads hitem hbehind hls (Nat.lt_succ_self _))

theorem untilEndWithin_reads {item : Parser α} (hitem : Reads source item form)
    (hbehind : ∀ ls value rest, form ls value rest → IsBehind rest ls) {rounds : Nat}
    {ls : List Lexeme} (hls : Remains source ls) (hrounds : ls.length < rounds) :
    Gives source (untilEndWithin item rounds) ls fun values rest =>
      Repeated form ls values rest ∧ headOf rest = .endOfInput := by
  induction rounds generalizing ls with
  | zero => exact absurd hrounds (Nat.not_lt_zero _)
  | succ rounds ih =>
    apply Gives.peek
    split
    · exact .pure ⟨.done, ‹_›⟩ hls
    · apply (hitem ls hls).bind
      intro first mid hfirst hmid
      have hlength := (hbehind _ _ _ hfirst).length_lt
      apply (ih hmid (by omega)).bind
      rintro values rest ⟨hvalues, hend⟩ hrest
      exact .pure ⟨.more hfirst hvalues, hend⟩ hrest

/-- A rule that is told a name and the place of its token. -/
def ReadsEntry (source : List Lexeme) (entry : Position → String → Parser α)
    (form : String → Form α) : Prop :=
  ∀ place word, IsPlaceIn source place → Reads source (entry place word) (form word)

theorem entriesWithin_reads {entry : Position → String → Parser α} {form : String → Form α}
    (hentry : ReadsEntry source entry form) {rounds : Nat} {ls : List Lexeme}
    (hls : Remains source ls) :
    Gives source (entriesWithin entry rounds) ls (Entries form ls) := by
  induction rounds generalizing ls with
  | zero => exact .pure .none hls
  | succ rounds ih =>
    apply Gives.peek
    split
    · exact .pure .none hls
    · apply Gives.here
      apply (propertyName_reads ls hls).bind
      intro word mid hword hmid
      apply (require_reads .colon mid hmid).bind
      intro _ next hcolon hnext
      apply (hentry _ word hls.isPlaceIn next hnext).bind
      intro first after hfirst hafter
      refine .accept hafter rfl (fun behind hcomma hbehind => ?_)
        fun _ => .pure (.last hword hcolon hfirst) hafter
      apply (ih hbehind).bind
      intro values rest hvalues hrest
      exact .pure (.more hword hcolon hfirst hcomma hvalues) hrest

theorem object_reads {entry : Position → String → Parser α} {form : String → Form α}
    (hentry : ReadsEntry source entry form) : Reads source (object entry) (ObjectForm form) := by
  intro ls hls
  apply (require_reads .braceOpen ls hls).bind
  intro _ mid hopen hmid
  apply (Gives.bounded (entriesWithin_reads hentry hmid)).bind
  intro values next hvalues hnext
  apply (require_reads .braceClose next hnext).bind
  intro _ rest hclose hrest
  exact .pure ⟨hopen, hvalues, hclose⟩ hrest

end

/-! ## Successful runs -/

/-- Run on some tokens, the rule gives the value and leaves `rest`. -/
def Yields {α : Type} (rule : Parser α) (ls : List Lexeme) (value : α) (rest : List Lexeme) :
    Prop :=
  rule ls = .ok (value, rest)

section

variable {α β : Type} {ls mid rest : List Lexeme} {value : β} {token : Token}

namespace Yields

theorem pure : Yields (Pure.pure value) ls value ls := rfl

theorem bind {rule : Parser α} {next : α → Parser β} {first : α} (hrule : Yields rule ls first mid)
    (hnext : Yields (next first) mid value rest) : Yields (rule >>= next) ls value rest := by
  rw [Yields, run_bind, hrule]
  exact hnext

theorem peek {next : Token → Parser β} (h : Yields (next (headOf ls)) ls value rest) :
    Yields (Parser.peek >>= next) ls value rest := h

theorem here {next : Position → Parser β} (h : Yields (next (placeOf ls)) ls value rest) :
    Yields (Parser.here >>= next) ls value rest := h

theorem get {next : List Lexeme → Parser β} (h : Yields (next ls) ls value rest) :
    Yields (MonadState.get >>= next) ls value rest := h

theorem set {next : PUnit → Parser β} (h : Yields (next ⟨⟩) mid value rest) :
    Yields (MonadStateOf.set mid >>= next) ls value rest := h

theorem bounded {rule : Nat → Parser β} (h : Yields (rule (ls.length + 1)) ls value rest) :
    Yields (Parser.bounded rule) ls value rest := h

theorem skip {next : Unit → Parser β} (htakes : Takes token ls mid)
    (h : Yields (next ()) mid value rest) : Yields (Parser.skip >>= next) ls value rest := by
  obtain ⟨place, rfl⟩ := htakes
  exact h

theorem accept {next : Bool → Parser β} (htakes : Takes token ls mid)
    (h : Yields (next true) mid value rest) :
    Yields (Parser.accept token >>= next) ls value rest := by
  obtain ⟨place, rfl⟩ := htakes
  exact .bind (accept_of_headOf_eq rfl) h

theorem refuse {next : Bool → Parser β} (hhead : headOf ls ≠ token)
    (h : Yields (next false) ls value rest) :
    Yields (Parser.accept token >>= next) ls value rest :=
  .bind (accept_of_headOf_ne hhead) h

theorem require {symbol : Symbol} {next : Unit → Parser β} (htakes : Takes (.symbol symbol) ls mid)
    (h : Yields (next ()) mid value rest) :
    Yields (Parser.require symbol >>= next) ls value rest :=
  .bind (.accept htakes .pure) h

theorem requireWord {keyword : Keyword} {next : Unit → Parser β}
    (htakes : Takes keyword.token ls mid) (h : Yields (next ()) mid value rest) :
    Yields (Parser.requireWord keyword >>= next) ls value rest :=
  .bind (.accept htakes .pure) h

end Yields

theorem name_yields (role : NameRole) {word : String} (h : NameForm ls word rest) :
    Yields (name role) ls word rest := by
  obtain ⟨htakes, hfree⟩ := h
  apply Yields.peek
  rw [htakes.headOf_eq]
  dsimp only
  rw [hfree]
  exact .skip htakes .pure

theorem propertyName_yields {word : String} (h : Takes (.ident word) ls rest) :
    Yields propertyName ls word rest := by
  apply Yields.peek
  rw [h.headOf_eq]
  exact .skip h .pure

theorem boolean_yields {truth : Bool} (h : Takes (Literal.bool truth).token ls rest) :
    Yields boolean ls truth rest := by
  cases truth with
  | true => exact .accept h .pure
  | false => exact .refuse (by rw [h.headOf_eq]; decide) (.accept h .pure)

theorem writeMode_yields {mode : WriteMode} (h : Takes (.symbol (WriteMode.symbol mode)) ls rest) :
    Yields writeMode ls mode rest := by
  cases mode with
  | replace => exact .accept h .pure
  | append => exact .refuse (by rw [h.headOf_eq]; decide) (.accept h .pure)

/-- On at most `bound` tokens, the rule reads all that has the form, when `stop` holds of what is
behind. -/
def ReadsAll {α : Type} (rule : Parser α) (form : Form α) (stop : List Lexeme → Prop)
    (bound : Nat) :
    Prop :=
  ∀ ls value rest, form ls value rest → stop rest → ls.length ≤ bound → Yields rule ls value rest

variable {form : Form α} {stop : List Lexeme → Prop} {bound : Nat} {item : Parser α}
variable {values : List α}

theorem commaSeparatedWithin_yields (hitem : ReadsAll item form stop bound)
    (hbehind : ∀ ls value rest, form ls value rest → IsBehind rest ls)
    (hcomma : ∀ ls next value rest, Takes (.symbol .comma) ls next → form next value rest → stop ls)
    (h : Separated form ls values rest) (hstop : stop rest) (hhead : headOf rest ≠ .symbol .comma)
    (hbound : ls.length ≤ bound) {rounds : Nat} (hrounds : ls.length < rounds) :
    Yields (commaSeparatedWithin item rounds) ls values rest := by
  induction h generalizing rounds with
  | one hfirst =>
    obtain ⟨rounds, rfl⟩ := Nat.exists_eq_succ_of_ne_zero (Nat.ne_zero_of_lt hrounds)
    exact .bind (hitem _ _ _ hfirst hstop hbound) (.refuse hhead .pure)
  | more hfirst htakes hmore ih =>
    obtain ⟨rounds, rfl⟩ := Nat.exists_eq_succ_of_ne_zero (Nat.ne_zero_of_lt hrounds)
    obtain ⟨second, behind, hsecond⟩ := hmore.first
    have hlength := (htakes.isBehind.trans (hbehind _ _ _ hfirst)).length_lt
    have hvalues := ih hstop hhead (by omega) (by omega : _ < rounds)
    refine .bind (hitem _ _ _ hfirst (hcomma _ _ _ _ htakes hsecond) hbound) ?_
    exact .accept htakes (.bind hvalues .pure)

theorem listUntil_yields {close : Symbol} (hitem : ReadsAll item form stop bound)
    (hbehind : ∀ ls value rest, form ls value rest → IsBehind rest ls)
    (hhead : ∀ ls value rest, form ls value rest → headOf ls ≠ .symbol close)
    (hcomma : ∀ ls next value rest, Takes (.symbol .comma) ls next → form next value rest → stop ls)
    (hclose : ∀ ls next, Takes (.symbol close) ls next → stop ls) (hne : close ≠ .comma)
    (h : Listed form close ls values rest) (hbound : ls.length ≤ bound) :
    Yields (listUntil item close) ls values rest := by
  cases h with
  | none htakes => exact .accept htakes .pure
  | @some _ mid _ _ hitems htakes =>
    obtain ⟨first, behind, hfirst⟩ := hitems.first
    have hend : headOf mid ≠ Token.symbol .comma := by
      rw [htakes.headOf_eq]
      simpa using hne
    refine .refuse (hhead _ _ _ hfirst) (.bind (.bounded ?_) (.require htakes .pure))
    exact commaSeparatedWithin_yields hitem hbehind hcomma hitems (hclose _ _ htakes) hend hbound
      (Nat.lt_succ_self _)

theorem untilBraceWithin_yields (hitem : ReadsAll item form stop bound)
    (hbehind : ∀ ls value rest, form ls value rest → IsBehind rest ls)
    (hhead : ∀ ls value rest, form ls value rest →
      headOf ls ≠ .symbol .braceClose ∧ headOf ls ≠ .endOfInput)
    (hnext : ∀ ls value rest, form ls value rest → stop ls)
    (hclose : ∀ ls next, Takes (.symbol .braceClose) ls next → stop ls)
    (h : Repeated form ls values mid) (htakes : Takes (.symbol .braceClose) mid rest)
    (hbound : ls.length ≤ bound) {rounds : Nat} (hrounds : ls.length < rounds) :
    Yields (untilBraceWithin item rounds) ls values rest := by
  induction h generalizing rounds with
  | done =>
    obtain ⟨rounds, rfl⟩ := Nat.exists_eq_succ_of_ne_zero (Nat.ne_zero_of_lt hrounds)
    apply Yields.peek
    rw [htakes.headOf_eq]
    exact .skip htakes .pure
  | more hfirst hmore ih =>
    obtain ⟨rounds, rfl⟩ := Nat.exists_eq_succ_of_ne_zero (Nat.ne_zero_of_lt hrounds)
    have hlength := (hbehind _ _ _ hfirst).length_lt
    have hvalues := ih htakes (by omega) (by omega : _ < rounds)
    apply Yields.peek
    split
    · exact absurd ‹_› (hhead _ _ _ hfirst).1
    · exact absurd ‹_› (hhead _ _ _ hfirst).2
    · exact .bind (hitem _ _ _ hfirst (hmore.starts (hclose _ _ htakes) hnext) hbound)
        (.bind hvalues .pure)

theorem untilEndWithin_yields (hitem : ReadsAll item form stop bound)
    (hbehind : ∀ ls value rest, form ls value rest → IsBehind rest ls)
    (hhead : ∀ ls value rest, form ls value rest → headOf ls ≠ .endOfInput)
    (hnext : ∀ ls value rest, form ls value rest → stop ls)
    (h : Repeated form ls values rest) (hstop : stop rest) (hend : headOf rest = .endOfInput)
    (hbound : ls.length ≤ bound) {rounds : Nat} (hrounds : ls.length < rounds) :
    Yields (untilEndWithin item rounds) ls values rest := by
  induction h generalizing rounds with
  | done =>
    obtain ⟨rounds, rfl⟩ := Nat.exists_eq_succ_of_ne_zero (Nat.ne_zero_of_lt hrounds)
    apply Yields.peek
    rw [if_pos hend]
    exact .pure
  | more hfirst hmore ih =>
    obtain ⟨rounds, rfl⟩ := Nat.exists_eq_succ_of_ne_zero (Nat.ne_zero_of_lt hrounds)
    have hlength := (hbehind _ _ _ hfirst).length_lt
    have hvalues := ih hstop hend (by omega) (by omega : _ < rounds)
    apply Yields.peek
    rw [if_neg (hhead _ _ _ hfirst)]
    exact .bind (hitem _ _ _ hfirst (hmore.starts hstop hnext) hbound) (.bind hvalues .pure)

end

end Parser
end MessageTemplate
