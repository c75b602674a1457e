import MessageTemplate.Proofs.Grammar.Limited
import MessageTemplate.Proofs.Grammar.Soundness

/-!
# The grammar ends

A rule repeats, or is run again inside itself, only after a token has been taken,
and the last token of a text is never taken. So some allowance is enough for a
run that starts at a token of a text. The run comes to what the rule of the
grammar gives there: no bound of the grammar is ever reached.
-/

namespace MessageTemplate
namespace Limited

open MessageTemplate.Parser

section

variable {α β : Type} {source ls : List Lexeme} {bound limit : Nat} {token : Token}

/-! ## Runs that end -/

/-- With enough of an allowance the run does not give up but has the outcome, and more of it changes
nothing. -/
def ComesTo (free : Nat → Limited α) (ls : List Lexeme)
    (outcome : Except SyntaxError (α × List Lexeme)) : Prop :=
  ∃ depth, ∀ deeper, depth ≤ deeper → free deeper ls = some outcome

/-- The run of `free` on some tokens of a source comes to what `rule` gives. If that is a success,
fewer than `bound` tokens are left, and still some. -/
structure Ends (source : List Lexeme) (bound : Nat) (free : Nat → Limited α) (rule : Parser α)
    (ls : List Lexeme) : Prop where
  comesTo : ComesTo free ls (rule ls)
  left : ∀ value rest, rule ls = .ok (value, rest) → Remains source rest ∧ rest.length < bound

/-- On fewer than `limit` tokens, `free` ends as `rule` does and takes a token if it succeeds. -/
def HaltsBelow (source : List Lexeme) (limit : Nat) (free : Nat → Limited α) (rule : Parser α) :
    Prop :=
  ∀ ls, Remains source ls → ls.length < limit → Ends source ls.length free rule ls

/-- Wherever it is run in a source, `free` ends as `rule` does and takes a token if it succeeds. -/
def Halts (source : List Lexeme) (free : Nat → Limited α) (rule : Parser α) : Prop :=
  ∀ ls, Remains source ls → Ends source ls.length free rule ls

section

variable {free : Nat → Limited α} {rule : Parser α}

theorem ComesTo.of_eq {outcome : Except SyntaxError (α × List Lexeme)}
    (h : ∀ depth, free depth ls = some outcome) : ComesTo free ls outcome :=
  ⟨0, fun depth _ => h depth⟩

theorem Halts.below (h : Halts source free rule) : HaltsBelow source limit free rule :=
  fun ls hls _ => h ls hls

theorem HaltsBelow.of_succ (h : HaltsBelow source (limit + 1) free rule) :
    HaltsBelow source limit free rule :=
  fun ls hls hlimit => h ls hls (Nat.lt_succ_of_lt hlimit)

/-- The bound that a rule gets exceeds the number of tokens. -/
theorem Halts.bounded {rule : Nat → Parser α}
    (h : ∀ limit, HaltsBelow source limit free (rule limit)) :
    Halts source free (Parser.bounded rule) := by
  intro ls hls
  obtain ⟨hcomes, hleft⟩ := h (ls.length + 1) ls hls (Nat.lt_succ_self _)
  exact ⟨hcomes, hleft⟩

end

namespace Ends

variable {free : Nat → Limited α} {rule : Parser α}

theorem pure {value : β} (hls : Remains source ls) (hlength : ls.length < bound) :
    Ends source bound (fun _ => Pure.pure value) (Pure.pure value) ls := by
  refine ⟨.of_eq fun _ => rfl, ?_⟩
  rintro _ _ ⟨⟩
  exact ⟨hls, hlength⟩

/-- A call takes one off the allowance. -/
theorem succ (h : Ends source bound (fun depth => free (depth + 1)) rule ls) :
    Ends source bound free rule ls := by
  obtain ⟨depth, hdepth⟩ := h.comesTo
  refine ⟨⟨depth + 1, fun deeper hdeeper => ?_⟩, h.left⟩
  obtain ⟨deeper, rfl⟩ := Nat.exists_eq_add_of_lt hdeeper
  exact hdepth _ (by omega)

/-- After a run that ends, what comes next has to end only where the run has led. -/
theorem bind_of_comesTo {freeNext : Nat → α → Limited β} {next : α → Parser β}
    (hfree : ComesTo free ls (rule ls))
    (hnext : ∀ value rest, rule ls = .ok (value, rest) →
      Ends source bound (fun depth => freeNext depth value) (next value) rest) :
    Ends source bound (fun depth => free depth >>= freeNext depth) (rule >>= next) ls := by
  obtain ⟨depth, hdepth⟩ := hfree
  have hrun : ∀ deeper, depth ≤ deeper → (free deeper >>= freeNext deeper) ls =
      ExceptT.bindCont (fun out => freeNext deeper out.1 out.2) (rule ls) := by
    intro deeper hdeeper
    change Option.bind (free deeper ls) _ = _
    rw [hdepth deeper hdeeper]
    rfl
  cases hresult : rule ls with
  | ok out =>
    obtain ⟨⟨more, hmore⟩, hleft⟩ := hnext _ _ hresult
    have heq : (rule >>= next) ls = next out.1 out.2 := by
      rw [run_bind, hresult]
      rfl
    rw [hresult] at hrun
    refine ⟨⟨max depth more, fun deeper hdeeper => (hrun deeper (by omega)).trans ?_⟩, heq ▸ hleft⟩
    rw [heq]
    exact hmore deeper (by omega)
  | error e =>
    have heq : (rule >>= next) ls = .error e := by
      rw [run_bind, hresult]
      rfl
    rw [hresult] at hrun
    refine ⟨⟨depth, fun deeper hdeeper => (hrun deeper hdeeper).trans ?_⟩, by simp [heq]⟩
    rw [heq]
    rfl

theorem bind {freeNext : Nat → α → Limited β} {next : α → Parser β} {mid : Nat}
    (hrule : Ends source mid free rule ls)
    (hnext : ∀ value rest, Remains source rest → rest.length < mid →
      Ends source bound (fun depth => freeNext depth value) (next value) rest) :
    Ends source bound (fun depth => free depth >>= freeNext depth) (rule >>= next) ls := by
  refine bind_of_comesTo hrule.comesTo fun value rest hresult => ?_
  obtain ⟨hrest, hlength⟩ := hrule.left value rest hresult
  exact hnext value rest hrest hlength

theorem mono {other : Nat} (h : Ends source bound free rule ls) (hle : bound ≤ other) :
    Ends source other free rule ls := by
  refine ⟨h.comesTo, fun value rest hresult => ?_⟩
  obtain ⟨hrest, hlength⟩ := h.left value rest hresult
  exact ⟨hrest, hlength.trans_le hle⟩

/-- A rule of the grammar ends on its own. -/
theorem of_gives {post : α → List Lexeme → Prop} (h : Gives source rule ls post)
    (hlength : ∀ value rest, post value rest → rest.length < bound) :
    Ends source bound (fun _ => liftM rule) rule ls := by
  refine ⟨.of_eq fun _ => rfl, fun value rest hresult => ?_⟩
  obtain ⟨hpost, hrest⟩ := h.of_ok hresult
  exact ⟨hrest, hlength value rest hpost⟩

theorem peek {freeNext : Nat → Token → Limited β} {next : Token → Parser β}
    (h : Ends source bound (fun depth => freeNext depth (headOf ls)) (next (headOf ls)) ls) :
    Ends source bound (fun depth => liftM Parser.peek >>= freeNext depth) (Parser.peek >>= next)
      ls :=
  ⟨h.comesTo, h.left⟩

theorem here {freeNext : Nat → Position → Limited β} {next : Position → Parser β}
    (h : Ends source bound (fun depth => freeNext depth (placeOf ls)) (next (placeOf ls)) ls) :
    Ends source bound (fun depth => liftM Parser.here >>= freeNext depth) (Parser.here >>= next)
      ls :=
  ⟨h.comesTo, h.left⟩

theorem get {freeNext : Nat → List Lexeme → Limited β} {next : List Lexeme → Parser β}
    (h : Ends source bound (fun depth => freeNext depth ls) (next ls) ls) :
    Ends source bound (fun depth => MonadState.get >>= freeNext depth) (MonadState.get >>= next)
      ls :=
  ⟨h.comesTo, h.left⟩

theorem set {freeNext : Nat → PUnit → Limited β} {next : PUnit → Parser β} {rest : List Lexeme}
    (h : Ends source bound (fun depth => freeNext depth ⟨⟩) (next ⟨⟩) rest) :
    Ends source bound (fun depth => MonadStateOf.set rest >>= freeNext depth)
      (MonadStateOf.set rest >>= next) ls :=
  ⟨h.comesTo, h.left⟩

theorem bounded {rule : Nat → Parser α} (h : Ends source bound free (rule (ls.length + 1)) ls) :
    Ends source bound free (Parser.bounded rule) ls :=
  ⟨h.comesTo, h.left⟩

theorem failAt {place : Position} {fault : SyntaxFault} :
    Ends source bound (fun _ => liftM (Parser.failAt place fault : Parser α))
      (Parser.failAt place fault) ls := by
  refine ⟨.of_eq fun _ => rfl, ?_⟩
  rintro _ _ ⟨⟩

theorem fail {fault : SyntaxFault} :
    Ends source bound (fun _ => liftM (Parser.fail fault : Parser α)) (Parser.fail fault) ls := by
  refine ⟨.of_eq fun _ => rfl, ?_⟩
  rintro _ _ ⟨⟩

theorem failExpecting {what : Expectation} :
    Ends source bound (fun _ => liftM (Parser.failExpecting what : Parser α))
      (Parser.failExpecting what) ls := by
  refine ⟨.of_eq fun _ => rfl, ?_⟩
  rintro _ _ ⟨⟩

/-- The token in front is known and not the last one. -/
theorem skip {freeNext : Nat → Unit → Limited β} {next : Unit → Parser β}
    (hls : Remains source ls) (hhead : headOf ls = token) (hfinal : token.isFinal = false)
    (hnext : ∀ rest, Remains source rest → rest.length < ls.length →
      Ends source bound (fun depth => freeNext depth ()) (next ()) rest) :
    Ends source bound (fun depth => liftM Parser.skip >>= freeNext depth) (Parser.skip >>= next)
      ls := by
  obtain ⟨htakes, hrest⟩ := hls.takes hhead hfinal
  obtain ⟨hcomes, hleft⟩ := hnext _ hrest htakes.isBehind.length_lt
  exact ⟨hcomes, hleft⟩

theorem accept {freeNext : Nat → Bool → Limited β} {next : Bool → Parser β}
    (hls : Remains source ls) (hfinal : token.isFinal = false)
    (hyes : ∀ rest, Remains source rest → rest.length < ls.length →
      Ends source bound (fun depth => freeNext depth true) (next true) rest)
    (hno : Ends source bound (fun depth => freeNext depth false) (next false) ls) :
    Ends source bound (fun depth => liftM (Parser.accept token) >>= freeNext depth)
      (Parser.accept token >>= next) ls := by
  refine bind_of_comesTo (.of_eq fun _ => rfl) fun taken rest hresult => ?_
  by_cases hhead : headOf ls = token
  · obtain ⟨htakes, hrest⟩ := hls.takes hhead hfinal
    rw [accept_of_headOf_eq hhead] at hresult
    obtain ⟨⟩ := hresult
    exact hyes _ hrest htakes.isBehind.length_lt
  · rw [accept_of_headOf_ne hhead] at hresult
    obtain ⟨⟩ := hresult
    exact hno

end Ends

/-! ## Tokens and names -/

theorem require_halts (symbol : Symbol) :
    Halts source (fun _ => liftM (require symbol)) (require symbol) :=
  fun ls hls => .of_gives (require_reads symbol ls hls) fun _ _ h => h.isBehind.length_lt

theorem requireWord_halts (keyword : Keyword) :
    Halts source (fun _ => liftM (requireWord keyword)) (requireWord keyword) :=
  fun ls hls => .of_gives (requireWord_reads keyword ls hls) fun _ _ h => h.isBehind.length_lt

theorem name_halts (role : NameRole) : Halts source (fun _ => liftM (name role)) (name role) :=
  fun ls hls => .of_gives (name_reads role ls hls) fun _ _ h => h.1.isBehind.length_lt

theorem propertyName_halts : Halts source (fun _ => liftM propertyName) propertyName :=
  fun ls hls => .of_gives (propertyName_reads ls hls) fun _ _ h => h.isBehind.length_lt

theorem boolean_halts : Halts source (fun _ => liftM boolean) boolean :=
  fun ls hls => .of_gives (boolean_reads ls hls) fun _ _ h => h.isBehind.length_lt

theorem writeMode_halts : Halts source (fun _ => liftM writeMode) writeMode :=
  fun ls hls => .of_gives (writeMode_reads ls hls) fun _ _ h => h.isBehind.length_lt

/-- Nothing need be taken for the mark. -/
theorem inlineMark_ends (hls : Remains source ls) :
    Ends source (ls.length + 1) (fun _ => liftM inlineMark) inlineMark ls :=
  .of_gives (inlineMark_reads ls hls) fun _ _ h => Nat.lt_succ_of_le h.suffix.length_le

/-! ## Lists -/

section

variable {freeItem : Nat → Limited α} {item : Parser α} {free : Nat → Limited (List α)}

/-- A loop is any rule that goes on as its first round says. -/
theorem commaSeparated_halts
    (hfree : ∀ depth, free (depth + 1) = do
      let first ← freeItem depth
      if ← accept (.symbol .comma) then return first :: (← free depth) else return [first])
    (hitem : HaltsBelow source limit freeItem item) :
    HaltsBelow source limit free (Parser.commaSeparated item) := by
  have hwithin : ∀ rounds ls, Remains source ls → ls.length < limit → ls.length < rounds →
      Ends source ls.length free (commaSeparatedWithin item rounds) ls := by
    intro rounds
    induction rounds with
    | zero => exact fun _ _ _ hrounds => absurd hrounds (Nat.not_lt_zero _)
    | succ rounds ih =>
      intro ls hls hlimit hrounds
      apply Ends.succ
      simp only [hfree, commaSeparatedWithin]
      apply (hitem ls hls hlimit).bind
      intro first mid hmid hlength
      refine .accept hmid rfl (fun next hnext hless => ?_) (.pure hmid hlength)
      apply (ih next hnext (by omega) (by omega)).bind
      intro values rest hrest hfewer
      exact .pure hrest (by omega)
  intro ls hls hlimit
  exact .bounded (hwithin _ ls hls hlimit (Nat.lt_succ_self _))

theorem listUntil_halts {freeItems : Nat → Limited (List α)} {close : Symbol}
    (hfree : ∀ depth, free depth = do
      if ← accept (.symbol close) then return []
      else
        let items ← freeItems depth
        require close
        return items)
    (hitems : HaltsBelow source limit freeItems (Parser.commaSeparated item)) :
    HaltsBelow source limit free (Parser.listUntil item close) := by
  intro ls hls hlimit
  rw [funext hfree]
  refine Ends.accept hls rfl (fun rest hrest hlength => .pure hrest hlength) ?_
  apply (hitems ls hls hlimit).bind
  intro items mid hmid hlength
  apply (require_halts close mid hmid).bind
  intro _ rest hrest hless
  exact .pure hrest (by omega)

theorem untilBrace_halts
    (hfree : ∀ depth, free (depth + 1) = do
      match ← peek with
      | .symbol .braceClose =>
        skip
        return []
      | .endOfInput => failExpecting (.symbol .braceClose)
      | _ =>
        let first ← freeItem depth
        return first :: (← free depth))
    (hitem : HaltsBelow source limit freeItem item) :
    HaltsBelow source limit free (Parser.untilBrace item) := by
  have hwithin : ∀ rounds ls, Remains source ls → ls.length < limit → ls.length < rounds →
      Ends source ls.length free (untilBraceWithin item rounds) ls := by
    intro rounds
    induction rounds with
    | zero => exact fun _ _ _ hrounds => absurd hrounds (Nat.not_lt_zero _)
    | succ rounds ih =>
      intro ls hls hlimit hrounds
      have hround : Ends source ls.length
          (fun depth => do return (← freeItem depth) :: (← free depth))
          (do return (← item) :: (← untilBraceWithin item rounds)) ls := by
        apply (hitem ls hls hlimit).bind
        intro first mid hmid hlength
        apply (ih mid hmid (by omega) (by omega)).bind
        intro values rest hrest hless
        exact .pure hrest (by omega)
      apply Ends.succ
      simp only [hfree, untilBraceWithin]
      apply Ends.peek
      cases hhead : headOf ls with
      | symbol symbol =>
        cases symbol with
        | braceClose => exact .skip hls hhead rfl fun rest hrest hlength => .pure hrest hlength
        | _ => exact hround
      | endOfInput => exact .failExpecting
      | _ => exact hround
  intro ls hls hlimit
  exact .bounded (hwithin _ ls hls hlimit (Nat.lt_succ_self _))

theorem untilEnd_ends (hitem : Halts source freeItem item) (hls : Remains source ls) :
    Ends source (ls.length + 1) (untilEnd freeItem) (Parser.untilEnd item) ls := by
  have hwithin : ∀ rounds ls, Remains source ls → ls.length < rounds →
      Ends source (ls.length + 1) (untilEnd freeItem) (untilEndWithin item rounds) ls := by
    intro rounds
    induction rounds with
    | zero => exact fun _ _ hrounds => absurd hrounds (Nat.not_lt_zero _)
    | succ rounds ih =>
      intro ls hls hrounds
      apply Ends.succ
      simp only [untilEnd, untilEndWithin]
      apply Ends.peek
      split
      · exact .pure hls (Nat.lt_succ_self _)
      · apply (hitem ls hls).bind
        intro first mid hmid hlength
        apply (ih mid hmid (by omega)).bind
        intro values rest hrest hless
        exact .pure hrest (by omega)
  exact .bounded (hwithin _ ls hls (Nat.lt_succ_self _))

variable {freeEntry : Position → String → Nat → Limited α} {entry : Position → String → Parser α}

theorem entries_ends
    (hentry : ∀ place word, Halts source (freeEntry place word) (entry place word))
    {rounds : Nat} (hls : Remains source ls) (hrounds : ls.length < rounds) :
    Ends source (ls.length + 1) (entries freeEntry) (entriesWithin entry rounds) ls := by
  induction rounds generalizing ls with
  | zero => exact absurd hrounds (Nat.not_lt_zero _)
  | succ rounds ih =>
    apply Ends.succ
    simp only [entries, entriesWithin]
    apply Ends.peek
    split
    · exact .pure hls (Nat.lt_succ_self _)
    · apply Ends.here
      apply (propertyName_halts ls hls).bind
      intro word mid hmid hlength
      apply (require_halts .colon mid hmid).bind
      intro _ next hnext hless
      apply (hentry _ word next hnext).bind
      intro first after hafter hfewer
      refine .accept hafter rfl (fun behind hbehind hbelow => ?_) (.pure hafter (by omega))
      apply (ih hbehind (by omega)).bind
      intro values rest hrest hleft
      exact .pure hrest (by omega)

theorem object_halts
    (hentry : ∀ place word, Halts source (freeEntry place word) (entry place word)) :
    Halts source (object freeEntry) (Parser.object entry) := by
  intro ls hls
  apply (require_halts .braceOpen ls hls).bind
  intro _ mid hmid hlength
  apply (Ends.bounded (entries_ends hentry hmid (Nat.lt_succ_self _))).bind
  intro values next hnext hless
  apply (require_halts .braceClose next hnext).bind
  intro _ rest hrest hfewer
  exact .pure hrest (by omega)

end

end

/-! ## Expressions -/

section

variable {source : List Lexeme} {limit : Nat}

/-- On fewer than `limit` tokens, whole expressions and operands with their signs end as the given
rules do. -/
structure InsideHalts (source : List Lexeme) (limit : Nat) (inner : ExprRules) : Prop where
  whole : HaltsBelow source limit (tier BinaryOp.loosest) inner.whole
  signed : HaltsBelow source limit signed inner.signed

variable {inner : ExprRules}

theorem exprsUntil_halts (hinner : InsideHalts source limit inner) (close : Symbol) :
    HaltsBelow source limit (exprsUntil close) (Parser.listUntil inner.whole close) := by
  have hloop : HaltsBelow source limit exprs (Parser.commaSeparated inner.whole) :=
    commaSeparated_halts (fun _ => rfl) hinner.whole
  intro ls hls hlimit
  exact .succ (listUntil_halts (fun _ => rfl) hloop ls hls hlimit)

theorem primary_halts (hinner : InsideHalts source limit inner) :
    HaltsBelow source (limit + 1) primary (Parser.primary inner) := by
  intro ls hls hlimit
  apply Ends.succ
  simp only [primary, Parser.primary]
  refine Ends.here (Ends.peek ?_)
  cases hhead : headOf ls with
  | number raw => exact .skip hls hhead rfl fun rest hrest hlength => .pure hrest hlength
  | string raw => exact .skip hls hhead rfl fun rest hrest hlength => .pure hrest hlength
  | hex raw => exact .skip hls hhead rfl fun rest hrest hlength => .pure hrest hlength
  | ident word =>
    dsimp only
    cases Keyword.ofWord? word with
    | some keyword =>
      cases keyword with
      | truth => exact .skip hls hhead rfl fun rest hrest hlength => .pure hrest hlength
      | falsity => exact .skip hls hhead rfl fun rest hrest hlength => .pure hrest hlength
      | _ => exact .fail
    | none =>
      refine Ends.skip hls hhead rfl fun mid hmid hlength => ?_
      refine .accept hmid rfl (fun next hnext hless => ?_) (.pure hmid hlength)
      apply (exprsUntil_halts hinner .parenClose next hnext (by omega)).bind
      intro arguments rest hrest hfewer
      exact .pure hrest (by omega)
  | symbol symbol =>
    cases symbol with
    | bracketOpen =>
      refine Ends.skip hls hhead rfl fun mid hmid hlength => ?_
      apply (exprsUntil_halts hinner .bracketClose mid hmid (by omega)).bind
      intro items rest hrest hless
      exact .pure hrest (by omega)
    | parenOpen =>
      refine Ends.skip hls hhead rfl fun mid hmid hlength => ?_
      apply (hinner.whole mid hmid (by omega)).bind
      intro value next hnext hless
      apply (require_halts .parenClose next hnext).bind
      intro _ rest hrest hfewer
      exact .pure hrest (by omega)
    | _ => exact .failExpecting
  | unknown => exact .fail
  | unterminated => exact .fail
  | endOfInput => exact .failExpecting

theorem power_halts (hinner : InsideHalts source limit inner) :
    HaltsBelow source (limit + 1) power (Parser.power inner) := by
  intro ls hls hlimit
  apply Ends.succ
  simp only [power, Parser.power]
  apply (primary_halts hinner ls hls hlimit).bind
  intro base mid hmid hlength
  refine .accept hmid rfl (fun next hnext hless => ?_) (.pure hmid hlength)
  apply (hinner.signed next hnext (by omega)).bind
  intro exponent rest hrest hfewer
  exact .pure hrest (by omega)

theorem signed_halts (hinner : InsideHalts source limit inner) :
    HaltsBelow source (limit + 1) signed (Parser.signed inner) := by
  intro ls hls hlimit
  have hpower := power_halts hinner ls hls hlimit
  apply Ends.succ
  simp only [signed, Parser.signed]
  refine Ends.here (Ends.peek ?_)
  cases hhead : headOf ls with
  | symbol symbol =>
    dsimp only
    cases UnaryOp.ofSymbol? symbol with
    | some op =>
      refine Ends.skip hls hhead rfl fun mid hmid hlength => ?_
      apply (hinner.signed mid hmid (by omega)).bind
      intro operand rest hrest hless
      exact .pure hrest (by omega)
    | none => exact hpower
  | _ => exact hpower

theorem further_ends {operand : Parser SourceExpr} {rank rounds : Nat} {left : SourceExpr}
    {ls : List Lexeme} (hoperand : HaltsBelow source limit (tier rank) operand)
    (hls : Remains source ls) (hlimit : ls.length < limit) (hrounds : ls.length < rounds) :
    Ends source (ls.length + 1) (further rank left) (chainWithin operand (rank + 1) rounds left)
      ls := by
  induction rounds generalizing left ls with
  | zero => exact absurd hrounds (Nat.not_lt_zero _)
  | succ rounds ih =>
    apply Ends.succ
    simp only [further, chainWithin]
    apply Ends.peek
    cases hop : operatorOf (rank + 1) (headOf ls) with
    | some op =>
      obtain ⟨hhead, -⟩ := operatorOf_eq_some_iff.1 hop
      refine Ends.skip hls hhead rfl fun mid hmid hlength => ?_
      apply (hoperand mid hmid (by omega)).bind
      intro right next hnext hless
      exact (ih hnext (by omega) (by omega)).mono (by omega)
    | none => exact .pure hls (Nat.lt_succ_self _)

theorem tier_halts (hinner : InsideHalts source limit inner) (rank : Nat) :
    HaltsBelow source (limit + 1) (tier rank) (Parser.tier limit inner rank) := by
  induction rank with
  | zero => exact fun ls hls hlimit => .succ (signed_halts hinner ls hls hlimit)
  | succ rank ih =>
    intro ls hls hlimit
    apply Ends.succ
    apply (ih ls hls hlimit).bind
    intro first mid hmid hlength
    exact (further_ends ih hmid (by omega) (by omega)).mono (by omega)

theorem exprRulesAt_halt (budget : Nat) : InsideHalts source budget (exprRulesAt budget) := by
  induction budget with
  | zero =>
    exact ⟨fun _ _ hlimit => absurd hlimit (Nat.not_lt_zero _),
      fun _ _ hlimit => absurd hlimit (Nat.not_lt_zero _)⟩
  | succ budget ih => exact ⟨tier_halts ih BinaryOp.loosest, signed_halts ih⟩

theorem expr_halts : Halts source expr Parser.expr :=
  .bounded fun budget => (exprRulesAt_halt budget).whole

/-! ## Parts of an embed -/

theorem propertyKey_ends {K : Type} {owner : PropertyOwner} {ofWord? : String → Option K}
    {place : Position} {word : String} {ls : List Lexeme} (hls : Remains source ls) :
    Ends source (ls.length + 1) (fun _ => liftM (propertyKey owner ofWord? place word))
      (propertyKey owner ofWord? place word) ls := by
  unfold propertyKey
  cases ofWord? word with
  | some key => exact .pure hls (Nat.lt_succ_self _)
  | none => exact .failAt

theorem sectionEntry_halts {K : Type} (owner : PropertyOwner) (ofWord? : String → Option K)
    (place : Position) (word : String) :
    Halts source (sectionEntry owner ofWord? place word) (do
      let key ← propertyKey owner ofWord? place word
      return (key, ← Parser.expr)) := by
  intro ls hls
  apply (propertyKey_ends hls).bind
  intro key mid hmid hlength
  apply (expr_halts mid hmid).bind
  intro value rest hrest hless
  exact .pure hrest (by omega)

theorem sectionBody_halts {F K : Type} (owner : PropertyOwner) (ofWord? : String → Option K)
    {freeFlow : Nat → Limited F} {flow : Parser F} (hflow : Halts source freeFlow flow) :
    Halts source (sectionBody owner ofWord? freeFlow) (Parser.sectionBody owner ofWord? flow) := by
  intro ls hls
  refine Ends.accept hls rfl (fun mid hmid hlength => .here ?_) ?_
  · apply (propertyName_halts mid hmid).bind
    intro word next hnext hless
    apply (propertyKey_ends hnext).bind
    intro key _ hkey hkeyLength
    apply (writeMode_halts _ hkey).bind
    intro mode after hafter hfewer
    apply (expr_halts after hafter).bind
    intro value rest hrest hbelow
    exact .pure hrest (by omega)
  · apply (writeMode_halts ls hls).bind
    intro mode mid hmid hlength
    apply Ends.peek
    by_cases hhead : headOf mid = .symbol .braceOpen
    · simp only [if_pos hhead]
      apply (object_halts (sectionEntry_halts owner ofWord?) mid hmid).bind
      intro entries rest hrest hless
      exact .pure hrest (by omega)
    · simp only [if_neg hhead]
      apply (hflow mid hmid).bind
      intro values rest hrest hless
      exact .pure hrest (by omega)

theorem nextInFlow_ends {ls : List Lexeme} (hls : Remains source ls) :
    Ends source (ls.length + 1) nextInFlow Parser.nextInFlow ls := by
  refine Ends.accept hls rfl (fun mid hmid hlength => ?_) (.pure hls (Nat.lt_succ_self _))
  apply (expr_halts mid hmid).bind
  intro value rest hrest hless
  exact .pure hrest (by omega)

theorem authorFlow_halts : Halts source authorFlow Parser.authorFlow := by
  intro ls hls
  apply (expr_halts ls hls).bind
  intro name mid hmid hlength
  apply (nextInFlow_ends hmid).bind
  intro url next hnext hless
  cases url with
  | none => exact .pure hnext (by omega)
  | some url =>
    apply (nextInFlow_ends hnext).bind
    intro icon rest hrest hfewer
    exact .pure hrest (by omega)

theorem footerFlow_halts : Halts source footerFlow Parser.footerFlow := by
  intro ls hls
  apply (expr_halts ls hls).bind
  intro text mid hmid hlength
  apply (nextInFlow_ends hmid).bind
  intro icon rest hrest hless
  exact .pure hrest (by omega)

theorem fieldSetting_halts (place : Position) (word : String) :
    Halts source (fieldSetting place word) (Parser.fieldSetting place word) := by
  intro ls hls
  have hvalue : ∀ make : SourceExpr → FieldSetting SourceExpr,
      Ends source ls.length (fun depth => do return make (← expr depth))
        (do return make (← Parser.expr)) ls := by
    intro make
    exact (expr_halts ls hls).bind fun value rest hrest hlength => .pure hrest hlength
  unfold fieldSetting
  split
  · exact hvalue .title
  · exact hvalue .text
  · exact (boolean_halts ls hls).bind fun value rest hrest hlength => .pure hrest hlength
  · simp only [Parser.fieldSetting]
    exact .failAt

theorem fieldTuple_ends {ls : List Lexeme} (place : Position) (hls : Remains source ls) :
    Ends source (ls.length + 1) (fieldTuple place) (Parser.fieldTuple place) ls := by
  apply Ends.get
  apply (require_halts .parenOpen ls hls).bind
  intro _ mid hmid hlength
  apply (expr_halts mid hmid).bind
  intro title next hnext hless
  refine .accept hnext rfl (fun after hafter hfewer => ?_)
    (.set (.pure hls (Nat.lt_succ_self _)))
  apply (expr_halts after hafter).bind
  intro text behind hbehind hbelow
  apply (inlineMark_ends hbehind).bind
  intro inline last hlast hleft
  apply (require_halts .parenClose last hlast).bind
  intro _ rest hrest hunder
  exact .pure hrest (by omega)

theorem fieldFlow_halts (place : Position) :
    Halts source (fieldFlow place) (Parser.fieldFlow place) := by
  intro ls hls
  apply (expr_halts ls hls).bind
  intro title mid hmid hlength
  apply (require_halts .comma mid hmid).bind
  intro _ next hnext hless
  apply (expr_halts next hnext).bind
  intro text after hafter hfewer
  apply (inlineMark_ends hafter).bind
  intro inline rest hrest hbelow
  exact .pure hrest (by omega)

theorem field_halts : Halts source field Parser.field := by
  intro ls hls
  have hflow : Ends source ls.length (fieldFlow (placeOf ls)) (Parser.fieldFlow (placeOf ls)) ls :=
    fieldFlow_halts (placeOf ls) ls hls
  refine Ends.here (Ends.peek ?_)
  cases hhead : headOf ls with
  | symbol symbol =>
    cases symbol with
    | braceOpen =>
      apply (object_halts fieldSetting_halts ls hls).bind
      intro settings rest hrest hlength
      exact .pure hrest hlength
    | parenOpen =>
      refine Ends.bind_of_comesTo (fieldTuple_ends (placeOf ls) hls).comesTo
        fun field? rest hresult => ?_
      obtain ⟨hfield, hrest⟩ := (fieldTuple_gives hls).of_ok hresult
      cases field? with
      | some field => exact .pure hrest (FieldForm.isBehind hfield).length_lt
      | none =>
        -- The attempt has taken nothing, so the flow starts where the tuple did.
        obtain rfl : rest = ls := hfield
        exact hflow
    | _ => exact hflow
  | _ => exact hflow

theorem fieldsBody_halts : Halts source fieldsBody Parser.fieldsBody := by
  intro ls hls
  refine Ends.accept hls rfl (fun mid hmid hlength => .here ?_) ?_
  · apply (propertyName_halts mid hmid).bind
    intro word next hnext hless
    apply (writeMode_halts next hnext).bind
    intro mode after hafter hfewer
    apply (fieldSetting_halts _ word after hafter).bind
    intro setting rest hrest hbelow
    exact .pure hrest (by omega)
  · apply (writeMode_halts ls hls).bind
    intro mode mid hmid hlength
    refine .accept hmid rfl (fun next hnext hless => ?_) ?_
    · apply (commaSeparated_halts (commaSeparated.eq_2 field) field_halts.below next hnext
        (Nat.lt_succ_self _)).bind
      intro fields after hafter hfewer
      apply (require_halts .bracketClose after hafter).bind
      intro _ rest hrest hbelow
      exact .pure hrest (by omega)
    · apply (field_halts mid hmid).bind
      intro field rest hrest hless
      exact .pure hrest (by omega)

theorem partBody_halts (place : Position) (word : String) :
    Halts source (partBody place word) (Parser.partBody place word) := by
  intro ls hls
  unfold partBody
  cases hmember : EmbedMember.ofName? word with
  | some member =>
    simp only [Parser.partBody, hmember]
    apply (require_halts .assign ls hls).bind
    intro _ mid hmid hlength
    apply (expr_halts mid hmid).bind
    intro value rest hrest hless
    exact .pure hrest (by omega)
  | none =>
    dsimp only
    split
    · apply (sectionBody_halts .author AuthorKey.ofWord? authorFlow_halts ls hls).bind
      exact fun written rest hrest hlength => .pure hrest hlength
    · apply (sectionBody_halts .footer FooterKey.ofWord? footerFlow_halts ls hls).bind
      exact fun written rest hrest hlength => .pure hrest hlength
    · apply (fieldsBody_halts ls hls).bind
      exact fun written rest hrest hlength => .pure hrest hlength
    · apply (fieldsBody_halts ls hls).bind
      exact fun written rest hrest hlength => .pure hrest hlength
    · simp only [Parser.partBody, hmember]
      exact .failAt

theorem embedPart_halts : Halts source embedPart Parser.embedPart := by
  intro ls hls
  apply Ends.here
  apply (propertyName_halts ls hls).bind
  intro word mid hmid hlength
  apply (partBody_halts _ word mid hmid).bind
  intro body next hnext hless
  apply (require_halts .semicolon next hnext).bind
  intro _ rest hrest hfewer
  exact .pure hrest (by omega)

/-! ## Statements -/

theorem simple_halts : Halts source simple Parser.simple := by
  intro ls hls
  have hexpr : Ends source ls.length (fun depth => do return Stmt.expr (placeOf ls) (← expr depth))
      (do return Stmt.expr (placeOf ls) (← Parser.expr)) ls :=
    (expr_halts ls hls).bind fun value rest hrest hlength => .pure hrest hlength
  by_cases hassign : ∃ word place assignPlace more,
      ls = ⟨.ident word, place⟩ :: ⟨.symbol .assign, assignPlace⟩ :: more
  · obtain ⟨word, place, assignPlace, more, rfl⟩ := hassign
    refine Ends.here (Ends.get ?_)
    refine Ends.bind_of_comesTo (.of_eq fun _ => rfl) fun name mid hresult => ?_
    obtain ⟨⟨⟨_, heq⟩, -⟩, hmid⟩ := (name_reads .assigned _ hls).of_ok hresult
    obtain ⟨-, rfl⟩ := List.cons.inj heq
    refine Ends.skip hmid rfl rfl fun next hnext hlength => ?_
    apply (expr_halts next hnext).bind
    intro value rest hrest hless
    simp only [List.length_cons] at hlength ⊢
    exact .pure hrest (by omega)
  · simp only [not_exists] at hassign
    refine Ends.here (Ends.get ?_)
    simp only
    exact hexpr

theorem exprSemicolon_halts : Halts source exprSemicolon Parser.exprSemicolon := by
  intro ls hls
  apply (expr_halts ls hls).bind
  intro value mid hmid hlength
  apply (require_halts .semicolon mid hmid).bind
  intro _ rest hrest hless
  exact .pure hrest (by omega)

theorem parenthesized_halts : Halts source parenthesized Parser.parenthesized := by
  intro ls hls
  apply (require_halts .parenOpen ls hls).bind
  intro _ mid hmid hlength
  apply (expr_halts mid hmid).bind
  intro value next hnext hless
  apply (require_halts .parenClose next hnext).bind
  intro _ rest hrest hfewer
  exact .pure hrest (by omega)

theorem unlessAt_ends {α : Type} {stop : Symbol} {freeRule : Nat → Limited α} {rule : Parser α}
    {ls : List Lexeme} (hrule : Halts source freeRule rule) (hls : Remains source ls) :
    Ends source (ls.length + 1) (unlessAt stop freeRule) (Parser.unlessAt stop rule) ls := by
  apply Ends.peek
  by_cases hhead : headOf ls = .symbol stop
  · simp only [if_pos hhead]
    exact .pure hls (Nat.lt_succ_self _)
  · simp only [if_neg hhead]
    apply (hrule ls hls).bind
    intro value rest hrest hlength
    exact .pure hrest (by omega)

theorem exprStmt_halts : Halts source exprStmt Parser.exprStmt := by
  intro ls hls
  apply (simple_halts ls hls).bind
  intro s mid hmid hlength
  apply (require_halts .semicolon mid hmid).bind
  intro _ rest hrest hless
  exact .pure hrest (by omega)

theorem embed_halts (place : Position) : Halts source (embed place) (Parser.embed place) := by
  intro ls hls
  refine Ends.accept hls rfl (fun mid hmid hlength => ?_) ?_
  · apply (embedPart_halts mid hmid).bind
    intro part rest hrest hless
    exact .pure hrest (by omega)
  · apply (require_halts .braceOpen ls hls).bind
    intro _ mid hmid hlength
    apply (untilBrace_halts (untilBrace.eq_2 embedPart) embedPart_halts.below mid hmid
      (Nat.lt_succ_self _)).bind
    intro parts rest hrest hless
    exact .pure hrest (by omega)

theorem parameters_halts :
    HaltsBelow source limit parameters (Parser.listUntil (name .parameter) .parenClose) :=
  listUntil_halts (fun _ => rfl)
    (commaSeparated_halts (commaSeparated.eq_2 _) (name_halts .parameter).below)

section

variable {inner : Parser SourceStmt}

theorem block_halts (hinner : HaltsBelow source limit stmt inner) :
    HaltsBelow source (limit + 1) block (Parser.block inner) := by
  intro ls hls hlimit
  apply Ends.succ
  simp only [block]
  apply Ends.here
  apply (require_halts .braceOpen ls hls).bind
  intro _ mid hmid hlength
  apply (untilBrace_halts stmts.eq_2 hinner mid hmid (by omega)).bind
  intro body rest hrest hless
  exact .pure hrest (by omega)

theorem functionDeclaration_halts (hinner : HaltsBelow source limit stmt inner) (place : Position) :
    HaltsBelow source limit (functionDeclaration place)
      (Parser.functionDeclaration inner place) := by
  intro ls hls hlimit
  apply Ends.succ
  simp only [functionDeclaration]
  apply Ends.here
  apply (name_halts .function ls hls).bind
  intro functionName mid hmid hlength
  apply (require_halts .parenOpen mid hmid).bind
  intro _ next hnext hless
  apply (parameters_halts next hnext (Nat.lt_succ_self _)).bind
  intro names after hafter hfewer
  apply (block_halts hinner after hafter (by omega)).bind
  intro body rest hrest hbelow
  exact .pure hrest (by omega)

theorem branch_halts (hinner : HaltsBelow source limit stmt inner) (place : Position) :
    HaltsBelow source limit (branch place) (Parser.branch inner place) := by
  intro ls hls hlimit
  apply Ends.succ
  simp only [branch]
  apply (parenthesized_halts ls hls).bind
  intro condition mid hmid hlength
  apply (hinner mid hmid (by omega)).bind
  intro yes next hnext hless
  refine .accept hnext rfl (fun after hafter hfewer => ?_) (.pure hnext (by omega))
  apply (hinner after hafter (by omega)).bind
  intro no rest hrest hbelow
  exact .pure hrest (by omega)

theorem forLoop_halts (hinner : HaltsBelow source limit stmt inner) (place : Position) :
    HaltsBelow source limit (forLoop place) (Parser.forLoop inner place) := by
  intro ls hls hlimit
  apply Ends.succ
  simp only [forLoop]
  apply (require_halts .parenOpen ls hls).bind
  intro _ toInit htoInit hopen
  apply (unlessAt_ends simple_halts htoInit).bind
  intro init afterInit hafterInit hinit
  apply (require_halts .semicolon afterInit hafterInit).bind
  intro _ toCheck htoCheck hinitClose
  apply (unlessAt_ends expr_halts htoCheck).bind
  intro check afterCheck hafterCheck hcheck
  apply (require_halts .semicolon afterCheck hafterCheck).bind
  intro _ toStep htoStep hcheckClose
  apply (unlessAt_ends simple_halts htoStep).bind
  intro step afterStep hafterStep hstep
  apply (require_halts .parenClose afterStep hafterStep).bind
  intro _ toBody htoBody hstepClose
  apply (hinner toBody htoBody (by omega)).bind
  intro body rest hrest hbody
  exact .pure hrest (by omega)

theorem foreach_halts (hinner : HaltsBelow source limit stmt inner) (place : Position) :
    HaltsBelow source limit (foreach place) (Parser.foreach inner place) := by
  intro ls hls hlimit
  apply Ends.succ
  simp only [foreach]
  apply (require_halts .parenOpen ls hls).bind
  intro _ mid hmid hlength
  apply (name_halts .loopVariable mid hmid).bind
  intro variableName next hnext hless
  apply (requireWord_halts .among next hnext).bind
  intro _ toItems htoItems hamong
  apply (expr_halts toItems htoItems).bind
  intro iterable afterItems hafterItems hitems
  apply (require_halts .parenClose afterItems hafterItems).bind
  intro _ toBody htoBody hclose
  apply (hinner toBody htoBody (by omega)).bind
  intro body rest hrest hbody
  exact .pure hrest (by omega)

theorem whileLoop_halts (hinner : HaltsBelow source limit stmt inner) (place : Position) :
    HaltsBelow source limit (whileLoop place) (Parser.whileLoop inner place) := by
  intro ls hls hlimit
  apply Ends.succ
  simp only [whileLoop]
  apply (parenthesized_halts ls hls).bind
  intro condition mid hmid hlength
  apply (hinner mid hmid (by omega)).bind
  intro body rest hrest hless
  exact .pure hrest (by omega)

theorem doWhile_halts (hinner : HaltsBelow source limit stmt inner) (place : Position) :
    HaltsBelow source limit (doWhile place) (Parser.doWhile inner place) := by
  intro ls hls hlimit
  apply Ends.succ
  simp only [doWhile]
  apply (hinner ls hls hlimit).bind
  intro body mid hmid hlength
  apply (requireWord_halts .whileLoop mid hmid).bind
  intro _ next hnext hless
  apply (parenthesized_halts next hnext).bind
  intro condition after hafter hfewer
  apply (require_halts .semicolon after hafter).bind
  intro _ rest hrest hbelow
  exact .pure hrest (by omega)

theorem keywordStmt_halts (hinner : HaltsBelow source limit stmt inner) {keyword : Keyword}
    {ls : List Lexeme} (hls : Remains source ls) (hlimit : ls.length < limit + 1)
    (hhead : headOf ls = keyword.token) (place : Position) :
    Ends source ls.length (keywordStmt place keyword) (Parser.keywordStmt inner place keyword)
      ls := by
  have hkeyword : ∀ {free : Nat → Limited SourceStmt} {rule : Parser SourceStmt},
      HaltsBelow source limit free rule →
      Ends source ls.length (fun depth => do skip; free depth) (do skip; rule) ls := by
    intro free rule h
    refine Ends.skip hls hhead rfl fun mid hmid hlength => ?_
    exact (h mid hmid (by omega)).mono hlength.le
  have hvalue : ∀ make : SourceExpr → SourceStmt,
      HaltsBelow source limit (fun depth => do return make (← exprSemicolon depth))
        (do return make (← Parser.exprSemicolon)) := by
    intro make mid hmid _
    exact (exprSemicolon_halts mid hmid).bind fun value rest hrest hlength => .pure hrest hlength
  apply Ends.succ
  simp only [keywordStmt, Parser.keywordStmt]
  cases keyword with
  | constant => exact .fail
  | function => exact hkeyword (functionDeclaration_halts hinner place)
  | result => exact hkeyword (hvalue (.result place))
  | branch => exact hkeyword (branch_halts hinner place)
  | forLoop => exact hkeyword (forLoop_halts hinner place)
  | foreach => exact hkeyword (foreach_halts hinner place)
  | whileLoop => exact hkeyword (whileLoop_halts hinner place)
  | doLoop => exact hkeyword (doWhile_halts hinner place)
  | text => exact hkeyword (hvalue (.text place))
  | attachment => exact hkeyword (hvalue (.attachment place))
  | embed => exact hkeyword (embed_halts place).below
  | _ => exact exprStmt_halts ls hls

theorem stmtRule_halts (hinner : HaltsBelow source limit stmt inner) :
    HaltsBelow source (limit + 1) stmt (stmtRule inner) := by
  intro ls hls hlimit
  apply Ends.succ
  simp only [stmt, stmtRule]
  refine Ends.here (Ends.peek ?_)
  cases hhead : headOf ls with
  | symbol symbol =>
    cases symbol with
    | braceOpen => exact block_halts hinner ls hls hlimit
    | semicolon => exact .skip hls hhead rfl fun rest hrest hlength => .pure hrest hlength
    | _ => exact exprStmt_halts ls hls
  | ident word =>
    dsimp only
    cases hword : Keyword.ofWord? word with
    | some keyword =>
      obtain rfl := Keyword.word_of_ofWord? hword
      exact keywordStmt_halts hinner hls hlimit hhead (placeOf ls)
    | none => exact exprStmt_halts ls hls
  | _ => exact exprStmt_halts ls hls

end

theorem stmtRuleAt_halts (budget : Nat) : HaltsBelow source budget stmt (stmtRuleAt budget) := by
  induction budget with
  | zero => exact fun _ _ hlimit => absurd hlimit (Nat.not_lt_zero _)
  | succ budget ih => exact stmtRule_halts ih

theorem stmt_halts : Halts source stmt Parser.stmt := .bounded stmtRuleAt_halts

theorem item_halts : Halts source item Parser.item := by
  intro ls hls
  refine Ends.here (Ends.accept hls rfl (fun mid hmid hlength => ?_) ?_)
  · apply (name_halts .constant mid hmid).bind
    intro constantName next hnext hless
    apply (require_halts .assign next hnext).bind
    intro _ after hafter hfewer
    apply (exprSemicolon_halts after hafter).bind
    intro value rest hrest hbelow
    exact .pure hrest (by omega)
  · exact (stmt_halts ls hls).bind fun s rest hrest hlength => .pure hrest hlength

theorem template_ends {ls : List Lexeme} (hls : Remains source ls) :
    Ends source (ls.length + 1) template Parser.template ls :=
  untilEnd_ends item_halts hls

end

/-! ## Positions -/

section

variable {α : Type} {source ls rest : List Lexeme} {p : Nat}
variable {free : Nat → Limited α} {rule : Parser α}

/-- From every position in the list, the run of `free` ends with what `rule` gives there. If it
succeeds, the position has increased, and there is still a token at it. -/
def Progresses (tokens : List Lexeme) (free : Nat → Limited α) (rule : Parser α) : Prop :=
  ∀ p < tokens.length, ComesTo free (tokens.drop p) (rule (tokens.drop p)) ∧
    ∀ value rest, rule (tokens.drop p) = .ok (value, rest) →
      ∃ q, p < q ∧ q < tokens.length ∧ rest = tokens.drop q

/-- What is left of a source is what stands from some position on. -/
theorem remains_iff (hsource : Remains source source) :
    Remains source ls ↔ ∃ p < source.length, ls = source.drop p := by
  constructor
  · intro h
    obtain ⟨first, more, hcons, -⟩ := h.exists_cons
    have hpos : 0 < ls.length := by
      rw [hcons]
      exact Nat.succ_pos _
    have hle := h.suffix.length_le
    exact ⟨source.length - ls.length, by omega, List.suffix_iff_eq_drop.1 h.suffix⟩
  · rintro ⟨p, hp, rfl⟩
    obtain ⟨front, last, hfront, hlast⟩ := hsource.closed
    have hle : p ≤ front.length := by simpa [hfront, Nat.lt_succ_iff] using hp
    refine ⟨List.drop_suffix p source, front.drop p, last, ?_, hlast⟩
    rw [hfront, List.drop_append_of_le_length hle]

/-- Fewer tokens of a source are those from some later position on. -/
theorem exists_position (hsource : Remains source source) (hrest : Remains source rest)
    (hlength : rest.length < (source.drop p).length) :
    ∃ q, p < q ∧ q < source.length ∧ rest = source.drop q := by
  obtain ⟨q, hq, rfl⟩ := (remains_iff hsource).1 hrest
  rw [List.length_drop, List.length_drop] at hlength
  exact ⟨q, by omega, hq, rfl⟩

theorem progresses_iff_halts (hsource : Remains source source) :
    Progresses source free rule ↔ Halts source free rule := by
  constructor
  · intro h ls hls
    obtain ⟨p, hp, rfl⟩ := (remains_iff hsource).1 hls
    obtain ⟨hcomes, hrule⟩ := h p hp
    refine ⟨hcomes, fun value rest hresult => ?_⟩
    obtain ⟨q, hpq, hq, rfl⟩ := hrule value rest hresult
    refine ⟨(remains_iff hsource).2 ⟨q, hq, rfl⟩, ?_⟩
    rw [List.length_drop, List.length_drop]
    omega
  · intro h p hp
    obtain ⟨hcomes, hleft⟩ := h _ ((remains_iff hsource).2 ⟨p, hp, rfl⟩)
    refine ⟨hcomes, fun value rest hresult => ?_⟩
    obtain ⟨hrest, hlength⟩ := hleft value rest hresult
    exact exists_position hsource hrest hlength

end

/-- How the rules run in a list of tokens: each ends wherever it starts, and moves on if it
succeeds. -/
structure Progressive (tokens : List Lexeme) : Prop where
  /-- The last token is one that no rule takes. -/
  last : ∃ last, tokens.getLast? = some last ∧ last.token.isFinal = true
  stmt : Progresses tokens Limited.stmt Parser.stmt
  block : Progresses tokens Limited.block
    (bounded fun budget => Parser.block (stmtRuleAt budget))
  simple : Progresses tokens Limited.simple Parser.simple
  expr : Progresses tokens Limited.expr Parser.expr
  /-- Operators of each rank, from the tightest to the loosest. -/
  tier (rank : Nat) : Progresses tokens (Limited.tier rank)
    (bounded fun budget => Parser.tier budget (exprRulesAt budget) rank)
  signed : Progresses tokens Limited.signed
    (bounded fun budget => Parser.signed (exprRulesAt budget))
  power : Progresses tokens Limited.power
    (bounded fun budget => Parser.power (exprRulesAt budget))
  primary : Progresses tokens Limited.primary
    (bounded fun budget => Parser.primary (exprRulesAt budget))
  embedPart : Progresses tokens Limited.embedPart Parser.embedPart
  /-- An object moves on if what is read for its entries does. -/
  object {α : Type} {free : Position → String → Nat → Limited α}
    {entry : Position → String → Parser α}
    (hentry : ∀ place word, Progresses tokens (free place word) (entry place word)) :
    Progresses tokens (Limited.object free) (Parser.object entry)
  sectionEntry {K : Type} (owner : PropertyOwner) (ofWord? : String → Option K) (place : Position)
    (word : String) : Progresses tokens (Limited.sectionEntry owner ofWord? place word) (do
      let key ← propertyKey owner ofWord? place word
      return (key, ← Parser.expr))
  fieldSetting (place : Position) (word : String) :
    Progresses tokens (Limited.fieldSetting place word) (Parser.fieldSetting place word)
  author : Progresses tokens (Limited.sectionBody .author AuthorKey.ofWord? Limited.authorFlow)
    (Parser.sectionBody .author AuthorKey.ofWord? Parser.authorFlow)
  footer : Progresses tokens (Limited.sectionBody .footer FooterKey.ofWord? Limited.footerFlow)
    (Parser.sectionBody .footer FooterKey.ofWord? Parser.footerFlow)
  fieldsBody : Progresses tokens Limited.fieldsBody Parser.fieldsBody
  field : Progresses tokens Limited.field Parser.field
  /-- The attempt at a tuple ends. If it gives up, it is back where it started. -/
  fieldTuple (p : Nat) (hp : p < tokens.length) :
    let ls := tokens.drop p
    ComesTo (Limited.fieldTuple (placeOf ls)) ls (Parser.fieldTuple (placeOf ls) ls) ∧
    (∀ rest, Parser.fieldTuple (placeOf ls) ls = .ok (none, rest) → rest = ls) ∧
    ∀ field rest, Parser.fieldTuple (placeOf ls) ls = .ok (some field, rest) →
      ∃ q, p < q ∧ q < tokens.length ∧ rest = tokens.drop q

theorem progressive_of_remains {source : List Lexeme} (hsource : Remains source source) :
    Progressive source := by
  have hprogress : ∀ {α : Type} {free : Nat → Limited α} {rule : Parser α},
      Progresses source free rule ↔ Halts source free rule := progresses_iff_halts hsource
  have hinside : ∀ budget, InsideHalts source budget (exprRulesAt budget) := exprRulesAt_halt
  constructor
  · obtain ⟨front, last, hfront, hlast⟩ := hsource.closed
    exact ⟨last, by rw [hfront, List.getLast?_concat], hlast⟩
  · exact hprogress.2 stmt_halts
  · exact hprogress.2 (.bounded fun budget => (block_halts (stmtRuleAt_halts budget)).of_succ)
  · exact hprogress.2 simple_halts
  · exact hprogress.2 expr_halts
  · exact fun rank =>
      hprogress.2 (.bounded fun budget => (tier_halts (hinside budget) rank).of_succ)
  · exact hprogress.2 (.bounded fun budget => (signed_halts (hinside budget)).of_succ)
  · exact hprogress.2 (.bounded fun budget => (power_halts (hinside budget)).of_succ)
  · exact hprogress.2 (.bounded fun budget => (primary_halts (hinside budget)).of_succ)
  · exact hprogress.2 embedPart_halts
  · exact fun hentry => hprogress.2 (object_halts fun place word => hprogress.1 (hentry place word))
  · exact fun owner ofWord? place word => hprogress.2 (sectionEntry_halts owner ofWord? place word)
  · exact fun place word => hprogress.2 (fieldSetting_halts place word)
  · exact hprogress.2 (sectionBody_halts .author AuthorKey.ofWord? authorFlow_halts)
  · exact hprogress.2 (sectionBody_halts .footer FooterKey.ofWord? footerFlow_halts)
  · exact hprogress.2 fieldsBody_halts
  · exact hprogress.2 field_halts
  · intro p hp ls
    have hls : Remains source ls := (remains_iff hsource).2 ⟨p, hp, rfl⟩
    have hgives := fieldTuple_gives hls
    refine ⟨(fieldTuple_ends (placeOf ls) hls).comesTo,
      fun rest hresult => (hgives.of_ok hresult).1, fun field rest hresult => ?_⟩
    obtain ⟨hfield, hrest⟩ := hgives.of_ok hresult
    exact exists_position hsource hrest (FieldForm.isBehind hfield).length_lt

/-- Wherever a rule starts among the tokens of a text, it ends, and it moves on if it succeeds,
never past the last token. So reading a text always comes to an end. -/
theorem reading_progresses (source : String) :
    Progressive (lexemes source) ∧ ∃ depth, ∀ deeper, depth ≤ deeper →
      parseTemplate source deeper = some (MessageTemplate.parseTemplate source) := by
  have hsource := lexemes_remain source
  refine ⟨progressive_of_remains hsource, ?_⟩
  obtain ⟨depth, hdepth⟩ := (template_ends hsource).comesTo
  refine ⟨depth, fun deeper hdeeper => ?_⟩
  unfold parseTemplate MessageTemplate.parseTemplate StateT.run'
  rw [hdepth deeper hdeeper]
  cases Parser.template (lexemes source) with
  | ok out => rfl
  | error e => rfl

end Limited
end MessageTemplate
