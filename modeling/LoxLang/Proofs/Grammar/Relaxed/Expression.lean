import LoxLang.Proofs.Grammar.Relaxed.Tracking

/-!
# Expressions track the relaxed grammar

Each rule for expressions leads from what may come if its phrase comes next to what may come behind
the phrase.  Which phrases can stand behind an expression matters only in so far as they must not
start with a token that goes on with it.
-/

namespace LoxLang

namespace Grammar

open Reading

namespace Relaxed

variable {α : Type} {parts stack : List Part} {terminal : Terminal} {test test' : Token → Bool}
  {tokens : List Token}

/-! ## What parts do not start with -/

/-- Nothing that comes starts with a token that passes a test. -/
def Ends (test : Token → Bool) (stack : List Part) : Prop :=
  ∀ tokens, Derives stack tokens → Stops test tokens

namespace Ends

theorem mono (h : Ends test stack) (himp : ∀ token, test' token → test token) :
    Ends test' stack :=
  fun tokens htokens => (h tokens htokens).mono himp

theorem nil : Ends test [] := by
  intro tokens h
  cases h
  rfl

theorem token (h : ∀ token, terminal.test token → test token = false) :
    Ends test (.token terminal :: stack) :=
  fun _ htokens => (starts_token htokens).not_starts h

theorem repeated (hparts : Ends test (parts ++ .repeated parts :: stack))
    (hstack : Ends test stack) : Ends test (.repeated parts :: stack) := by
  intro tokens h
  rcases derives_repeated_iff.1 h with h | h
  · exact hstack tokens h
  · exact hparts tokens h

theorem optional (hparts : Ends test (parts ++ stack)) (hstack : Ends test stack) :
    Ends test (.optional parts :: stack) := by
  intro tokens h
  rcases derives_optional_iff.1 h with h | h
  · exact hstack tokens h
  · exact hparts tokens h

/-- The symbols behind expressions end them. -/
theorem symbol {symbol : Symbol}
    (hsymbol : [Symbol.comma, .rightParen, .semicolon].contains symbol) :
    Ends continuesExpression (.symbol symbol :: stack) :=
  token fun _ htoken => stops_of_isSymbol [] htoken hsymbol

/-- What starts with a token that passes a test does not end in front of it. -/
theorem not_derives (h : Ends test stack) (hstarts : Starts test tokens) :
    ¬Derives stack tokens := by
  intro htokens
  have hstops : tokens.head?.any test = false := h tokens htokens
  rw [hstarts] at hstops
  cases hstops

end Ends

/-! ## Parts that may be missing -/

variable {rest : List Token}

/-- What goes on with the same token as `rest` does not start with a token that passes a test, if
`rest` does not. -/
theorem not_starts_of_stops (hrest : Stops test rest) {next : List Token}
    (hhead : next.head? = rest.head?) : ¬Starts test next := by
  intro hstarts
  rw [Starts, hhead, hrest] at hstarts
  cases hstarts

/-- Parts that the next token does not start do not come. -/
theorem leads_missing (hparts : ∀ tokens, Derives (parts ++ stack) tokens → Starts test tokens)
    (hrest : Stops test rest) :
    Leads (Derives (.optional parts :: stack)) rest (Derives stack) rest := by
  refine .restrict (fun next => .missing) fun next hhead h => ?_
  exact (derives_optional_iff.1 h).resolve_right fun h =>
    not_starts_of_stops hrest hhead (hparts next h)

/-- Parts come if the next token does not start what stands behind them. -/
theorem leads_present (hstack : ∀ tokens, Derives stack tokens → Starts test tokens)
    (hrest : Stops test rest) :
    Leads (Derives (.optional parts :: stack)) rest (Derives (parts ++ stack)) rest := by
  refine .restrict (fun next => .present) fun next hhead h => ?_
  exact (derives_optional_iff.1 h).resolve_left fun h =>
    not_starts_of_stops hrest hhead (hstack next h)

/-- Parts that the next token does not start do not come again. -/
theorem leads_done
    (hparts : ∀ tokens, Derives (parts ++ .repeated parts :: stack) tokens → Starts test tokens)
    (hrest : Stops test rest) :
    Leads (Derives (.repeated parts :: stack)) rest (Derives stack) rest := by
  refine .restrict (fun next => .done) fun next hhead h => ?_
  exact (derives_repeated_iff.1 h).resolve_right fun h =>
    not_starts_of_stops hrest hhead (hparts next h)

/-- Parts come again if the next token does not start what stands behind them. -/
theorem leads_again (hstack : ∀ tokens, Derives stack tokens → Starts test tokens)
    (hrest : Stops test rest) :
    Leads (Derives (.repeated parts :: stack)) rest
      (Derives (parts ++ .repeated parts :: stack)) rest := by
  refine .restrict (fun next => .again) fun next hhead h => ?_
  exact (derives_repeated_iff.1 h).resolve_left fun h =>
    not_starts_of_stops hrest hhead (hstack next h)

/-- The parts that a token starts, if it does not start what stands behind them. -/
theorem derives_repeated_token_iff {token : Token} (hstack : Ends test stack) (htoken : test token)
    (hterminal : terminal.test token) :
    Derives (.repeated (.token terminal :: parts) :: stack) (token :: tokens) ↔
      Derives (parts ++ .repeated (.token terminal :: parts) :: stack) tokens := by
  have hnot : ¬Derives stack (token :: tokens) := hstack.not_derives (Starts.cons htoken)
  rw [derives_repeated_iff, or_iff_right hnot, List.cons_append, derives_token_cons_iff,
    and_iff_right hterminal]

theorem derives_optional_token_iff {token : Token} (hstack : Ends test stack) (htoken : test token)
    (hterminal : terminal.test token) :
    Derives (.optional (.token terminal :: parts) :: stack) (token :: tokens) ↔
      Derives (parts ++ stack) tokens := by
  have hnot : ¬Derives stack (token :: tokens) := hstack.not_derives (Starts.cons htoken)
  rw [derives_optional_iff, or_iff_right hnot, List.cons_append, derives_token_cons_iff,
    and_iff_right hterminal]

end Relaxed

open Relaxed

variable {α : Type} {stack : List Part} {cursor : Cursor}

/-- No rule goes back. -/
theorem Tracks.length_le {before after : Continuation} {rule : Reading α} {middle : Cursor} {a : α}
    (h : Tracks before rule after cursor) (hexec : exec rule cursor = (.ok a, middle)) :
    middle.rest.length ≤ cursor.rest.length := by
  have hreaches := h.reaches
  rw [hexec] at hreaches
  exact hreaches.rest.length_le

/-- A rule leads from parts to what stands behind them, if that does not start with a token that
goes on with them. -/
def Parses (parts : List Part) (continues : Token → Bool) (rule : Reading α) : Prop :=
  ∀ stack cursor, Ends continues stack →
    Tracks (Derives (parts ++ stack)) rule (Derives stack) cursor

/-- The rules for what stands inside a nesting parse expressions. -/
structure Inner.Parses (inner : Inner) : Prop where
  expression : Grammar.Parses [.phrase .expression] continuesExpression inner.expression
  operand : Grammar.Parses [.phrase .unary] (continues []) inner.operand

/-! ## Operators -/

section

variable {tier : Tier} {operand : Part} {next : Reading Expr} {stop : Token → Bool}
  (hnext : Parses [operand] stop next) (hstop : ∀ token, tier.level.has token → stop token = false)

include hnext hstop

theorem tracks_operations (hstack : Ends stop stack) (hends : Ends tier.level.has stack)
    (limit : Nat) (left : Expr) (hlimit : cursor.rest.length ≤ limit) :
    Tracks (Derives (.repeated [.operator tier, operand] :: stack))
      (operations tier.level next limit left) (Derives stack) cursor := by
  have hparts : ∀ tokens,
      Derives ([.operator tier, operand] ++ .repeated [.operator tier, operand] :: stack) tokens →
        Starts tier.level.has tokens := fun tokens htokens => starts_token htokens
  induction limit generalizing left cursor with
  | zero =>
      have hrest : cursor.rest = [] := List.eq_nil_of_length_eq_zero (Nat.le_zero.1 hlimit)
      exact (Tracks.pure left).of_leads (leads_done hparts (hrest ▸ rfl))
  | succ limit ih =>
      refine .bind_accept? (fun operator middle hoperator hpasses => ?_) fun hrest =>
        (Tracks.pure left).of_leads (leads_done hparts hrest)
      have hmiddle : middle.rest.length ≤ limit := by
        rw [hpasses.rest] at hlimit
        exact Nat.le_of_succ_le_succ hlimit
      have hright := hnext (.repeated [.operator tier, operand] :: stack) middle
        (.repeated (.token hstop) hstack)
      refine Tracks.congr (fun tokens => derives_repeated_token_iff hends hoperator hoperator) <|
        hright.bind fun right reached hexec => ih _ ?_
      exact (hright.length_le hexec).trans hmiddle

theorem parses_chain {ends : Token → Bool} (hends : ∀ token, stop token → ends token)
    (hhas : ∀ token, tier.level.has token → ends token) :
    Parses [operand, .repeated [.operator tier, operand]] ends (chain tier.level next) := by
  intro stack cursor hstack
  have hstack' : Ends stop stack := hstack.mono hends
  have hfirst := hnext (.repeated [.operator tier, operand] :: stack) cursor
    (.repeated (.token hstop) hstack')
  refine hfirst.bind fun first middle _ => .bind_nextIs ?_
  split
  · exact .bind_remaining <|
      tracks_operations hnext hstop hstack' (hstack.mono hhas) _ first (Nat.le_refl _)
  · next hrest =>
      exact (Tracks.pure first).of_leads
        (leads_done (fun _ htokens => starts_token htokens) (by simpa [Stops] using hrest))

end

/-! ## Items with commas in between -/

theorem Tracks.noteWhen {before after : Continuation} {condition : Prop} [Decidable condition]
    {rule : Reading α} {cause : SyntaxCause} (hcause : cause.stops = false)
    (h : ∀ middle, middle.rest = cursor.rest → Tracks before rule after middle) :
    Tracks before (if condition then Reading.noteHere cause >>= fun _ => rule else rule) after
      cursor := by
  split
  · refine (Tracks.noteHere hcause).bind fun _ middle hexec => h middle ?_
    cases hexec
    rfl
  · exact h cursor rfl

section

variable {part : Part} {item : Reading α} {stop : Token → Bool} {excess : SyntaxCause}
  (hitem : Parses [part] stop item) (hcomma : ∀ token, token.isSymbol .comma → stop token = false)
  (hparen : ∀ token, token.isSymbol .rightParen → stop token = false)
  (hexcess : excess.stops = false)

include hitem hcomma hparen hexcess

theorem tracks_itemsFrom (limit count : Nat) (hlimit : cursor.rest.length < limit) :
    Tracks (Derives (part :: .repeated [.symbol .comma, part] :: .symbol .rightParen :: stack))
      (itemsFrom item excess limit count) (Derives (.symbol .rightParen :: stack)) cursor := by
  have hends : Ends (·.isSymbol .comma) (.symbol .rightParen :: stack) :=
    .token fun token htoken => isSymbol_eq_false htoken (by decide)
  induction limit generalizing count cursor with
  | zero => exact absurd hlimit (Nat.not_lt_zero _)
  | succ limit ih =>
      refine .noteWhen hexcess fun cursor' hcursor' => ?_
      have hfirst := hitem (.repeated [.symbol .comma, part] :: .symbol .rightParen :: stack)
        cursor' (.repeated (.token hcomma) (.token hparen))
      refine hfirst.bind fun first middle hexec =>
        .bind_accepts (fun comma reached htest hpasses => ?_) fun hrest => ?_
      · have hlength := hfirst.length_le hexec
        rw [hpasses.rest, hcursor', List.length_cons] at hlength
        exact Tracks.congr (fun tokens => derives_repeated_token_iff hends htest htest) <|
          (ih (count + 1) (by omega)).seq fun _ _ => .pure _
      · exact (Tracks.pure [first]).of_leads
          (leads_done (fun _ htokens => starts_token htokens) hrest)

/-- Items that may be missing, in front of a closing parenthesis. -/
theorem tracks_items {phrase : Phrase} (hstarts : ∀ stack tokens, Derives (part :: stack) tokens →
      Starts (!·.isSymbol .rightParen) tokens)
    (hphrase : phrase.alternatives = [[part, .repeated [.symbol .comma, part]]]) :
    Tracks (Derives (.optional [.phrase phrase] :: .symbol .rightParen :: stack))
      (items item excess) (Derives (.symbol .rightParen :: stack)) cursor := by
  refine .bind_nextIs ?_
  split
  · next hnext =>
      refine (Tracks.pure []).of_leads (leads_missing (fun tokens htokens =>
        hstarts _ tokens ((derives_phrase_of_singleton hphrase).1 htokens)) ?_)
      · obtain ⟨token, htoken, hparen⟩ := (Option.any_eq_true _ _).1 hnext
        rw [Stops, htoken, Option.any_some, hparen, Bool.not_true]
  · next hnext =>
      refine Tracks.of_leads (leads_present (fun _ htokens => starts_token htokens)
        (by simpa [Stops] using hnext)) <|
          Tracks.congr (fun tokens => derives_phrase_of_singleton hphrase) <|
            .bind_remaining <| ?_
      exact tracks_itemsFrom hitem hcomma hparen hexcess _ _ (Nat.lt_succ_self _)

end

/-! ## Calls, properties and unary operators -/

variable {inner : Inner} (h : inner.Parses)

include h

theorem tracks_finishCall (callee : Expr) :
    Tracks (Derives (.optional [.phrase .arguments] :: .symbol .rightParen :: stack))
      (finishCall inner callee) (Derives stack) cursor := by
  have hstarts : ∀ stack tokens, Derives (.phrase .expression :: stack) tokens →
      Starts (!·.isSymbol .rightParen) tokens :=
    fun stack tokens htokens => starts_items (Relaxed.starts_expression htokens)
  have hitems : Tracks (Derives (.optional [.phrase .arguments] :: .symbol .rightParen :: stack))
      (items inner.expression .tooManyArguments) (Derives (.symbol .rightParen :: stack)) cursor :=
    tracks_items h.expression (fun token htoken => stops_of_isSymbol [] htoken (by decide))
      (fun token htoken => stops_of_isSymbol [] htoken (by decide)) rfl hstarts rfl
  exact hitems.seq fun _ _ => (Tracks.expect rfl).seq fun _ _ => .pure _

omit h in
/-- The alternatives for a primary expression. -/
theorem derives_primary_iff {tokens : List Token} :
    Derives (.phrase .primary :: stack) tokens ↔
      Derives (.constant :: stack) tokens ∨ Derives (.keyword .thisKw :: stack) tokens ∨
        Derives (.identifier :: stack) tokens ∨
        Derives (.symbol .leftParen :: .phrase .expression :: .symbol .rightParen :: stack) tokens ∨
        Derives (.keyword .superKw :: .symbol .dot :: .identifier :: stack) tokens := by
  simp [derives_phrase_iff, Phrase.alternatives]

omit h in
/-- The alternatives for a primary expression, told apart by its first token. -/
theorem derives_primary_token_iff {token : Token} {tokens : List Token} :
    Derives (.phrase .primary :: stack) (token :: tokens) ↔
      ((literal? token.kind).isSome ∧ Derives stack tokens) ∨
        (token.isKeyword .thisKw ∧ Derives stack tokens) ∨
        (token.isIdentifier ∧ Derives stack tokens) ∨
        (token.isSymbol .leftParen ∧
          Derives (.phrase .expression :: .symbol .rightParen :: stack) tokens) ∨
        (token.isKeyword .superKw ∧ Derives (.symbol .dot :: .identifier :: stack) tokens) := by
  rw [derives_primary_iff]
  simp only [derives_token_cons_iff]

omit h in
/-- A constant is none of the other primary expressions. -/
theorem not_of_constant {token : Token} (hconstant : (literal? token.kind).isSome) :
    token.isKeyword .thisKw = false ∧ token.isIdentifier = false ∧
      token.isSymbol .leftParen = false ∧ token.isKeyword .superKw = false := by
  rcases token with ⟨kind, lexeme, line⟩
  cases kind with
  | keyword keyword => cases keyword <;> first | exact ⟨rfl, rfl, rfl, rfl⟩ | cases hconstant
  | symbol symbol => cases hconstant
  | identifier => cases hconstant
  | number => exact ⟨rfl, rfl, rfl, rfl⟩
  | string => exact ⟨rfl, rfl, rfl, rfl⟩

theorem tracks_primary :
    Tracks (Derives (.phrase .primary :: stack)) (primary inner) (Derives stack) cursor := by
  refine .bind_accept? (fun token middle hconstant _ => ?_) fun hconstant =>
    .bind_accept? (fun token middle hsuper _ => ?_) fun hsuper =>
    .bind_accept? (fun token middle hthis _ => ?_) fun hthis =>
    .bind_accept? (fun token middle hname _ => ?_) fun hname =>
    .bind_accepts (fun token middle hparen _ => ?_) fun hparen => ?_
  · obtain ⟨hthis, hname, hparen, hsuper⟩ := not_of_constant hconstant
    refine (Tracks.pure _).congr fun tokens => ?_
    simp [derives_primary_token_iff, *]
  · have hkind := eq_of_beq hsuper
    have hiff : ∀ tokens, Derives (.phrase .primary :: stack) (token :: tokens) ↔
        Derives (.symbol .dot :: .identifier :: stack) tokens := fun tokens => by
      simp [derives_primary_token_iff, Token.isKeyword, Token.isIdentifier, Token.isSymbol,
        literal?, hkind]
    exact Tracks.congr hiff <| (Tracks.expect rfl).seq fun _ _ => (Tracks.expect rfl).seq
      fun _ _ => .bind_occurrence fun _ _ => .pure _
  · have hkind := eq_of_beq hthis
    refine .bind_occurrence fun _ _ => (Tracks.pure _).congr fun tokens => ?_
    simp [derives_primary_token_iff, Token.isKeyword, Token.isIdentifier, Token.isSymbol,
      literal?, hkind]
  · have hkind := eq_of_beq hname
    refine .bind_occurrence fun _ _ => (Tracks.pure _).congr fun tokens => ?_
    simp [derives_primary_token_iff, Token.isKeyword, Token.isIdentifier, Token.isSymbol,
      literal?, hkind]
  · have hkind := eq_of_beq hparen
    have hiff : ∀ tokens, Derives (.phrase .primary :: stack) (token :: tokens) ↔
        Derives (.phrase .expression :: .symbol .rightParen :: stack) tokens := fun tokens => by
      simp [derives_primary_token_iff, Token.isKeyword, Token.isIdentifier, Token.isSymbol,
        literal?, hkind]
    have hexpression := h.expression (.symbol .rightParen :: stack) middle (.symbol (by decide))
    exact Tracks.congr hiff <| hexpression.seq fun _ _ => (Tracks.expect rfl).seq fun _ _ =>
      .pure _
  · refine Tracks.stop rfl (exists_derives _) fun tokens hhead htokens => ?_
    rcases derives_primary_iff.1 htokens with htokens | htokens | htokens | htokens | htokens
    · exact not_starts_of_stops hconstant hhead (starts_token htokens)
    · exact not_starts_of_stops hthis hhead (starts_token htokens)
    · exact not_starts_of_stops hname hhead (starts_token htokens)
    · exact not_starts_of_stops hparen hhead (starts_token htokens)
    · exact not_starts_of_stops hsuper hhead (starts_token htokens)

omit h in
theorem derives_selection_iff {tokens : List Token} :
    Derives (.phrase .selection :: stack) tokens ↔
      Derives (.symbol .leftParen :: .optional [.phrase .arguments] :: .symbol .rightParen :: stack)
          tokens ∨
        Derives (.symbol .dot :: .identifier :: stack) tokens := by
  simp [derives_phrase_iff, Phrase.alternatives]

omit h in
theorem starts_selection {tokens : List Token} (h : Derives (.phrase .selection :: stack) tokens) :
    Starts (continues []) tokens := by
  rcases derives_selection_iff.1 h with h | h
  · exact (starts_token h).mono fun token htoken => by simpa [continues] using .inl htoken
  · exact (starts_token h).mono fun token htoken => by simpa [continues] using .inr htoken

omit h in
/-- The call or the property that a token starts, if it does not start what stands behind. -/
theorem derives_selections_iff {token : Token} {tokens : List Token}
    (hstack : Ends (continues []) stack) (htoken : continues [] token) :
    Derives (.repeated [.phrase .selection] :: stack) (token :: tokens) ↔
      (token.isSymbol .leftParen ∧ Derives (.optional [.phrase .arguments] ::
          .symbol .rightParen :: .repeated [.phrase .selection] :: stack) tokens) ∨
        (token.isSymbol .dot ∧
          Derives (.identifier :: .repeated [.phrase .selection] :: stack) tokens) := by
  have hnot : ¬Derives stack (token :: tokens) := hstack.not_derives (Starts.cons htoken)
  rw [derives_repeated_iff, or_iff_right hnot, List.singleton_append, derives_selection_iff,
    derives_token_cons_iff, derives_token_cons_iff]

theorem tracks_selections (hstack : Ends (continues []) stack) (limit : Nat) (subject : Expr)
    (hlimit : cursor.rest.length ≤ limit) :
    Tracks (Derives (.repeated [.phrase .selection] :: stack)) (selections inner limit subject)
      (Derives stack) cursor := by
  induction limit generalizing subject cursor with
  | zero =>
      have hrest : cursor.rest = [] := List.eq_nil_of_length_eq_zero (Nat.le_zero.1 hlimit)
      exact (Tracks.pure subject).of_leads
        (leads_done (fun _ htokens => starts_selection htokens) (hrest ▸ rfl))
  | succ limit ih =>
      have hmiddle : ∀ {token middle}, cursor.Passes token middle →
          middle.rest.length ≤ limit := fun hpasses => by
        rw [hpasses.rest] at hlimit
        exact Nat.le_of_succ_le_succ hlimit
      refine .bind_accepts (fun token middle hparen hpasses => ?_) fun hparen =>
        .bind_accepts (fun token middle hdot hpasses => ?_) fun hdot => ?_
      · have hcall : Tracks _ _ (Derives (.repeated [.phrase .selection] :: stack)) middle :=
          tracks_finishCall h subject
        refine Tracks.congr (fun tokens => ?_) <| hcall.bind fun callee reached hexec =>
          ih callee ((hcall.length_le hexec).trans (hmiddle hpasses))
        rw [derives_selections_iff hstack (by simp [continues, hparen]), and_iff_right hparen,
          isSymbol_eq_false hparen (by decide)]
        simp
      · have hname : Tracks (Derives (.identifier :: .repeated [.phrase .selection] :: stack))
            (expectIdentifier .propertyName) _ middle := Tracks.expect rfl
        refine Tracks.congr (fun tokens => ?_) <| hname.bind fun name reached hexec =>
          ih _ ((hname.length_le hexec).trans (hmiddle hpasses))
        rw [derives_selections_iff hstack (by simp [continues, hdot]), and_iff_right hdot,
          isSymbol_eq_false hdot (by decide)]
        simp
      · refine (Tracks.pure subject).of_leads
          (leads_done (fun _ htokens => starts_selection htokens) ?_)
        cases hrest : cursor.rest <;> simp_all [Stops, continues]

theorem parses_call : Parses [.phrase .call] (continues []) (call inner) := by
  intro stack cursor hstack
  refine Tracks.congr (fun tokens => derives_phrase_of_singleton rfl) <|
    (tracks_primary h).bind fun subject middle _ => .bind_nextIs ?_
  split
  · exact .bind_remaining (tracks_selections h hstack _ subject (Nat.le_refl _))
  · next hnext =>
      refine (Tracks.pure subject).of_leads
        (leads_done (fun _ htokens => starts_selection htokens) ?_)
      cases hrest : middle.rest <;> simp_all [Stops, continues]

omit h in
theorem derives_unary_iff {tokens : List Token} :
    Derives (.phrase .unary :: stack) tokens ↔
      Derives (.unaryOperator :: .phrase .unary :: stack) tokens ∨
        Derives (.phrase .call :: stack) tokens := by
  simp [derives_phrase_iff .unary, Phrase.alternatives]

theorem parses_unary : Parses [.phrase .unary] (continues []) (unary inner) := by
  intro stack cursor hstack
  refine .bind_accept? (fun token middle htoken _ => ?_) fun hrest => ?_
  · refine Tracks.congr (fun tokens => ?_) <|
      (h.operand stack middle hstack).seq fun _ _ => .pure _
    have hnot : ¬Derives (.phrase .call :: stack) (token :: tokens) := fun hcall => by
      have hstarts : startsCall token := starts_call hcall
      rw [isUnary_eq_false_of_startsCall hstarts] at htoken
      cases htoken
    exact derives_unary_iff.trans <| (or_iff_left hnot).trans <|
      derives_token_cons_iff.trans (and_iff_right htoken)
  · refine (parses_call h stack cursor hstack).of_leads (.restrict
      (fun next hnext => derives_unary_iff.2 (.inr hnext)) fun next hhead hnext => ?_)
    exact (derives_unary_iff.1 hnext).resolve_left fun htokens =>
      not_starts_of_stops hrest hhead (starts_token htokens)

theorem parses_layered {tiers : List Tier} (htiers : tiers.Nodup) :
    Parses [.phrase (.operation tiers)] (continues tiers) (layered inner tiers) := by
  induction tiers with
  | nil =>
      exact fun stack cursor hstack => Tracks.congr (fun tokens => derives_phrase_of_singleton rfl)
        (parses_unary h stack cursor hstack)
  | cons tier tighter ih =>
      obtain ⟨hmem, htighter⟩ := List.nodup_cons.1 htiers
      have htighter' : ∀ token, continues tighter token → continues (tier :: tighter) token := by
        intro token htoken
        simp only [continues, List.any_cons, Bool.or_eq_true] at htoken ⊢
        tauto
      have htier : ∀ token, tier.level.has token → continues (tier :: tighter) token := by
        intro token htoken
        simp [continues, htoken]
      have hchain := parses_chain (ih htighter)
        (fun _ hhas => continues_eq_false_of_has hhas hmem) htighter' htier
      exact fun stack cursor hstack =>
        Tracks.congr (fun tokens => derives_phrase_of_singleton rfl) (hchain stack cursor hstack)

/-! ## Assignments -/

theorem parses_assignment :
    Parses [.phrase .expression] continuesExpression (assignment inner) := by
  intro stack cursor hstack
  have htiers : tiers.Nodup := by simp [tiers]
  have hends : Ends (continues tiers) (.optional [.symbol .equal, .phrase .expression] :: stack) :=
    .optional (.token fun token htoken => stops_of_equal htoken [])
      (hstack.mono fun token htoken => by rw [continuesExpression, htoken, Bool.true_or])
  have hequal : Ends (·.isSymbol .equal) stack :=
    hstack.mono fun token htoken => by rw [continuesExpression, htoken, Bool.or_true]
  refine Tracks.congr (fun tokens => derives_phrase_of_singleton rfl) <|
    (parses_layered h htiers _ cursor hends).bind fun target middle _ =>
      .bind_accept? (fun equal reached htoken _ => ?_) fun hrest => ?_
  · refine Tracks.congr (fun tokens => derives_optional_token_iff hequal htoken htoken) <|
      (h.expression stack reached hstack).seq fun _ _ => ?_
    unfold assignTo
    split
    · exact .bind_occurrence fun place _ => .pure _
    · exact .pure _
    · exact (Tracks.note rfl).seq fun _ _ => .pure _
  · exact (Tracks.pure target).of_leads
      (leads_missing (fun tokens htokens => starts_token htokens) hrest)

omit h in
theorem Inner.parses_full : Inner.full.Parses :=
  ⟨fun _ _ _ => .stop_nesting, fun _ _ _ => .stop_nesting⟩

theorem Inner.parses_opened : inner.opened.Parses :=
  ⟨parses_assignment h, parses_unary h⟩

end Grammar

end LoxLang
