import LoxLang.Proofs.Grammar.Relaxed.Expression

/-!
# Programs track the relaxed grammar

As the rules for expressions, those for statements and declarations lead from what may come if their
phrase comes next to what may come behind it.  An `else` is read with the nearest conditional
although the grammar lets it belong to any of those in front of it; this is no loss, since the
statement behind the `else` is followed by the same in each case (`CedesElse`).
-/

namespace LoxLang

namespace Grammar

open Reading

namespace Relaxed

variable {stack : List Part} {tokens : List Token}

/-- If an `else` comes, it could as well be read before, together with the statement behind it. -/
def CedesElse (stack : List Part) : Prop :=
  ∀ token tokens, token.isKeyword .elseKw → Derives stack (token :: tokens) →
    Derives (.phrase .statement :: stack) tokens

namespace CedesElse

theorem of_ends (h : Ends (·.isKeyword .elseKw) stack) : CedesElse stack :=
  fun _ _ htoken htokens => absurd htokens (h.not_derives (Starts.cons htoken))

theorem optional (h : CedesElse stack) :
    CedesElse (.optional [.keyword .elseKw, .phrase .statement] :: stack) := by
  intro token tokens htoken htokens
  have hbefore : Derives ([.phrase .statement] ++ stack) tokens := by
    rcases derives_optional_iff.1 htokens with htokens | htokens
    · exact h token tokens htoken htokens
    · exact (derives_token_cons_iff.1 htokens).2
  exact hbefore.insert_missing

/-- No declaration starts with an `else`. -/
theorem declarations (h : CedesElse stack) :
    CedesElse (.repeated [.phrase .declaration] :: stack) := by
  intro token tokens htoken htokens
  rcases derives_repeated_iff.1 htokens with htokens | htokens
  · have hbefore : Derives ([.phrase .statement] ++ stack) tokens :=
      h token tokens htoken htokens
    exact hbefore.insert_done
  · have hstarts : startsDeclaration token := starts_declaration htokens
    rw [isElse_eq_false_of_startsDeclaration hstarts] at htoken
    cases htoken

end CedesElse

theorem derives_declaration_iff :
    Derives (.phrase .declaration :: stack) tokens ↔
      Derives (.phrase .classDeclaration :: stack) tokens ∨
        Derives (.phrase .functionDeclaration :: stack) tokens ∨
        Derives (.phrase .variableDeclaration :: stack) tokens ∨
        Derives (.phrase .statement :: stack) tokens := by
  simp [derives_phrase_iff .declaration, Phrase.alternatives]

theorem derives_statement_iff :
    Derives (.phrase .statement :: stack) tokens ↔
      Derives (.phrase .expressionStatement :: stack) tokens ∨
        Derives (.phrase .forStatement :: stack) tokens ∨
        Derives (.phrase .ifStatement :: stack) tokens ∨
        Derives (.phrase .printStatement :: stack) tokens ∨
        Derives (.phrase .returnStatement :: stack) tokens ∨
        Derives (.phrase .whileStatement :: stack) tokens ∨
        Derives (.phrase .block :: stack) tokens := by
  simp [derives_phrase_iff .statement, Phrase.alternatives]

theorem derives_forInitializer_iff :
    Derives (.phrase .forInitializer :: stack) tokens ↔
      Derives (.phrase .variableDeclaration :: stack) tokens ∨
        Derives (.phrase .expressionStatement :: stack) tokens ∨
        Derives (.symbol .semicolon :: stack) tokens := by
  simp [derives_phrase_iff .forInitializer, Phrase.alternatives]

theorem starts_variableDeclaration (h : Derives (.phrase .variableDeclaration :: stack) tokens) :
    Starts (·.isKeyword .varKw) tokens :=
  starts_token ((derives_phrase_of_singleton rfl).1 h)

theorem starts_expressionStatement (h : Derives (.phrase .expressionStatement :: stack) tokens) :
    Starts startsExpression tokens :=
  starts_expression ((derives_phrase_of_singleton rfl).1 h)

end Relaxed

open Relaxed

variable {stack : List Part} {cursor : Cursor}

/-- The rules for what stands inside a nesting parse statements, and bodies after their opening
brace. -/
structure Enclosed.Parses (inner : Enclosed) : Prop extends inner.toInner.Parses where
  statement : ∀ stack cursor, CedesElse stack →
    Tracks (Derives (.phrase .statement :: stack)) inner.statement (Derives stack) cursor
  body : ∀ stack cursor,
    Tracks (Derives (.repeated [.phrase .declaration] :: .symbol .rightBrace :: stack)) inner.body
      (Derives stack) cursor
  /-- A method takes off at least a token. -/
  function : Consumes (Grammar.function inner .method)
  /-- A declaration takes off at least a token if there is one. -/
  declaration : Progresses (Grammar.declaration inner)

variable {inner : Enclosed} (h : inner.Parses)

include h

/-! ## Functions and classes -/

omit h in
theorem parses_identifier {cause : SyntaxCause} (hcause : cause.stops) :
    Parses [.identifier] (fun _ => false) (expectIdentifier cause) :=
  fun _ _ _ => .expect hcause

theorem tracks_function (sort : FunctionSort) :
    Tracks (Derives (.phrase .function :: stack)) (function inner sort) (Derives stack) cursor := by
  have hstarts : ∀ stack tokens, Derives (.identifier :: stack) tokens →
      Starts (!·.isSymbol .rightParen) tokens := fun stack tokens htokens =>
    (starts_token htokens).mono fun token hname => by
      simp [Token.isSymbol, eq_of_beq hname]
  refine Tracks.congr (fun tokens => derives_phrase_of_singleton rfl) <|
    (Tracks.expect rfl).seq fun _ _ => (Tracks.expect rfl).seq fun _ _ =>
      (tracks_items (parses_identifier rfl) (fun _ _ => rfl) (fun _ _ => rfl) rfl hstarts
        rfl).seq fun _ _ => (Tracks.expect rfl).seq fun _ _ =>
          Tracks.congr (fun tokens => derives_phrase_of_singleton rfl) <|
            (Tracks.expect rfl).seq fun _ _ => (h.body _ _).seq fun _ _ => .pure _

omit h in
/-- Methods end where none of them starts. -/
theorem stops_of_endsBody {test : Token → Bool} {rest : List Token} (hrest : endsBody rest)
    (h : ∀ token, token.isSymbol .rightBrace → test token = false) : Stops test rest := by
  cases rest with
  | nil => rfl
  | cons token rest =>
      have hbrace : token.isSymbol .rightBrace := by simpa [endsBody] using hrest
      exact h token hbrace

omit h in
/-- In front of something else a closing brace does not come. -/
theorem stops_of_not_endsBody {rest : List Token} (hrest : endsBody rest = false) :
    Stops (·.isSymbol .rightBrace) rest := by
  rw [endsBody, Bool.or_eq_false_iff] at hrest
  exact hrest.1

theorem tracks_methods (limit : Nat) (hlimit : cursor.rest.length ≤ limit) :
    Tracks (Derives (.repeated [.phrase .function] :: .symbol .rightBrace :: stack))
      (methods inner limit) (Derives (.symbol .rightBrace :: stack)) cursor := by
  induction limit generalizing cursor with
  | zero =>
      have hrest : cursor.rest = [] := List.eq_nil_of_length_eq_zero (Nat.le_zero.1 hlimit)
      exact (Tracks.pure []).of_leads
        (leads_done (fun _ htokens => starts_function htokens) (hrest ▸ rfl))
  | succ limit ih =>
      refine .bind_of_exec (exec_bodyEnds cursor) ?_
      split
      · next hends =>
          refine (Tracks.pure []).of_leads
            (leads_done (fun _ htokens => starts_function htokens) ?_)
          exact stops_of_endsBody hends fun token htoken => by
            simp [Token.isIdentifier, eq_of_beq htoken]
      · next hends =>
          refine Tracks.of_leads (leads_again (fun _ htokens => starts_token htokens)
            (stops_of_not_endsBody (Bool.eq_false_iff.2 hends))) ?_
          refine (tracks_function h .method).bind fun method middle hexec => ?_
          have hlength := h.function _ _ _ hexec
          exact (ih (by omega)).seq fun _ _ => .pure _

omit h in
theorem tracks_inheritance :
    Tracks (Derives (.optional [.symbol .less, .identifier] :: .symbol .leftBrace :: stack))
      inheritance (Derives (.symbol .leftBrace :: stack)) cursor := by
  have hends : Ends (·.isSymbol .less) (.symbol .leftBrace :: stack) :=
    .token fun token htoken => isSymbol_eq_false htoken (by decide)
  refine .bind_accepts (fun token middle htoken _ => ?_) fun hrest => ?_
  · exact Tracks.congr (fun tokens => derives_optional_token_iff hends htoken htoken) <|
      (Tracks.expect rfl).seq fun _ _ =>
        .bind_occurrence fun place _ => .pure _
  · exact (Tracks.pure none).of_leads
      (leads_missing (fun _ htokens => starts_token htokens) hrest)

theorem tracks_classDeclaration :
    Tracks (Derives (.identifier :: .optional [.symbol .less, .identifier] ::
        .symbol .leftBrace :: .repeated [.phrase .function] :: .symbol .rightBrace :: stack))
      (classDeclaration inner) (Derives stack) cursor :=
  (Tracks.expect rfl).seq fun _ _ => tracks_inheritance.seq fun _ _ =>
    (Tracks.expect rfl).seq fun _ _ => .bind_remaining <|
      (tracks_methods h _ (Nat.le_refl _)).seq fun _ _ =>
        (Tracks.expect rfl).seq fun _ _ => .pure _

/-! ## Variables -/

theorem tracks_variableValue :
    Tracks (Derives (.optional [.symbol .equal, .phrase .expression] ::
        .symbol .semicolon :: stack))
      (variableValue inner) (Derives (.symbol .semicolon :: stack)) cursor := by
  have hends : Ends (·.isSymbol .equal) (.symbol .semicolon :: stack) :=
    .token fun token htoken => isSymbol_eq_false htoken (by decide)
  refine .bind_accepts (fun token middle htoken _ => ?_) fun hrest => ?_
  · exact Tracks.congr (fun tokens => derives_optional_token_iff hends htoken htoken) <|
      (h.expression _ _ (.symbol (by decide))).seq fun _ _ => .pure _
  · exact (Tracks.pure none).of_leads
      (leads_missing (fun _ htokens => starts_token htokens) hrest)

theorem tracks_varDeclaration :
    Tracks (Derives (.identifier :: .optional [.symbol .equal, .phrase .expression] ::
        .symbol .semicolon :: stack))
      (varDeclaration inner) (Derives stack) cursor :=
  (Tracks.expect rfl).seq fun _ _ => (tracks_variableValue h).seq fun _ _ =>
    (Tracks.expect rfl).seq fun _ _ => .pure _

/-! ## Statements -/

theorem tracks_expressionStatement :
    Tracks (Derives (.phrase .expressionStatement :: stack)) (expressionStatement inner)
      (Derives stack) cursor :=
  Tracks.congr (fun tokens => derives_phrase_of_singleton rfl) <|
    (h.expression _ _ (.symbol (by decide))).seq fun _ _ =>
      (Tracks.expect rfl).seq fun _ _ => .pure _

/-- An expression may be missing in front of a semicolon or closing parenthesis. -/
theorem tracks_expressionUnless {symbol : Symbol}
    (hsymbol : [Symbol.comma, .rightParen, .semicolon].contains symbol)
    (hstart : [Symbol.leftParen, .bang, .minus].contains symbol = false) :
    Tracks (Derives (.optional [.phrase .expression] :: .symbol symbol :: stack))
      (expressionUnless inner symbol) (Derives (.symbol symbol :: stack)) cursor := by
  refine .bind_nextIs ?_
  split
  · next hnext =>
      refine (Tracks.pure none).of_leads
        (leads_missing (fun _ htokens => Relaxed.starts_expression htokens) ?_)
      obtain ⟨token, htoken, hsymbol⟩ := (Option.any_eq_true _ _).1 hnext
      rw [Stops, htoken, Option.any_some]
      cases hstarts : startsExpression token with
      | false => rfl
      | true =>
          rw [isSymbol_eq_false_of_startsExpression hstarts hstart] at hsymbol
          cases hsymbol
  · next hnext =>
      refine Tracks.of_leads (leads_present (fun _ htokens => starts_token htokens)
        (Bool.eq_false_iff.2 hnext)) ?_
      exact (h.expression _ _ (.symbol hsymbol)).seq fun _ _ => .pure _

omit h in
/-- No alternative but an expression starts with a token that an expression starts with. -/
theorem leads_forInitializer {rest : List Token} (hsemicolon : Stops (·.isSymbol .semicolon) rest)
    (hvar : Stops (·.isKeyword .varKw) rest) :
    Leads (Derives (.phrase .forInitializer :: stack)) rest
      (Derives (.phrase .expressionStatement :: stack)) rest := by
  refine .restrict (fun next hnext => derives_forInitializer_iff.2 (.inr (.inl hnext)))
    fun next hhead hnext => ?_
  rcases derives_forInitializer_iff.1 hnext with hnext | hnext | hnext
  · exact absurd (starts_variableDeclaration hnext) (not_starts_of_stops hvar hhead)
  · exact hnext
  · exact absurd (starts_token hnext) (not_starts_of_stops hsemicolon hhead)

omit h in
theorem not_expressionStatement {token : Token} {tokens : List Token}
    (h : startsExpression token = false) :
    ¬Derives (.phrase .expressionStatement :: stack) (token :: tokens) := by
  intro htokens
  have hstarts : startsExpression token := starts_expressionStatement htokens
  rw [h] at hstarts
  cases hstarts

theorem tracks_loopInitializer :
    Tracks (Derives (.phrase .forInitializer :: stack)) (loopInitializer inner) (Derives stack)
      cursor := by
  refine .bind_accepts (fun token middle hsemicolon _ => ?_) fun hsemicolon =>
    .bind_accepts (fun token middle hvar _ => ?_) fun hvar =>
      ((tracks_expressionStatement h).seq fun _ _ => .pure _).of_leads
        (leads_forInitializer hsemicolon hvar)
  · have hkind := eq_of_beq hsemicolon
    refine (Tracks.pure none).congr fun tokens => ?_
    rw [derives_forInitializer_iff, or_iff_right, or_iff_right, derives_token_cons_iff,
      and_iff_right hsemicolon]
    · exact not_expressionStatement (by simp [startsExpression, startsCall, Token.isSymbol, hkind])
    · rw [derives_phrase_of_singleton rfl, List.cons_append, derives_token_cons_iff]
      simp [Token.isKeyword, hkind]
  · have hkind := eq_of_beq hvar
    refine Tracks.congr (fun tokens => ?_) ((tracks_varDeclaration h).seq fun _ _ => .pure _)
    rw [derives_forInitializer_iff, or_iff_left, derives_phrase_of_singleton rfl,
      List.cons_append, derives_token_cons_iff, and_iff_right hvar]
    · rfl
    · rintro (htokens | htokens)
      · exact not_expressionStatement
          (by simp [startsExpression, startsCall, Token.isSymbol, hkind]) htokens
      · rw [derives_token_cons_iff] at htokens
        simp [Token.isSymbol, hkind] at htokens

theorem tracks_forLoop (hstack : CedesElse stack) :
    Tracks (Derives (.symbol .leftParen :: .phrase .forInitializer ::
        .optional [.phrase .expression] :: .symbol .semicolon :: .optional [.phrase .expression] ::
        .symbol .rightParen :: .phrase .statement :: stack))
      (forLoop inner) (Derives stack) cursor :=
  (Tracks.expect rfl).seq fun _ _ => (tracks_loopInitializer h).seq fun _ _ =>
    (tracks_expressionUnless h (by decide) (by decide)).seq fun _ _ =>
      (Tracks.expect rfl).seq fun _ _ =>
        (tracks_expressionUnless h (by decide) (by decide)).seq fun _ _ =>
          (Tracks.expect rfl).seq fun _ _ => (h.statement _ _ hstack).seq fun _ _ => .pure _

theorem tracks_elseBranch (hstack : CedesElse stack) :
    Tracks (Derives (.optional [.keyword .elseKw, .phrase .statement] :: stack)) (elseBranch inner)
      (Derives stack) cursor := by
  refine .bind_accepts (fun token middle htoken _ => ?_) fun hrest => ?_
  · refine Tracks.congr (fun tokens => ?_) ((h.statement _ _ hstack).seq fun _ _ => .pure _)
    rw [derives_optional_iff, List.cons_append, derives_token_cons_iff, and_iff_right htoken]
    exact or_iff_right_of_imp (hstack token tokens htoken)
  · exact (Tracks.pure none).of_leads
      (leads_missing (fun _ htokens => starts_token htokens) hrest)

theorem tracks_conditional (hstack : CedesElse stack) :
    Tracks (Derives (.symbol .leftParen :: .phrase .expression :: .symbol .rightParen ::
        .phrase .statement :: .optional [.keyword .elseKw, .phrase .statement] :: stack))
      (conditional inner) (Derives stack) cursor :=
  (Tracks.expect rfl).seq fun _ _ => (h.expression _ _ (.symbol (by decide))).seq fun _ _ =>
    (Tracks.expect rfl).seq fun _ _ => (h.statement _ _ hstack.optional).seq fun _ _ =>
      (tracks_elseBranch h hstack).seq fun _ _ => .pure _

theorem tracks_whileLoop (hstack : CedesElse stack) :
    Tracks (Derives (.symbol .leftParen :: .phrase .expression :: .symbol .rightParen ::
        .phrase .statement :: stack))
      (whileLoop inner) (Derives stack) cursor :=
  (Tracks.expect rfl).seq fun _ _ => (h.expression _ _ (.symbol (by decide))).seq fun _ _ =>
    (Tracks.expect rfl).seq fun _ _ => (h.statement _ _ hstack).seq fun _ _ => .pure _

theorem tracks_print :
    Tracks (Derives (.phrase .expression :: .symbol .semicolon :: stack)) (print inner)
      (Derives stack) cursor :=
  (h.expression _ _ (.symbol (by decide))).seq fun _ _ => (Tracks.expect rfl).seq fun _ _ =>
    .pure _

theorem tracks_returnValue (keyword : Token) :
    Tracks (Derives (.optional [.phrase .expression] :: .symbol .semicolon :: stack))
      (returnValue inner keyword) (Derives stack) cursor :=
  (tracks_expressionUnless h (by decide) (by decide)).seq fun _ _ =>
    (Tracks.expect rfl).seq fun _ _ => .pure _

/-! ## Declarations -/

omit h in
/-- A declaration is told apart from a statement by its first token. -/
theorem derives_declaration_token_iff {token : Token} {tokens : List Token} :
    Derives (.phrase .declaration :: stack) (token :: tokens) ↔
      (token.isKeyword .classKw ∧ Derives (.identifier ::
          .optional [.symbol .less, .identifier] :: .symbol .leftBrace ::
          .repeated [.phrase .function] :: .symbol .rightBrace :: stack) tokens) ∨
        (token.isKeyword .funKw ∧ Derives (.phrase .function :: stack) tokens) ∨
        (token.isKeyword .varKw ∧ Derives (.identifier ::
          .optional [.symbol .equal, .phrase .expression] :: .symbol .semicolon :: stack) tokens) ∨
        Derives (.phrase .statement :: stack) (token :: tokens) := by
  rw [derives_declaration_iff, derives_phrase_token_iff .classDeclaration rfl,
    derives_phrase_token_iff .functionDeclaration rfl,
    derives_phrase_token_iff .variableDeclaration rfl]
  rfl

omit h in
theorem not_statement {token : Token} {tokens : List Token} (h : opensStatement token = false) :
    ¬Derives (.phrase .statement :: stack) (token :: tokens) := by
  intro htokens
  have hstarts : opensStatement token := Relaxed.starts_statement htokens
  rw [h] at hstarts
  cases hstarts

omit h in
/-- What starts with none of the words of declarations is a statement. -/
theorem leads_declaration {rest : List Token} (hclass : Stops (·.isKeyword .classKw) rest)
    (hfun : Stops (·.isKeyword .funKw) rest) (hvar : Stops (·.isKeyword .varKw) rest) :
    Leads (Derives (.phrase .declaration :: stack)) rest (Derives (.phrase .statement :: stack))
      rest := by
  refine .restrict (fun next hnext => derives_declaration_iff.2 (.inr (.inr (.inr hnext))))
    fun next hhead hnext => ?_
  rcases derives_declaration_iff.1 hnext with hnext | hnext | hnext | hnext
  · exact absurd (starts_token ((derives_phrase_of_singleton rfl).1 hnext))
      (not_starts_of_stops hclass hhead)
  · exact absurd (starts_token ((derives_phrase_of_singleton rfl).1 hnext))
      (not_starts_of_stops hfun hhead)
  · exact absurd (starts_variableDeclaration hnext) (not_starts_of_stops hvar hhead)
  · exact hnext

theorem tracks_declarationOrFault (hstack : CedesElse stack) :
    Tracks (Derives (.phrase .declaration :: stack)) (declarationOrFault inner) (Derives stack)
      cursor := by
  refine .bind_accepts (fun token middle hword _ =>
        Tracks.congr (fun tokens => ?_) (tracks_classDeclaration h)) fun hclass =>
    .bind_accepts (fun token middle hword _ =>
        Tracks.congr (fun tokens => ?_)
          ((tracks_function h .function).seq fun _ _ => .pure _)) fun hfun =>
    .bind_accepts (fun token middle hword _ =>
        Tracks.congr (fun tokens => ?_) (tracks_varDeclaration h)) fun hvar =>
      (h.statement stack cursor hstack).of_leads (leads_declaration hclass hfun hvar)
  all_goals
    have hkind := eq_of_beq hword
    have hnot : ¬Derives (.phrase .statement :: stack) (token :: tokens) :=
      not_statement (by simp [opensStatement, hkind])
    simp [derives_declaration_token_iff, Token.isKeyword, hkind, hnot]

/-- A fault in a declaration is noted where it comes up. -/
theorem tracks_declaration (hstack : CedesElse stack) :
    Tracks (Derives (.phrase .declaration :: stack)) (declaration inner) (Derives stack)
      cursor := by
  refine .tryCatch (tracks_declarationOrFault h hstack).map fun fault reached => ?_
  exact ⟨none, _, rfl, ⟨resume_suffix _, List.suffix_cons _ _, Nat.le_refl _, rfl⟩, rfl⟩

/-- Declarations up to where they end.  Their end is seen by the next token. -/
theorem tracks_declarations {ends : Reading Bool} {test : List Token → Bool}
    (hends : ∀ cursor : Cursor, exec ends cursor = (.ok (test cursor.rest), cursor))
    (hstop : ∀ rest, test rest → Stops startsDeclaration rest)
    (hstack : ∀ rest, test rest = false → ∀ next, next.head? = rest.head? → ¬Derives stack next)
    (helse : CedesElse stack) (limit : Nat) (hlimit : cursor.rest.length ≤ limit) :
    Tracks (Derives (.repeated [.phrase .declaration] :: stack)) (declarations inner ends limit)
      (Derives stack) cursor := by
  have hleads : ∀ {rest}, Stops startsDeclaration rest →
      Leads (Derives (.repeated [.phrase .declaration] :: stack)) rest (Derives stack) rest :=
    leads_done fun _ htokens => Relaxed.starts_declaration htokens
  induction limit generalizing cursor with
  | zero =>
      have hrest : cursor.rest = [] := List.eq_nil_of_length_eq_zero (Nat.le_zero.1 hlimit)
      exact (Tracks.pure []).of_leads (hleads (hrest ▸ rfl))
  | succ limit ih =>
      refine .bind_of_exec (hends cursor) ?_
      split
      · next htest => exact (Tracks.pure []).of_leads (hleads (hstop _ htest))
      · next htest =>
          have hnot := hstack cursor.rest (Bool.eq_false_iff.2 htest)
          refine Tracks.of_leads (.restrict (fun next => .again) fun next hhead hnext =>
            (derives_repeated_iff.1 hnext).resolve_left (hnot next hhead)) ?_
          refine (tracks_declaration h helse.declarations).bind fun found middle hexec => ?_
          have hlength := h.declaration _ _ _ hexec
          cases found with
          | none => exact ih (by omega)
          | some statement => exact (ih (by omega)).seq fun _ _ => .pure _

theorem tracks_block :
    Tracks (Derives (.repeated [.phrase .declaration] :: .symbol .rightBrace :: stack))
      (block inner) (Derives stack) cursor := by
  have helse : CedesElse (.symbol .rightBrace :: stack) :=
    .of_ends (.token fun token htoken => by simp [Token.isKeyword, eq_of_beq htoken])
  refine .bind_remaining <| Tracks.seq (tracks_declarations h exec_bodyEnds (fun rest hrest => ?_)
    (fun rest hrest next hhead hnext => ?_) helse _ (Nat.le_refl _)) fun _ _ =>
      (Tracks.expect rfl).seq fun _ _ => .pure _
  · exact stops_of_endsBody hrest fun token htoken => by
      simp [startsDeclaration, opensStatement, Token.isKeyword, eq_of_beq htoken]
  · exact not_starts_of_stops (stops_of_not_endsBody hrest) hhead (starts_token hnext)

/-! ## Statements, told apart by their first token -/

omit h in
theorem derives_statement_token_iff {token : Token} {tokens : List Token} :
    Derives (.phrase .statement :: stack) (token :: tokens) ↔
      Derives (.phrase .expressionStatement :: stack) (token :: tokens) ∨
        (token.isKeyword .forKw ∧ Derives (.symbol .leftParen :: .phrase .forInitializer ::
          .optional [.phrase .expression] :: .symbol .semicolon ::
          .optional [.phrase .expression] :: .symbol .rightParen :: .phrase .statement :: stack)
          tokens) ∨
        (token.isKeyword .ifKw ∧ Derives (.symbol .leftParen :: .phrase .expression ::
          .symbol .rightParen :: .phrase .statement ::
          .optional [.keyword .elseKw, .phrase .statement] :: stack) tokens) ∨
        (token.isKeyword .printKw ∧
          Derives (.phrase .expression :: .symbol .semicolon :: stack) tokens) ∨
        (token.isKeyword .returnKw ∧
          Derives (.optional [.phrase .expression] :: .symbol .semicolon :: stack) tokens) ∨
        (token.isKeyword .whileKw ∧ Derives (.symbol .leftParen :: .phrase .expression ::
          .symbol .rightParen :: .phrase .statement :: stack) tokens) ∨
        (token.isSymbol .leftBrace ∧
          Derives (.repeated [.phrase .declaration] :: .symbol .rightBrace :: stack) tokens) := by
  rw [derives_statement_iff, derives_phrase_token_iff .forStatement rfl,
    derives_phrase_token_iff .ifStatement rfl,
    derives_phrase_token_iff .printStatement rfl,
    derives_phrase_token_iff .returnStatement rfl,
    derives_phrase_token_iff .whileStatement rfl,
    derives_phrase_token_iff .block rfl]
  rfl

omit h in
theorem leads_statement {rest : List Token} (hfor : Stops (·.isKeyword .forKw) rest)
    (hif : Stops (·.isKeyword .ifKw) rest) (hprint : Stops (·.isKeyword .printKw) rest)
    (hreturn : Stops (·.isKeyword .returnKw) rest) (hwhile : Stops (·.isKeyword .whileKw) rest)
    (hbrace : Stops (·.isSymbol .leftBrace) rest) :
    Leads (Derives (.phrase .statement :: stack)) rest
      (Derives (.phrase .expressionStatement :: stack)) rest := by
  refine .restrict (fun next hnext => derives_statement_iff.2 (.inl hnext))
    fun next hhead hnext => ?_
  rcases derives_statement_iff.1 hnext with hnext | hnext | hnext | hnext | hnext | hnext | hnext
  · exact hnext
  · exact absurd (starts_token ((derives_phrase_of_singleton rfl).1 hnext))
      (not_starts_of_stops hfor hhead)
  · exact absurd (starts_token ((derives_phrase_of_singleton rfl).1 hnext))
      (not_starts_of_stops hif hhead)
  · exact absurd (starts_token ((derives_phrase_of_singleton rfl).1 hnext))
      (not_starts_of_stops hprint hhead)
  · exact absurd (starts_token ((derives_phrase_of_singleton rfl).1 hnext))
      (not_starts_of_stops hreturn hhead)
  · exact absurd (starts_token ((derives_phrase_of_singleton rfl).1 hnext))
      (not_starts_of_stops hwhile hhead)
  · exact absurd (starts_token ((derives_phrase_of_singleton rfl).1 hnext))
      (not_starts_of_stops hbrace hhead)

theorem tracks_statement (hstack : CedesElse stack) :
    Tracks (Derives (.phrase .statement :: stack)) (statement inner) (Derives stack) cursor := by
  refine .bind_accepts (fun token middle hword _ =>
        Tracks.congr (fun tokens => ?_) (tracks_forLoop h hstack)) fun hfor =>
    .bind_accepts (fun token middle hword _ =>
        Tracks.congr (fun tokens => ?_) (tracks_conditional h hstack)) fun hif =>
    .bind_accepts (fun token middle hword _ =>
        Tracks.congr (fun tokens => ?_) (tracks_print h)) fun hprint =>
    .bind_accept? (fun token middle hword _ =>
        Tracks.congr (fun tokens => ?_) (tracks_returnValue h token)) fun hreturn =>
    .bind_accepts (fun token middle hword _ =>
        Tracks.congr (fun tokens => ?_) (tracks_whileLoop h hstack)) fun hwhile =>
    .bind_accepts (fun token middle hword _ =>
        Tracks.congr (fun tokens => ?_) ((tracks_block h).seq fun _ _ => .pure _)) fun hbrace =>
      (tracks_expressionStatement h).of_leads
        (leads_statement hfor hif hprint hreturn hwhile hbrace)
  -- The first token rules out all alternatives but one, an expression among them.
  all_goals
    have hkind := eq_of_beq hword
    rw [derives_statement_token_iff, or_iff_right (not_expressionStatement (by
      simp [startsExpression, startsCall, Token.isSymbol, hkind]))]
    simp [Token.isKeyword, Token.isSymbol, hkind]

/-! ## All rules -/

omit h in
/-- At any depth statements and bodies are parsed, as far as their nesting is not too deep. -/
theorem parses_statements (n : Nat) : (statements n).Parses := by
  have hretraces : ∀ n, (statements n).Retraces ⟨⟨id, id⟩, [], 0⟩ := retraces_statements
  induction n with
  | zero =>
      exact {
        toParses := Inner.parses_full
        statement := fun _ _ _ => .stop_nesting
        body := fun _ _ => .stop_nesting
        function := consumes_function (hretraces 0) .method
        declaration := progresses_declaration (hretraces 0) }
  | succ n ih =>
      exact {
        toParses := Inner.parses_opened ih.toParses
        statement := fun _ _ => tracks_statement ih
        body := fun _ _ => tracks_block ih
        function := consumes_function (hretraces (n + 1)) .method
        declaration := progresses_declaration (hretraces (n + 1)) }

omit h in
theorem tracks_program : Tracks IsProgram program (Derives []) cursor := by
  refine Tracks.congr (fun tokens => derives_phrase_of_singleton rfl) <| .bind_remaining <|
    tracks_declarations (parses_statements nestingLimit) (fun _ => rfl) (fun rest hrest => ?_)
      (fun rest hrest next hhead hnext => ?_) (.of_ends .nil) _ (Nat.le_refl _)
  · rw [List.isEmpty_iff.1 hrest]
    rfl
  · cases hnext
    cases rest with
    | nil => cases hrest
    | cons token rest => cases hhead

end Grammar

end LoxLang
