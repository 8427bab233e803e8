import LoxLang.Proofs.Grammar.Complete.Expression

/-!
# What is derived as a program is read

The rules for statements and declarations.  Most of them say by their last token where they end.  An
open statement is the exception: it is read in full only if no `else` follows.
-/

namespace LoxLang

namespace Grammar

open Reading

/-- The rules for what stands inside a nesting read what is derived. -/
structure Enclosed.Complete (inner : Enclosed) (within : Phrases) : Prop
    extends inner.toInner.Complete within where
  statement : ∀ {isOpen : Bool} {tokens rest : List Token} {a : Stmt},
    within.statement isOpen tokens a → (isOpen → Stops (·.isKeyword .elseKw) rest) →
      Reads inner.statement Stmt.unnumbered tokens rest a
  body : ∀ {tokens rest : List Token} {a : List Stmt}, within.body tokens a →
    Reads inner.body Stmt.unnumberedAll tokens rest a

variable {inner : Enclosed} {n : Nat}

/-! ## Functions and classes -/

theorem reads_identifier {tokens rest : List Token} {name : Token} (h : Identifier tokens name)
    (cause : SyntaxCause) : Reads (expectIdentifier cause) id tokens rest name := by
  cases h with
  | mk hname =>
      intro cursor hrest
      exact ⟨name, _, exec_expect_of_test hrest hname cause, rfl, rfl, rfl⟩

theorem reads_function (h : inner.Complete (phrases n)) (sort : FunctionSort)
    {tokens rest : List Token} {a : FunctionDecl} (ha : Function (phrases n) tokens a) :
    Reads (function inner sort) FunctionDecl.unnumbered tokens rest a := by
  cases ha with
  | @mk name opening closing brace tokens tokens' params body hname hopening hparams hlength
      hclosing hbrace hbody =>
      have hstart : ∀ {tokens : List Token} {a : Token}, Identifier tokens a →
          Starts (fun token => !token.isSymbol .rightParen) tokens := by
        intro tokens a ha
        cases ha with
        | mk hname =>
            exact starts_items (startsExpression_of_startsCall (startsCall_of_isIdentifier hname))
      refine .bind_expect hname _ <| .bind_expect hopening _ <|
        .bind (reads_items (fun ha _ => reads_identifier ha .parameterName) hstart hparams _ hlength
          hclosing) fun params' hparams' => .bind_expect hclosing _ <| .bind_expect hbrace _ <|
            .bind_last (h.body hbody) fun body' hbody' => .pure ?_
      rw [List.map_id, List.map_id] at hparams'
      rw [FunctionDecl.unnumbered, FunctionDecl.unnumbered, hbody', hparams']

theorem exec_bodyEnds (cursor : Cursor) :
    exec bodyEnds cursor = (.ok (endsBody cursor.rest), cursor) := by
  rw [bodyEnds, exec_bind_of_ok (exec_nextIs _ _), exec_bind_of_ok (exec_atEnd _)]
  rfl

theorem Function.starts {within : Phrases} {tokens : List Token} {a : FunctionDecl}
    (h : Function within tokens a) : Starts Token.isIdentifier tokens := by
  cases h with
  | mk hname _ _ _ _ _ _ => exact hname

theorem reads_methods (h : inner.Complete (phrases n)) {tokens rest : List Token}
    {methods : List FunctionDecl} (hmethods : Repeated (Function (phrases n)) tokens methods)
    (hrest : Starts (·.isSymbol .rightBrace) rest) {limit : Nat}
    (hlimit : tokens.length ≤ limit) :
    Reads (Grammar.methods inner limit) FunctionDecl.unnumberedAll tokens rest methods := by
  induction hmethods generalizing limit with
  | nil =>
      cases limit with
      | zero => exact .pure rfl
      | succ limit =>
          have hends : endsBody ([] ++ rest) = true := by
            rw [endsBody, List.nil_append, hrest, Bool.true_or]
          refine .bind_check exec_bodyEnds ?_
          rw [hends]
          exact .pure rfl
  | @cons first tokens method methods hmethod _ ih =>
      have hpos := hmethod.starts.length_pos
      rw [List.length_append] at hlimit
      cases limit with
      | zero => omega
      | succ limit =>
          have hends : endsBody (first ++ tokens ++ rest) = false := by
            refine endsBody_eq_false
              (((hmethod.starts.append _).append _).mono fun token hname => ?_)
            rw [Token.isSymbol, eq_of_beq hname]
            rfl
          refine .bind_check exec_bodyEnds ?_
          rw [hends]
          refine .bind (reads_function h .method hmethod) fun method' hmethod' =>
            .bind_last (ih (by omega)) fun methods' hmethods' => .pure ?_
          rw [FunctionDecl.unnumberedAll, FunctionDecl.unnumberedAll, hmethod', hmethods']

theorem reads_inheritance {tokens rest : List Token} {superclass : Option Occurrence}
    (h : Inheritance tokens superclass) (hrest : Stops (·.isSymbol .less) rest) :
    Reads inheritance (Option.map Occurrence.unnumbered) tokens rest superclass := by
  cases h with
  | none => exact .bind_accepts_of_not hrest (.pure rfl)
  | some hless hname =>
      exact .bind_accepts hless <| .bind_expect hname _ <| .bind_occurrence fun id => .pure rfl

/-! ## Declarations -/

theorem reads_varDeclaration (h : inner.Complete (phrases n)) {tokens rest : List Token} {a : Stmt}
    (ha : Variable (phrases n) tokens a) :
    Reads (varDeclaration inner) Stmt.unnumbered tokens rest a := by
  cases ha with
  | @plain name semicolon hname hsemicolon =>
      have hvalue : Reads (variableValue inner) (Option.map Expr.unnumbered) []
          ([semicolon] ++ rest) none :=
        .bind_accepts_of_not (isSymbol_eq_false hsemicolon (by decide)) (.pure rfl)
      refine .bind_expect hname _ <| .bind hvalue fun value hvalue =>
        .bind_expect hsemicolon _ <| .pure ?_
      rw [Stmt.unnumbered, Stmt.unnumbered, hvalue]
  | @initialized name equal semicolon tokens value hname hequal hexpression hsemicolon =>
      have hvalue : Reads (variableValue inner) (Option.map Expr.unnumbered) (equal :: tokens)
          ([semicolon] ++ rest) (some value) :=
        .bind_accepts hequal <|
          .bind_last (h.expression hexpression (stops_of_isSymbol rest hsemicolon (by decide)))
            fun value' hvalue' => .pure (congrArg some hvalue')
      refine .bind_expect hname _ <| .bind hvalue fun value hvalue =>
        .bind_expect hsemicolon _ <| .pure ?_
      rw [Stmt.unnumbered, Stmt.unnumbered, hvalue]

/-- A declaration or statement is told apart by its first token. -/
theorem reads_declarationOrFault (h : inner.Complete (phrases n)) {tokens rest : List Token}
    {a : Stmt} (ha : Declaration (phrases n) tokens a)
    (hrest : Stops (·.isKeyword .elseKw) rest) :
    Reads (declarationOrFault inner) Stmt.unnumbered tokens rest a := by
  cases ha with
  | @classDecl keyword name opening closing clause tokens superclass methods hkeyword hname
      hinheritance hopening hmethods hclosing =>
      have hless : opening.isSymbol .less = false := isSymbol_eq_false hopening (by decide)
      have hends : Starts (·.isSymbol .rightBrace) (closing :: rest) := hclosing
      refine .bind_accepts hkeyword <| .bind_expect hname _ <|
        .bind (reads_inheritance hinheritance hless) fun superclass' hsuperclass =>
          .bind_expect hopening _ <| .bind_remaining <|
            .bind (reads_methods h hmethods hends (by simp)) fun methods' hmethods' =>
              .bind_expect hclosing _ <| .pure ?_
      rw [Stmt.unnumbered, Stmt.unnumbered, hsuperclass, hmethods']
  | function hkeyword hfunction =>
      refine .bind_accepts_of_not (isKeyword_eq_false hkeyword (by decide)) <|
        .bind_accepts hkeyword <| .bind_last (reads_function h .function hfunction)
          fun declaration hdeclaration => .pure ?_
      rw [Stmt.unnumbered, Stmt.unnumbered, hdeclaration]
  | varDecl hkeyword hvar =>
      exact .bind_accepts_of_not (isKeyword_eq_false hkeyword (by decide)) <|
        .bind_accepts_of_not (isKeyword_eq_false hkeyword (by decide)) <|
          .bind_accepts hkeyword <| reads_varDeclaration h hvar
  | statement hstatement =>
      have hstart := starts_statement hstatement
      have hnot : ∀ keyword : Keyword, [Keyword.classKw, .funKw, .varKw].contains keyword →
          Stops (·.isKeyword keyword) (tokens ++ rest) := fun keyword hkeyword =>
        .of_starts hstart fun token htoken => isKeyword_eq_false_of_opensStatement htoken hkeyword
      exact .bind_accepts_of_not (hnot _ (by decide)) <|
        .bind_accepts_of_not (hnot _ (by decide)) <|
          .bind_accepts_of_not (hnot _ (by decide)) <| h.statement hstatement fun _ => hrest

theorem reads_declaration (h : inner.Complete (phrases n)) {tokens rest : List Token} {a : Stmt}
    (ha : Declaration (phrases n) tokens a) (hrest : Stops (·.isKeyword .elseKw) rest) :
    Reads (declaration inner) (Option.map Stmt.unnumbered) tokens rest (some a) := by
  refine .tryCatch ?_
  rw [map_eq_pure_bind]
  exact .bind_last (reads_declarationOrFault h ha hrest) fun a' ha' => .pure (congrArg some ha')

/-- Declarations up to a place where they end, which no `else` is. -/
theorem reads_declarations (h : inner.Complete (phrases n)) {ends : Reading Bool}
    {test : List Token → Bool}
    (hends : ∀ cursor : Cursor, exec ends cursor = (.ok (test cursor.rest), cursor))
    (htest : ∀ {tokens : List Token}, Starts startsDeclaration tokens → test tokens = false)
    {tokens rest : List Token} {body : List Stmt}
    (hbody : Repeated (Declaration (phrases n)) tokens body) (hrest : test rest)
    (helse : Stops (·.isKeyword .elseKw) rest) {limit : Nat} (hlimit : tokens.length ≤ limit) :
    Reads (declarations inner ends limit) Stmt.unnumberedAll tokens rest body := by
  induction hbody generalizing limit with
  | nil =>
      cases limit with
      | zero => exact .pure rfl
      | succ limit =>
          have hend : test ([] ++ rest) = true := hrest
          refine .bind_check hends ?_
          rw [hend]
          exact .pure rfl
  | @cons first tokens a body ha hbody ih =>
      have hpos := ha.starts.length_pos
      rw [List.length_append] at hlimit
      cases limit with
      | zero => omega
      | succ limit =>
          have hend : test (first ++ tokens ++ rest) = false :=
            htest ((ha.starts.append _).append _)
          have hnext : Stops (·.isKeyword .elseKw) (tokens ++ rest) := by
            cases hbody with
            | nil => exact helse
            | cons ha' _ =>
                exact .of_starts (ha'.starts.append _) fun _ => isElse_eq_false_of_startsDeclaration
          refine .bind_check hends ?_
          rw [hend]
          refine .bind (reads_declaration h ha hnext) fun found hfound => ?_
          obtain ⟨a', rfl, ha'⟩ := Option.map_eq_some_iff.1 hfound
          refine .bind_last (ih (by omega)) fun body' hbody' => .pure ?_
          rw [Stmt.unnumberedAll, Stmt.unnumberedAll, ha', hbody']

theorem reads_block (h : inner.Complete (phrases n)) {tokens rest : List Token} {a : List Stmt}
    (ha : Body (phrases n) tokens a) :
    Reads (block inner) Stmt.unnumberedAll tokens rest a := by
  cases ha with
  | @mk closing tokens body hbody hclosing =>
      have hends : endsBody (closing :: rest) = true := by
        rw [endsBody, List.head?_cons, Option.any_some, hclosing, Bool.true_or]
      have helse : closing.isKeyword .elseKw = false := by
        rw [Token.isKeyword, eq_of_beq hclosing]
        rfl
      have htest : ∀ {tokens : List Token}, Starts startsDeclaration tokens →
          endsBody tokens = false := fun hstart => endsBody_eq_false <| hstart.mono
        fun token htoken => by rw [isRightBrace_eq_false_of_startsDeclaration htoken]; rfl
      exact .bind_remaining <|
        .bind (reads_declarations h exec_bodyEnds htest hbody hends helse (by simp))
          fun body' hbody' => .bind_expect hclosing _ <| .pure hbody'

/-! ## Statements -/

theorem reads_terminated (h : inner.Complete (phrases n)) {tokens rest : List Token} {value : Expr}
    (hvalue : Terminated (phrases n) tokens value) {node : Expr → Stmt} (cause : SyntaxCause)
    (hnode : ∀ value value', value'.unnumbered = value.unnumbered →
      (node value').unnumbered = (node value).unnumbered) :
    Reads (do
      let value ← inner.expression
      let _ ← expectSymbol .semicolon cause
      return node value) Stmt.unnumbered tokens rest (node value) := by
  cases hvalue with
  | mk hvalue hsemicolon =>
      exact .bind (h.expression hvalue (stops_of_isSymbol rest hsemicolon (by decide)))
        fun value' hvalue' => .bind_expect hsemicolon _ <| .pure (hnode _ _ hvalue')

theorem reads_expressionUnless (h : inner.Complete (phrases n)) {tokens rest : List Token}
    {value : Option Expr} (hvalue : Perhaps (phrases n) tokens value) {symbol : Symbol}
    {token : Token} (hsymbol : token.isSymbol symbol)
    (hends : [Symbol.semicolon, .rightParen].contains symbol) :
    Reads (expressionUnless inner symbol) (Option.map Expr.unnumbered) tokens (token :: rest)
      value := by
  refine .bind_nextIs ?_
  cases hvalue with
  | none =>
      simp only [List.nil_append, List.head?_cons, Option.any_some, hsymbol]
      exact .pure rfl
  | some hexpression =>
      have hnot : (tokens ++ token :: rest).head?.any (·.isSymbol symbol) = false :=
        Stops.of_starts (starts_expression hexpression) fun token htoken =>
          isSymbol_eq_false_of_startsExpression htoken (by
            cases symbol <;> first | rfl | exact absurd hends (by decide))
      have hstops : Stops continuesExpression (token :: rest) :=
        stops_of_isSymbol rest hsymbol (by
          cases symbol <;> first | rfl | exact absurd hends (by decide))
      rw [hnot]
      exact .bind_last (h.expression hexpression hstops) fun value' hvalue' =>
        .pure (congrArg some hvalue')

theorem reads_loopInitializer (h : inner.Complete (phrases n)) {tokens rest : List Token}
    {a : Option Stmt} (ha : Initializer (phrases n) tokens a) :
    Reads (loopInitializer inner) (Option.map Stmt.unnumbered) tokens rest a := by
  cases ha with
  | none hsemicolon => exact .bind_accepts hsemicolon (.pure rfl)
  | @varDecl keyword tokens declaration hkeyword hvar =>
      have hsemicolon : keyword.isSymbol .semicolon = false := by
        rw [Token.isSymbol, eq_of_beq hkeyword]
        rfl
      exact .bind_accepts_of_not hsemicolon <| .bind_accepts hkeyword <|
        .bind_last (reads_varDeclaration h hvar) fun a' ha' => .pure (congrArg some ha')
  | expression hvalue =>
      have hnode : ∀ value value' : Expr, value'.unnumbered = value.unnumbered →
          (Stmt.expression value').unnumbered = (Stmt.expression value).unnumbered := by
        intro value value' hvalue'
        rw [Stmt.unnumbered, Stmt.unnumbered, hvalue']
      refine .bind_accepts_of_not ?_ <| .bind_accepts_of_not ?_ <|
        .bind_last (reads_terminated h hvalue _ hnode) fun a' ha' => .pure (congrArg some ha')
      · exact Stops.of_starts hvalue.starts fun token htoken =>
          isSymbol_eq_false_of_startsExpression htoken (by decide)
      · exact Stops.of_starts hvalue.starts fun token htoken =>
          isKeyword_eq_false_of_startsExpression htoken (by decide)

theorem reads_returnValue (h : inner.Complete (phrases n)) (keyword : Token) {semicolon : Token}
    {tokens rest : List Token} {value : Option Expr} (hvalue : Perhaps (phrases n) tokens value)
    (hsemicolon : semicolon.isSymbol .semicolon) :
    Reads (returnValue inner keyword) Stmt.unnumbered (tokens ++ [semicolon]) rest
      (.returnValue keyword value) := by
  refine .bind (reads_expressionUnless h hvalue hsemicolon (by decide)) fun value' hvalue' =>
    .bind_expect hsemicolon _ <| .pure ?_
  rw [Stmt.unnumbered, Stmt.unnumbered, hvalue']

theorem reads_whileLoop (h : inner.Complete (phrases n)) {opening closing : Token}
    {tokens tokens' rest : List Token} {condition : Expr} {isOpen : Bool} {body : Stmt}
    (hopening : opening.isSymbol .leftParen) (hcondition : (phrases n).expression tokens condition)
    (hclosing : closing.isSymbol .rightParen) (hbody : (phrases n).statement isOpen tokens' body)
    (hrest : isOpen → Stops (·.isKeyword .elseKw) rest) :
    Reads (whileLoop inner) Stmt.unnumbered (opening :: (tokens ++ closing :: tokens')) rest
      (.whileLoop condition body) := by
  refine .bind_expect hopening _ <|
    .bind (h.expression hcondition (stops_of_isSymbol _ hclosing (by decide)))
      fun condition' hcondition' => .bind_expect hclosing _ <|
        .bind_last (h.statement hbody hrest) fun body' hbody' => .pure ?_
  rw [Stmt.unnumbered, Stmt.unnumbered, hcondition', hbody']

theorem reads_conditional (h : inner.Complete (phrases n)) {opening closing : Token}
    {tokens middle last rest : List Token} {condition : Expr} {isOpen : Bool} {thenBranch : Stmt}
    {branch : Option Stmt} (hopening : opening.isSymbol .leftParen)
    (hcondition : (phrases n).expression tokens condition)
    (hclosing : closing.isSymbol .rightParen)
    (hthen : (phrases n).statement isOpen middle thenBranch)
    (hmiddle : isOpen → Stops (·.isKeyword .elseKw) (last ++ rest))
    (hbranch : Reads (elseBranch inner) (Option.map Stmt.unnumbered) last rest branch) :
    Reads (conditional inner) Stmt.unnumbered (opening :: (tokens ++ closing :: (middle ++ last)))
      rest (.conditional condition thenBranch branch) := by
  refine .bind_expect hopening _ <|
    .bind (h.expression hcondition (stops_of_isSymbol _ hclosing (by decide)))
      fun condition' hcondition' => .bind_expect hclosing _ <|
        .bind (h.statement hthen hmiddle) fun thenBranch' hthen' =>
          .bind_last hbranch fun branch' hbranch' => .pure ?_
  rw [Stmt.unnumbered_conditional, Stmt.unnumbered_conditional, hcondition', hthen', hbranch']

theorem reads_forLoop (h : inner.Complete (phrases n)) {opening semicolon closing : Token}
    {first second third last rest : List Token} {initializer : Option Stmt}
    {condition increment : Option Expr} {isOpen : Bool} {body : Stmt}
    (hopening : opening.isSymbol .leftParen)
    (hinitializer : Initializer (phrases n) first initializer)
    (hcondition : Perhaps (phrases n) second condition)
    (hsemicolon : semicolon.isSymbol .semicolon) (hincrement : Perhaps (phrases n) third increment)
    (hclosing : closing.isSymbol .rightParen) (hbody : (phrases n).statement isOpen last body)
    (hrest : isOpen → Stops (·.isKeyword .elseKw) rest) :
    Reads (forLoop inner) Stmt.unnumbered
      (opening :: (first ++ (second ++ semicolon :: (third ++ closing :: last)))) rest
      (Stmt.forLoop initializer condition increment body) := by
  refine .bind_expect hopening _ <|
    .bind (reads_loopInitializer h hinitializer) fun initializer' hinitializer' =>
      .bind (reads_expressionUnless h hcondition hsemicolon (by decide))
        fun condition' hcondition' => .bind_expect hsemicolon _ <|
          .bind (reads_expressionUnless h hincrement hclosing (by decide))
            fun increment' hincrement' => .bind_expect hclosing _ <|
              .bind_last (h.statement hbody hrest) fun body' hbody' => .pure ?_
  rw [Stmt.unnumbered_forLoop, Stmt.unnumbered_forLoop, hinitializer', hcondition', hincrement',
    hbody']

/-- A statement is told apart by its first token too. -/
theorem reads_statement (h : inner.Complete (phrases n)) {isOpen : Bool} {tokens rest : List Token}
    {a : Stmt} (ha : Statement (phrases n) isOpen tokens a)
    (hrest : isOpen → Stops (·.isKeyword .elseKw) rest) :
    Reads (statement inner) Stmt.unnumbered tokens rest a := by
  cases ha with
  | expression hvalue =>
      have hnot : ∀ keyword : Keyword,
          [Keyword.falseKw, .trueKw, .nilKw, .thisKw, .superKw].contains keyword = false →
            Stops (·.isKeyword keyword) (tokens ++ rest) := fun keyword hkeyword =>
        .of_starts hvalue.starts fun token htoken =>
          isKeyword_eq_false_of_startsExpression htoken hkeyword
      have hbrace : Stops (·.isSymbol .leftBrace) (tokens ++ rest) :=
        .of_starts hvalue.starts fun token htoken =>
          isSymbol_eq_false_of_startsExpression htoken (by decide)
      refine .bind_accepts_of_not (hnot _ (by decide)) <|
        .bind_accepts_of_not (hnot _ (by decide)) <| .bind_accepts_of_not (hnot _ (by decide)) <|
        .bind_accept?_of_not (hnot _ (by decide)) <| .bind_accepts_of_not (hnot _ (by decide)) <|
        .bind_accepts_of_not hbrace <| reads_terminated h hvalue _ ?_
      intro value value' hvalue'
      rw [Stmt.unnumbered, Stmt.unnumbered, hvalue']
  | print hkeyword hvalue =>
      refine .bind_accepts_of_not (isKeyword_eq_false hkeyword (by decide)) <|
        .bind_accepts_of_not (isKeyword_eq_false hkeyword (by decide)) <|
        .bind_accepts hkeyword <| reads_terminated h hvalue _ ?_
      intro value value' hvalue'
      rw [Stmt.unnumbered, Stmt.unnumbered, hvalue']
  | returnValue hkeyword hvalue hsemicolon =>
      exact .bind_accepts_of_not (isKeyword_eq_false hkeyword (by decide)) <|
        .bind_accepts_of_not (isKeyword_eq_false hkeyword (by decide)) <|
        .bind_accepts_of_not (isKeyword_eq_false hkeyword (by decide)) <|
        .bind_accept? hkeyword <| reads_returnValue h _ hvalue hsemicolon
  | @block opening tokens body hopening hbody =>
      have hnot : ∀ keyword : Keyword, opening.isKeyword keyword = false := by
        intro keyword
        rw [Token.isKeyword, eq_of_beq hopening]
        rfl
      refine .bind_accepts_of_not (hnot _) <| .bind_accepts_of_not (hnot _) <|
        .bind_accepts_of_not (hnot _) <| .bind_accept?_of_not (hnot _) <|
        .bind_accepts_of_not (hnot _) <| .bind_accepts hopening <|
        .bind_last (reads_block h hbody) fun body' hbody' => .pure ?_
      rw [Stmt.unnumbered, Stmt.unnumbered, hbody']
  | @ifThen keyword opening closing tokens middle condition _ thenBranch hkeyword hopening
      hcondition hclosing hthen =>
      have hbranch : Reads (elseBranch inner) (Option.map Stmt.unnumbered) [] rest none :=
        .bind_accepts_of_not (hrest rfl) (.pure rfl)
      have hmiddle : Stops (·.isKeyword .elseKw) ([] ++ rest) := hrest rfl
      have hread := reads_conditional h hopening hcondition hclosing hthen (fun _ => hmiddle)
        hbranch
      rw [List.append_nil] at hread
      exact .bind_accepts_of_not (isKeyword_eq_false hkeyword (by decide)) <|
        .bind_accepts hkeyword hread
  | ifThenElse hkeyword hopening hcondition hclosing hthen helse hbranch =>
      refine .bind_accepts_of_not (isKeyword_eq_false hkeyword (by decide)) <|
        .bind_accepts hkeyword <|
        reads_conditional h hopening hcondition hclosing hthen
          (fun hopen => absurd hopen Bool.false_ne_true) ?_
      exact .bind_accepts helse <| .bind_last (h.statement hbranch hrest) fun branch' hbranch' =>
        .pure (congrArg some hbranch')
  | whileLoop hkeyword hopening hcondition hclosing hbody =>
      exact .bind_accepts_of_not (isKeyword_eq_false hkeyword (by decide)) <|
        .bind_accepts_of_not (isKeyword_eq_false hkeyword (by decide)) <|
        .bind_accepts_of_not (isKeyword_eq_false hkeyword (by decide)) <|
        .bind_accept?_of_not (isKeyword_eq_false hkeyword (by decide)) <|
        .bind_accepts hkeyword <| reads_whileLoop h hopening hcondition hclosing hbody hrest
  | forLoop hkeyword hopening hinitializer hcondition hsemicolon hincrement hclosing hbody =>
      exact .bind_accepts hkeyword <| reads_forLoop h hopening hinitializer hcondition hsemicolon
        hincrement hclosing hbody hrest

/-! ## Programs -/

/-- With `n` nestings left the rules read what `n` nestings derive. -/
theorem complete_statements (n : Nat) : (statements n).Complete (phrases n) := by
  induction n with
  | zero =>
      exact {
        expression := fun hderives => hderives.elim
        operand := fun hderives => hderives.elim
        statement := fun hderives => hderives.elim
        body := fun hderives => hderives.elim }
  | succ n ih =>
      exact {
        toComplete := Inner.complete_opened ih.toComplete
        statement := reads_statement ih
        body := reads_block ih }

theorem reads_program {tokens : List Token} {parsed : Program}
    (h : Program.Derives tokens parsed) :
    Reads program Program.unnumbered tokens [] parsed := by
  have hends : ∀ cursor : Cursor, exec atEnd cursor = (.ok (List.isEmpty cursor.rest), cursor) :=
    fun cursor => exec_atEnd cursor
  have hstart : ∀ {tokens : List Token}, Starts startsDeclaration tokens →
      tokens.isEmpty = false := by
    intro tokens hstart
    exact List.isEmpty_eq_false_iff.2 (List.ne_nil_of_length_pos hstart.length_pos)
  have helse : Stops (·.isKeyword .elseKw) [] := rfl
  exact .bind_remaining <|
    reads_declarations (complete_statements nestingLimit) hends hstart h rfl helse (by simp)

end Grammar

end LoxLang
