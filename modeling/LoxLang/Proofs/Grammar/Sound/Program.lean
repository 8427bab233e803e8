import LoxLang.Proofs.Grammar.Start
import LoxLang.Proofs.Grammar.Sound.Expression

/-!
# What is read as a program is derived

The rules for statements and declarations, as in the module on expressions.  A statement that is
open is only yielded if no `else` follows; this is what makes an `else` belong to the nearest `if`.
A fault that stops a declaration is noted, so a program that has been read without a fault has
nothing left out of it.
-/

namespace LoxLang

namespace Grammar

open Reading

/-- A statement is derived by the tokens that have been taken off, its numbers are those that have
been given out, and if it is open then no `else` follows. -/
def YieldsStatement (derives : Bool → List Token → Stmt → Prop) (cursor : Cursor) (statement : Stmt)
    (reached : Cursor) : Prop :=
  ∃ isOpen, Yields (derives isOpen) Stmt.ids cursor statement reached ∧
    (isOpen → reached.rest.head?.any (·.isKeyword .elseKw) = false)

/-- The rules for what stands inside a nesting yield what is derived. -/
structure Enclosed.Sound (inner : Enclosed) (within : Phrases) : Prop
    extends inner.toInner.Sound within where
  statement : Ensures inner.statement (YieldsStatement within.statement)
  body : Ensures inner.body (Yields within.body Stmt.idsAll)

variable {inner : Enclosed} {within : Phrases}

/-! ## Declarations -/

theorem ensures_identifier (cause : SyntaxCause) :
    Ensures (expectIdentifier cause) (Yields Identifier fun _ => []) := by
  refine (Ensures.expect _ cause).mono ?_
  rintro cursor name reached ⟨hname, hpasses⟩
  exact ⟨[name], hpasses.rest, .mk hname, .nil _ _⟩

theorem ensures_function (h : inner.Sound within) (sort : FunctionSort) :
    Ensures (function inner sort) (Yields (Function within) FunctionDecl.ids) := by
  refine ((Ensures.expect _ (.functionName sort)).bind fun name =>
    (Ensures.expect _ (.parenAfterFunctionName sort)).bind fun _ =>
      (ensures_items (ensures_identifier .parameterName) .tooManyParameters).bind fun params =>
        (Ensures.expect _ .parenAfterParameters).bind fun _ =>
          (Ensures.expect _ (.braceBeforeFunctionBody sort)).bind fun _ =>
            h.body.bind fun body => Ensures.pure (FunctionDecl.mk name params body)).mono ?_
  rintro cursor declaration reached ⟨name, first, -, -, ⟨hname, hfirst⟩, opening, second, -, -,
    ⟨hopening, hsecond⟩, params, third, hthird, -, ⟨hlength, tokens, hrest, hparams, -⟩, closing,
    fourth, -, -, ⟨hclosing, hfourth⟩, brace, fifth, -, -, ⟨hbrace, hfifth⟩, body, sixth, -, -,
    ⟨tokens', hrest', hbody, hfresh⟩, rfl, rfl⟩
  refine ⟨name :: opening :: (tokens ++ closing :: brace :: tokens'), ?_,
    .mk hname hopening hparams hlength hclosing hbrace hbody, ?_⟩
  · simp [hfirst.rest, hsecond.rest, hrest, hfourth.rest, hfifth.rest, hrest']
  · have hids := (hfifth.nextId.trans hfourth.nextId).symm
    have hids' := hsecond.nextId.trans hfirst.nextId
    exact hfresh.mono (hids ▸ hids' ▸ hthird.nextId) (Nat.le_refl _)

theorem ensures_bodyEnds :
    Ensures bodyEnds fun cursor ends reached =>
      ends = endsBody cursor.rest ∧ reached = cursor := by
  refine ((Ensures.nextIs _).bind fun brace => Ensures.atEnd.bind fun stop =>
    Ensures.pure (brace || stop)).mono ?_
  rintro cursor ends reached ⟨brace, first, -, -, ⟨rfl, rfl⟩, stop, second, -, -, ⟨rfl, rfl⟩, rfl,
    rfl⟩
  exact ⟨rfl, rfl⟩

theorem ensures_methods (h : inner.Sound within) (limit : Nat) :
    Ensures (methods inner limit)
      (Yields (Repeated (Function within)) (List.flatMap FunctionDecl.ids)) := by
  induction limit with
  | zero =>
      refine (Ensures.pure []).mono ?_
      rintro cursor methods reached ⟨rfl, rfl⟩
      exact ⟨[], rfl, .nil, .nil _ _⟩
  | succ limit ih =>
      refine (Ensures.bind_check ensures_bodyEnds
        ((ensures_function h .method).bind fun method =>
          ih.bind fun rest => Ensures.pure (method :: rest)) (Ensures.pure [])).mono ?_
      rintro cursor methods reached (⟨-, method, first, hfirst, -,
        ⟨tokens, hrest, hmethod, hfresh⟩, rest, second, hsecond, -,
        ⟨tokens', hrest', hmethods, hfresh'⟩, rfl, rfl⟩ | ⟨-, rfl, rfl⟩)
      · refine ⟨tokens ++ tokens', ?_, .cons hmethod hmethods, ?_⟩
        · rw [hrest, hrest', List.append_assoc]
        · exact hfresh.append hfresh' hfirst.nextId hsecond.nextId
      · exact ⟨[], rfl, .nil, .nil _ _⟩

theorem ensures_inheritance :
    Ensures inheritance
      (Yields Inheritance fun superclass => (superclass.map Occurrence.id).toList) := by
  refine (Ensures.bind_accepts (Ensures.pure none)
    ((Ensures.expect _ .superclassName).bind fun name => (Ensures.occurrence name).bind fun place =>
      Ensures.pure (some place))).mono ?_
  rintro cursor superclass reached (⟨-, rfl, rfl⟩ | ⟨less, first, hless, hfirst, -, name, second, -,
    -, ⟨hname, hsecond⟩, place, third, -, -, ⟨rfl, rfl⟩, rfl, rfl⟩)
  · exact ⟨[], rfl, .none, .nil _ _⟩
  · refine ⟨[less, name], ?_, .some hless hname, ?_⟩
    · simp [hfirst.rest, hsecond.rest]
    · exact (hsecond.nextId.trans hfirst.nextId) ▸ Fresh.singleton second.nextId

theorem ensures_variableValue (h : inner.Sound within) :
    Ensures (variableValue inner) fun cursor value reached =>
      (value = none ∧ reached = cursor) ∨
        ∃ equal tokens expression, equal.isSymbol .equal ∧
          cursor.rest = equal :: (tokens ++ reached.rest) ∧ value = some expression ∧
          within.expression tokens expression ∧
          Fresh cursor.nextId reached.nextId expression.ids := by
  refine (Ensures.bind_accepts (Ensures.pure none)
    (h.expression.bind fun expression => Ensures.pure (some expression))).mono ?_
  rintro cursor value reached (⟨-, rfl, rfl⟩ | ⟨equal, first, hequal, hpasses, -, expression,
    second, -, -, ⟨tokens, hrest, hexpression, hfresh⟩, rfl, rfl⟩)
  · exact .inl ⟨rfl, rfl⟩
  · rw [hpasses.nextId] at hfresh
    exact .inr ⟨equal, tokens, expression, hequal, hrest ▸ hpasses.rest, rfl, hexpression, hfresh⟩

theorem ensures_varDeclaration (h : inner.Sound within) :
    Ensures (varDeclaration inner) (Yields (Variable within) Stmt.ids) := by
  refine ((Ensures.expect _ .variableName).bind fun name =>
    (ensures_variableValue h).bind fun value =>
      (Ensures.expect _ .semicolonAfterVariable).bind fun _ =>
        Ensures.pure (Stmt.varDecl name value)).mono ?_
  rintro cursor declaration reached ⟨name, first, -, -, ⟨hname, hfirst⟩, value, second, -, -,
    hvalue, semicolon, third, -, -, ⟨hsemicolon, hthird⟩, rfl, rfl⟩
  rcases hvalue with ⟨rfl, rfl⟩ | ⟨equal, tokens, expression, hequal, hrest, rfl, hexpression,
    hfresh⟩
  · refine ⟨[name, semicolon], ?_, .plain hname hsemicolon, .nil _ _⟩
    simp [hfirst.rest, hthird.rest]
  · rw [hfirst.nextId, ← hthird.nextId] at hfresh
    refine ⟨name :: equal :: (tokens ++ [semicolon]), ?_,
      .initialized hname hequal hexpression hsemicolon, ?_⟩
    · simp [hfirst.rest, hrest, hthird.rest]
    · simpa [Stmt.ids, Expr.idsOf] using hfresh

theorem ensures_classDeclaration (h : inner.Sound within) :
    Ensures (classDeclaration inner) fun cursor declaration reached =>
      ∀ word : Token, word.isKeyword .classKw → ∃ tokens,
        cursor.rest = tokens ++ reached.rest ∧ Declaration within (word :: tokens) declaration ∧
          Fresh cursor.nextId reached.nextId declaration.ids := by
  refine ((Ensures.expect _ .className).bind fun name => ensures_inheritance.bind fun superclass =>
    (Ensures.expect _ .braceBeforeClassBody).bind fun _ => Ensures.remaining.bind fun limit =>
      (ensures_methods h limit).bind fun methods =>
        (Ensures.expect _ .braceAfterClassBody).bind fun _ =>
          Ensures.pure (Stmt.classDecl name superclass methods)).mono ?_
  rintro cursor declaration reached ⟨name, first, -, -, ⟨hname, hfirst⟩, superclass, second,
    hsecond, -, ⟨clause, hclause, hinheritance, hfresh⟩, opening, third, -, -,
    ⟨hopening, hthird⟩, limit, fourth, -, -, ⟨-, rfl⟩, methods, fifth, hfifth, -,
    ⟨tokens, hrest, hmethods, hfresh'⟩, closing, sixth, -, -, ⟨hclosing, hsixth⟩, rfl, rfl⟩ word
    hword
  rw [hfirst.nextId] at hfresh
  rw [← hsixth.nextId, hthird.nextId] at hfresh'
  refine ⟨name :: (clause ++ opening :: (tokens ++ [closing])), ?_,
    .classDecl hword hname hinheritance hopening hmethods hclosing, ?_⟩
  · simp [hfirst.rest, hclause, hthird.rest, hrest, hsixth.rest]
  · rw [Stmt.ids, FunctionDecl.idsAll_eq_flatMap]
    exact hfresh.append hfresh' (hfirst.nextId ▸ hsecond.nextId)
      (hsixth.nextId ▸ hthird.nextId ▸ hfifth.nextId)

/-- The tokens at which reading goes on are some of those that were left. -/
theorem resume_suffix (tokens : List Token) : resume tokens <:+ tokens := by
  fun_induction resume tokens with
  | case1 => exact List.suffix_rfl
  | case2 token rest hsemicolon => exact List.suffix_cons _ _
  | case3 token hsemicolon => exact List.nil_suffix
  | case4 token next rest hsemicolon hstart => exact List.suffix_cons _ _
  | case5 token next rest hsemicolon hstart ih => exact ih.trans (List.suffix_cons _ _)

theorem ensures_declarationOrFault (h : inner.Sound within) :
    Ensures (declarationOrFault inner) (Yields (Declaration within) Stmt.ids) := by
  refine (Ensures.bind_accepts
    (Ensures.bind_accepts
      (Ensures.bind_accepts h.statement (ensures_varDeclaration h))
      ((ensures_function h .function).bind fun declaration =>
        Ensures.pure (Stmt.function declaration)))
    (ensures_classDeclaration h)).mono ?_
  rintro cursor declaration reached
    (⟨-, ⟨-, ⟨-, isOpen, ⟨tokens, hrest, hstatement, hfresh⟩, -⟩ | hvar⟩ | hfunction⟩ | hclass)
  · exact ⟨tokens, hrest, .statement hstatement, hfresh⟩
  · obtain ⟨word, first, hword, hpasses, -, tokens, hrest, hvar, hfresh⟩ := hvar
    rw [hpasses.nextId] at hfresh
    refine ⟨word :: tokens, ?_, .varDecl hword hvar, hfresh⟩
    rw [hpasses.rest, hrest, List.cons_append]
  · obtain ⟨word, first, hword, hpasses, -, function, second, -, -,
      ⟨tokens, hrest, hfunction, hfresh⟩, rfl, rfl⟩ := hfunction
    rw [hpasses.nextId] at hfresh
    refine ⟨word :: tokens, ?_, .function hword hfunction, hfresh⟩
    rw [hpasses.rest, hrest, List.cons_append]
  · obtain ⟨word, first, hword, hpasses, -, hclass⟩ := hclass
    obtain ⟨tokens, hrest, hdeclaration, hfresh⟩ := hclass word hword
    rw [hpasses.nextId] at hfresh
    refine ⟨word :: tokens, ?_, hdeclaration, hfresh⟩
    rw [hpasses.rest, hrest, List.cons_append]

theorem ensures_resume : Ensures (modify fun cursor : Cursor =>
    { cursor with rest := resume cursor.rest }) fun _ _ _ => True where
  reaches _ := ⟨resume_suffix _, List.suffix_rfl, Nat.le_refl _, rfl⟩
  yields _ _ := trivial

/-- A declaration that is left out leaves a fault behind. -/
theorem ensures_leftOut (fault : SyntaxFault) :
    Ensures (do
      note fault
      modify fun cursor : Cursor => { cursor with rest := resume cursor.rest }
      return (none : Option Stmt)) fun _ _ _ => False := by
  refine ((Ensures.note fault).bind fun _ => ensures_resume.bind fun _ =>
    Ensures.pure none).mono ?_
  rintro cursor found reached ⟨-, between, -, -, hfalse, -⟩
  exact hfalse

theorem ensures_declaration (h : inner.Sound within) :
    Ensures (declaration inner) fun cursor found reached =>
      ∃ declaration, found = some declaration ∧
        Yields (Declaration within) Stmt.ids cursor declaration reached :=
  Ensures.tryCatch (ensures_declarationOrFault h).map ensures_leftOut

/-- Declarations up to a place where they end.  A limit of as many declarations as there are tokens
is no limit, since none of them is empty. -/
theorem ensures_declarations {n : Nat} (h : inner.Sound (phrases n)) {ends : Reading Bool}
    {test : List Token → Bool} (hnil : test [])
    (hends : Ensures ends fun cursor b reached => b = test cursor.rest ∧ reached = cursor)
    (limit : Nat) :
    Ensures (declarations inner ends limit) fun cursor body reached =>
      cursor.rest.length ≤ limit → test reached.rest ∧
        Yields (Repeated (Declaration (phrases n))) (List.flatMap Stmt.ids)
          cursor body reached := by
  induction limit with
  | zero =>
      refine (Ensures.pure []).mono ?_
      rintro cursor body reached ⟨rfl, rfl⟩ hlimit
      have hrest : reached.rest = [] := List.eq_nil_of_length_eq_zero (Nat.le_zero.1 hlimit)
      exact ⟨hrest ▸ hnil, [], rfl, .nil, .nil _ _⟩
  | succ limit ih =>
      have hnext (statement : Stmt) : Ensures
          (do return statement :: (← declarations inner ends limit)) fun cursor body reached =>
            ∃ rest, body = statement :: rest ∧ (cursor.rest.length ≤ limit → test reached.rest ∧
              Yields (Repeated (Declaration (phrases n))) (List.flatMap Stmt.ids) cursor rest
                reached) := by
        refine (ih.bind fun rest => Ensures.pure (statement :: rest)).mono ?_
        rintro cursor body reached ⟨rest, between, -, -, hrest, rfl, rfl⟩
        exact ⟨rest, rfl, hrest⟩
      refine (Ensures.bind_check hends (Ensures.bind_option (ensures_declaration h) ih hnext)
        (Ensures.pure [])).mono ?_
      rintro cursor body reached (⟨-, found, between, hbetween, hreached,
        ⟨statement, rfl, tokens, hrest, hstatement, hfresh⟩, hbody⟩ | ⟨htest, rfl, rfl⟩) hlimit
      · obtain ⟨rest, rfl, hmore⟩ := hbody
        have hlength : between.rest.length ≤ limit := by
          have hpos := hstatement.starts.length_pos
          have hsum := congrArg List.length hrest
          rw [List.length_append] at hsum
          omega
        obtain ⟨htest, tokens', hrest', hrepeated, hfresh'⟩ := hmore hlength
        refine ⟨htest, tokens ++ tokens', ?_, .cons hstatement hrepeated, ?_⟩
        · rw [hrest, hrest', List.append_assoc]
        · exact hfresh.append hfresh' hbetween.nextId hreached.nextId
      · exact ⟨htest, [], rfl, .nil, .nil _ _⟩

theorem ensures_block {n : Nat} (h : inner.Sound (phrases n)) :
    Ensures (block inner) (Yields (Body (phrases n)) Stmt.idsAll) := by
  refine (Ensures.remaining.bind fun limit =>
    (ensures_declarations h rfl ensures_bodyEnds limit).bind fun body =>
      (Ensures.expect _ .braceAfterBlock).bind fun _ => Ensures.pure body).mono ?_
  rintro cursor result reached ⟨limit, first, -, -, ⟨rfl, rfl⟩, body, second, -, -, hbody, closing,
    third, -, -, ⟨hclosing, hthird⟩, rfl, rfl⟩
  obtain ⟨-, tokens, hrest, hrepeated, hfresh⟩ := hbody (Nat.le_refl _)
  rw [← hthird.nextId, ← Stmt.idsAll_eq_flatMap] at hfresh
  refine ⟨tokens ++ [closing], ?_, .mk hrepeated hclosing, hfresh⟩
  simp [hrest, hthird.rest]

/-! ## Statements -/

theorem ensures_expressionStatement (h : inner.Sound within) :
    Ensures (expressionStatement inner) fun cursor statement reached =>
      ∃ value, statement = .expression value ∧
        Yields (Terminated within) Expr.ids cursor value reached := by
  refine (h.expression.bind fun value => (Ensures.expect _ .semicolonAfterExpression).bind fun _ =>
    Ensures.pure (Stmt.expression value)).mono ?_
  rintro cursor statement reached ⟨value, first, -, -, ⟨tokens, hrest, hvalue, hfresh⟩, semicolon,
    second, -, -, ⟨hsemicolon, hsecond⟩, rfl, rfl⟩
  rw [← hsecond.nextId] at hfresh
  refine ⟨value, rfl, tokens ++ [semicolon], ?_, .mk hvalue hsemicolon, hfresh⟩
  simp [hrest, hsecond.rest]

theorem ensures_expressionUnless (h : inner.Sound within) (symbol : Symbol) :
    Ensures (expressionUnless inner symbol) (Yields (Perhaps within) Expr.idsOf) := by
  refine (Ensures.bind_nextIs
    (h.expression.bind fun value => Ensures.pure (some value)) (Ensures.pure none)).mono ?_
  rintro cursor result reached (⟨-, value, first, -, -, ⟨tokens, hrest, hvalue, hfresh⟩, rfl, rfl⟩ |
    ⟨-, rfl, rfl⟩)
  · exact ⟨tokens, hrest, .some hvalue, hfresh⟩
  · exact ⟨[], rfl, .none, .nil _ _⟩

theorem ensures_loopInitializer (h : inner.Sound within) :
    Ensures (loopInitializer inner) (Yields (Initializer within) Stmt.idsOf) := by
  refine (Ensures.bind_accepts
    (Ensures.bind_accepts
      ((ensures_expressionStatement h).bind fun statement => Ensures.pure (some statement))
      ((ensures_varDeclaration h).bind fun declaration => Ensures.pure (some declaration)))
    (Ensures.pure none)).mono ?_
  rintro cursor result reached (⟨-, ⟨-, hexpression⟩ | hvar⟩ | hnone)
  · obtain ⟨statement, first, -, -, ⟨value, rfl, tokens, hrest, hvalue, hfresh⟩, rfl, rfl⟩ :=
      hexpression
    exact ⟨tokens, hrest, .expression hvalue, by simpa [Stmt.idsOf, Stmt.ids] using hfresh⟩
  · obtain ⟨word, first, hword, hfirst, -, declaration, second, -, -,
      ⟨tokens, hrest, hvar, hfresh⟩, rfl, rfl⟩ := hvar
    rw [hfirst.nextId] at hfresh
    refine ⟨word :: tokens, ?_, .varDecl hword hvar, hfresh⟩
    rw [hfirst.rest, hrest, List.cons_append]
  · obtain ⟨semicolon, first, hsemicolon, hfirst, -, rfl, rfl⟩ := hnone
    exact ⟨[semicolon], hfirst.rest, .none hsemicolon, .nil _ _⟩

/-- What follows a reserved word yields the statement that starts with the word. -/
def YieldsAfter (word : Keyword) (within : Phrases) (cursor : Cursor) (statement : Stmt)
    (reached : Cursor) : Prop :=
  ∀ keyword : Token, keyword.isKeyword word →
    YieldsStatement (fun isOpen tokens => Statement within isOpen (keyword :: tokens)) cursor
      statement reached

theorem YieldsAfter.yields {word : Keyword} {cursor between reached : Cursor} {keyword : Token}
    {statement : Stmt} (h : YieldsAfter word within between statement reached)
    (hword : keyword.isKeyword word) (hpasses : cursor.Passes keyword between) :
    YieldsStatement (Statement within) cursor statement reached := by
  obtain ⟨isOpen, ⟨tokens, hrest, hstatement, hfresh⟩, helse⟩ := h keyword hword
  rw [hpasses.nextId] at hfresh
  refine ⟨isOpen, ⟨keyword :: tokens, ?_, hstatement, hfresh⟩, helse⟩
  rw [hpasses.rest, hrest, List.cons_append]

theorem ensures_print (h : inner.Sound within) :
    Ensures (print inner) (YieldsAfter .printKw within) := by
  refine (h.expression.bind fun value => (Ensures.expect _ .semicolonAfterPrint).bind fun _ =>
    Ensures.pure (Stmt.print value)).mono ?_
  rintro cursor statement reached ⟨value, first, -, -, ⟨tokens, hrest, hvalue, hfresh⟩, semicolon,
    second, -, -, ⟨hsemicolon, hsecond⟩, rfl, rfl⟩ keyword hkeyword
  rw [← hsecond.nextId] at hfresh
  refine ⟨false, ⟨tokens ++ [semicolon], ?_, .print hkeyword (.mk hvalue hsemicolon), hfresh⟩,
    by simp⟩
  simp [hrest, hsecond.rest]

theorem ensures_returnValue (h : inner.Sound within) (keyword : Token) :
    Ensures (returnValue inner keyword) fun cursor statement reached =>
      ∃ tokens, cursor.rest = tokens ++ reached.rest ∧
        (keyword.isKeyword .returnKw → Statement within false (keyword :: tokens) statement) ∧
          Fresh cursor.nextId reached.nextId statement.ids := by
  refine ((ensures_expressionUnless h .semicolon).bind fun value =>
    (Ensures.expect _ .semicolonAfterReturn).bind fun _ =>
      Ensures.pure (Stmt.returnValue keyword value)).mono ?_
  rintro cursor statement reached ⟨value, first, -, -, ⟨tokens, hrest, hvalue, hfresh⟩, semicolon,
    second, -, -, ⟨hsemicolon, hsecond⟩, rfl, rfl⟩
  rw [← hsecond.nextId] at hfresh
  refine ⟨tokens ++ [semicolon], ?_, fun hkeyword => .returnValue hkeyword hvalue hsemicolon,
    hfresh⟩
  simp [hrest, hsecond.rest]

theorem ensures_whileLoop (h : inner.Sound within) :
    Ensures (whileLoop inner) (YieldsAfter .whileKw within) := by
  refine ((Ensures.expect _ .parenAfterWhile).bind fun _ => h.expression.bind fun condition =>
    (Ensures.expect _ .parenAfterCondition).bind fun _ => h.statement.bind fun body =>
      Ensures.pure (Stmt.whileLoop condition body)).mono ?_
  rintro cursor statement reached ⟨opening, first, -, -, ⟨hopening, hfirst⟩, condition, second,
    hsecond, -, ⟨tokens, hrest, hcondition, hfresh⟩, closing, third, -, -, ⟨hclosing, hthird⟩, body,
    fourth, hfourth, -, ⟨isOpen, ⟨tokens', hrest', hbody, hfresh'⟩, helse⟩, rfl, rfl⟩ keyword
    hkeyword
  rw [hfirst.nextId] at hfresh
  rw [hthird.nextId] at hfresh'
  refine ⟨isOpen, ⟨opening :: (tokens ++ closing :: tokens'), ?_,
    .whileLoop hkeyword hopening hcondition hclosing hbody, ?_⟩, helse⟩
  · simp [hfirst.rest, hrest, hthird.rest, hrest']
  · exact hfresh.append hfresh' (hfirst.nextId ▸ hsecond.nextId) (hthird.nextId ▸ hfourth.nextId)

theorem ensures_elseBranch (h : inner.Sound within) :
    Ensures (elseBranch inner) fun cursor branch reached =>
      (cursor.rest.head?.any (·.isKeyword .elseKw) = false ∧ branch = none ∧ reached = cursor) ∨
        ∃ word between statement, word.isKeyword .elseKw ∧ cursor.Passes word between ∧
          branch = some statement ∧
          YieldsStatement within.statement between statement reached := by
  refine (Ensures.bind_accepts (Ensures.pure none)
    (h.statement.bind fun statement => Ensures.pure (some statement))).mono ?_
  rintro cursor branch reached (⟨helse, rfl, rfl⟩ | ⟨word, first, hword, hfirst, -, statement,
    second, -, -, hstatement, rfl, rfl⟩)
  · exact .inl ⟨helse, rfl, rfl⟩
  · exact .inr ⟨word, first, statement, hword, hfirst, rfl, hstatement⟩

/-- If an `else` follows the first branch, then it is read and the branch is not open. -/
theorem ensures_conditional (h : inner.Sound within) :
    Ensures (conditional inner) (YieldsAfter .ifKw within) := by
  refine ((Ensures.expect _ .parenAfterIf).bind fun _ => h.expression.bind fun condition =>
    (Ensures.expect _ .parenAfterIfCondition).bind fun _ => h.statement.bind fun thenBranch =>
      (ensures_elseBranch h).bind fun elseBranch =>
        Ensures.pure (Stmt.conditional condition thenBranch elseBranch)).mono ?_
  rintro cursor statement reached ⟨opening, first, -, -, ⟨hopening, hfirst⟩, condition, second,
    hsecond, -, ⟨tokens, hrest, hcondition, hfresh⟩, closing, third, -, -, ⟨hclosing, hthird⟩,
    thenBranch, fourth, hfourth, -, ⟨isOpen, ⟨middle, hmiddle, hthen, hfresh'⟩, helse⟩, elseBranch,
    fifth, hfifth, -, hbranch, rfl, rfl⟩ keyword hkeyword
  rw [hfirst.nextId] at hfresh
  rw [hthird.nextId] at hfresh'
  have hids : cursor.nextId ≤ second.nextId := hfirst.nextId ▸ hsecond.nextId
  have hids' : second.nextId ≤ fourth.nextId := hthird.nextId ▸ hfourth.nextId
  rcases hbranch with ⟨hnot, rfl, rfl⟩ | ⟨word, between, branch, hword, hpasses, rfl, isOpen',
    ⟨tokens', hrest', hstatement, hfresh''⟩, helse'⟩
  · refine ⟨true, ⟨opening :: (tokens ++ closing :: middle), ?_,
      .ifThen hkeyword hopening hcondition hclosing hthen, ?_⟩, fun _ => hnot⟩
    · simp [hfirst.rest, hrest, hthird.rest, hmiddle]
    · rw [Stmt.ids_conditional, Stmt.idsOf, List.append_nil]
      exact hfresh.append hfresh' hids hids'
  · have hclosed : isOpen = false := by
      cases isOpen with
      | false => rfl
      | true =>
          have hnot := helse rfl
          rw [hpasses.rest] at hnot
          exact absurd hword (by simpa using hnot)
    subst hclosed
    rw [hpasses.nextId] at hfresh''
    refine ⟨isOpen', ⟨opening :: (tokens ++ closing :: (middle ++ word :: tokens')), ?_,
      .ifThenElse hkeyword hopening hcondition hclosing hthen hword hstatement, ?_⟩, helse'⟩
    · simp [hfirst.rest, hrest, hthird.rest, hmiddle, hpasses.rest, hrest']
    · rw [Stmt.ids_conditional]
      exact hfresh.append (hfresh'.append hfresh'' hids' hfifth.nextId) hids
        (Nat.le_trans hids' hfifth.nextId)

/-- The increment stands in front of the body and is run after it. -/
theorem ensures_forLoop (h : inner.Sound within) :
    Ensures (forLoop inner) (YieldsAfter .forKw within) := by
  refine ((Ensures.expect _ .parenAfterFor).bind fun _ =>
    (ensures_loopInitializer h).bind fun initializer =>
      (ensures_expressionUnless h .semicolon).bind fun condition =>
        (Ensures.expect _ .semicolonAfterLoopCondition).bind fun _ =>
          (ensures_expressionUnless h .rightParen).bind fun increment =>
            (Ensures.expect _ .parenAfterForClauses).bind fun _ => h.statement.bind fun body =>
              Ensures.pure (Stmt.forLoop initializer condition increment body)).mono ?_
  rintro cursor statement reached ⟨opening, first, -, -, ⟨hopening, hfirst⟩, initializer, second,
    hsecond, -, ⟨tokens, hrest, hinitializer, hfresh⟩, condition, third, hthird, -,
    ⟨tokens', hrest', hcondition, hfresh'⟩, semicolon, fourth, -, -, ⟨hsemicolon, hfourth⟩,
    increment, fifth, hfifth, -, ⟨tokens'', hrest'', hincrement, hfresh''⟩, closing, sixth, -, -,
    ⟨hclosing, hsixth⟩, body, seventh, hseventh, -, ⟨isOpen, ⟨last, hlast, hbody, hids⟩, helse⟩,
    rfl, rfl⟩ keyword hkeyword
  rw [hfirst.nextId] at hfresh
  rw [hfourth.nextId] at hfresh''
  rw [hsixth.nextId] at hids
  have hsecond' : cursor.nextId ≤ second.nextId := hfirst.nextId ▸ hsecond.nextId
  have hfifth' : third.nextId ≤ fifth.nextId := hfourth.nextId ▸ hfifth.nextId
  have hseventh' : fifth.nextId ≤ reached.nextId := hsixth.nextId ▸ hseventh.nextId
  refine ⟨isOpen, ⟨opening :: (tokens ++ (tokens' ++ semicolon :: (tokens'' ++ closing :: last))),
    ?_, .forLoop hkeyword hopening hinitializer hcondition hsemicolon hincrement hclosing hbody,
    ?_⟩, helse⟩
  · simp [hfirst.rest, hrest, hrest', hfourth.rest, hrest'', hsixth.rest, hlast]
  · rw [Stmt.ids_forLoop]
    exact hfresh.append (hfresh'.append (hfresh''.append hids hfifth' hseventh').swap hthird.nextId
      (Nat.le_trans hfifth' hseventh')) hsecond'
      (Nat.le_trans hthird.nextId (Nat.le_trans hfifth' hseventh'))

theorem ensures_statement {n : Nat} (h : inner.Sound (phrases n)) :
    Ensures (statement inner) (YieldsStatement (Statement (phrases n))) := by
  refine (Ensures.bind_accepts
    (Ensures.bind_accepts
      (Ensures.bind_accepts
        (Ensures.bind_accept?
          (Ensures.bind_accepts
            (Ensures.bind_accepts
              (ensures_expressionStatement h)
              ((ensures_block h).bind fun body => Ensures.pure (Stmt.block body)))
            (ensures_whileLoop h))
          fun keyword => ensures_returnValue h keyword)
        (ensures_print h))
      (ensures_conditional h))
    (ensures_forLoop h)).mono ?_
  rintro cursor result reached
    (⟨-, ⟨-, ⟨-, ⟨-, ⟨-, ⟨-, hexpression⟩ | hblock⟩ | hwhile⟩ | hreturn⟩ | hprint⟩ | hif⟩ | hfor)
  · obtain ⟨value, rfl, tokens, hrest, hvalue, hfresh⟩ := hexpression
    exact ⟨false, ⟨tokens, hrest, .expression hvalue, hfresh⟩, by simp⟩
  · obtain ⟨opening, first, hopening, hpasses, -, body, second, -, -,
      ⟨tokens, hrest, hbody, hfresh⟩, rfl, rfl⟩ := hblock
    rw [hpasses.nextId] at hfresh
    refine ⟨false, ⟨opening :: tokens, ?_, .block hopening hbody, hfresh⟩, by simp⟩
    rw [hpasses.rest, hrest, List.cons_append]
  · obtain ⟨keyword, first, hkeyword, hpasses, -, hafter⟩ := hwhile
    exact hafter.yields hkeyword hpasses
  · obtain ⟨keyword, first, hkeyword, hpasses, -, tokens, hrest, hstatement, hfresh⟩ := hreturn
    rw [hpasses.nextId] at hfresh
    refine ⟨false, ⟨keyword :: tokens, ?_, hstatement hkeyword, hfresh⟩, by simp⟩
    rw [hpasses.rest, hrest, List.cons_append]
  · obtain ⟨keyword, first, hkeyword, hpasses, -, hafter⟩ := hprint
    exact hafter.yields hkeyword hpasses
  · obtain ⟨keyword, first, hkeyword, hpasses, -, hafter⟩ := hif
    exact hafter.yields hkeyword hpasses
  · obtain ⟨keyword, first, hkeyword, hpasses, -, hafter⟩ := hfor
    exact hafter.yields hkeyword hpasses

/-! ## Programs -/

/-- With `n` nestings left the rules yield what `n` nestings derive. -/
theorem sound_statements (n : Nat) : (statements n).Sound (phrases n) := by
  induction n with
  | zero =>
      exact {
        expression := (Ensures.stop .nesting).mono fun _ _ _ hfalse => hfalse.elim
        operand := (Ensures.stop .nesting).mono fun _ _ _ hfalse => hfalse.elim
        statement := (Ensures.stop .nesting).mono fun _ _ _ hfalse => hfalse.elim
        body := (Ensures.stop .nesting).mono fun _ _ _ hfalse => hfalse.elim }
  | succ n ih =>
      exact {
        toSound := Inner.sound_opened ih.toSound
        statement := ensures_statement ih
        body := ensures_block ih }

theorem ensures_program :
    Ensures program fun cursor parsed reached =>
      reached.rest = [] ∧
        Yields Program.Derives Stmt.idsAll cursor parsed reached := by
  have hends : Ensures atEnd fun cursor b reached =>
      b = List.isEmpty cursor.rest ∧ reached = cursor := Ensures.atEnd
  refine (Ensures.remaining.bind fun limit =>
    ensures_declarations (sound_statements nestingLimit) rfl hends limit).mono ?_
  rintro cursor parsed reached ⟨limit, first, -, -, ⟨rfl, rfl⟩, hprogram⟩
  obtain ⟨hend, tokens, hrest, hrepeated, hfresh⟩ := hprogram (Nat.le_refl _)
  rw [← Stmt.idsAll_eq_flatMap] at hfresh
  exact ⟨List.isEmpty_iff.1 hend, tokens, hrest, hrepeated, hfresh⟩

end Grammar

end LoxLang
