import LoxLang.Proofs.Grammar.Phrase

/-!
# How phrases start

The first token of a phrase says what kind of phrase it is.  A rule that looks one token ahead can
so tell a phrase that may be missing from what stands behind it.
-/

namespace LoxLang

namespace Grammar

/-- Whether the next token passes a test. -/
def Starts (test : Token → Bool) (tokens : List Token) : Prop :=
  tokens.head?.any test

namespace Starts

variable {test test' : Token → Bool} {token : Token} {tokens : List Token}

theorem cons (h : test token) : Starts test (token :: tokens) := h

theorem append (h : Starts test tokens) (rest : List Token) : Starts test (tokens ++ rest) := by
  cases tokens with
  | nil => cases h
  | cons token tokens => exact h

theorem mono (h : Starts test tokens) (himp : ∀ token, test token → test' token) :
    Starts test' tokens := by
  cases tokens with
  | nil => cases h
  | cons token tokens => exact himp token h

theorem length_pos (h : Starts test tokens) : 0 < tokens.length := by
  cases tokens with
  | nil => cases h
  | cons token tokens => exact Nat.succ_pos _

/-- What starts in one way does not start in another. -/
theorem not_starts (h : Starts test tokens) (himp : ∀ token, test token → test' token = false) :
    tokens.head?.any test' = false := by
  cases tokens with
  | nil => rfl
  | cons token tokens => exact himp token h

end Starts

/-! ## Expressions -/

/-- Whether a call can start with a token. -/
def startsCall (token : Token) : Bool :=
  match token.kind with
  | .symbol symbol => symbol == .leftParen
  | .keyword keyword => [.falseKw, .trueKw, .nilKw, .thisKw, .superKw].contains keyword
  | _ => true

/-- Whether an expression can start with a token. -/
def startsExpression (token : Token) : Bool :=
  startsCall token || token.isSymbol .bang || token.isSymbol .minus

theorem startsCall_of_isKeyword {token : Token} {keyword : Keyword} (h : token.isKeyword keyword)
    (hstart : [Keyword.falseKw, .trueKw, .nilKw, .thisKw, .superKw].contains keyword) :
    startsCall token := by
  rw [startsCall, eq_of_beq h]
  exact hstart

theorem startsCall_of_isIdentifier {token : Token} (h : token.isIdentifier) : startsCall token := by
  rw [startsCall, eq_of_beq h]

theorem startsExpression_of_startsCall {token : Token} (h : startsCall token) :
    startsExpression token := by
  rw [startsExpression, h, Bool.true_or, Bool.true_or]

/-- No call starts with a unary operator. -/
theorem isUnary_eq_false_of_startsCall {token : Token} (h : startsCall token) :
    (token.isSymbol .bang || token.isSymbol .minus) = false := by
  rcases token with ⟨kind, lexeme, line⟩
  cases kind with
  | symbol symbol => cases symbol <;> first | rfl | cases h
  | _ => rfl

/-- No expression starts with a symbol or reserved word of another kind. -/
theorem isSymbol_eq_false_of_startsExpression {token : Token} {symbol : Symbol}
    (h : startsExpression token)
    (hstart : [Symbol.leftParen, .bang, .minus].contains symbol = false) :
    token.isSymbol symbol = false := by
  cases hsymbol : token.isSymbol symbol with
  | false => rfl
  | true =>
      simp only [startsExpression, startsCall, Token.isSymbol, eq_of_beq hsymbol] at h
      cases symbol <;> first | exact absurd h (by decide) | exact absurd hstart (by decide)

theorem isKeyword_eq_false_of_startsExpression {token : Token} {keyword : Keyword}
    (h : startsExpression token)
    (hstart : [Keyword.falseKw, .trueKw, .nilKw, .thisKw, .superKw].contains keyword = false) :
    token.isKeyword keyword = false := by
  cases hkeyword : token.isKeyword keyword with
  | false => rfl
  | true =>
      simp only [startsExpression, startsCall, Token.isSymbol, eq_of_beq hkeyword, hstart] at h
      cases h

variable {within : Phrases} {tokens : List Token}

theorem Constant.starts {token : Token} {value : Literal} (h : Constant token value) :
    startsCall token := by
  cases h with
  | nil h => exact startsCall_of_isKeyword h rfl
  | true h => exact startsCall_of_isKeyword h rfl
  | false h => exact startsCall_of_isKeyword h rfl
  | number h => rw [startsCall, h]
  | string h => rw [startsCall, h]

theorem Primary.starts {expression : Expr} (h : Primary within tokens expression) :
    Starts startsCall tokens := by
  cases h with
  | constant h => exact h.starts
  | thisRef h => exact startsCall_of_isKeyword h rfl
  | name h => exact startsCall_of_isIdentifier h
  | superRef h _ _ => exact startsCall_of_isKeyword h rfl
  | grouping h _ _ => exact Starts.cons (by rw [startsCall, eq_of_beq h]; rfl)

theorem Call.starts {expression : Expr} (h : Call within tokens expression) :
    Starts startsCall tokens := by
  cases h with
  | mk hprimary _ => exact hprimary.starts.append _

theorem Unary.starts {expression : Expr} (h : Unary within tokens expression) :
    Starts startsExpression tokens := by
  cases h with
  | call hcall => exact hcall.starts.mono fun _ => startsExpression_of_startsCall
  | operator hoperator _ =>
      refine Starts.cons ?_
      rcases hoperator with hoperator | hoperator
      · rw [startsExpression, hoperator, Bool.or_true, Bool.true_or]
      · rw [startsExpression, hoperator, Bool.or_true]

theorem Layered.starts {tiers : List Tier} {expression : Expr}
    (h : Layered within tiers tokens expression) : Starts startsExpression tokens := by
  induction tiers generalizing tokens expression with
  | nil => exact Unary.starts h
  | cons tier tighter ih =>
      cases h with
      | mk hfirst _ => exact (ih hfirst).append _

theorem Assignment.starts {expression : Expr} (h : Assignment within tokens expression) :
    Starts startsExpression tokens := by
  cases h with
  | plain hplain => exact Layered.starts hplain
  | toVariable hname _ _ =>
      exact startsExpression_of_startsCall (startsCall_of_isIdentifier hname)
  | toProperty hcall _ _ _ _ =>
      exact (hcall.starts.mono fun _ => startsExpression_of_startsCall).append _

theorem starts_expression {n : Nat} {expression : Expr}
    (h : (phrases n).expression tokens expression) : Starts startsExpression tokens := by
  cases n with
  | zero => exact h.elim
  | succ n => exact Assignment.starts h

/-! ## Declarations and statements -/

/-- Whether a statement can start with a token. -/
def opensStatement (token : Token) : Bool :=
  match token.kind with
  | .symbol symbol => [.leftBrace, .leftParen, .bang, .minus].contains symbol
  | .keyword keyword =>
      [.forKw, .ifKw, .printKw, .returnKw, .whileKw, .falseKw, .trueKw, .nilKw, .thisKw,
        .superKw].contains keyword
  | _ => true

/-- Whether a declaration or statement can start with a token. -/
def startsDeclaration (token : Token) : Bool :=
  [Keyword.classKw, .funKw, .varKw].any token.isKeyword || opensStatement token

theorem opensStatement_of_isKeyword {token : Token} {keyword : Keyword}
    (h : token.isKeyword keyword)
    (hstart : [Keyword.forKw, .ifKw, .printKw, .returnKw, .whileKw].contains keyword) :
    opensStatement token := by
  rw [opensStatement, eq_of_beq h]
  cases keyword <;> first | rfl | cases hstart

theorem opensStatement_of_startsExpression {token : Token} (h : startsExpression token) :
    opensStatement token := by
  rcases token with ⟨kind, lexeme, line⟩
  cases kind with
  | symbol symbol => cases symbol <;> first | rfl | cases h
  | keyword keyword => cases keyword <;> first | rfl | cases h
  | _ => rfl

theorem startsDeclaration_of_isKeyword {token : Token} {keyword : Keyword}
    (h : token.isKeyword keyword) (hstart : [Keyword.classKw, .funKw, .varKw].contains keyword) :
    startsDeclaration token := by
  have hany : [Keyword.classKw, .funKw, .varKw].any token.isKeyword :=
    List.any_eq_true.2 ⟨keyword, List.contains_iff_mem.1 hstart, h⟩
  rw [startsDeclaration, hany, Bool.true_or]

theorem startsDeclaration_of_opensStatement {token : Token} (h : opensStatement token) :
    startsDeclaration token := by
  rw [startsDeclaration, h, Bool.or_true]

/-- No statement starts with the word of a declaration. -/
theorem isKeyword_eq_false_of_opensStatement {token : Token} {keyword : Keyword}
    (h : opensStatement token) (hstart : [Keyword.classKw, .funKw, .varKw].contains keyword) :
    token.isKeyword keyword = false := by
  cases hkeyword : token.isKeyword keyword with
  | false => rfl
  | true =>
      rw [opensStatement, eq_of_beq hkeyword] at h
      cases keyword <;> first | exact absurd h (by decide) | exact absurd hstart (by decide)

/-- No declaration starts with a closing brace. -/
theorem isRightBrace_eq_false_of_startsDeclaration {token : Token} (h : startsDeclaration token) :
    token.isSymbol .rightBrace = false := by
  rcases token with ⟨kind, lexeme, line⟩
  cases kind with
  | symbol symbol => cases symbol <;> first | rfl | cases h
  | _ => rfl

/-- No declaration starts with the word `else`. -/
theorem isElse_eq_false_of_startsDeclaration {token : Token} (h : startsDeclaration token) :
    token.isKeyword .elseKw = false := by
  rcases token with ⟨kind, lexeme, line⟩
  cases kind with
  | keyword keyword => cases keyword <;> first | rfl | cases h
  | _ => rfl

/-- Whether a list of declarations or methods ends in front of these tokens. -/
def endsBody (tokens : List Token) : Bool :=
  tokens.head?.any (·.isSymbol .rightBrace) || tokens.isEmpty

theorem endsBody_eq_false {tokens : List Token} (h : Starts (!·.isSymbol .rightBrace) tokens) :
    endsBody tokens = false := by
  cases tokens with
  | nil => cases h
  | cons token tokens =>
      have hnot : (!token.isSymbol .rightBrace) = true := h
      simpa [endsBody] using hnot

theorem Terminated.starts {n : Nat} {value : Expr} (h : Terminated (phrases n) tokens value) :
    Starts startsExpression tokens := by
  cases h with
  | mk hvalue _ => exact (starts_expression hvalue).append _

theorem Statement.starts {n : Nat} {isOpen : Bool} {statement : Stmt}
    (h : Statement (phrases n) isOpen tokens statement) : Starts opensStatement tokens := by
  cases h with
  | expression hvalue => exact hvalue.starts.mono fun _ => opensStatement_of_startsExpression
  | print hword _ => exact opensStatement_of_isKeyword hword rfl
  | returnValue hword _ _ => exact opensStatement_of_isKeyword hword rfl
  | block hbrace _ => exact Starts.cons (by rw [opensStatement, eq_of_beq hbrace]; rfl)
  | ifThen hword _ _ _ _ => exact opensStatement_of_isKeyword hword rfl
  | ifThenElse hword _ _ _ _ _ _ => exact opensStatement_of_isKeyword hword rfl
  | whileLoop hword _ _ _ _ => exact opensStatement_of_isKeyword hword rfl
  | forLoop hword _ _ _ _ _ _ _ => exact opensStatement_of_isKeyword hword rfl

theorem starts_statement {n : Nat} {isOpen : Bool} {statement : Stmt}
    (h : (phrases n).statement isOpen tokens statement) : Starts opensStatement tokens := by
  cases n with
  | zero => exact h.elim
  | succ n => exact Statement.starts h

theorem Declaration.starts {n : Nat} {declaration : Stmt}
    (h : Declaration (phrases n) tokens declaration) : Starts startsDeclaration tokens := by
  cases h with
  | classDecl hword _ _ _ _ _ => exact startsDeclaration_of_isKeyword hword rfl
  | function hword _ => exact startsDeclaration_of_isKeyword hword rfl
  | varDecl hword _ => exact startsDeclaration_of_isKeyword hword rfl
  | statement hstatement =>
      exact (starts_statement hstatement).mono fun _ => startsDeclaration_of_opensStatement

end Grammar

end LoxLang
