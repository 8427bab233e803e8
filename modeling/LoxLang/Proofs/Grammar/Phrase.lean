import LoxLang.Grammar.Program

/-!
# The grammar as a relation

Which lists of tokens are phrases of the language, and which tree each of them stands for.  No
phrase looks ahead, gives up or recovers: a rule is a relation between tokens and trees, and a list
of tokens is a phrase if some derivation takes up all of it.

A relation `phrases n` derives what needs at most `n` nestings inside one another.  The numbers of
occurrences are left open; a tree is derived with any numbers.
-/

namespace LoxLang

namespace Grammar

/-! ## Lists of phrases -/

/-- Phrases one after the other, with nothing in between. -/
inductive Repeated {α : Type} (item : List Token → α → Prop) : List Token → List α → Prop
  | nil : Repeated item [] []
  | cons {first rest : List Token} {a : α} {as : List α} :
      item first a → Repeated item rest as → Repeated item (first ++ rest) (a :: as)

/-- One phrase or more, with commas in between. -/
inductive Separated {α : Type} (item : List Token → α → Prop) : List Token → List α → Prop
  | one {first : List Token} {a : α} : item first a → Separated item first [a]
  | more {first rest : List Token} {comma : Token} {a : α} {as : List α} :
      item first a → comma.isSymbol .comma → Separated item rest as →
      Separated item (first ++ comma :: rest) (a :: as)

/-- Phrases with commas in between, or none at all. -/
def Listed {α : Type} (item : List Token → α → Prop) (tokens : List Token) (as : List α) : Prop :=
  (tokens = [] ∧ as = []) ∨ Separated item tokens as

/-- What stands inside a nesting: expressions and assigned values, operands of unary operators,
statements, and function bodies after their opening brace.  A statement is open if an `else` behind
it would belong to it. -/
structure Phrases where
  expression : List Token → Expr → Prop
  operand : List Token → Expr → Prop
  statement : (isOpen : Bool) → List Token → Stmt → Prop
  body : List Token → List Stmt → Prop

/-! ## Expressions -/

/-- The binary operators, from the loosest to the tightest. -/
inductive Tier where
  | disjunction
  | conjunction
  | equality
  | comparison
  | term
  | factor

namespace Tier

/-- The operators of a tier. -/
def kinds : Tier → List Kind
  | disjunction => [.keyword .orKw]
  | conjunction => [.keyword .andKw]
  | equality => [.symbol .bangEqual, .symbol .equalEqual]
  | comparison =>
      [.symbol .greater, .symbol .greaterEqual, .symbol .less, .symbol .lessEqual]
  | term => [.symbol .minus, .symbol .plus]
  | factor => [.symbol .slash, .symbol .star]

/-- The tree of an operator with its operands. -/
def node : Tier → Token → Expr → Expr → Expr
  | disjunction => .logical
  | conjunction => .logical
  | _ => .binary

/-- The level of operators that reads a tier. -/
def level : Tier → Level
  | disjunction => .disjunction
  | conjunction => .conjunction
  | equality => .equality
  | comparison => .comparison
  | term => .term
  | factor => .factor

theorem has_level_iff (tier : Tier) (token : Token) :
    tier.level.has token ↔ token.kind ∈ tier.kinds := by
  cases tier <;> simp [level, kinds, Level.has, Level.disjunction, Level.conjunction,
    Level.equality, Level.comparison, Level.term, Level.factor]

theorem node_level (tier : Tier) : tier.level.node = tier.node := by
  cases tier <;> rfl

end Tier

/-- Operators of a tier behind an operand, each with an operand of its own.  They associate to the
left. -/
inductive Operations (tier : Tier) (operand : List Token → Expr → Prop) :
    Expr → List Token → Expr → Prop
  | done {left : Expr} : Operations tier operand left [] left
  | more {left right result : Expr} {operator : Token} {tokens rest : List Token} :
      operator.kind ∈ tier.kinds → operand tokens right →
      Operations tier operand (tier.node operator left right) rest result →
      Operations tier operand left (operator :: (tokens ++ rest)) result

/-- An operand, and operators of a tier behind it. -/
inductive Chain (tier : Tier) (operand : List Token → Expr → Prop) : List Token → Expr → Prop
  | mk {tokens rest : List Token} {first result : Expr} :
      operand tokens first → Operations tier operand first rest result →
      Chain tier operand (tokens ++ rest) result

/-- A token that denotes a constant. -/
inductive Constant : Token → Literal → Prop
  | nil {token : Token} : token.isKeyword .nilKw → Constant token .nil
  | true {token : Token} : token.isKeyword .trueKw → Constant token (.bool true)
  | false {token : Token} : token.isKeyword .falseKw → Constant token (.bool false)
  | number {token : Token} {value : Float} :
      token.kind = .number value → Constant token (.number value)
  | string {token : Token} {value : String} :
      token.kind = .string value → Constant token (.string value)

/-- A constant, a name, `this`, a method of the superclass, or an expression in parentheses. -/
inductive Primary (inner : Phrases) : List Token → Expr → Prop
  | constant {token : Token} {value : Literal} :
      Constant token value → Primary inner [token] (.literal value)
  | thisRef {keyword : Token} {id : NodeId} :
      keyword.isKeyword .thisKw → Primary inner [keyword] (.thisRef ⟨id, keyword⟩)
  | name {name : Token} {id : NodeId} :
      name.isIdentifier → Primary inner [name] (.variable ⟨id, name⟩)
  | superRef {keyword dot method : Token} {id : NodeId} :
      keyword.isKeyword .superKw → dot.isSymbol .dot → method.isIdentifier →
      Primary inner [keyword, dot, method] (.superRef ⟨id, keyword⟩ method)
  | grouping {opening closing : Token} {tokens : List Token} {expression : Expr} :
      opening.isSymbol .leftParen → inner.expression tokens expression →
      closing.isSymbol .rightParen →
      Primary inner (opening :: (tokens ++ [closing])) (.grouping expression)

/-- Calls and properties behind a subject. -/
inductive Selections (inner : Phrases) : Expr → List Token → Expr → Prop
  | done {subject : Expr} : Selections inner subject [] subject
  | call {subject result : Expr} {opening closing : Token} {tokens rest : List Token}
      {arguments : List Expr} :
      opening.isSymbol .leftParen → Listed inner.expression tokens arguments →
      arguments.length ≤ argumentLimit → closing.isSymbol .rightParen →
      Selections inner (.call subject closing arguments) rest result →
      Selections inner subject (opening :: (tokens ++ closing :: rest)) result
  | get {subject result : Expr} {dot name : Token} {rest : List Token} :
      dot.isSymbol .dot → name.isIdentifier →
      Selections inner (.get subject name) rest result →
      Selections inner subject (dot :: name :: rest) result

/-- A primary expression with calls and properties behind it. -/
inductive Call (inner : Phrases) : List Token → Expr → Prop
  | mk {tokens rest : List Token} {subject result : Expr} :
      Primary inner tokens subject → Selections inner subject rest result →
      Call inner (tokens ++ rest) result

/-- A unary operator with its operand, or a call. -/
inductive Unary (inner : Phrases) : List Token → Expr → Prop
  | call {tokens : List Token} {expression : Expr} :
      Call inner tokens expression → Unary inner tokens expression
  | operator {operator : Token} {tokens : List Token} {operand : Expr} :
      operator.isSymbol .bang ∨ operator.isSymbol .minus → inner.operand tokens operand →
      Unary inner (operator :: tokens) (.unary operator operand)

/-- Binary operators over unary expressions, of given tiers, the loosest first. -/
def Layered (inner : Phrases) : List Tier → List Token → Expr → Prop
  | [] => Unary inner
  | tier :: tighter => Chain tier (Layered inner tighter)

/-- All tiers of binary operators. -/
def tiers : List Tier :=
  [.disjunction, .conjunction, .equality, .comparison, .term, .factor]

/-- An assignment to a variable or a property, or an expression without one. -/
inductive Assignment (inner : Phrases) : List Token → Expr → Prop
  | plain {tokens : List Token} {expression : Expr} :
      Layered inner tiers tokens expression → Assignment inner tokens expression
  | toVariable {name equal : Token} {id : NodeId} {tokens : List Token} {value : Expr} :
      name.isIdentifier → equal.isSymbol .equal → inner.expression tokens value →
      Assignment inner (name :: equal :: tokens) (.assign ⟨id, name⟩ value)
  | toProperty {object value : Expr} {dot name equal : Token} {tokens rest : List Token} :
      Call inner tokens object → dot.isSymbol .dot → name.isIdentifier →
      equal.isSymbol .equal → inner.expression rest value →
      Assignment inner (tokens ++ dot :: name :: equal :: rest) (.set object name value)

/-! ## Declarations and statements -/

/-- A name, as a phrase. -/
inductive Identifier : List Token → Token → Prop
  | mk {name : Token} : name.isIdentifier → Identifier [name] name

/-- A function or method from its name on. -/
inductive Function (inner : Phrases) : List Token → FunctionDecl → Prop
  | mk {name opening closing brace : Token} {tokens rest : List Token} {params : List Token}
      {body : List Stmt} :
      name.isIdentifier → opening.isSymbol .leftParen → Listed Identifier tokens params →
      params.length ≤ argumentLimit → closing.isSymbol .rightParen → brace.isSymbol .leftBrace →
      inner.body rest body →
      Function inner (name :: opening :: (tokens ++ closing :: brace :: rest))
        (.mk name params body)

/-- A variable declaration from its name on. -/
inductive Variable (inner : Phrases) : List Token → Stmt → Prop
  | plain {name semicolon : Token} :
      name.isIdentifier → semicolon.isSymbol .semicolon →
      Variable inner [name, semicolon] (.varDecl name none)
  | initialized {name equal semicolon : Token} {tokens : List Token} {value : Expr} :
      name.isIdentifier → equal.isSymbol .equal → inner.expression tokens value →
      semicolon.isSymbol .semicolon →
      Variable inner (name :: equal :: (tokens ++ [semicolon])) (.varDecl name (some value))

/-- An expression with a semicolon behind it. -/
inductive Terminated (inner : Phrases) : List Token → Expr → Prop
  | mk {semicolon : Token} {tokens : List Token} {value : Expr} :
      inner.expression tokens value → semicolon.isSymbol .semicolon →
      Terminated inner (tokens ++ [semicolon]) value

/-- An expression, or nothing. -/
inductive Perhaps (inner : Phrases) : List Token → Option Expr → Prop
  | none : Perhaps inner [] none
  | some {tokens : List Token} {value : Expr} :
      inner.expression tokens value → Perhaps inner tokens (some value)

/-- The superclass clause of a class, or nothing. -/
inductive Inheritance : List Token → Option Occurrence → Prop
  | none : Inheritance [] none
  | some {less name : Token} {id : NodeId} :
      less.isSymbol .less → name.isIdentifier → Inheritance [less, name] (some ⟨id, name⟩)

/-- The first clause of a counting loop. -/
inductive Initializer (inner : Phrases) : List Token → Option Stmt → Prop
  | none {semicolon : Token} : semicolon.isSymbol .semicolon → Initializer inner [semicolon] none
  | varDecl {keyword : Token} {tokens : List Token} {declaration : Stmt} :
      keyword.isKeyword .varKw → Variable inner tokens declaration →
      Initializer inner (keyword :: tokens) (some declaration)
  | expression {tokens : List Token} {value : Expr} :
      Terminated inner tokens value → Initializer inner tokens (some (.expression value))

/-- A class, function or variable declaration, or a statement. -/
inductive Declaration (inner : Phrases) : List Token → Stmt → Prop
  | classDecl {keyword name opening closing : Token} {clause rest : List Token}
      {superclass : Option Occurrence} {methods : List FunctionDecl} :
      keyword.isKeyword .classKw → name.isIdentifier → Inheritance clause superclass →
      opening.isSymbol .leftBrace → Repeated (Function inner) rest methods →
      closing.isSymbol .rightBrace →
      Declaration inner (keyword :: name :: (clause ++ opening :: (rest ++ [closing])))
        (.classDecl name superclass methods)
  | function {keyword : Token} {tokens : List Token} {declaration : FunctionDecl} :
      keyword.isKeyword .funKw → Function inner tokens declaration →
      Declaration inner (keyword :: tokens) (.function declaration)
  | varDecl {keyword : Token} {tokens : List Token} {declaration : Stmt} :
      keyword.isKeyword .varKw → Variable inner tokens declaration →
      Declaration inner (keyword :: tokens) declaration
  | statement {isOpen : Bool} {tokens : List Token} {statement : Stmt} :
      inner.statement isOpen tokens statement → Declaration inner tokens statement

/-- Declarations with a closing brace behind them. -/
inductive Body (inner : Phrases) : List Token → List Stmt → Prop
  | mk {closing : Token} {tokens : List Token} {body : List Stmt} :
      Repeated (Declaration inner) tokens body → closing.isSymbol .rightBrace →
      Body inner (tokens ++ [closing]) body

/-- A statement.  Since an `else` belongs to the nearest `if`, the statement in front of it is not
open. -/
inductive Statement (inner : Phrases) : (isOpen : Bool) → List Token → Stmt → Prop
  | expression {tokens : List Token} {value : Expr} :
      Terminated inner tokens value → Statement inner false tokens (.expression value)
  | print {keyword : Token} {tokens : List Token} {value : Expr} :
      keyword.isKeyword .printKw → Terminated inner tokens value →
      Statement inner false (keyword :: tokens) (.print value)
  | returnValue {keyword semicolon : Token} {tokens : List Token} {value : Option Expr} :
      keyword.isKeyword .returnKw → Perhaps inner tokens value →
      semicolon.isSymbol .semicolon →
      Statement inner false (keyword :: (tokens ++ [semicolon])) (.returnValue keyword value)
  | block {opening : Token} {tokens : List Token} {body : List Stmt} :
      opening.isSymbol .leftBrace → Body inner tokens body →
      Statement inner false (opening :: tokens) (.block body)
  | ifThen {keyword opening closing : Token} {tokens rest : List Token} {condition : Expr}
      {isOpen : Bool} {thenBranch : Stmt} :
      keyword.isKeyword .ifKw → opening.isSymbol .leftParen →
      inner.expression tokens condition → closing.isSymbol .rightParen →
      inner.statement isOpen rest thenBranch →
      Statement inner true (keyword :: opening :: (tokens ++ closing :: rest))
        (.conditional condition thenBranch none)
  | ifThenElse {keyword opening closing elseWord : Token} {tokens middle rest : List Token}
      {condition : Expr} {isOpen : Bool} {thenBranch elseBranch : Stmt} :
      keyword.isKeyword .ifKw → opening.isSymbol .leftParen →
      inner.expression tokens condition → closing.isSymbol .rightParen →
      inner.statement false middle thenBranch → elseWord.isKeyword .elseKw →
      inner.statement isOpen rest elseBranch →
      Statement inner isOpen
        (keyword :: opening :: (tokens ++ closing :: (middle ++ elseWord :: rest)))
        (.conditional condition thenBranch (some elseBranch))
  | whileLoop {keyword opening closing : Token} {tokens rest : List Token} {condition : Expr}
      {isOpen : Bool} {body : Stmt} :
      keyword.isKeyword .whileKw → opening.isSymbol .leftParen →
      inner.expression tokens condition → closing.isSymbol .rightParen →
      inner.statement isOpen rest body →
      Statement inner isOpen (keyword :: opening :: (tokens ++ closing :: rest))
        (.whileLoop condition body)
  | forLoop {keyword opening semicolon closing : Token} {first second third rest : List Token}
      {initializer : Option Stmt} {condition increment : Option Expr} {isOpen : Bool}
      {body : Stmt} :
      keyword.isKeyword .forKw → opening.isSymbol .leftParen →
      Initializer inner first initializer → Perhaps inner second condition →
      semicolon.isSymbol .semicolon → Perhaps inner third increment →
      closing.isSymbol .rightParen → inner.statement isOpen rest body →
      Statement inner isOpen
        (keyword :: opening :: (first ++ (second ++ semicolon :: (third ++ closing :: rest))))
        (Stmt.forLoop initializer condition increment body)

/-! ## Nestings -/

/-- Nothing stands inside a nesting if none may be opened. -/
def Phrases.none : Phrases where
  expression _ _ := False
  operand _ _ := False
  statement _ _ _ := False
  body _ _ := False

/-- What stands inside one nesting more. -/
def Phrases.nested (inner : Phrases) : Phrases where
  expression := Assignment inner
  operand := Unary inner
  statement := Statement inner
  body := Body inner

/-- What stands inside a nesting if at most `n` nestings, that one among them, are open at once. -/
def phrases : (n : Nat) → Phrases
  | 0 => .none
  | n + 1 => (phrases n).nested

end Grammar

/-- The programs that a list of tokens stands for: declarations with at most `nestingLimit` nestings
open at once. -/
def Program.Derives (tokens : List Token) (program : Program) : Prop :=
  Grammar.Repeated (Grammar.Declaration (Grammar.phrases nestingLimit)) tokens program

end LoxLang
