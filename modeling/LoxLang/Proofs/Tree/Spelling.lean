import Mathlib.Data.List.Forall2
import LoxLang.Tree.Basic

/-!
# The tokens that a tree tells of

An expression read from left to right names its tokens one by one.  Of most of them it keeps no more
than what they are, since punctuation and constants leave no token in a tree; names, operators,
reserved words and the closing parenthesis of a call it keeps as they were.
-/

namespace LoxLang

/-- What a tree tells of a token: what it is, with the value of a literal, and the token itself if
the tree keeps it. -/
structure Mark where
  kind : Kind
  kept : Option Token

namespace Mark

/-- A token that the tree does not keep. -/
def plain (kind : Kind) : Mark := ⟨kind, none⟩

/-- A symbol that the tree does not keep. -/
def symbol (symbol : Symbol) : Mark := plain (.symbol symbol)

/-- A token that the tree keeps. -/
def keeping (kind : Kind) (token : Token) : Mark := ⟨kind, some token⟩

/-- Whether a token is the one that a tree tells of. -/
def Matches (mark : Mark) (token : Token) : Prop :=
  token.kind = mark.kind ∧ ∀ kept ∈ mark.kept, token = kept

variable {token kept : Token} {kind : Kind}

@[simp] theorem matches_plain : (plain kind).Matches token ↔ token.kind = kind := by
  simp [Matches, plain]

@[simp] theorem matches_symbol {symbol : Symbol} :
    (Mark.symbol symbol).Matches token ↔ token.isSymbol symbol := by
  rw [Mark.symbol, matches_plain, Token.isSymbol, beq_iff_eq]

@[simp] theorem matches_keeping :
    (keeping kind kept).Matches token ↔ token = kept ∧ kept.kind = kind := by
  simp only [Matches, keeping, Option.mem_some_iff, forall_eq']
  constructor
  · rintro ⟨rfl, rfl⟩
    exact ⟨rfl, rfl⟩
  · rintro ⟨rfl, rfl⟩
    exact ⟨rfl, rfl⟩

end Mark

/-- The kind of the token that a constant is written with. -/
def Literal.kind : Literal → Kind
  | .nil => .keyword .nilKw
  | .bool true => .keyword .trueKw
  | .bool false => .keyword .falseKw
  | .number value => .number value
  | .string value => .string value

mutual

/-- The tokens of an expression, from left to right. -/
def Expr.marks : Expr → List Mark
  | .literal value => [.plain value.kind]
  | .grouping inner => .symbol .leftParen :: (inner.marks ++ [.symbol .rightParen])
  | .unary operator operand => .keeping operator.kind operator :: operand.marks
  | .binary operator left right => left.marks ++ .keeping operator.kind operator :: right.marks
  | .logical operator left right => left.marks ++ .keeping operator.kind operator :: right.marks
  | .variable occurrence => [.keeping .identifier occurrence.name]
  | .assign target value => .keeping .identifier target.name :: .symbol .equal :: value.marks
  | .call callee paren arguments =>
      callee.marks ++ .symbol .leftParen ::
        (Expr.marksAll arguments ++ [.keeping (.symbol .rightParen) paren])
  | .get object name => object.marks ++ [.symbol .dot, .keeping .identifier name]
  | .set object name value =>
      object.marks ++ .symbol .dot :: .keeping .identifier name :: .symbol .equal :: value.marks
  | .thisRef occurrence => [.keeping (.keyword .thisKw) occurrence.name]
  | .superRef occurrence method =>
      [.keeping (.keyword .superKw) occurrence.name, .symbol .dot, .keeping .identifier method]

/-- The tokens of several expressions, with commas in between. -/
def Expr.marksAll : List Expr → List Mark
  | [] => []
  | expression :: rest =>
      match rest with
      | [] => expression.marks
      | _ :: _ => expression.marks ++ .symbol .comma :: Expr.marksAll rest

end

namespace Expr

/-- Tokens are those that an expression tells of. -/
def Spelled (expression : Expr) (tokens : List Token) : Prop :=
  List.Forall₂ Mark.Matches expression.marks tokens

/-- Tokens are those that several expressions tell of, with commas in between. -/
def SpelledAll (expressions : List Expr) (tokens : List Token) : Prop :=
  List.Forall₂ Mark.Matches (Expr.marksAll expressions) tokens

/-- The tokens of two stretches, one behind the other. -/
theorem forall₂_matches_append_iff {marks marks' : List Mark} {tokens : List Token} :
    List.Forall₂ Mark.Matches (marks ++ marks') tokens ↔
      ∃ first second, List.Forall₂ Mark.Matches marks first ∧
        List.Forall₂ Mark.Matches marks' second ∧ tokens = first ++ second := by
  constructor
  · intro h
    have hflip : List.Forall₂ (flip Mark.Matches) tokens (marks ++ marks') := h.flip
    refine ⟨tokens.take marks.length, tokens.drop marks.length, ?_, ?_, ?_⟩
    · exact (List.forall₂_take_append _ _ _ hflip).flip
    · exact (List.forall₂_drop_append _ _ _ hflip).flip
    · exact (List.take_append_drop _ _).symm
  · rintro ⟨first, second, h, h', rfl⟩
    exact List.rel_append h h'

/-! ### The tokens of one node and of its operands -/

variable {tokens : List Token}

theorem spelled_literal_iff {value : Literal} :
    (literal value).Spelled tokens ↔ ∃ token, token.kind = value.kind ∧ tokens = [token] := by
  simp [Spelled, marks, List.forall₂_cons_left_iff]

theorem spelled_grouping_iff {inner : Expr} :
    (grouping inner).Spelled tokens ↔ ∃ opening closing first, opening.isSymbol .leftParen ∧
      inner.Spelled first ∧ closing.isSymbol .rightParen ∧
        tokens = opening :: (first ++ [closing]) := by
  simp only [Spelled, marks, List.forall₂_cons_left_iff, forall₂_matches_append_iff,
    List.forall₂_nil_left_iff, Mark.matches_symbol]
  grind

theorem spelled_unary_iff {operator : Token} {operand : Expr} :
    (unary operator operand).Spelled tokens ↔
      ∃ rest, operand.Spelled rest ∧ tokens = operator :: rest := by
  simp [Spelled, marks, List.forall₂_cons_left_iff]

theorem spelled_binary_iff {operator : Token} {left right : Expr} :
    (binary operator left right).Spelled tokens ↔ ∃ first rest, left.Spelled first ∧
      right.Spelled rest ∧ tokens = first ++ operator :: rest := by
  simp [Spelled, marks, List.forall₂_cons_left_iff, forall₂_matches_append_iff]

theorem spelled_variable_iff {occurrence : Occurrence} :
    (Expr.variable occurrence).Spelled tokens ↔
      occurrence.name.isIdentifier ∧ tokens = [occurrence.name] := by
  simp only [Spelled, marks, List.forall₂_cons_left_iff, List.forall₂_nil_left_iff,
    Mark.matches_keeping, Token.isIdentifier, beq_iff_eq]
  grind

theorem spelled_assign_iff {target : Occurrence} {value : Expr} :
    (assign target value).Spelled tokens ↔ ∃ equal rest, target.name.isIdentifier ∧
      equal.isSymbol .equal ∧ value.Spelled rest ∧ tokens = target.name :: equal :: rest := by
  simp only [Spelled, marks, List.forall₂_cons_left_iff, Mark.matches_keeping,
    Mark.matches_symbol, Token.isIdentifier, beq_iff_eq]
  grind

theorem spelled_call_iff {callee : Expr} {paren : Token} {arguments : List Expr} :
    (call callee paren arguments).Spelled tokens ↔ ∃ first opening rest, callee.Spelled first ∧
      opening.isSymbol .leftParen ∧ SpelledAll arguments rest ∧ paren.isSymbol .rightParen ∧
        tokens = first ++ opening :: (rest ++ [paren]) := by
  simp only [Spelled, SpelledAll, marks, List.forall₂_cons_left_iff, List.forall₂_nil_left_iff,
    forall₂_matches_append_iff, Mark.matches_symbol, Mark.matches_keeping, Token.isSymbol,
    beq_iff_eq]
  grind

theorem spelled_get_iff {object : Expr} {name : Token} :
    (get object name).Spelled tokens ↔ ∃ first dot, object.Spelled first ∧ dot.isSymbol .dot ∧
      name.isIdentifier ∧ tokens = first ++ [dot, name] := by
  simp only [Spelled, marks, List.forall₂_cons_left_iff, List.forall₂_nil_left_iff,
    Mark.matches_keeping, Mark.matches_symbol, Token.isIdentifier, beq_iff_eq,
    forall₂_matches_append_iff]
  grind

theorem spelled_set_iff {object value : Expr} {name : Token} :
    (set object name value).Spelled tokens ↔ ∃ first dot equal rest, object.Spelled first ∧
      dot.isSymbol .dot ∧ name.isIdentifier ∧ equal.isSymbol .equal ∧ value.Spelled rest ∧
        tokens = first ++ dot :: name :: equal :: rest := by
  simp only [Spelled, marks, List.forall₂_cons_left_iff, Mark.matches_keeping,
    Mark.matches_symbol, Token.isIdentifier, beq_iff_eq,
    forall₂_matches_append_iff]
  grind

theorem spelled_thisRef_iff {occurrence : Occurrence} :
    (thisRef occurrence).Spelled tokens ↔
      occurrence.name.isKeyword .thisKw ∧ tokens = [occurrence.name] := by
  simp only [Spelled, marks, List.forall₂_cons_left_iff, List.forall₂_nil_left_iff,
    Mark.matches_keeping, Token.isKeyword, beq_iff_eq]
  grind

theorem spelled_superRef_iff {occurrence : Occurrence} {method : Token} :
    (superRef occurrence method).Spelled tokens ↔ ∃ dot, occurrence.name.isKeyword .superKw ∧
      dot.isSymbol .dot ∧ method.isIdentifier ∧ tokens = [occurrence.name, dot, method] := by
  simp only [Spelled, marks, List.forall₂_cons_left_iff, List.forall₂_nil_left_iff,
    Mark.matches_keeping, Mark.matches_symbol, Token.isKeyword, Token.isIdentifier,
    beq_iff_eq]
  grind

/-! ### The tokens of several expressions -/

theorem spelledAll_nil_iff : SpelledAll [] tokens ↔ tokens = [] := by
  simp [SpelledAll, marksAll]

theorem spelledAll_singleton_iff {expression : Expr} :
    SpelledAll [expression] tokens ↔ expression.Spelled tokens := by
  rw [SpelledAll, Spelled, marksAll]

theorem spelledAll_cons_iff {expression next : Expr} {rest : List Expr} :
    SpelledAll (expression :: next :: rest) tokens ↔ ∃ first comma others,
      expression.Spelled first ∧ comma.isSymbol .comma ∧ SpelledAll (next :: rest) others ∧
        tokens = first ++ comma :: others := by
  rw [SpelledAll, marksAll]
  simp only [Spelled, SpelledAll, List.forall₂_cons_left_iff, forall₂_matches_append_iff,
    Mark.matches_symbol]
  grind

end Expr

end LoxLang
