import LoxLang.Decimal.Layout
import LoxLang.Tree.Basic

/-!
# Outlines of expressions

An expression written out with its operators in front and a pair of parentheses around every
compound part, such as `(* (- 123.0) (group 45.67))`.
-/

namespace LoxLang

namespace Expr

/-- Numbers in an outline have no exponent.  A whole number has all its digits and the fraction
`.0`; any other number has its shortest digits. -/
def outlineLayout : Layout where
  tie := .up
  positional _ := true
  keepFraction := true
  wholeExact := true
  exponentPlus := false
  signedZero := true
  nan := "NaN"
  infinity := "inf"
  minusInfinity := "-inf"

/-- A constant in an outline; a string stands without its quotation marks. -/
def outlineLiteral : Literal → String
  | .nil => "nil"
  | .bool value => toString value
  | .number value => outlineLayout.write value
  | .string value => value

mutual

/-- The outline of an expression. -/
def outline : Expr → String
  | .literal value => outlineLiteral value
  | .grouping inner => "(group " ++ inner.outline ++ ")"
  | .unary operator operand => "(" ++ operator.lexeme ++ " " ++ operand.outline ++ ")"
  | .binary operator left right =>
      "(" ++ operator.lexeme ++ " " ++ left.outline ++ " " ++ right.outline ++ ")"
  | .logical operator left right =>
      "(" ++ operator.lexeme ++ " " ++ left.outline ++ " " ++ right.outline ++ ")"
  | .variable occurrence => occurrence.name.lexeme
  | .assign target value => "(= " ++ target.name.lexeme ++ " " ++ value.outline ++ ")"
  | .call callee _ arguments => "(call " ++ callee.outline ++ outlineAll arguments ++ ")"
  | .get object name => "(. " ++ object.outline ++ " " ++ name.lexeme ++ ")"
  | .set object name value =>
      "(= " ++ object.outline ++ "." ++ name.lexeme ++ " " ++ value.outline ++ ")"
  | .thisRef _ => "this"
  | .superRef _ method => "(super " ++ method.lexeme ++ ")"

/-- The outlines of several expressions, with a space before each. -/
def outlineAll : List Expr → String
  | [] => ""
  | expression :: rest => " " ++ expression.outline ++ outlineAll rest

end

end Expr

end LoxLang
