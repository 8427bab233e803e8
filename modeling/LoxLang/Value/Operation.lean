import LoxLang.Value.Basic

/-!
# Operations on values

Unary and binary operators, and what can go wrong while a program runs.
-/

namespace LoxLang

/-- What can go wrong while a program runs. -/
inductive RuntimeCause where
  | undefinedVariable (name : String)
  | undefinedProperty (name : String)
  | propertyOfOther
  | fieldOfOther
  | operandNotNumber
  | operandsNotNumbers
  | operandsNotAddable
  | notUnary
  | notBinary
  | notCallable
  | argumentCount (expected got : Nat)
  | callDepth
  | superclassNotClass
  | superUnresolved
  | superMisbound
deriving DecidableEq, Repr

/-- Something that went wrong at a token on some line. -/
structure RuntimeFault where
  cause : RuntimeCause
  line : Nat
deriving DecidableEq, Repr

/-- The fault with a given cause at a token. -/
def Token.fault (token : Token) (cause : RuntimeCause) : RuntimeFault :=
  ⟨cause, token.line⟩

/-- The fault of a name that has no variable. -/
def Token.undefined (name : Token) : RuntimeFault :=
  name.fault (.undefinedVariable name.lexeme)

namespace Value

/-- A unary operator applied to a value. -/
def unary (operator : Kind) (operand : Value) : Except RuntimeCause Value :=
  match operator with
  | .symbol .bang => .ok (bool !operand.isTruthy)
  | .symbol .minus =>
      match operand with
      | number value => .ok (number (-value))
      | _ => .error .operandNotNumber
  | _ => .error .notUnary

/-- The sum of two numbers, or two strings one after the other. -/
def add : Value → Value → Except RuntimeCause Value
  | number left, number right => .ok (number (left + right))
  | string left, string right => .ok (string (left ++ right))
  | _, _ => .error .operandsNotAddable

/-- A binary operator on two numbers. -/
def arithmetic (operator : Kind) (left right : Float) : Except RuntimeCause Value :=
  match operator with
  | .symbol .minus => .ok (number (left - right))
  | .symbol .star => .ok (number (left * right))
  | .symbol .slash => .ok (number (left / right))
  | .symbol .greater => .ok (bool (right < left))
  | .symbol .greaterEqual => .ok (bool (right ≤ left))
  | .symbol .less => .ok (bool (left < right))
  | .symbol .lessEqual => .ok (bool (left ≤ right))
  | _ => .error .notBinary

/-- A binary operator applied to two values.  Equality and sums take other values than numbers; any
other operator asks for numbers before it is looked at. -/
def binary (operator : Kind) (left right : Value) : Except RuntimeCause Value :=
  match operator with
  | .symbol .equalEqual => .ok (bool (left.equals right))
  | .symbol .bangEqual => .ok (bool !left.equals right)
  | .symbol .plus => left.add right
  | _ =>
      match left, right with
      | number left, number right => arithmetic operator left right
      | _, _ => .error .operandsNotNumbers

/-- Whether the left operand of a logical operator decides the result: a true one does for `or`, a
false one for any other operator. -/
def decides (operator : Kind) (left : Value) : Bool :=
  if operator = .keyword .orKw then left.isTruthy else !left.isTruthy

end Value

end LoxLang
