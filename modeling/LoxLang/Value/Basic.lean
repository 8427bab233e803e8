import LoxLang.Decimal.Layout
import LoxLang.Tree.Basic

/-!
# Values

What expressions evaluate to.  Functions, classes and instances have an identity, a number that no
other function, class or instance has, by which they are told apart; a copy of such a value has the
identity of the original.  What can change about them, the fields of an instance and the variables
that a function closes over, is in the store and not here.
-/

namespace LoxLang

/-- The number of a scope in the store. -/
abbrev ScopeId := Nat

/-- An environment: the scopes that are visible at some place, the innermost first. -/
abbrev Env := List ScopeId

/-- A function: its declaration, and the environment of that declaration. -/
structure Closure where
  identity : Nat
  declaration : FunctionDecl
  env : Env
  /-- Whether the function is the initializer of a class, whose calls yield the instance. -/
  isInitializer : Bool

namespace Closure

def name (closure : Closure) : String :=
  closure.declaration.name.lexeme

/-- How many arguments a call needs. -/
def arity (closure : Closure) : Nat :=
  closure.declaration.params.length

end Closure

/-- A class with its own methods, the latest first, and the class from which it inherits. -/
structure Class where
  identity : Nat
  name : String
  superclass : Option Class
  methods : List (String × Closure)

namespace Class

/-- The method of a given name: the class's own, or else the one that its superclass has. -/
def findMethod? (name : String) : Class → Option Closure
  | ⟨_, _, none, methods⟩ => methods.lookup name
  | ⟨_, _, some superclass, methods⟩ =>
      match methods.lookup name with
      | some method => some method
      | none => superclass.findMethod? name

/-- What is found is a method of the class itself, or else what its superclass has. -/
theorem findMethod?_eq_some_iff {ownClass : Class} {name : String} {method : Closure} :
    ownClass.findMethod? name = some method ↔
      ownClass.methods.lookup name = some method ∨
        ownClass.methods.lookup name = none ∧
          ∃ above, ownClass.superclass = some above ∧ above.findMethod? name = some method := by
  obtain ⟨identity, className, superclass, methods⟩ := ownClass
  cases superclass with
  | none => simp [findMethod?]
  | some above =>
      rw [findMethod?]
      cases methods.lookup name <;> simp

/-- The method that runs when the class is called. -/
def initializer? (ownClass : Class) : Option Closure :=
  ownClass.findMethod? FunctionDecl.initializerName

/-- How many arguments a call needs: those of the initializer. -/
def arity (ownClass : Class) : Nat :=
  (ownClass.initializer?.map Closure.arity).getD 0

end Class

/-- An instance of a class; its fields are in the store under its number. -/
structure Instance where
  identity : Nat
  ownClass : Class

/-- The functions that every program finds among its globals. -/
inductive Builtin where
  /-- Yields the number of seconds since the start of 1970. -/
  | clock
deriving DecidableEq, Repr

namespace Builtin

def name : Builtin → String
  | clock => "clock"

/-- How many arguments a call needs. -/
def arity : Builtin → Nat
  | clock => 0

end Builtin

/-- What an expression evaluates to. -/
inductive Value where
  | nil
  | bool (value : Bool)
  | number (value : Float)
  | string (value : String)
  | builtin (function : Builtin)
  | function (closure : Closure)
  | classValue (value : Class)
  | object (value : Instance)

namespace Value

/-- The value of a constant. -/
def ofLiteral : Literal → Value
  | .nil => nil
  | .bool value => bool value
  | .number value => number value
  | .string value => string value

/-- Whether a condition with this value holds: all values but `nil` and `false` do. -/
def isTruthy : Value → Bool
  | nil => false
  | bool value => value
  | _ => true

/-- The kind of a value, in a word, for those who look at values from outside.  No operation of the
language depends on it. -/
def typeName : Value → String
  | nil => "nil"
  | bool _ => "boolean"
  | number _ => "number"
  | string _ => "string"
  | builtin _ => "function"
  | function _ => "function"
  | classValue _ => "class"
  | object _ => "instance"

/-- Equality of values.  Values of different kinds differ, functions, classes and instances are
equal to themselves alone, and a number that is not a number differs from itself too. -/
def equals : Value → Value → Bool
  | nil, nil => true
  | bool left, bool right => left == right
  | number left, number right => Float.beq left right
  | string left, string right => left == right
  | builtin left, builtin right => left == right
  | function left, function right => left.identity == right.identity
  | classValue left, classValue right => left.identity == right.identity
  | object left, object right => left.identity == right.identity
  | _, _ => false

/-- Printed numbers have their shortest digits and no idle fraction; they have an exponent from
10^21 on and below 10^-6. -/
def numberLayout : Layout where
  tie := .up
  positional order := -6 ≤ order && order < 21
  keepFraction := false
  wholeExact := false
  exponentPlus := true
  signedZero := true
  nan := "NaN"
  infinity := "Infinity"
  minusInfinity := "-Infinity"

/-- The printed text of a value. -/
def text : Value → String
  | nil => "nil"
  | bool value => if value then "true" else "false"
  | number value => numberLayout.write value
  | string value => value
  | builtin _ => "<native fn>"
  | function closure => "<fn " ++ closure.name ++ ">"
  | classValue value => "<class " ++ value.name ++ ">"
  | object value => value.ownClass.name ++ " instance"

end Value

end LoxLang
