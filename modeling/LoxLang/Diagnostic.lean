import LoxLang.Grammar.Fault
import LoxLang.Machine.Basic
import LoxLang.Token.Stream

/-!
# Diagnostics

The faults of all stages and their wording.  A fault in the source text is reported with its line in
front, and with its place if it is known; a fault of a running program with its line below.
-/

namespace LoxLang

/-- A fault of any stage. -/
inductive Diagnostic where
  | lexical (fault : LexicalFault)
  | syntactic (fault : SyntaxFault)
  | static (fault : StaticFault)
  | runtime (fault : RuntimeFault)
  /-- There is no room for the output. -/
  | outputFull
deriving DecidableEq

namespace LexicalCause

def message : LexicalCause → String
  | unexpectedCharacter => "Unexpected character."
  | unterminatedString => "Unterminated string."

end LexicalCause

namespace FunctionSort

def word : FunctionSort → String
  | function => "function"
  | method => "method"

end FunctionSort

namespace SyntaxCause

def message : SyntaxCause → String
  | className => "Expect class name."
  | superclassName => "Expect superclass name."
  | braceBeforeClassBody => "Expect '\x7b' before class body."
  | braceAfterClassBody => "Expect '\x7d' after class body."
  | functionName sort => "Expect " ++ sort.word ++ " name."
  | parenAfterFunctionName sort => "Expect '(' after " ++ sort.word ++ " name."
  | parameterName => "Expect parameter name."
  | parenAfterParameters => "Expect ')' after parameters."
  | braceBeforeFunctionBody sort => "Expect '\x7b' before " ++ sort.word ++ " body."
  | variableName => "Expect variable name."
  | semicolonAfterVariable => "Expect ';' after variable declaration."
  | parenAfterFor => "Expect '(' after 'for'."
  | semicolonAfterLoopCondition => "Expect ';' after loop condition."
  | parenAfterForClauses => "Expect ')' after for clauses."
  | parenAfterIf => "Expect '(' after 'if'."
  | parenAfterIfCondition => "Expect ')' after if condition."
  | semicolonAfterPrint => "Expect ';' after value."
  | semicolonAfterReturn => "Expect ';' after return value."
  | parenAfterWhile => "Expect '(' after 'while'."
  | parenAfterCondition => "Expect ')' after condition."
  | semicolonAfterExpression => "Expect ';' after expression."
  | braceAfterBlock => "Expect '\x7d' after block."
  | propertyName => "Expect property name after '.'."
  | parenAfterArguments => "Expect ')' after arguments."
  | dotAfterSuper => "Expect '.' after 'super'."
  | superclassMethodName => "Expect superclass method name."
  | parenAfterExpression => "Expect ')' after expression."
  | expression => "Expect expression."
  | endOfExpression => "Expect end of expression."
  | tooManyParameters => "Can't have more than 255 parameters."
  | tooManyArguments => "Can't have more than 255 arguments."
  | assignmentTarget => "Invalid assignment target."
  | nesting => "Too much nesting."

end SyntaxCause

namespace StaticRule

/-- What is said when a rule is broken. -/
def message : StaticRule → String
  | declaredOnce => "Already a variable with this name in scope."
  | notInOwnInitializer => "Can't read local variable in its own initializer."
  | returnInFunction => "Can't return from top-level code."
  | noValueFromInitializer => "Can't return a value from an initializer."
  | thisInClass => "Can't use 'this' outside of a class."
  | superInClass => "Can't use 'super' outside of a class."
  | superInSubclass => "Can't use 'super' in a class with no superclass."
  | noSelfInheritance => "A class can't inherit from itself."

end StaticRule

namespace RuntimeCause

def message : RuntimeCause → String
  | undefinedVariable name => "Undefined variable '" ++ name ++ "'."
  | undefinedProperty name => "Undefined property '" ++ name ++ "'."
  | propertyOfOther => "Only instances have properties."
  | fieldOfOther => "Only instances have fields."
  | operandNotNumber => "Operand must be a number."
  | operandsNotNumbers => "Operands must be numbers."
  | operandsNotAddable => "Operands must be two numbers or two strings."
  | notUnary => "Invalid unary operator."
  | notBinary => "Invalid binary operator."
  | notCallable => "Can only call function and classes."
  | argumentCount expected got =>
      "Expected " ++ toString expected ++ " arguments but got " ++ toString got ++ "."
  | callDepth => "Stack overflow."
  | superclassNotClass => "Superclass must be a class."
  | superUnresolved => "Can't use 'super' outside of a class."
  | superMisbound => "Invalid 'super' binding."

end RuntimeCause

namespace Place

/-- The line of a place. -/
def line : Place → Nat
  | token found => found.line
  | textEnd line => line

/-- A place in words. -/
def text : Place → String
  | token found => " at '" ++ found.lexeme ++ "'"
  | textEnd _ => " at end"

end Place

/-- A fault in the source text, with its line and the words for its place. -/
def sourceReport (line : Nat) (place message : String) : String :=
  "[line " ++ toString line ++ "] Error" ++ place ++ ": " ++ message

namespace Diagnostic

/-- What is reported. -/
def text : Diagnostic → String
  | lexical fault => sourceReport fault.line "" fault.cause.message
  | syntactic fault => sourceReport fault.place.line fault.place.text fault.cause.message
  | static fault =>
      sourceReport fault.token.line (Place.token fault.token).text fault.rule.message
  | runtime fault => fault.cause.message ++ "\n[line " ++ toString fault.line ++ "]"
  | outputFull => "sink full"

/-- The report of a failure. -/
def ofFailure : Failure → Diagnostic
  | .fault fault => runtime fault
  | .outputFull => outputFull

/-- Whether a diagnostic comes from running a program rather than from its text or its output. -/
def isRuntime : Diagnostic → Bool
  | runtime _ => true
  | _ => false

/-- Reports, each on lines of its own. -/
def report (diagnostics : List Diagnostic) : String :=
  diagnostics.foldl (fun text diagnostic => text ++ diagnostic.text ++ "\n") ""

end Diagnostic

end LoxLang
