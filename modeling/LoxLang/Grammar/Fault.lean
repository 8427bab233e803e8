import LoxLang.Token.Basic

/-!
# Syntax faults

What can be wrong with the order of the tokens of a program, and where.
-/

namespace LoxLang

/-- Whether a declaration with parameters stands by itself or in a class. -/
inductive FunctionSort where
  | function
  | method
deriving DecidableEq, Repr

/-- What is wrong with the tokens at some place. -/
inductive SyntaxCause where
  | className
  | superclassName
  | braceBeforeClassBody
  | braceAfterClassBody
  | functionName (sort : FunctionSort)
  | parenAfterFunctionName (sort : FunctionSort)
  | parameterName
  | parenAfterParameters
  | braceBeforeFunctionBody (sort : FunctionSort)
  | variableName
  | semicolonAfterVariable
  | parenAfterFor
  | semicolonAfterLoopCondition
  | parenAfterForClauses
  | parenAfterIf
  | parenAfterIfCondition
  | semicolonAfterPrint
  | semicolonAfterReturn
  | parenAfterWhile
  | parenAfterCondition
  | semicolonAfterExpression
  | braceAfterBlock
  | propertyName
  | parenAfterArguments
  | dotAfterSuper
  | superclassMethodName
  | parenAfterExpression
  | expression
  | endOfExpression
  | tooManyParameters
  | tooManyArguments
  | assignmentTarget
  | nesting
deriving DecidableEq, Repr

/-- Where a syntax fault lies: at a token, or at the end of the text, on the line given. -/
inductive Place where
  | token (token : Token)
  | textEnd (line : Nat)
deriving DecidableEq

/-- A fault in the order of the tokens. -/
structure SyntaxFault where
  cause : SyntaxCause
  place : Place
deriving DecidableEq

end LoxLang
