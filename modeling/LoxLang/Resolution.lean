import Std.Data.TreeMap
import LoxLang.Tree.Basic

/-!
# Resolution of names

Before a program runs, every occurrence of a name is looked up in the scopes around it, and the
static rules are checked.  What comes out is a list of `Finding`s in the order in which the program
is walked: how many scopes out each occurrence finds its binding, or that it names a global, and the
faults in between.  A fault does not stop the walk.

The scopes around a statement depend only on the declarations before it, not on what was found in
them; so the walk needs no state, and `Scopes.after` says what each statement adds.
-/

namespace LoxLang

/-- The static rules. -/
inductive StaticRule where
  | declaredOnce
  | notInOwnInitializer
  | returnInFunction
  | noValueFromInitializer
  | thisInClass
  | superInClass
  | superInSubclass
  | noSelfInheritance
deriving DecidableEq, Repr

/-- A static rule that is broken at some token. -/
structure StaticFault where
  rule : StaticRule
  token : Token
deriving DecidableEq

/-- What resolution says about one place of a program. -/
inductive Finding where
  /-- The binding of an occurrence, by the number of scopes to go out; none for a global. -/
  | binding (occurrence : Occurrence) (distance : Option Nat)
  | fault (fault : StaticFault)
deriving DecidableEq

/-- The function around a place. -/
inductive FunctionContext where
  | outside
  | function
  | initializer
  | method
deriving DecidableEq, Repr

/-- The class around a place. -/
inductive ClassContext where
  | outside
  | plain
  | derived
deriving DecidableEq, Repr

/-- What stands around a place, scopes apart. -/
structure Context where
  function : FunctionContext
  classBody : ClassContext

/-- The names of a scope, and whether each may be read yet. -/
abbrev ScopeNames := List (String × Bool)

/-- The scopes around a place, the innermost first.  The global scope is not among them. -/
abbrev Scopes := List ScopeNames

namespace Scopes

/-- Puts a name into the innermost scope. -/
def enter (scopes : Scopes) (name : String) (readable : Bool) : Scopes :=
  match scopes with
  | [] => []
  | scope :: outer => ((name, readable) :: scope) :: outer

/-- How many scopes to go out from the innermost to one that has a name. -/
def distance? (scopes : Scopes) (name : String) : Option Nat :=
  scopes.findIdx? fun scope => (scope.lookup name).isSome

/-- What the innermost scope says about a name. -/
def innermost? (scopes : Scopes) (name : String) : Option Bool :=
  match scopes with
  | [] => none
  | scope :: _ => scope.lookup name

/-- The fault of declaring a name a second time in the innermost scope. -/
def declaring (scopes : Scopes) (name : Token) : List Finding :=
  if (scopes.innermost? name.lexeme).isSome then [.fault ⟨.declaredOnce, name⟩] else []

/-- The binding of an occurrence. -/
def binding (scopes : Scopes) (occurrence : Occurrence) : Finding :=
  .binding occurrence (scopes.distance? occurrence.name.lexeme)

/-- A variable that is read. -/
def reading (scopes : Scopes) (occurrence : Occurrence) : List Finding :=
  let early :=
    if scopes.innermost? occurrence.name.lexeme = some false then
      [Finding.fault ⟨.notInOwnInitializer, occurrence.name⟩]
    else
      []
  early ++ [scopes.binding occurrence]

/-- The scopes behind a statement. -/
def after (scopes : Scopes) : Stmt → Scopes
  | .varDecl name _ => scopes.enter name.lexeme true
  | .function declaration => scopes.enter declaration.name.lexeme true
  | .classDecl name _ _ => scopes.enter name.lexeme true
  | _ => scopes

/-- The scopes inside a function with given parameters. -/
def withParams (scopes : Scopes) (params : List Token) : Scopes :=
  params.foldl (fun scopes param => scopes.enter param.lexeme true) ([] :: scopes)

/-- The faults among parameters that are declared one after the other. -/
def declaringParams (scopes : Scopes) : List Token → List Finding
  | [] => []
  | param :: rest =>
      scopes.declaring param ++ (scopes.enter param.lexeme true).declaringParams rest

/-- The scope in which methods find a word that the class binds for them. -/
def bound (scopes : Scopes) (word : String) : Scopes :=
  [(word, true)] :: scopes

end Scopes

/-- The name under which a method finds its instance. -/
def thisName : String := "this"

/-- The name under which a method finds the superclass of its class. -/
def superName : String := "super"

namespace Context

/-- The fault of using `this` outside a class. -/
def usingThis (context : Context) (occurrence : Occurrence) (scopes : Scopes) : List Finding :=
  match context.classBody with
  | .outside => [.fault ⟨.thisInClass, occurrence.name⟩]
  | _ => [scopes.binding occurrence]

/-- The faults of using `super` outside a class or in a class without a superclass; the word is
looked up all the same. -/
def usingSuper (context : Context) (occurrence : Occurrence) (scopes : Scopes) : List Finding :=
  let faults :=
    match context.classBody with
    | .outside => [Finding.fault ⟨.superInClass, occurrence.name⟩]
    | .plain => [Finding.fault ⟨.superInSubclass, occurrence.name⟩]
    | .derived => []
  faults ++ [scopes.binding occurrence]

/-- The fault of a `return` outside a function. -/
def returning (context : Context) (keyword : Token) : List Finding :=
  if context.function = .outside then [.fault ⟨.returnInFunction, keyword⟩] else []

/-- The fault of a `return` with a value in an initializer. -/
def returningValue (context : Context) (keyword : Token) : List Finding :=
  if context.function = .initializer then [.fault ⟨.noValueFromInitializer, keyword⟩] else []

/-- The place inside a method of a class. -/
def inMethod (context : Context) (method : FunctionDecl) : Context :=
  { context with function := if method.isInitializer then .initializer else .method }

end Context

mutual

/-- The findings in an expression.  Both the value and the object of an assignment to a property are
walked before anything is looked up, the value first. -/
def Expr.findings (context : Context) (scopes : Scopes) : Expr → List Finding
  | .literal _ => []
  | .grouping inner => inner.findings context scopes
  | .unary _ operand => operand.findings context scopes
  | .binary _ left right => left.findings context scopes ++ right.findings context scopes
  | .logical _ left right => left.findings context scopes ++ right.findings context scopes
  | .variable occurrence => scopes.reading occurrence
  | .assign target value => value.findings context scopes ++ [scopes.binding target]
  | .call callee _ arguments =>
      callee.findings context scopes ++ Expr.findingsAll context scopes arguments
  | .get object _ => object.findings context scopes
  | .set object _ value => value.findings context scopes ++ object.findings context scopes
  | .thisRef occurrence => context.usingThis occurrence scopes
  | .superRef occurrence _ => context.usingSuper occurrence scopes

/-- The findings in several expressions. -/
def Expr.findingsAll (context : Context) (scopes : Scopes) : List Expr → List Finding
  | [] => []
  | expression :: rest =>
      expression.findings context scopes ++ Expr.findingsAll context scopes rest

end

/-- The findings in an expression that may be missing. -/
def Expr.findingsOf (context : Context) (scopes : Scopes) : Option Expr → List Finding
  | none => []
  | some expression => expression.findings context scopes

/-- The findings in the head of a class: its name, and its superclass if it has one. -/
def Scopes.classHead (scopes : Scopes) (name : Token) (superclass : Option Occurrence) :
    List Finding :=
  let inside := scopes.enter name.lexeme true
  scopes.declaring name ++
    match superclass with
    | none => []
    | some occurrence =>
        (if occurrence.name.lexeme = name.lexeme then
          [.fault ⟨.noSelfInheritance, occurrence.name⟩]
        else
          []) ++ inside.reading occurrence

/-- The scopes around the methods of a class. -/
def Scopes.classBody (scopes : Scopes) (name : Token) (superclass : Option Occurrence) : Scopes :=
  let inside := scopes.enter name.lexeme true
  match superclass with
  | none => inside.bound thisName
  | some _ => (inside.bound superName).bound thisName

/-- The place in the body of a class. -/
def Context.inClass (context : Context) (superclass : Option Occurrence) : Context :=
  { context with classBody := if superclass.isSome then .derived else .plain }

mutual

/-- The findings in a statement. -/
def Stmt.findings (context : Context) (scopes : Scopes) : Stmt → List Finding
  | .block body => Stmt.findingsAll context ([] :: scopes) body
  | .classDecl name superclass methods =>
      scopes.classHead name superclass ++
        FunctionDecl.findingsAll (context.inClass superclass)
          (scopes.classBody name superclass) methods
  | .expression value => value.findings context scopes
  | .function declaration =>
      scopes.declaring declaration.name ++
        declaration.findings { context with function := .function }
          (scopes.enter declaration.name.lexeme true)
  | .conditional condition thenBranch elseBranch =>
      condition.findings context scopes ++ thenBranch.findings context scopes ++
        match elseBranch with
        | none => []
        | some elseBranch => elseBranch.findings context scopes
  | .print value => value.findings context scopes
  | .returnValue keyword value =>
      context.returning keyword ++
        match value with
        | none => []
        | some value => context.returningValue keyword ++ value.findings context scopes
  | .varDecl name initializer =>
      scopes.declaring name ++
        Expr.findingsOf context
          (if (scopes.innermost? name.lexeme).isSome then scopes
            else scopes.enter name.lexeme false)
          initializer
  | .whileLoop condition body => condition.findings context scopes ++ body.findings context scopes

/-- The findings in statements that follow one another. -/
def Stmt.findingsAll (context : Context) (scopes : Scopes) : List Stmt → List Finding
  | [] => []
  | statement :: rest =>
      statement.findings context scopes ++ Stmt.findingsAll context (scopes.after statement) rest

/-- The findings in the parameters and the body of a function. -/
def FunctionDecl.findings (context : Context) (scopes : Scopes) : FunctionDecl → List Finding
  | .mk _ params body =>
      Scopes.declaringParams ([] :: scopes) params ++
        Stmt.findingsAll context (scopes.withParams params) body

/-- The findings in the methods of a class. -/
def FunctionDecl.findingsAll (context : Context) (scopes : Scopes) :
    List FunctionDecl → List Finding
  | [] => []
  | method :: rest =>
      method.findings (context.inMethod method) scopes ++
        FunctionDecl.findingsAll context scopes rest

end

/-- The findings in a whole program, around which nothing stands. -/
def Program.findings (program : Program) : List Finding :=
  Stmt.findingsAll ⟨.outside, .outside⟩ [] program

/-- How far out each occurrence finds its binding; occurrences of globals have no entry. -/
abbrev Distances := Std.TreeMap NodeId Nat

namespace Distances

/-- Records what is found about one occurrence. -/
def record (distances : Distances) : Finding → Distances
  | .binding occurrence (some distance) => distances.insert occurrence.id distance
  | _ => distances

/-- Records what is found about many occurrences. -/
def recordAll (distances : Distances) (findings : List Finding) : Distances :=
  findings.foldl record distances

end Distances

/-- The fault in a finding, if it is one. -/
def Finding.fault? : Finding → Option StaticFault
  | .binding _ _ => none
  | .fault broken => some broken

/-- The faults in a whole program. -/
def Program.staticFaults (program : Program) : List StaticFault :=
  program.findings.filterMap Finding.fault?

end LoxLang
