import Mathlib.Logic.Basic
import LoxLang.Proofs.Scope.Place

/-!
# What resolution knows about a place

Resolution walks a program with scopes and a context.  At each place they are those of the
constructs around it, so the findings at a place are among the findings of the program.  There is
one exception: in the initializer of a variable, resolution has already entered its name, as one
that may not be read yet.
-/

namespace LoxLang

namespace Path

/-- The scopes of the constructs around a place. -/
def scopes (path : Path) : Scopes :=
  path.map fun enclosure => enclosure.declared.map fun name => (name, true)

/-- The function and the class around a place. -/
def context (path : Path) : Context where
  function :=
    match path.function? with
    | some (.function _) => .function
    | some (.method declaration) => if declaration.isInitializer then .initializer else .method
    | _ => .outside
  classBody :=
    match path.class? with
    | some (.classBody _ superclass _) => if superclass.isSome then .derived else .plain
    | _ => .outside

/-- The scopes in the initializer of a variable, unless the name has been declared before. -/
def pending (path : Path) (name : Token) : Scopes :=
  if (path.scopes.innermost? name.lexeme).isSome then path.scopes
  else path.scopes.enter name.lexeme false

/-! ### Scopes and context along the tree -/

theorem scopes_enter (path : Path) (name : String) :
    (path.enter name).scopes = path.scopes.enter name true := by
  cases path with
  | nil => rfl
  | cons enclosure outer => rfl

theorem scopes_after (path : Path) (statement : Stmt) :
    (path.after statement).scopes = path.scopes.after statement := by
  cases statement with
  | varDecl name _ => exact path.scopes_enter _
  | function declaration => exact path.scopes_enter _
  | classDecl name _ _ => exact path.scopes_enter _
  | _ => rfl

theorem scopes_block (path : Path) (body : List Stmt) :
    Path.scopes ((Construct.block body).opened :: path) = [] :: path.scopes := rfl

theorem foldl_enter (params : List Token) (scope : ScopeNames) (outer : Scopes) :
    params.foldl (fun scopes param => Scopes.enter scopes param.lexeme true) (scope :: outer) =
      ((params.map Token.lexeme).reverse.map (fun name => (name, true)) ++ scope) :: outer := by
  induction params generalizing scope with
  | nil => rfl
  | cons param params ih =>
      have henter : Scopes.enter (scope :: outer) param.lexeme true =
          ((param.lexeme, true) :: scope) :: outer := rfl
      rw [List.foldl_cons, henter, ih]
      simp

theorem scopes_function (path : Path) (declaration : FunctionDecl) :
    Path.scopes ((Construct.function declaration).opened :: path) =
      path.scopes.withParams declaration.params := by
  rw [Scopes.withParams, foldl_enter, List.append_nil]
  rfl

theorem scopes_method (path : Path) (declaration : FunctionDecl) :
    Path.scopes ((Construct.method declaration).opened :: path) =
      path.scopes.withParams declaration.params := by
  rw [Scopes.withParams, foldl_enter, List.append_nil]
  rfl

theorem scopes_inClass (path : Path) (name : Token) (superclass : Option Occurrence)
    (methods : List FunctionDecl) :
    (path.inClass name superclass methods).scopes = path.scopes.classBody name superclass := by
  cases superclass with
  | none =>
      rw [Scopes.classBody, ← scopes_enter]
      rfl
  | some superclass =>
      rw [Scopes.classBody, ← scopes_enter]
      rfl

theorem constructs_enter (path : Path) (name : String) :
    (path.enter name).map Enclosure.construct = path.map Enclosure.construct := by
  cases path with
  | nil => rfl
  | cons enclosure outer => rfl

theorem function?_enter (path : Path) (name : String) :
    (path.enter name).function? = path.function? := by
  rw [function?, constructs_enter, function?]

theorem class?_enter (path : Path) (name : String) :
    (path.enter name).class? = path.class? := by
  rw [class?, constructs_enter, class?]

theorem context_enter (path : Path) (name : String) : (path.enter name).context = path.context := by
  rw [context, function?_enter, class?_enter, context]

theorem context_after (path : Path) (statement : Stmt) :
    (path.after statement).context = path.context := by
  rw [after]
  split
  · exact path.context_enter _
  · rfl

theorem context_block (path : Path) (body : List Stmt) :
    Path.context ((Construct.block body).opened :: path) = path.context := rfl

theorem context_function (path : Path) (declaration : FunctionDecl) :
    Path.context ((Construct.function declaration).opened :: path) =
      { path.context with function := .function } := rfl

theorem context_method (path : Path) (name : Token) (superclass : Option Occurrence)
    (methods : List FunctionDecl) (method : FunctionDecl) :
    Path.context ((Construct.method method).opened :: path.inClass name superclass methods) =
      (path.context.inClass superclass).inMethod method := rfl

end Path

/-! ## Findings in expressions -/

/-- What resolution finds about an expression itself, apart from its operands. -/
def Expr.own (context : Context) (scopes : Scopes) : Expr → List Finding
  | .variable occurrence => scopes.reading occurrence
  | .assign target _ => [scopes.binding target]
  | .thisRef occurrence => context.usingThis occurrence scopes
  | .superRef occurrence _ => context.usingSuper occurrence scopes
  | _ => []

section

variable {context : Context} {scopes : Scopes} {finding : Finding}

theorem Expr.findingsAll_eq_flatMap (expressions : List Expr) :
    Expr.findingsAll context scopes expressions =
      expressions.flatMap (Expr.findings context scopes) := by
  induction expressions with
  | nil => rfl
  | cons expression rest ih => rw [Expr.findingsAll, ih, List.flatMap_cons]

/-- The findings in an expression are its own and those in its operands. -/
theorem Expr.mem_findings_iff_own_or_operand (expression : Expr) :
    finding ∈ expression.findings context scopes ↔
      finding ∈ expression.own context scopes ∨
        ∃ operand ∈ expression.operands, finding ∈ operand.findings context scopes := by
  cases expression <;>
    simp [Expr.findings, Expr.own, Expr.operands, Expr.findingsAll_eq_flatMap, or_comm]

theorem Expr.sizeOf_lt_of_mem_operands {expression operand : Expr}
    (h : operand ∈ expression.operands) : sizeOf operand < sizeOf expression := by
  cases expression with
  | literal _ => cases h
  | «variable» _ => cases h
  | thisRef _ => cases h
  | superRef _ _ => cases h
  | call callee paren arguments =>
      rcases List.mem_cons.1 h with rfl | hargument
      · simp
        omega
      · have hlt := List.sizeOf_lt_of_mem hargument
        simp
        omega
  | _ =>
      simp only [operands, List.mem_cons, List.not_mem_nil, or_false] at h
      rcases h with rfl | rfl <;> simp +arith

/-- What resolution finds in an expression it finds about one of its parts. -/
theorem Expr.mem_findings_iff (expression : Expr) :
    finding ∈ expression.findings context scopes ↔
      ∃ inner : Expr, inner.Inside expression ∧ finding ∈ inner.own context scopes := by
  constructor
  · intro h
    rcases expression.mem_findings_iff_own_or_operand.1 h with hown | ⟨operand, hoperand, hfinding⟩
    · exact ⟨expression, .refl, hown⟩
    · have hlt := Expr.sizeOf_lt_of_mem_operands hoperand
      obtain ⟨inner, hinside, hown⟩ := operand.mem_findings_iff.1 hfinding
      exact ⟨inner, .operand hoperand hinside, hown⟩
  · rintro ⟨inner, hinside, hown⟩
    induction hinside with
    | refl => exact (Expr.mem_findings_iff_own_or_operand _).2 (.inl hown)
    | operand hoperand _ ih =>
        exact (Expr.mem_findings_iff_own_or_operand _).2 (.inr ⟨_, hoperand, ih⟩)
termination_by sizeOf expression

end

/-! ## Findings in statements -/

section

variable {context : Context} {scopes : Scopes} {finding : Finding}

theorem FunctionDecl.findingsAll_eq_flatMap (methods : List FunctionDecl) :
    FunctionDecl.findingsAll context scopes methods =
      methods.flatMap fun method => method.findings (context.inMethod method) scopes := by
  induction methods with
  | nil => rfl
  | cons method rest ih => rw [FunctionDecl.findingsAll, ih, List.flatMap_cons]

theorem FunctionDecl.findings_eq (declaration : FunctionDecl) :
    declaration.findings context scopes =
      Scopes.declaringParams ([] :: scopes) declaration.params ++
        Stmt.findingsAll context (scopes.withParams declaration.params) declaration.body := by
  cases declaration with
  | mk name params body => rfl

end

namespace Stmt

/-- What resolution finds about a statement itself, apart from its expressions and from the
statements inside it. -/
def own (path : Path) : Stmt → List Finding
  | .classDecl name superclass methods =>
      path.scopes.classHead name superclass ++ methods.flatMap fun method =>
        Scopes.declaringParams ([] :: (path.inClass name superclass methods).scopes) method.params
  | .function declaration =>
      path.scopes.declaring declaration.name ++
        Scopes.declaringParams ([] :: (path.enter declaration.name.lexeme).scopes)
          declaration.params
  | .returnValue keyword value =>
      path.context.returning keyword ++
        if value.isSome then path.context.returningValue keyword else []
  | .varDecl name _ => path.scopes.declaring name
  | _ => []

/-- The scopes in which resolution walks the expressions of a statement. -/
def scopesInside (path : Path) : Stmt → Scopes
  | .varDecl name _ => path.pending name
  | _ => path.scopes

/-- What resolution finds in a statement, apart from the statements inside it. -/
def Shows (path : Path) (statement : Stmt) (finding : Finding) : Prop :=
  finding ∈ statement.own path ∨ ∃ expression ∈ statement.expressions,
    finding ∈ expression.findings path.context (statement.scopesInside path)

/-- The bodies that a statement opens scopes for, with the places at their starts. -/
def bodies (path : Path) : Stmt → List (Path × List Stmt)
  | .block body => [((Construct.block body).opened :: path, body)]
  | .function declaration =>
      [((Construct.function declaration).opened :: path.enter declaration.name.lexeme,
        declaration.body)]
  | .classDecl name superclass methods =>
      methods.map fun method =>
        ((Construct.method method).opened :: path.inClass name superclass methods, method.body)
  | _ => []

variable {finding : Finding} {path : Path}

/-- The findings in a statement are those that it shows and those in the statements inside it. -/
theorem mem_findings_iff (statement : Stmt) :
    finding ∈ statement.findings path.context path.scopes ↔
      statement.Shows path finding ∨
      (∃ branch ∈ statement.branches, finding ∈ branch.findings path.context path.scopes) ∨
      ∃ body ∈ statement.bodies path,
        finding ∈ Stmt.findingsAll body.1.context body.1.scopes body.2 := by
  cases statement with
  | classDecl name superclass methods =>
      simp [findings, FunctionDecl.findingsAll_eq_flatMap, FunctionDecl.findings_eq, Shows, own,
        expressions, branches, bodies, Path.scopes_method, Path.context_method,
        Path.scopes_inClass, and_or_left, exists_or, or_assoc, -Prod.exists]
  | function declaration =>
      simp [findings, FunctionDecl.findings_eq, Shows, own, expressions, branches, bodies,
        Path.scopes_function, Path.context_function, Path.context_enter, Path.scopes_enter,
        or_assoc]
  | conditional condition thenBranch elseBranch =>
      cases elseBranch <;>
        simp [findings, Shows, own, expressions, branches, bodies, scopesInside]
  | returnValue keyword value =>
      cases value <;>
        simp [findings, Shows, own, expressions, branches, bodies, scopesInside, or_assoc]
  | varDecl name initializer =>
      cases initializer <;>
        simp [findings, Shows, own, expressions, branches, bodies, scopesInside, Expr.findingsOf,
          Path.pending]
  | _ => simp [findings, Shows, own, expressions, branches, bodies, scopesInside,
      Path.scopes_block, Path.context_block]

theorem sizeOf_lt_of_mem_branches {statement branch : Stmt} (h : branch ∈ statement.branches) :
    sizeOf branch < sizeOf statement := by
  cases statement with
  | conditional condition thenBranch elseBranch =>
      rcases List.mem_cons.1 h with rfl | helse
      · simp
        omega
      · obtain rfl := Option.mem_toList.1 helse
        simp
        omega
  | whileLoop condition body =>
      obtain rfl := List.mem_singleton.1 h
      simp +arith
  | _ => cases h

theorem sizeOf_lt_of_mem_bodies {statement : Stmt} {body : Path × List Stmt}
    (h : body ∈ statement.bodies path) : sizeOf body.2 < sizeOf statement := by
  have hfunction : ∀ declaration : FunctionDecl,
      sizeOf declaration.body < sizeOf declaration := by
    rintro ⟨name, params, body⟩
    simp +arith [FunctionDecl.body]
  cases statement with
  | block body =>
      obtain rfl := List.mem_singleton.1 h
      simp
  | function declaration =>
      obtain rfl := List.mem_singleton.1 h
      have hlt := hfunction declaration
      simp
      omega
  | classDecl name superclass methods =>
      obtain ⟨method, hmethod, rfl⟩ := List.mem_map.1 h
      have hlt := hfunction method
      have hlt' := List.sizeOf_lt_of_mem hmethod
      simp
      omega
  | _ => cases h

end Stmt

/-! ## Findings in programs -/

variable {program : Program} {path : Path} {finding : Finding}

theorem Located.body {statement : Stmt} {body : Path × List Stmt}
    (h : Located program path (.statement statement)) (hbody : body ∈ statement.bodies path) :
    Located program body.1 (.statements body.2) := by
  cases statement with
  | block body =>
      obtain rfl := List.mem_singleton.1 hbody
      exact h.block
  | function declaration =>
      obtain rfl := List.mem_singleton.1 hbody
      exact h.function
  | classDecl name superclass methods =>
      obtain ⟨method, hmethod, rfl⟩ := List.mem_map.1 hbody
      exact h.method hmethod
  | _ => cases hbody

/-- What is found in a list of statements is found in one of them at its own place. -/
theorem Located.exists_statement {rest : List Stmt} (h : Located program path (.statements rest))
    (hfinding : finding ∈ Stmt.findingsAll path.context path.scopes rest) :
    ∃ path' : Path, ∃ statement ∈ rest, Located program path' (.statement statement) ∧
      finding ∈ statement.findings path'.context path'.scopes := by
  induction rest generalizing path with
  | nil => simp [Stmt.findingsAll] at hfinding
  | cons statement rest ih =>
      rw [Stmt.findingsAll] at hfinding
      rcases List.mem_append.1 hfinding with hfirst | hrest
      · exact ⟨path, statement, List.mem_cons_self, h.first, hfirst⟩
      · rw [← Path.scopes_after, ← path.context_after statement] at hrest
        obtain ⟨path', statement', hmem, hlocated, hfinding'⟩ := ih h.rest hrest
        exact ⟨path', statement', List.mem_cons_of_mem _ hmem, hlocated, hfinding'⟩

theorem Located.exists_shows (statement : Stmt) {path : Path}
    (h : Located program path (.statement statement))
    (hfinding : finding ∈ statement.findings path.context path.scopes) :
    ∃ (path' : Path) (statement' : Stmt), Located program path' (.statement statement') ∧
      statement'.Shows path' finding := by
  rcases statement.mem_findings_iff.1 hfinding with hshows | ⟨branch, hbranch, hfinding'⟩ |
    ⟨body, hbody, hfinding'⟩
  · exact ⟨path, statement, h, hshows⟩
  · have hlt := Stmt.sizeOf_lt_of_mem_branches hbranch
    exact Located.exists_shows branch (h.branch hbranch) hfinding'
  · obtain ⟨path', inner, hmem, hlocated, hfinding''⟩ := (h.body hbody).exists_statement hfinding'
    have hlt := List.sizeOf_lt_of_mem hmem
    have hlt' := Stmt.sizeOf_lt_of_mem_bodies hbody
    exact Located.exists_shows inner hlocated hfinding''
termination_by sizeOf statement

/-- What resolution finds in a part of a program, expressions apart. -/
def Part.findings (path : Path) : Part → List Finding
  | .expression _ => []
  | .statement single => single.findings path.context path.scopes
  | .statements rest => Stmt.findingsAll path.context path.scopes rest

/-- What resolution finds at a place is among what it finds in the program. -/
theorem Located.findings_subset {part : Part} (h : Located program path part) :
    part.findings path ⊆ program.findings := by
  induction h with
  | program => exact List.Subset.refl _
  | first _ ih =>
      rw [Part.findings, Stmt.findingsAll] at ih
      exact (List.append_subset.1 ih).1
  | @rest path statement rest _ ih =>
      rw [Part.findings, Stmt.findingsAll, ← Path.scopes_after,
        ← path.context_after statement] at ih
      exact (List.append_subset.1 ih).2
  | block _ ih =>
      refine fun finding hfinding => ih ((Stmt.mem_findings_iff _).2 (.inr (.inr ?_)))
      exact ⟨_, List.mem_singleton_self _, hfinding⟩
  | function _ ih =>
      refine fun finding hfinding => ih ((Stmt.mem_findings_iff _).2 (.inr (.inr ?_)))
      exact ⟨_, List.mem_singleton_self _, hfinding⟩
  | method _ hmethod ih =>
      refine fun finding hfinding => ih ((Stmt.mem_findings_iff _).2 (.inr (.inr ?_)))
      exact ⟨_, List.mem_map_of_mem hmethod, hfinding⟩
  | branch _ hbranch ih =>
      refine fun finding hfinding => ih ((Stmt.mem_findings_iff _).2 (.inr (.inl ?_)))
      exact ⟨_, hbranch, hfinding⟩
  | expression _ _ _ => exact List.nil_subset _
  | operand _ _ _ => exact List.nil_subset _

/-- Resolution finds in a program what the statements in it show at their places, and nothing
else. -/
theorem Program.mem_findings_iff :
    finding ∈ program.findings ↔ ∃ (path : Path) (statement : Stmt),
      Located program path (.statement statement) ∧ statement.Shows path finding := by
  constructor
  · intro h
    obtain ⟨path, statement, -, hlocated, hfinding⟩ := Located.program.exists_statement h
    exact hlocated.exists_shows statement hfinding
  · rintro ⟨path, statement, hlocated, hshows⟩
    exact hlocated.findings_subset (statement.mem_findings_iff.2 (.inl hshows))

/-- An expression is located inside one of the expressions of a located statement. -/
theorem located_expression_iff {expression : Expr} :
    Located program path (.expression expression) ↔ ∃ statement whole,
      Located program path (.statement statement) ∧ whole ∈ statement.expressions ∧
        expression.Inside whole := by
  constructor
  · intro h
    generalize hpart : Part.expression expression = part at h
    induction h generalizing expression with
    | expression hstatement hwhole _ =>
        cases hpart
        exact ⟨_, _, hstatement, hwhole, .refl⟩
    | operand _ hoperand ih =>
        cases hpart
        obtain ⟨statement, whole, hlocated, hwhole, hinside⟩ := ih rfl
        exact ⟨statement, whole, hlocated, hwhole, .trans (.operand hoperand .refl) hinside⟩
    | _ => cases hpart
  · rintro ⟨statement, whole, hlocated, hwhole, hinside⟩
    exact (hlocated.expression hwhole).inside hinside

end LoxLang
