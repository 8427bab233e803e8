import LoxLang.Proofs.Scope.StaticRules
import LoxLang.Proofs.Tree.Respelling

/-!
# Places in respelled programs

A program whose variables are spelled in another way has the same places, inside the same
constructs; only the names that are declared there may be other ones.
-/

namespace LoxLang

/-! ## Parts of respelled trees -/

section

variable (spell : String → String)

theorem Expr.operands_respell (expression : Expr) :
    (expression.respell spell).operands = expression.operands.map (Expr.respell spell) := by
  cases expression with
  | call callee paren arguments =>
      rw [respell, operands, operands, Expr.respellAll_eq_map, List.map_cons]
  | _ => rfl

namespace Stmt

theorem expressions_respell (statement : Stmt) :
    (statement.respell spell).expressions = statement.expressions.map (Expr.respell spell) := by
  cases statement with
  | returnValue keyword value => cases value <;> rfl
  | varDecl name initializer => cases initializer <;> rfl
  | conditional condition thenBranch elseBranch => cases elseBranch <;> rfl
  | _ => rfl

theorem branches_respell (statement : Stmt) :
    (statement.respell spell).branches = statement.branches.map (Stmt.respell spell) := by
  cases statement with
  | conditional condition thenBranch elseBranch => cases elseBranch <;> rfl
  | _ => rfl

theorem enclosed_respell (statement : Stmt) :
    (statement.respell spell).enclosed = statement.enclosed.map (Stmt.respell spell) := by
  cases statement with
  | block body => exact Stmt.respellAll_eq_map spell body
  | function declaration =>
      exact (declaration.body_respell spell).trans (Stmt.respellAll_eq_map spell declaration.body)
  | classDecl name superclass methods =>
      simp only [respell, enclosed, FunctionDecl.respellAll_eq_map, List.flatMap_map,
        List.map_flatMap, FunctionDecl.body_respell, Stmt.respellAll_eq_map]
  | conditional condition thenBranch elseBranch => cases elseBranch <;> rfl
  | _ => rfl

theorem sizeOf_lt_of_mem_enclosed {statement inner : Stmt} (h : inner ∈ statement.enclosed) :
    sizeOf inner < sizeOf statement := by
  have hbodies : ∃ body ∈ statement.bodies [], inner ∈ body.2 := by
    cases statement with
    | block body => exact ⟨_, List.mem_singleton_self _, h⟩
    | function declaration => exact ⟨_, List.mem_singleton_self _, h⟩
    | classDecl name superclass methods =>
        obtain ⟨method, hmethod, hinner⟩ := List.mem_flatMap.1 h
        exact ⟨_, List.mem_map_of_mem hmethod, hinner⟩
    | _ => cases h
  obtain ⟨body, hbody, hinner⟩ := hbodies
  exact (List.sizeOf_lt_of_mem hinner).trans (Stmt.sizeOf_lt_of_mem_bodies hbody)

end Stmt

end

/-! ## Well-formed trees -/

section

variable {spell : String → String} {genuine genuine' : Token → Prop}

/-- An expression is formed if its names are genuine once they are spelled in another way. -/
theorem Expr.Formed.of_respell
    (hnames : ∀ token : Token, (token.respell spell).Names genuine → token.Names genuine')
    (hgenuine : ∀ token, genuine token → genuine' token) (expression : Expr)
    (h : (expression.respell spell).Formed genuine) : expression.Formed genuine' := by
  have hspells : expression.Spells genuine' := by
    have hrespelled := h.spells
    cases expression with
    | «variable» occurrence => exact hnames occurrence.name hrespelled
    | assign target value => exact hnames target.name hrespelled
    | thisRef occurrence => exact ⟨hrespelled.1, hgenuine _ hrespelled.2⟩
    | superRef occurrence method => exact ⟨hrespelled.1, hgenuine _ hrespelled.2⟩
    | unary operator operand => exact hrespelled
    | binary operator left right => exact hrespelled
    | _ => trivial
  refine .mk hspells fun operand hoperand => ?_
  have hlt := Expr.sizeOf_lt_of_mem_operands hoperand
  have hmem : operand.respell spell ∈ (expression.respell spell).operands := by
    rw [operands_respell]
    exact List.mem_map_of_mem hoperand
  exact of_respell hnames hgenuine operand (h.operand hmem)
termination_by sizeOf expression

theorem FunctionDecl.Spells.of_respell
    (hnames : ∀ token : Token, (token.respell spell).Names genuine → token.Names genuine')
    {declaration : FunctionDecl} (h : (declaration.respell spell).Spells genuine) :
    declaration.Spells genuine' := by
  intro param hparam
  refine hnames param (h _ ?_)
  rw [declaration.params_respell]
  exact List.mem_map_of_mem hparam

/-- A statement is formed if its names are genuine once they are spelled in another way. -/
theorem Stmt.Formed.of_respell
    (hnames : ∀ token : Token, (token.respell spell).Names genuine → token.Names genuine')
    (hgenuine : ∀ token, genuine token → genuine' token) (statement : Stmt)
    (h : (statement.respell spell).Formed genuine) : statement.Formed genuine' := by
  have hname {name : Token} (h : name.Names genuine) : name.Names genuine' :=
    ⟨h.1, hgenuine name h.2⟩
  have hspells : statement.Spells genuine' := by
    have hrespelled := h.spells
    cases statement with
    | varDecl name initializer => exact hnames name hrespelled
    | function declaration =>
        obtain ⟨hown, hparams⟩ := hrespelled
        rw [declaration.name_respell] at hown
        exact ⟨hname hown, .of_respell hnames hparams⟩
    | classDecl name superclass methods =>
        obtain ⟨hown, hsuperclass, hmethods⟩ := hrespelled
        refine ⟨hname hown, ?_, fun method hmethod => .of_respell hnames (hmethods _ ?_)⟩
        · rintro occurrence rfl
          exact hnames occurrence.name (hsuperclass _ rfl)
        · rw [FunctionDecl.respellAll_eq_map]
          exact List.mem_map_of_mem hmethod
    | _ => trivial
  refine .mk hspells ?_ ?_ ?_ ?_
  · intro expression hexpression
    refine .of_respell hnames hgenuine expression (h.expression ?_)
    rw [expressions_respell]
    exact List.mem_map_of_mem hexpression
  · intro branch hbranch
    have hnone : (branch.respell spell).declared? = none := by
      refine h.declared?_branch ?_
      rw [branches_respell]
      exact List.mem_map_of_mem hbranch
    cases branch <;> first | rfl | cases hnone
  · intro branch hbranch
    have hlt := Stmt.sizeOf_lt_of_mem_branches hbranch
    refine of_respell hnames hgenuine branch (h.branch ?_)
    rw [branches_respell]
    exact List.mem_map_of_mem hbranch
  · intro inner hinner
    have hlt := Stmt.sizeOf_lt_of_mem_enclosed hinner
    refine of_respell hnames hgenuine inner (h.enclosed ?_)
    rw [enclosed_respell]
    exact List.mem_map_of_mem hinner
termination_by sizeOf statement

/-- A program is formed if its names are genuine once they are spelled in another way. -/
theorem Program.Formed.of_respell
    (hnames : ∀ token : Token, (token.respell spell).Names genuine → token.Names genuine')
    (hgenuine : ∀ token, genuine token → genuine' token) {program : Program}
    (h : (program.respell spell).Formed genuine) : program.Formed genuine' := by
  intro statement hstatement
  refine .of_respell hnames hgenuine statement (h _ ?_)
  rw [Program.respell, Stmt.respellAll_eq_map]
  exact List.mem_map_of_mem hstatement

end

/-! ## Names that keep their spelling -/

section

variable {genuine genuine' : Token → Prop} (hgenuine : ∀ token, genuine token → genuine' token)

include hgenuine

theorem Token.Names.mono {token : Token} (h : token.Names genuine) : token.Names genuine' :=
  ⟨h.1, hgenuine token h.2⟩

/-- What is formed of genuine tokens is formed of them if more are genuine. -/
theorem Expr.Formed.mono {expression : Expr} (h : expression.Formed genuine) :
    expression.Formed genuine' := by
  induction h with
  | @mk expression hspells _ ih =>
      refine .mk ?_ ih
      cases expression with
      | «variable» occurrence => exact hspells.mono hgenuine
      | assign target value => exact hspells.mono hgenuine
      | thisRef occurrence => exact ⟨hspells.1, hgenuine _ hspells.2⟩
      | superRef occurrence method => exact ⟨hspells.1, hgenuine _ hspells.2⟩
      | unary operator operand => exact hspells
      | binary operator left right => exact hspells
      | _ => trivial

theorem Stmt.Formed.mono {statement : Stmt} (h : statement.Formed genuine) :
    statement.Formed genuine' := by
  induction h with
  | @mk statement hspells hexpressions hdeclared _ _ ihbranches ihenclosed =>
      refine .mk ?_ (fun expression hexpression => (hexpressions _ hexpression).mono hgenuine)
        hdeclared ihbranches ihenclosed
      cases statement with
      | varDecl name initializer => exact hspells.mono hgenuine
      | function declaration =>
          exact ⟨hspells.1.mono hgenuine, fun param hparam =>
            (hspells.2 param hparam).mono hgenuine⟩
      | classDecl name superclass methods =>
          obtain ⟨hname, hsuperclass, hmethods⟩ := hspells
          exact ⟨hname.mono hgenuine, fun occurrence hmem => (hsuperclass _ hmem).mono hgenuine,
            fun method hmethod param hparam => (hmethods method hmethod param hparam).mono hgenuine⟩
      | _ => trivial

theorem Program.Formed.mono {program : Program} (h : program.Formed genuine) :
    program.Formed genuine' :=
  fun statement hstatement => (h statement hstatement).mono hgenuine

end

section

variable {spell : String → String}

/-- A token that keeps its spelling. -/
def Token.Keeps (spell : String → String) (token : Token) : Prop :=
  spell token.lexeme = token.lexeme

theorem Token.Keeps.respell_eq {token : Token} (h : token.Keeps spell) :
    token.respell spell = token := by
  rw [respell, h]

theorem Occurrence.respell_eq {occurrence : Occurrence} (h : occurrence.name.Keeps spell) :
    occurrence.respell spell = occurrence := by
  rw [respell, h.respell_eq]

mutual

/-- An expression stays as it is if its names do. -/
theorem Expr.respell_eq_self :
    (expression : Expr) → expression.Formed (Token.Keeps spell) →
      expression.respell spell = expression
  | .literal _, _ => rfl
  | .grouping inner, h => by
      rw [respell, inner.respell_eq_self (h.operand List.mem_cons_self)]
  | .unary _ operand, h => by
      rw [respell, operand.respell_eq_self (h.operand List.mem_cons_self)]
  | .binary _ left right, h => by
      rw [respell, left.respell_eq_self (h.operand List.mem_cons_self),
        right.respell_eq_self (h.operand (List.mem_cons_of_mem _ List.mem_cons_self))]
  | .logical _ left right, h => by
      rw [respell, left.respell_eq_self (h.operand List.mem_cons_self),
        right.respell_eq_self (h.operand (List.mem_cons_of_mem _ List.mem_cons_self))]
  | .variable occurrence, h => congrArg Expr.variable (Occurrence.respell_eq h.spells.2)
  | .assign target value, h => by
      rw [respell, value.respell_eq_self (h.operand List.mem_cons_self),
        Occurrence.respell_eq h.spells.2]
  | .call callee _ arguments, h => by
      rw [respell, callee.respell_eq_self (h.operand List.mem_cons_self),
        Expr.respellAll_eq_self arguments fun argument hargument =>
          h.operand (List.mem_cons_of_mem _ hargument)]
  | .get object _, h => by
      rw [respell, object.respell_eq_self (h.operand List.mem_cons_self)]
  | .set object _ value, h => by
      rw [respell, object.respell_eq_self (h.operand List.mem_cons_self),
        value.respell_eq_self (h.operand (List.mem_cons_of_mem _ List.mem_cons_self))]
  | .thisRef _, _ => rfl
  | .superRef _ _, _ => rfl

theorem Expr.respellAll_eq_self :
    (expressions : List Expr) →
      (∀ expression ∈ expressions, expression.Formed (Token.Keeps spell)) →
      Expr.respellAll spell expressions = expressions
  | [], _ => rfl
  | expression :: rest, h => by
      rw [respellAll, expression.respell_eq_self (h _ List.mem_cons_self),
        Expr.respellAll_eq_self rest fun other hother => h other (List.mem_cons_of_mem _ hother)]

end

theorem Expr.map_respell_eq_self (expression : Option Expr)
    (h : ∀ value ∈ expression.toList, value.Formed (Token.Keeps spell)) :
    expression.map (Expr.respell spell) = expression := by
  cases expression with
  | none => rfl
  | some expression => exact congrArg some (expression.respell_eq_self (h _ List.mem_cons_self))

theorem FunctionDecl.map_respell_params {params : List Token}
    (h : ∀ param ∈ params, param.Names (Token.Keeps spell)) :
    params.map (Token.respell spell) = params :=
  (List.map_congr_left fun param hparam => Token.Keeps.respell_eq (h param hparam).2).trans
    (List.map_id params)

mutual

/-- A statement stays as it is if its names do. -/
theorem Stmt.respell_eq_self :
    (statement : Stmt) → statement.Formed (Token.Keeps spell) →
      statement.respell spell = statement
  | .block body, h => by
      rw [Stmt.respell, Stmt.respellAll_eq_self body fun _ hinner => h.enclosed hinner]
  | .classDecl name superclass methods, h => by
      obtain ⟨-, hsuperclass, hmethods⟩ := h.spells
      have hclause : superclass.map (Occurrence.respell spell) = superclass := by
        cases superclass with
        | none => rfl
        | some occurrence => exact congrArg some (Occurrence.respell_eq (hsuperclass _ rfl).2)
      rw [Stmt.respell, hclause, FunctionDecl.respellAll_eq_self methods hmethods
        fun method hmethod _ hinner => h.enclosed (List.mem_flatMap.2 ⟨method, hmethod, hinner⟩)]
  | .expression value, h => by
      rw [Stmt.respell, value.respell_eq_self (h.expression List.mem_cons_self)]
  | .function declaration, h => by
      rw [Stmt.respell, declaration.respell_eq_self h.spells.2 fun _ hinner => h.enclosed hinner]
  | .conditional condition thenBranch none, h => by
      rw [Stmt.respell, condition.respell_eq_self (h.expression List.mem_cons_self),
        thenBranch.respell_eq_self (h.branch List.mem_cons_self)]
  | .conditional condition thenBranch (some elseBranch), h => by
      rw [Stmt.respell, condition.respell_eq_self (h.expression List.mem_cons_self),
        thenBranch.respell_eq_self (h.branch List.mem_cons_self),
        elseBranch.respell_eq_self (h.branch (List.mem_cons_of_mem _ List.mem_cons_self))]
  | .print value, h => by
      rw [Stmt.respell, value.respell_eq_self (h.expression List.mem_cons_self)]
  | .returnValue keyword value, h => by
      rw [Stmt.respell, Expr.map_respell_eq_self value fun _ hvalue => h.expression hvalue]
  | .varDecl name initializer, h => by
      rw [Stmt.respell, Token.Keeps.respell_eq h.spells.2,
        Expr.map_respell_eq_self initializer fun _ hvalue => h.expression hvalue]
  | .whileLoop condition body, h => by
      rw [Stmt.respell, condition.respell_eq_self (h.expression List.mem_cons_self),
        body.respell_eq_self (h.branch List.mem_cons_self)]

theorem Stmt.respellAll_eq_self :
    (statements : List Stmt) →
      (∀ statement ∈ statements, statement.Formed (Token.Keeps spell)) →
      Stmt.respellAll spell statements = statements
  | [], _ => rfl
  | statement :: rest, h => by
      rw [Stmt.respellAll, statement.respell_eq_self (h _ List.mem_cons_self),
        Stmt.respellAll_eq_self rest fun other hother => h other (List.mem_cons_of_mem _ hother)]

theorem FunctionDecl.respell_eq_self :
    (declaration : FunctionDecl) → declaration.Spells (Token.Keeps spell) →
      (∀ inner ∈ declaration.body, inner.Formed (Token.Keeps spell)) →
      declaration.respell spell = declaration
  | .mk name params body, hparams, hbody => by
      have hsame : params.map (Token.respell spell) = params :=
        FunctionDecl.map_respell_params hparams
      rw [FunctionDecl.respell, hsame, Stmt.respellAll_eq_self body hbody]

theorem FunctionDecl.respellAll_eq_self :
    (methods : List FunctionDecl) → (∀ method ∈ methods, method.Spells (Token.Keeps spell)) →
      (∀ method ∈ methods, ∀ inner ∈ method.body, inner.Formed (Token.Keeps spell)) →
      FunctionDecl.respellAll spell methods = methods
  | [], _, _ => rfl
  | method :: rest, hparams, hbodies => by
      rw [FunctionDecl.respellAll,
        method.respell_eq_self (hparams _ List.mem_cons_self) (hbodies _ List.mem_cons_self),
        FunctionDecl.respellAll_eq_self rest
          (fun other hother => hparams other (List.mem_cons_of_mem _ hother))
          fun other hother => hbodies other (List.mem_cons_of_mem _ hother)]

end

/-- A program whose names keep their spelling is the same program. -/
theorem Program.respell_eq_self {program : Program} (h : program.Formed (Token.Keeps spell)) :
    program.respell spell = program :=
  Stmt.respellAll_eq_self program h

end

/-! ## Places -/

/-- A construct in which variables are spelled in another way. -/
def Construct.respell (spell : String → String) : Construct → Construct
  | block body => block (Stmt.respellAll spell body)
  | function declaration => function (declaration.respell spell)
  | method declaration => method (declaration.respell spell)
  | classBody name superclass methods =>
      classBody name (superclass.map (Occurrence.respell spell))
        (FunctionDecl.respellAll spell methods)
  | inheritance name superclass methods =>
      inheritance name (superclass.respell spell) (FunctionDecl.respellAll spell methods)

/-- A part of a program in which variables are spelled in another way. -/
def Part.respell (spell : String → String) : Part → Part
  | expression value => expression (value.respell spell)
  | statement single => statement (single.respell spell)
  | statements rest => statements (Stmt.respellAll spell rest)

/-- The constructs around a place, the innermost first. -/
def Path.constructs (path : Path) : List Construct :=
  path.map Enclosure.construct

namespace Path

theorem constructs_after (path : Path) (statement : Stmt) :
    (path.after statement).constructs = path.constructs := by
  rw [after]
  split
  · exact path.constructs_enter _
  · rfl

theorem constructs_inClass_respell (spell : String → String) {path respelled : Path}
    (h : respelled.constructs = path.constructs.map (Construct.respell spell)) (name : Token)
    (superclass : Option Occurrence) (methods : List FunctionDecl) :
    (respelled.inClass name (superclass.map (Occurrence.respell spell))
        (FunctionDecl.respellAll spell methods)).constructs =
      (path.inClass name superclass methods).constructs.map (Construct.respell spell) := by
  have henter : (respelled.enter name.lexeme).constructs =
      (path.enter name.lexeme).constructs.map (Construct.respell spell) := by
    rw [constructs, constructs_enter, constructs, constructs_enter]
    exact h
  cases superclass with
  | none => exact congrArg (Construct.classBody name none _ :: ·) henter
  | some superclass =>
      exact congrArg (Construct.classBody name _ _ :: Construct.inheritance name _ _ :: ·) henter

end Path

/-- Where a part of a program stands there stands the respelled part of the respelled program,
inside the respelled constructs. -/
theorem Located.respell (spell : String → String) {program : Program} {path : Path} {part : Part}
    (h : Located program path part) :
    ∃ respelled : Path, Located (program.respell spell) respelled (part.respell spell) ∧
      respelled.constructs = path.constructs.map (Construct.respell spell) := by
  induction h with
  | program => exact ⟨[], .program, rfl⟩
  | first _ ih =>
      obtain ⟨respelled, hlocated, hconstructs⟩ := ih
      exact ⟨respelled, hlocated.first, hconstructs⟩
  | @rest path statement rest _ ih =>
      obtain ⟨respelled, hlocated, hconstructs⟩ := ih
      refine ⟨_, hlocated.rest, ?_⟩
      rw [Path.constructs_after, Path.constructs_after, hconstructs]
  | block _ ih =>
      obtain ⟨respelled, hlocated, hconstructs⟩ := ih
      exact ⟨_, hlocated.block, congrArg (Construct.block _ :: ·) hconstructs⟩
  | @function path declaration _ ih =>
      obtain ⟨respelled, hlocated, hconstructs⟩ := ih
      have hbody := hlocated.function
      rw [declaration.body_respell] at hbody
      refine ⟨_, hbody, ?_⟩
      refine congrArg (Construct.function _ :: ·) ?_
      rw [Path.constructs_enter, Path.constructs_enter]
      exact hconstructs
  | @method path name superclass methods method _ hmethod ih =>
      obtain ⟨respelled, hlocated, hconstructs⟩ := ih
      have hmem : method.respell spell ∈ FunctionDecl.respellAll spell methods := by
        rw [FunctionDecl.respellAll_eq_map]
        exact List.mem_map_of_mem hmethod
      have hbody := hlocated.method hmem
      rw [method.body_respell] at hbody
      exact ⟨_, hbody, congrArg (Construct.method _ :: ·)
        (Path.constructs_inClass_respell spell hconstructs name superclass methods)⟩
  | @branch path statement branch _ hbranch ih =>
      obtain ⟨respelled, hlocated, hconstructs⟩ := ih
      refine ⟨respelled, hlocated.branch ?_, hconstructs⟩
      rw [statement.branches_respell]
      exact List.mem_map_of_mem hbranch
  | @expression path statement expression _ hexpression ih =>
      obtain ⟨respelled, hlocated, hconstructs⟩ := ih
      refine ⟨respelled, hlocated.expression ?_, hconstructs⟩
      rw [statement.expressions_respell]
      exact List.mem_map_of_mem hexpression
  | @operand path expression operand _ hoperand ih =>
      obtain ⟨respelled, hlocated, hconstructs⟩ := ih
      refine ⟨respelled, hlocated.operand ?_, hconstructs⟩
      rw [expression.operands_respell]
      exact List.mem_map_of_mem hoperand

end LoxLang
