import LoxLang.Proofs.Scope.Declarations
import LoxLang.Proofs.Tree.Renaming

/-!
# Local variables

The variables of a block, a function or a method.  Each of them can be renamed, and what is renamed
in a program is a variable that is declared in it.
-/

namespace LoxLang

/-- The names of the variables that are declared in the scope, parameters first. -/
def Construct.variables (construct : Construct) : List String :=
  construct.params.map Token.lexeme ++ construct.body.filterMap Stmt.variable?

/-- The construct in which a variable of its own has its new name. -/
def Construct.rename (r : Renaming) : Construct → Construct
  | .block body => .block (Stmt.renameAll r 0 body)
  | .function declaration => .function (declaration.rename r 0)
  | .method declaration => .method (declaration.rename r 0)
  | construct => construct

/-- A variable is renamed somewhere in a part of a program. -/
inductive Part.Renames (r : Renaming) : Part → Part → Prop
  | statement {statement renamed : Stmt} : statement.Renames r renamed →
      Renames r (.statement statement) (.statement renamed)
  | statements {rest renamed : List Stmt} : Program.Renames r rest renamed →
      Renames r (.statements rest) (.statements renamed)

theorem Program.Renames.cons {r : Renaming} {rest renamed : List Stmt}
    (h : Program.Renames r rest renamed) (statement : Stmt) :
    Program.Renames r (statement :: rest) (statement :: renamed) := by
  cases h with
  | @mk before after old renamed hrenames =>
      have hmore : Program.Renames r ((statement :: before) ++ old :: after) _ := .mk hrenames
      exact hmore

theorem Program.Renames.head {r : Renaming} {statement renamed : Stmt}
    (h : statement.Renames r renamed) (rest : List Stmt) :
    Program.Renames r (statement :: rest) (renamed :: rest) := by
  have hhead : Program.Renames r ([] ++ statement :: rest) _ := .mk h
  exact hhead

/-- A variable that is renamed in a branch is renamed in the statement. -/
theorem Stmt.Renames.of_branch {r : Renaming} {statement branch renamed : Stmt}
    (hbranch : branch ∈ statement.branches) (h : branch.Renames r renamed) :
    ∃ whole : Stmt, statement.Renames r whole ∧ renamed ∈ whole.branches := by
  cases statement with
  | conditional condition thenBranch elseBranch =>
      rcases List.mem_cons.1 hbranch with rfl | helse
      · exact ⟨_, .thenBranch h, List.mem_cons_self⟩
      · obtain rfl := Option.mem_toList.1 helse
        exact ⟨_, .elseBranch h, List.mem_cons_of_mem _ List.mem_cons_self⟩
  | whileLoop condition body =>
      obtain rfl := List.mem_singleton.1 hbranch
      exact ⟨_, .loopBody h, List.mem_cons_self⟩
  | _ => cases hbranch

/-- A variable that is renamed in a part of a program is renamed in the program. -/
theorem Part.Renames.exists_renames {r : Renaming} {program : Program} {path : Path}
    {part renamed : Part} (hpart : part.Renames r renamed) (h : Located program path part) :
    ∃ whole path', program.Renames r whole ∧ Located whole path' renamed := by
  induction h generalizing renamed with
  | program =>
      cases hpart with
      | statements hrest => exact ⟨_, [], hrest, .program⟩
  | first _ ih =>
      cases hpart with
      | statement hstatement =>
          obtain ⟨whole, path', hwhole, hplace⟩ := ih (.statements (.head hstatement _))
          exact ⟨whole, path', hwhole, hplace.first⟩
  | @rest path statement rest _ ih =>
      cases hpart with
      | statements hrest =>
          obtain ⟨whole, path', hwhole, hplace⟩ := ih (.statements (hrest.cons statement))
          exact ⟨whole, _, hwhole, hplace.rest⟩
  | block _ ih =>
      cases hpart with
      | statements hbody =>
          cases hbody with
          | mk hinner =>
              obtain ⟨whole, path', hwhole, hplace⟩ := ih (.statement (.inBlock hinner))
              exact ⟨whole, _, hwhole, hplace.block⟩
  | @function path declaration _ ih =>
      obtain ⟨name, params, body⟩ := declaration
      cases hpart with
      | statements hbody =>
          cases hbody with
          | mk hinner =>
              obtain ⟨whole, path', hwhole, hplace⟩ := ih (.statement (.inFunction hinner))
              exact ⟨whole, _, hwhole, hplace.function⟩
  | @method path name superclass methods method h hmethod ih =>
      obtain ⟨first, last, rfl⟩ := List.append_of_mem hmethod
      obtain ⟨word, params, body⟩ := method
      cases hpart with
      | @statements _ body' hbody =>
          have hmem : FunctionDecl.mk word params body' ∈
              first ++ FunctionDecl.mk word params body' :: last :=
            List.mem_append_cons_self
          have hclass :
              (Stmt.classDecl name superclass (first ++ .mk word params body :: last)).Renames
              r (.classDecl name superclass (first ++ .mk word params body' :: last)) := by
            cases hbody with
            | mk hinner => exact .inMethod hinner
          obtain ⟨whole, path', hwhole, hplace⟩ := ih (.statement hclass)
          exact ⟨whole, _, hwhole, hplace.method hmem⟩
  | branch _ hbranch ih =>
      cases hpart with
      | statement hinner =>
          obtain ⟨outer, houter, hrenamed⟩ := hinner.of_branch hbranch
          obtain ⟨whole, path', hwhole, hplace⟩ := ih (.statement houter)
          exact ⟨whole, path', hwhole, hplace.branch hrenamed⟩
  | expression _ _ _ => cases hpart
  | operand _ _ _ => cases hpart

/-- Each local variable can be renamed: for a construct around a place there is a program in which
the variable has its new name in this construct. -/
theorem Located.exists_renames {r : Renaming} {program : Program} {path : Path} {part : Part}
    (h : Located program path part) {construct : Construct} (hmem : construct ∈ path.constructs)
    (hold : r.old ∈ construct.variables) :
    ∃ renamed outer, program.Renames r renamed ∧
      Located renamed ((construct.rename r).opened :: outer)
        (.statements (construct.rename r).body) := by
  have hrenames {statement renamed : Stmt} {path : Path}
      (hstatement : Located program path (.statement statement))
      (hinner : statement.Renames r renamed)
      (hopens : renamed.Opens (construct.rename r)) :
      ∃ whole outer, program.Renames r whole ∧
        Located whole ((construct.rename r).opened :: outer)
          (.statements (construct.rename r).body) := by
    obtain ⟨whole, path', hwhole, hplace⟩ :=
      Part.Renames.exists_renames (.statement hinner) hstatement
    obtain ⟨outer, hlocated⟩ := hopens.located hplace
    exact ⟨whole, outer, hwhole, hlocated⟩
  rcases h.exists_opens hmem with ⟨hparams, hbody⟩ | ⟨outer, statement, hstatement, hopens⟩
  · rw [Construct.variables, hparams, hbody] at hold
    cases hold
  · cases hopens with
    | block => exact hrenames hstatement (.block hold) .block
    | function => exact hrenames hstatement (.function hold) .function
    | method hmethod =>
        obtain ⟨before, after, rfl⟩ := List.append_of_mem hmethod
        exact hrenames hstatement (.method hold) (.method List.mem_append_cons_self)

/-! ## What is renamed is declared -/

theorem Stmt.exists_names_of_variable? {genuine : Token → Prop} {body : List Stmt} {name : String}
    (hformed : ∀ statement ∈ body, statement.Formed genuine)
    (h : name ∈ body.filterMap Stmt.variable?) :
    ∃ token : Token, token.Names genuine ∧ token.lexeme = name := by
  obtain ⟨statement, hmem, hname⟩ := List.mem_filterMap.1 h
  cases statement with
  | varDecl token initializer => exact ⟨token, (hformed _ hmem).spells, Option.some.inj hname⟩
  | _ => cases hname

theorem FunctionDecl.exists_names_of_variables {genuine : Token → Prop}
    {declaration : FunctionDecl} (hspells : declaration.Spells genuine)
    (hbody : ∀ statement ∈ declaration.body, statement.Formed genuine) {name : String}
    (h : name ∈ declaration.variables) :
    ∃ token : Token, token.Names genuine ∧ token.lexeme = name := by
  rcases List.mem_append.1 h with hparam | hlocal
  · obtain ⟨token, hmem, hname⟩ := List.mem_map.1 hparam
    exact ⟨token, hspells token hmem, hname⟩
  · exact Stmt.exists_names_of_variable? hbody hlocal

/-- The variable is declared somewhere. -/
theorem Stmt.Renames.exists_names {r : Renaming} {genuine : Token → Prop}
    {statement renamed : Stmt} (h : statement.Renames r renamed)
    (hformed : statement.Formed genuine) :
    ∃ token : Token, token.Names genuine ∧ token.lexeme = r.old := by
  induction h with
  | block hold =>
      exact Stmt.exists_names_of_variable? (fun _ hinner => hformed.enclosed hinner) hold
  | function hold =>
      exact FunctionDecl.exists_names_of_variables hformed.spells.2
        (fun _ hinner => hformed.enclosed hinner) hold
  | @method name superclass before after method hold =>
      have hmem : method ∈ before ++ method :: after := List.mem_append_cons_self
      exact FunctionDecl.exists_names_of_variables (hformed.spells.2.2 method hmem)
        (fun _ hinner => hformed.enclosed (List.mem_flatMap.2 ⟨method, hmem, hinner⟩)) hold
  | inBlock _ ih => exact ih (hformed.enclosed List.mem_append_cons_self)
  | inFunction _ ih => exact ih (hformed.enclosed List.mem_append_cons_self)
  | @inMethod name superclass first last method params before after statement renamed _ ih =>
      have hmethod : FunctionDecl.mk method params (before ++ statement :: after) ∈
          first ++ .mk method params (before ++ statement :: after) :: last :=
        List.mem_append_cons_self
      have hbody : statement ∈ before ++ statement :: after := List.mem_append_cons_self
      exact ih (hformed.enclosed (List.mem_flatMap.2 ⟨_, hmethod, hbody⟩))
  | thenBranch _ ih => exact ih (hformed.branch List.mem_cons_self)
  | elseBranch _ ih => exact ih (hformed.branch (List.mem_cons_of_mem _ List.mem_cons_self))
  | loopBody _ ih => exact ih (hformed.branch List.mem_cons_self)

end LoxLang
