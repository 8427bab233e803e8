import LoxLang.Proofs.Scope.Distances
import LoxLang.Proofs.Scope.Respelling

/-!
# Declarations around a place

What resolution finds about an occurrence leads to a construct around it that declares the name, be
it in front of the occurrence or, for the target of an assignment, around it.
-/

namespace LoxLang

namespace Construct

/-- The parameters of a function or method. -/
def params : Construct → List Token
  | function declaration => declaration.params
  | method declaration => declaration.params
  | _ => []

/-- The statements that are run in the scope. -/
def body : Construct → List Stmt
  | block body => body
  | function declaration => declaration.body
  | method declaration => declaration.body
  | _ => []

theorem declarations_eq (construct : Construct) :
    construct.declarations =
      construct.params.map Token.lexeme ++ construct.body.filterMap Stmt.declared? := by
  cases construct <;> rfl

theorem params_respell (spell : String → String) (construct : Construct) :
    (construct.respell spell).params = construct.params.map (Token.respell spell) := by
  cases construct with
  | function declaration => exact declaration.params_respell spell
  | method declaration => exact declaration.params_respell spell
  | _ => rfl

theorem body_respell (spell : String → String) (construct : Construct) :
    (construct.respell spell).body = Stmt.respellAll spell construct.body := by
  cases construct with
  | function declaration => exact declaration.body_respell spell
  | method declaration => exact declaration.body_respell spell
  | _ => rfl

end Construct

/-- A statement opens a scope in which other statements are run. -/
inductive Stmt.Opens : Stmt → Construct → Prop
  | block {body : List Stmt} : Opens (.block body) (.block body)
  | function {declaration : FunctionDecl} : Opens (.function declaration) (.function declaration)
  | method {name : Token} {superclass : Option Occurrence} {methods : List FunctionDecl}
      {method : FunctionDecl} : method ∈ methods →
      Opens (.classDecl name superclass methods) (.method method)

variable {program : Program} {path : Path} {part : Part}

/-- A construct around a place belongs to a statement that stands at a place too, unless it is one
of the constructs of a class, which declare nothing. -/
theorem Located.exists_opens (h : Located program path part) {construct : Construct}
    (hmem : construct ∈ path.constructs) :
    (construct.params = [] ∧ construct.body = []) ∨
      ∃ outer statement, Located program outer (.statement statement) ∧
        statement.Opens construct := by
  induction h with
  | program => cases hmem
  | first _ ih => exact ih hmem
  | rest _ ih =>
      rw [Path.constructs_after] at hmem
      exact ih hmem
  | block h ih =>
      rcases List.mem_cons.1 hmem with rfl | houter
      · exact .inr ⟨_, _, h, .block⟩
      · exact ih houter
  | @function path declaration h ih =>
      rcases List.mem_cons.1 hmem with rfl | houter
      · exact .inr ⟨_, _, h, .function⟩
      · have henter : (path.enter declaration.name.lexeme).constructs = path.constructs :=
          path.constructs_enter _
        exact ih (henter ▸ houter)
  | @method path name superclass methods method h hmethod ih =>
      rcases List.mem_cons.1 hmem with rfl | hclass
      · exact .inr ⟨_, _, h, .method hmethod⟩
      · rcases List.mem_cons.1 hclass with rfl | hhead
        · exact .inl ⟨rfl, rfl⟩
        · have henter : (path.enter name.lexeme).constructs = path.constructs :=
            path.constructs_enter _
          cases superclass with
          | none => exact ih (henter ▸ hhead)
          | some superclass =>
              rcases List.mem_cons.1 hhead with rfl | houter
              · exact .inl ⟨rfl, rfl⟩
              · exact ih (henter ▸ houter)
  | branch _ _ ih => exact ih hmem
  | expression _ _ ih => exact ih hmem
  | operand _ _ ih => exact ih hmem

/-- The statements of such a construct stand at a place. -/
theorem Stmt.Opens.located {statement : Stmt} {construct : Construct}
    (h : statement.Opens construct) (hstatement : Located program path (.statement statement)) :
    ∃ outer, Located program (construct.opened :: outer) (.statements construct.body) := by
  cases h with
  | block => exact ⟨_, hstatement.block⟩
  | function => exact ⟨_, hstatement.function⟩
  | method hmethod => exact ⟨_, hstatement.method hmethod⟩

theorem Located.exists_opened (h : Located program path part) {construct : Construct}
    (hmem : construct ∈ path.constructs) :
    (construct.params = [] ∧ construct.body = []) ∨
      ∃ outer, Located program (construct.opened :: outer) (.statements construct.body) := by
  rcases h.exists_opens hmem with hnil | ⟨outer, statement, hstatement, hopens⟩
  · exact .inl hnil
  · exact .inr (hopens.located hstatement)

theorem Located.exists_of_mem {rest : List Stmt} (h : Located program path (.statements rest))
    {statement : Stmt} (hmem : statement ∈ rest) :
    ∃ path' : Path, Located program path' (.statement statement) := by
  induction rest generalizing path with
  | nil => cases hmem
  | cons first rest ih =>
      rcases List.mem_cons.1 hmem with rfl | hrest
      · exact ⟨path, h.first⟩
      · exact ih h.rest hrest

/-- A name that a construct around a place has declared in front of it, apart from the words that
classes bind. -/
def Path.Declares (path : Path) : Prop :=
  ∀ enclosure ∈ path, ∀ name ∈ enclosure.declared, name ≠ thisName → name ≠ superName →
    name ∈ enclosure.construct.declarations

namespace Path.Declares

theorem cons {enclosure : Enclosure} (h : Path.Declares path)
    (hown : ∀ name ∈ enclosure.declared, name ≠ thisName → name ≠ superName →
      name ∈ enclosure.construct.declarations) : Path.Declares (enclosure :: path) :=
  List.forall_mem_cons.2 ⟨hown, h⟩

theorem opened {construct : Construct} (h : Path.Declares path) :
    Path.Declares (construct.opened :: path) := by
  refine h.cons fun name hname hthis hsuper => ?_
  cases construct with
  | block body => cases hname
  | function declaration => exact List.mem_append_left _ (List.mem_reverse.1 hname)
  | method declaration => exact List.mem_append_left _ (List.mem_reverse.1 hname)
  | classBody _ _ _ => exact absurd (List.mem_singleton.1 hname) hthis
  | inheritance _ _ _ => exact absurd (List.mem_singleton.1 hname) hsuper

end Path.Declares

/-- What stands in a list of statements and declares a name declares it for the construct around
it. -/
theorem Located.mem_declarations {enclosure : Enclosure} {statement : Stmt} {rest : List Stmt}
    {name : String} (h : Located program (enclosure :: path) (.statements (statement :: rest)))
    (hname : statement.declared? = some name) : name ∈ enclosure.construct.declarations := by
  rw [← h.declared_append, List.filterMap_cons_some hname]
  exact List.mem_append_right _ List.mem_cons_self

/-- All names that have been declared in front of a place are declarations of their constructs. -/
theorem Located.declares {genuine : Token → Prop} (hprogram : program.Formed genuine)
    (h : Located program path part) : path.Declares := by
  have henter {path : Path} {statement : Stmt} {name : String} (hpath : path.Declares)
      (h : Located program path (.statement statement))
      (hname : statement.declared? = some name) : (path.enter name).Declares := by
    obtain ⟨rest, hstatements⟩ := h.statements_of_declared hprogram (by simp [hname])
    cases path with
    | nil => exact hpath
    | cons enclosure outer =>
        obtain ⟨hown, houter⟩ := List.forall_mem_cons.1 hpath
        refine Path.Declares.cons houter fun other hother => ?_
        rcases List.mem_cons.1 hother with rfl | hmem
        · exact fun _ _ => hstatements.mem_declarations hname
        · exact hown other hmem
  induction h with
  | program => exact fun enclosure hmem => absurd hmem List.not_mem_nil
  | first _ ih => exact ih
  | @rest path statement rest h ih =>
      rw [Path.after]
      split
      · next name hname => exact henter ih h.first hname
      · exact ih
  | block _ ih => exact ih.opened
  | function h ih => exact (henter ih h rfl).opened
  | @method path name superclass methods method h hmethod ih =>
      have hname := henter ih h rfl
      cases superclass with
      | none => exact hname.opened.opened
      | some superclass => exact hname.opened.opened.opened
  | branch _ _ ih => exact ih
  | expression _ _ ih => exact ih
  | operand _ _ ih => exact ih

/-! ## Outside all constructs -/

theorem Path.eq_nil_of_after {path : Path} {statement : Stmt} (h : path.after statement = []) :
    path = [] := by
  cases path with
  | nil => rfl
  | cons enclosure outer =>
      rw [Path.after] at h
      split at h <;> cases h

/-- Outside all constructs there is what is left of the program. -/
theorem Located.isSuffix {program : Program} {rest : List Stmt}
    (h : Located program [] (.statements rest)) : rest <:+ program := by
  generalize hpath : ([] : Path) = path, hpart : Part.statements rest = part at h
  induction h generalizing rest with
  | program =>
      cases hpart
      exact List.suffix_rfl
  | rest _ ih =>
      cases hpart
      have hnil := Path.eq_nil_of_after hpath.symm
      exact (List.suffix_cons _ _).trans (ih hnil.symm rfl)
  | block _ _ => cases hpath
  | function _ _ => cases hpath
  | method _ _ _ => cases hpath
  | _ => cases hpart

/-- A declaration outside all constructs is a statement of the program itself. -/
theorem Located.mem_of_declared {program : Program} (hformed : program.Formed Token.Genuine)
    {statement : Stmt} (h : Located program [] (.statement statement))
    (hdeclared : statement.declared? ≠ none) : statement ∈ program := by
  obtain ⟨rest, hrest⟩ := h.statements_of_declared hformed hdeclared
  exact hrest.isSuffix.subset List.mem_cons_self

/-! ## Bindings -/

/-- A construct around a place, at some distance from it, declares a name. -/
def Path.DeclaresAt (path : Path) (distance : Nat) (name : String) : Prop :=
  ∃ enclosure, path[distance]? = some enclosure ∧ name ∈ enclosure.construct.declarations

theorem Path.Declares.of_distance? (h : path.Declares) {name : String}
    (hname : name ≠ thisName ∧ name ≠ superName) {distance : Nat}
    (hdistance : path.distance? name = some distance) : path.DeclaresAt distance name := by
  obtain ⟨enclosure, hbinds⟩ := Path.binds_of_distance? hdistance
  exact ⟨enclosure, hbinds.found, h enclosure (List.mem_of_getElem? hbinds.found) name
    hbinds.declared hname.1 hname.2⟩

/-- In the initializer of a variable the innermost scope has its name. -/
theorem Path.distance?_pending_self (enclosure : Enclosure) (outer : Path) (name : Token) :
    (Path.pending (enclosure :: outer) name).distance? name.lexeme = some 0 := by
  have hfirst {scopes : Scopes} (h : (scopes.innermost? name.lexeme).isSome) :
      scopes.distance? name.lexeme = some 0 := by
    cases scopes with
    | nil => cases h
    | cons scope outer => exact List.findIdx?_cons.trans (if_pos h)
  rw [pending]
  split
  · next h => exact hfirst h
  · refine hfirst ?_
    show (((name.lexeme, false) :: _).lookup name.lexeme).isSome
    rw [List.lookup_cons, beq_self_eq_true]
    rfl

/-- The distance that resolution finds for the target of an assignment leads to a construct that
declares the name, in front of the assignment or around it. -/
theorem Program.exists_declaresAt_of_assign (hprogram : program.Formed Token.Genuine)
    {target : Occurrence} {value : Expr}
    (h : Located program path (.expression (.assign target value))) :
    ∃ distance, .binding target distance ∈ program.findings ∧
      ∀ d ∈ distance, path.DeclaresAt d target.name.lexeme := by
  obtain ⟨statement, whole, hstatement, hwhole, hinside⟩ := located_expression_iff.1 h
  let scopes := statement.scopesInside path
  refine ⟨scopes.distance? target.name.lexeme, ?_, fun d hd => ?_⟩
  · have hown : scopes.binding target ∈ (Expr.assign target value).own path.context scopes :=
      List.mem_singleton_self _
    exact Program.mem_findings_iff.2 ⟨path, statement, hstatement,
      .inr ⟨whole, hwhole, whole.mem_findings_iff.2 ⟨_, hinside, hown⟩⟩⟩
  · have hname : target.name.Names Token.Genuine := Expr.Formed.spells (h.formed hprogram)
    have hdeclares := h.declares hprogram
    have hplain (hdistance : scopes.distance? target.name.lexeme =
        path.distance? target.name.lexeme) : path.DeclaresAt d target.name.lexeme :=
      hdeclares.of_distance? hname.ne (hdistance.symm.trans hd)
    cases statement with
    | varDecl name initializer =>
        by_cases hother : path ≠ [] → target.name.lexeme ≠ name.lexeme
        · exact hplain (Path.distance?_pending hother)
        · -- The variable in whose initializer the assignment stands is in the innermost scope.
          obtain ⟨hpath, heq⟩ := Classical.not_imp.1 hother
          rw [not_not] at heq
          obtain ⟨enclosure, outer, rfl⟩ := List.exists_cons_of_ne_nil hpath
          obtain ⟨rest, hstatements⟩ := hstatement.statements_of_declared hprogram nofun
          have hfirst : scopes.distance? target.name.lexeme = some 0 := by
            rw [heq]
            exact Path.distance?_pending_self enclosure outer name
          cases hfirst.symm.trans hd
          exact ⟨enclosure, rfl, heq ▸ hstatements.mem_declarations rfl⟩
    | _ => exact hplain (path.distance?_scopes _)

end LoxLang
