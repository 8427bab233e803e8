import LoxLang.Proofs.Run.World

/-!
# Frames and places

The control of a machine stands at some place of a program that the session has run, in an
environment of that place.  Its frames wait there for a value, for the end of a statement, or for
the end of a block run or call; and below each block run and call they wait at the place from which
that was begun.
-/

namespace LoxLang

/-- Where a machine is: a place in a program, the environment in which it is reached, and the scopes
of the block runs and calls that are under way. -/
structure Site where
  program : Program
  path : Path
  env : Env
  active : List ScopeId

namespace Site

/-- The site at another place in the same scopes. -/
def moved (site : Site) (path : Path) : Site :=
  { site with path := path }

end Site

/-- A site of a program that the session has run. -/
structure Site.Stands (scene : Scene) (site : Site) : Prop where
  program : site.program ∈ scene.programs
  activates : scene.Activates site.env site.path
  current : Current site.env site.active site.path

theorem Site.Stands.mono {old new : Scene} {site : Site} (h : site.Stands old)
    (hgrows : old.Grows new) : site.Stands new :=
  ⟨hgrows.programs h.program, h.activates.mono hgrows, h.current⟩

/-- The body of a function is a place of a program that the session has run, and the environment of
a call is one of that place once the parameters are bound. -/
theorem Scene.Grounded.exists_body {old new : Scene} (h : old.Grounded) (hgrows : old.Grows new)
    {callee : Closure} (hcallee : old.HasFunction callee) {scope : ScopeId}
    (hopening : new.openings[scope]? = some (.call callee))
    (hparams : ∀ param ∈ callee.declaration.params,
      (new.store.binding? scope param.lexeme).isSome) :
    ∃ program ∈ new.programs, ∃ (path : Path) (construct : Construct), construct.isFunction ∧
      Located program (construct.opened :: path) (.statements callee.declaration.body) ∧
      new.Activates (scope :: callee.env) (construct.opened :: path) := by
  have hkeeps (hspells : callee.declaration.Spells Token.Genuine) :
      new.Keeps scope (callee.declaration.params.map Token.lexeme).reverse := by
    intro name hname
    obtain ⟨param, hparam, rfl⟩ := List.mem_map.1 (List.mem_reverse.1 hname)
    exact ⟨(hspells param hparam).ne.1, (hspells param hparam).ne.2, hparams param hparam⟩
  cases hcallee with
  | @function program path hprogram hlocated hinitializer hexecutes henv =>
      have hformed : Stmt.Formed Token.Genuine (.function callee.declaration) :=
        hlocated.formed (h.accepted program hprogram).formed
      exact ⟨program, hgrows.programs hprogram, _, _, rfl, hlocated.function,
        .function hopening (hexecutes.mono hgrows) (henv.mono hgrows) (hkeeps hformed.spells.2)⟩
  | bound hbound henv hmethod =>
      cases hmethod with
      | mk hclass hmem hinitializer hmethodEnv =>
          obtain ⟨program, hprogram, path, hlocated, hexecutes, houter⟩ := hclass
          have hformed : Stmt.Formed Token.Genuine (.classDecl _ _ _) :=
            hlocated.formed (h.accepted program hprogram).formed
          rw [henv]
          exact ⟨program, hgrows.programs hprogram, _, _, rfl, hlocated.method hmem,
            .method hopening (hgrows.opening hbound) henv hmem (hmethodEnv.mono hgrows)
              (hexecutes.mono hgrows) (houter.mono hgrows) (hkeeps (hformed.spells.2.2 _ hmem))⟩

/-! ## What frames wait for -/

/-- What is handed to the innermost frame. -/
inductive Result where
  | value
  /-- The end of a statement. -/
  | ending
  /-- The end of the statements of a block run, a call or a program. -/
  | exit
deriving DecidableEq

/-- Frames that wait at a site for a result.  The end of a statement is awaited at the place behind
it. -/
inductive Awaits (scene : Scene) : Result → Site → List Frame → Prop
  | unary {site : Site} {operator : Token} {operand : Expr} {frames : List Frame} :
      Located site.program site.path (.expression (.unary operator operand)) →
      Awaits scene .value site frames → Awaits scene .value site (.unary operator :: frames)
  | binaryLeft {site : Site} {operator : Token} {left right : Expr} {frames : List Frame} :
      Located site.program site.path (.expression (.binary operator left right)) →
      Awaits scene .value site frames →
      Awaits scene .value site (.binaryLeft operator right :: frames)
  | binaryRight {site : Site} {operator : Token} {left right : Expr} {value : Value}
      {frames : List Frame} :
      Located site.program site.path (.expression (.binary operator left right)) →
      scene.HasValue value → Awaits scene .value site frames →
      Awaits scene .value site (.binaryRight operator value :: frames)
  | logical {site : Site} {operator : Token} {right : Expr} {frames : List Frame} :
      Located site.program site.path (.expression right) → Awaits scene .value site frames →
      Awaits scene .value site (.logical operator right :: frames)
  | assign {site : Site} {target : Occurrence} {value : Expr} {frames : List Frame} :
      Located site.program site.path (.expression (.assign target value)) →
      Awaits scene .value site frames → Awaits scene .value site (.assign target :: frames)
  | callee {site : Site} {paren : Token} {arguments : List Expr} {frames : List Frame} :
      (∀ argument ∈ arguments, Located site.program site.path (.expression argument)) →
      Awaits scene .value site frames →
      Awaits scene .value site (.callee paren arguments :: frames)
  | argument {site : Site} {paren : Token} {callee : Value} {done : List Value} {rest : List Expr}
      {frames : List Frame} :
      scene.HasValue callee → (∀ value ∈ done, scene.HasValue value) →
      (∀ argument ∈ rest, Located site.program site.path (.expression argument)) →
      Awaits scene .value site frames →
      Awaits scene .value site (.argument paren callee done rest :: frames)
  | get {site : Site} {name : Token} {frames : List Frame} :
      Awaits scene .value site frames → Awaits scene .value site (.get name :: frames)
  | setObject {site : Site} {name : Token} {value : Expr} {frames : List Frame} :
      Located site.program site.path (.expression value) → Awaits scene .value site frames →
      Awaits scene .value site (.setObject name value :: frames)
  | setValue {site : Site} {name : Token} {object : Instance} {frames : List Frame} :
      scene.HasClass object.ownClass → Awaits scene .value site frames →
      Awaits scene .value site (.setValue name object :: frames)
  | expression {site : Site} {frames : List Frame} :
      Awaits scene .ending site frames → Awaits scene .value site (.expression :: frames)
  | print {site : Site} {frames : List Frame} :
      Awaits scene .ending site frames → Awaits scene .value site (.print :: frames)
  | define {site : Site} {name : Token} {initializer : Expr} {frames : List Frame} :
      Located site.program site.path (.statement (.varDecl name (some initializer))) →
      Awaits scene .ending (site.moved (site.path.enter name.lexeme)) frames →
      Awaits scene .value site (.define name :: frames)
  | choice {site : Site} {condition : Expr} {thenBranch : Stmt} {elseBranch : Option Stmt}
      {frames : List Frame} :
      Located site.program site.path (.statement (.conditional condition thenBranch elseBranch)) →
      Awaits scene .ending site frames →
      Awaits scene .value site (.choice thenBranch elseBranch :: frames)
  | loopTest {site : Site} {condition : Expr} {body : Stmt} {frames : List Frame} :
      Located site.program site.path (.statement (.whileLoop condition body)) →
      Awaits scene .ending site frames →
      Awaits scene .value site (.loopTest condition body :: frames)
  | returning {site : Site} {frames : List Frame} :
      Awaits scene .ending site frames → Awaits scene .value site (.returning :: frames)
  | loopBody {site : Site} {condition : Expr} {body : Stmt} {frames : List Frame} :
      Located site.program site.path (.statement (.whileLoop condition body)) →
      Awaits scene .ending site frames →
      Awaits scene .ending site (.loopBody condition body :: frames)
  | sequence {site : Site} {rest : List Stmt} {frames : List Frame} :
      Located site.program site.path (.statements rest) → Awaits scene .exit site frames →
      Awaits scene .ending site (.sequence rest :: frames)
  | block {site outer : Site} {scope : ScopeId} {env : Env} {frames : List Frame} :
      site.env = scope :: outer.env → site.active = scope :: outer.active → outer.env = env →
      outer.Stands scene → Awaits scene .ending outer frames →
      Awaits scene .exit site (.block env :: frames)
  | activation {site outer : Site} {scope : ScopeId} {activation : Activation}
      {frames : List Frame} :
      site.env = scope :: activation.callee.env → site.active = scope :: outer.active →
      outer.env = activation.caller → scene.HasFunction activation.callee →
      (∀ object, activation.made = some object → scene.HasClass object.ownClass) →
      outer.Stands scene → Awaits scene .value outer frames →
      Awaits scene .exit site (.activation activation :: frames)
  | program {site : Site} : site.active = [] → Awaits scene .exit site []

namespace Awaits

theorem mono {old new : Scene} {result : Result} {site : Site} {frames : List Frame}
    (h : Awaits old result site frames) (hgrows : old.Grows new) :
    Awaits new result site frames := by
  induction h with
  | unary hlocated _ ih => exact .unary hlocated ih
  | binaryLeft hlocated _ ih => exact .binaryLeft hlocated ih
  | binaryRight hlocated hleft _ ih => exact .binaryRight hlocated (hleft.mono hgrows) ih
  | logical hright _ ih => exact .logical hright ih
  | assign hlocated _ ih => exact .assign hlocated ih
  | callee harguments _ ih => exact .callee harguments ih
  | argument hcallee hdone hrest _ ih =>
      exact .argument (hcallee.mono hgrows) (fun value hvalue => (hdone value hvalue).mono hgrows)
        hrest ih
  | get _ ih => exact .get ih
  | setObject hvalue _ ih => exact .setObject hvalue ih
  | setValue hobject _ ih => exact .setValue (hobject.mono hgrows) ih
  | expression _ ih => exact .expression ih
  | print _ ih => exact .print ih
  | define hlocated _ ih => exact .define hlocated ih
  | choice hlocated _ ih => exact .choice hlocated ih
  | loopTest hlocated _ ih => exact .loopTest hlocated ih
  | returning _ ih => exact .returning ih
  | loopBody hlocated _ ih => exact .loopBody hlocated ih
  | sequence hlocated _ ih => exact .sequence hlocated ih
  | block henv hactive houter hstands _ ih =>
      exact .block henv hactive houter (hstands.mono hgrows) ih
  | activation henv hactive houter hcallee hmade hstands _ ih =>
      exact .activation henv hactive houter (hcallee.mono hgrows)
        (fun object hobject => (hmade object hobject).mono hgrows) (hstands.mono hgrows) ih
  | program hactive => exact .program hactive

/-- An end is awaited in the scopes of a site, wherever in them that is. -/
theorem exit_moved {scene : Scene} {site : Site} {frames : List Frame}
    (h : Awaits scene .exit site frames) (path : Path) :
    Awaits scene .exit (site.moved path) frames := by
  cases h with
  | block henv hactive houter hstands hframes =>
      exact .block henv hactive houter hstands hframes
  | activation henv hactive houter hcallee hmade hstands hframes =>
      exact .activation henv hactive houter hcallee hmade hstands hframes
  | program hactive => exact .program hactive

end Awaits

/-- A control that stands at a site, with frames that wait there for its result.  A failure needs no
site. -/
inductive Fits (scene : Scene) : Env → List ScopeId → Control → List Frame → Prop
  | evaluate {site : Site} {expression : Expr} {frames : List Frame} :
      site.Stands scene → Located site.program site.path (.expression expression) →
      Awaits scene .value site frames →
      Fits scene site.env site.active (.evaluate expression) frames
  | execute {site : Site} {statement : Stmt} {frames : List Frame} :
      site.Stands scene → Located site.program site.path (.statement statement) →
      Awaits scene .ending (site.moved (site.path.after statement)) frames →
      Fits scene site.env site.active (.execute statement) frames
  | run {site : Site} {rest : List Stmt} {frames : List Frame} :
      site.Stands scene → Located site.program site.path (.statements rest) →
      Awaits scene .exit site frames → Fits scene site.env site.active (.run rest) frames
  | value {site : Site} {value : Value} {frames : List Frame} :
      site.Stands scene → scene.HasValue value → Awaits scene .value site frames →
      Fits scene site.env site.active (.value value) frames
  | completed {site : Site} {result : Result} {frames : List Frame} :
      site.Stands scene → result ≠ .value → Awaits scene result site frames →
      Fits scene site.env site.active (.completed .normal) frames
  /-- On the way out of a call the place does not matter any more. -/
  | returned {site : Site} {result : Result} {value : Value} {frames : List Frame} :
      scene.HasValue value → result ≠ .value → Awaits scene result site frames →
      Fits scene site.env site.active (.completed (.returned value)) frames
  | failed {env : Env} {active : List ScopeId} {failure : Failure} {frames : List Frame} :
      Fits scene env active (.failed failure) frames

theorem Fits.mono {old new : Scene} {env : Env} {active : List ScopeId} {control : Control}
    {frames : List Frame} (h : Fits old env active control frames) (hgrows : old.Grows new) :
    Fits new env active control frames := by
  cases h with
  | evaluate hstands hlocated hframes =>
      exact .evaluate (hstands.mono hgrows) hlocated (hframes.mono hgrows)
  | execute hstands hlocated hframes =>
      exact .execute (hstands.mono hgrows) hlocated (hframes.mono hgrows)
  | run hstands hlocated hframes => exact .run (hstands.mono hgrows) hlocated (hframes.mono hgrows)
  | value hstands hvalue hframes =>
      exact .value (hstands.mono hgrows) (hvalue.mono hgrows) (hframes.mono hgrows)
  | completed hstands hresult hframes =>
      exact .completed (hstands.mono hgrows) hresult (hframes.mono hgrows)
  | returned hvalue hresult hframes =>
      exact .returned (hvalue.mono hgrows) hresult (hframes.mono hgrows)
  | failed => exact .failed

end LoxLang
