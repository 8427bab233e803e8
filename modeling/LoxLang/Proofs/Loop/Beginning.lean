import LoxLang.Proofs.Loop.Steps
import LoxLang.Proofs.Run.Session

/-!
# What corresponds to itself

If a second run begins where a first one is, with the same variables and fields, then whatever there
is corresponds to itself: the code of the programs that have been run, as long as the second run has
recorded the same about it, the environments in which it is reached, the values and the frames that
wait.
-/

namespace LoxLang

/-- What an expression finds is found in the program. -/
theorem Located.exists_findings_subset {program : Program} {path : Path} {expression : Expr}
    (h : Located program path (.expression expression)) :
    ∃ scopes : Scopes, expression.findings path.context scopes ⊆ program.findings := by
  obtain ⟨statement, whole, hstatement, hwhole, hinside⟩ := located_expression_iff.1 h
  refine ⟨statement.scopesInside path, fun finding hfinding => ?_⟩
  obtain ⟨inner, hinner, hown⟩ := expression.mem_findings_iff.1 hfinding
  exact Program.mem_findings_iff.2 ⟨path, statement, hstatement, .inr ⟨whole, hwhole,
    whole.mem_findings_iff.2 ⟨inner, hinner.trans hinside, hown⟩⟩⟩

theorem FunctionDecl.FitsAll.of_mem {r : Records} {idle : Option Nat} {methods : List FunctionDecl}
    (h : FunctionDecl.FitsAll r idle methods) {method : FunctionDecl} (hmem : method ∈ methods) :
    method.Fits r idle := by
  induction methods with
  | nil => cases hmem
  | cons first rest ih =>
      rcases List.mem_cons.1 hmem with rfl | hrest
      · exact h.1
      · exact ih h.2 hrest

/-- Two runs with the scopes of a scene, each of which corresponds to itself, in which the same is
recorded about the programs of the scene. -/
structure Pairing.Shares (p : Pairing) (scene : Scene) : Prop where
  grounded : scene.Grounded
  images : p.images = (List.range scene.openings.length).map some
  real : ∀ program ∈ scene.programs, ∀ finding ∈ program.findings,
    finding.Tells fun id => p.real[id]?
  direct : ∀ program ∈ scene.programs, ∀ finding ∈ program.findings,
    finding.Tells fun id => p.direct[id]?

namespace Pairing.Shares

variable {p : Pairing} {scene : Scene} (h : p.Shares scene)

include h

theorem images_getElem? {scope : ScopeId} {image : Option ScopeId} :
    p.images[scope]? = some image ↔ scope < scene.openings.length ∧ some scope = image := by
  rw [h.images, List.getElem?_map, Option.map_eq_some_iff]
  constructor
  · rintro ⟨found, hfound, rfl⟩
    obtain ⟨hlt, rfl⟩ := List.getElem?_eq_some_iff.1 hfound
    rw [List.getElem_range]
    rw [List.length_range] at hlt
    exact ⟨hlt, rfl⟩
  · rintro ⟨hlt, himage⟩
    exact ⟨scope, List.getElem?_range hlt, himage⟩

theorem image {scope : ScopeId} {opening : Opening}
    (hopening : scene.openings[scope]? = some opening) : p.images[scope]? = some (some scope) :=
  h.images_getElem?.2 ⟨(List.getElem?_eq_some_iff.1 hopening).1, rfl⟩

/-! ## Code -/

section

variable {program : Program} (hprogram : program ∈ scene.programs) {path : Path}

include hprogram

theorem found {findings : List Finding} (hsub : findings ⊆ program.findings) :
    Found (p.records id) findings findings where
  clean finding hfinding := by
    cases finding with
    | binding occurrence distance => rfl
    | fault broken =>
        exact absurd (hsub hfinding)
          ((h.grounded.accepted program hprogram).not_fault_mem_findings _)
  real finding hfinding := h.real program hprogram finding (hsub hfinding)
  direct finding hfinding := h.direct program hprogram finding (hsub hfinding)

theorem fits_expression {expression : Expr}
    (hlocated : Located program path (.expression expression)) :
    expression.Fits (p.records id) none := by
  obtain ⟨scopes, hsub⟩ := hlocated.exists_findings_subset
  have hformed : expression.Formed Token.Genuine :=
    hlocated.formed (h.grounded.accepted program hprogram).formed
  exact expression.fits (.same scopes) hformed (h.found hprogram hsub)

theorem expression {expression : Expr} (hlocated : Located program path (.expression expression)) :
    expression.Like p none expression :=
  ⟨id, (expression.relabel_eq_self fun _ _ => rfl).symm, h.fits_expression hprogram hlocated⟩

theorem expressions {expressions : List Expr}
    (hlocated : ∀ expression ∈ expressions, Located program path (.expression expression)) :
    Expr.LikeAll p none expressions expressions := by
  refine ⟨id, (Expr.relabelAll_eq_self expressions fun _ _ => rfl).symm, ?_⟩
  induction expressions with
  | nil => trivial
  | cons expression rest ih =>
      obtain ⟨hfirst, hrest⟩ := List.forall_mem_cons.1 hlocated
      exact ⟨h.fits_expression hprogram hfirst, ih hrest⟩

theorem target {target : Occurrence} {value : Expr}
    (hlocated : Located program path (.expression (.assign target value))) :
    target.Like p none target :=
  ⟨id, rfl, (h.fits_expression hprogram hlocated).1⟩

theorem fits_statement {statement : Stmt}
    (hlocated : Located program path (.statement statement)) :
    statement.Fits (p.records id) none := by
  have hformed : statement.Formed Token.Genuine :=
    hlocated.formed (h.grounded.accepted program hprogram).formed
  exact statement.fits (.same path.scopes) nofun hformed
    (h.found hprogram hlocated.findings_subset)

theorem statement {statement : Stmt} (hlocated : Located program path (.statement statement)) :
    statement.Like p none statement :=
  ⟨id, (statement.relabel_eq_self fun _ _ => rfl).symm, h.fits_statement hprogram hlocated⟩

theorem statements {statements : List Stmt}
    (hlocated : Located program path (.statements statements)) :
    Stmt.LikeAll p none statements statements := by
  have hformed : ∀ statement ∈ statements, statement.Formed Token.Genuine :=
    hlocated.formed (h.grounded.accepted program hprogram).formed
  exact ⟨id, (Stmt.relabelAll_eq_self statements fun _ _ => rfl).symm,
    Stmt.fitsAll (.same path.scopes) nofun statements hformed
      (h.found hprogram hlocated.findings_subset)⟩

theorem function {declaration : FunctionDecl}
    (hlocated : Located program path (.statement (.function declaration))) :
    declaration.Like p none declaration :=
  ⟨id, (declaration.relabel_eq_self fun _ _ => rfl).symm, (h.fits_statement hprogram hlocated).2⟩

theorem method {name : Token} {superclass : Option Occurrence} {methods : List FunctionDecl}
    (hlocated : Located program path (.statement (.classDecl name superclass methods)))
    {method : FunctionDecl} (hmem : method ∈ methods) : method.Like p none method := by
  have hfits := (h.fits_statement hprogram hlocated).2.2.of_mem hmem
  have hplace : deeper (if superclass.isSome then deeper none else none) = none := by
    split <;> rfl
  rw [hplace] at hfits
  exact ⟨id, (method.relabel_eq_self fun _ _ => rfl).symm, hfits⟩

end

/-! ## Environments and values -/

theorem inner {scope : ScopeId} {opening : Opening} {env : Env}
    (hopening : scene.openings[scope]? = some opening) (henv : Env.Skips p none env env) :
    Env.Skips p none (scope :: env) (scope :: env) :=
  .inner (h.image hopening) henv

theorem env {env : Env} {path : Path} (henv : scene.Activates env path) :
    Env.Skips p none env env := by
  induction henv with
  | globals => exact .globals (h.image h.grounded.globals)
  | block hopening _ _ ih => exact h.inner hopening ih
  | function hopening _ _ _ ih => exact h.inner hopening ih
  | method hopening hbound _ _ hclass _ _ _ ih =>
      refine h.inner hopening (h.inner hbound ?_)
      cases hclass with
      | plain => exact ih
      | derived hsuperclass => exact h.inner hsuperclass ih

theorem unboundMethod {method : Closure} (hmethod : scene.HasMethod method) :
    method.LikeMethod p method := by
  obtain ⟨identity, declaration, env, isInitializer⟩ := method
  cases hmethod with
  | mk hclass hmem _ hmethodEnv =>
      obtain ⟨program, hprogram, path, hlocated, -, henv⟩ := hclass
      have hskips : Env.Skips p none env env := by
        cases hmethodEnv with
        | plain => exact h.env henv
        | derived hopening => exact h.inner hopening (h.env henv)
      have hdeclaration : declaration.Like p (deeper none) declaration :=
        h.method hprogram hlocated hmem
      exact .mk hskips hdeclaration nofun

theorem closure {closure : Closure} (hclosure : scene.HasFunction closure) :
    closure.Like p closure := by
  obtain ⟨identity, declaration, env, isInitializer⟩ := closure
  cases hclosure with
  | function hprogram hlocated _ _ henv =>
      have hdeclaration : declaration.Like p (id none) declaration :=
        h.function hprogram hlocated
      exact .mk (h.env henv) hdeclaration nofun
  | bound hopening henv hmethod =>
      obtain rfl := henv
      cases h.unboundMethod hmethod with
      | mk hskips hdeclaration hplace =>
          exact .mk (.inner (h.image hopening) hskips) hdeclaration hplace

theorem ownClass {ownClass : Class} (hclass : scene.HasClass ownClass) :
    ownClass.Like p ownClass := by
  induction hclass with
  | @mk ownClass hmethods _ ih =>
      obtain ⟨identity, name, superclass, methods⟩ := ownClass
      have hsame : Closure.LikeMethods p methods methods :=
        List.forall₂_same.2 fun entry hentry => ⟨rfl, h.unboundMethod (hmethods entry hentry)⟩
      cases superclass with
      | none => exact .base hsame
      | some superclass => exact .derived (ih superclass rfl) hsame

theorem object {object : Instance} (hobject : scene.HasClass object.ownClass) :
    object.Like p object := by
  cases object
  exact .mk (h.ownClass hobject)

theorem value {value : Value} (hvalue : scene.HasValue value) : value.Like p value := by
  cases value with
  | nil => exact .nil
  | bool value => exact .bool value
  | number value => exact .number value
  | string value => exact .string value
  | builtin native => exact .builtin native
  | function closure => exact .function (h.closure hvalue)
  | classValue ownClass => exact .classValue (h.ownClass hvalue)
  | object object => exact .object (h.object hvalue)

theorem option {found : Option Value}
    (hfound : ∀ value, found = some value → scene.HasValue value) :
    Option.Rel (Value.Like p) found found := by
  cases found with
  | none => exact .none
  | some value => exact .some (h.value (hfound value rfl))

/-! ## Frames and worlds -/

theorem frames {result : Result} {site : Site} {frames : List Frame}
    (hframes : Awaits scene result site frames) (hprogram : site.program ∈ scene.programs) :
    Frame.LikeAll p none frames frames := by
  induction hframes with
  | unary _ _ ih => exact .cons (.unary _) (ih hprogram)
  | binaryLeft hlocated _ ih =>
      exact .cons (.binaryLeft _ (h.expression hprogram (hlocated.operand (.tail _ (.head _)))))
        (ih hprogram)
  | binaryRight _ hleft _ ih => exact .cons (.binaryRight _ (h.value hleft)) (ih hprogram)
  | logical hright _ ih => exact .cons (.logical _ (h.expression hprogram hright)) (ih hprogram)
  | assign hlocated _ ih => exact .cons (.assign (h.target hprogram hlocated)) (ih hprogram)
  | callee harguments _ ih =>
      exact .cons (.callee _ (h.expressions hprogram harguments)) (ih hprogram)
  | argument hcallee hdone hrest _ ih =>
      refine .cons (.argument _ (h.value hcallee) ?_ (h.expressions hprogram hrest)) (ih hprogram)
      exact List.forall₂_same.2 fun value hvalue => h.value (hdone value hvalue)
  | get _ ih => exact .cons (.get _) (ih hprogram)
  | setObject hvalue _ ih => exact .cons (.setObject _ (h.expression hprogram hvalue)) (ih hprogram)
  | setValue hobject _ ih => exact .cons (.setValue _ (h.object hobject)) (ih hprogram)
  | expression _ ih => exact .cons .expression (ih hprogram)
  | print _ ih => exact .cons .print (ih hprogram)
  | define _ _ ih => exact .cons (.define _ nofun) (ih hprogram)
  | @choice site condition thenBranch elseBranch frames hlocated _ ih =>
      refine .cons (.choice (h.statement hprogram (hlocated.branch (.head _))) ?_) (ih hprogram)
      cases elseBranch with
      | none => exact .none
      | some elseBranch =>
          exact .some (h.statement hprogram (hlocated.branch (.tail _ (.head _))))
  | loopTest hlocated _ ih =>
      exact .cons (.loopTest (h.expression hprogram (hlocated.expression (.head _)))
        (h.statement hprogram (hlocated.branch (.head _)))) (ih hprogram)
  | returning _ ih => exact .cons .returning (ih hprogram)
  | loopBody hlocated _ ih =>
      exact .cons (.loopBody (h.expression hprogram (hlocated.expression (.head _)))
        (h.statement hprogram (hlocated.branch (.head _)))) (ih hprogram)
  | sequence hlocated _ ih => exact .cons (.sequence (h.statements hprogram hlocated)) (ih hprogram)
  | block _ _ houter hstands _ ih =>
      obtain rfl := houter
      exact .block (h.env hstands.activates) (ih hstands.program)
  | @activation site outer scope activation frames _ _ hcaller hcallee hmade hstands _ ih =>
      obtain ⟨caller, callee, made⟩ := activation
      obtain rfl := hcaller
      refine .activation (h.env hstands.activates) (h.closure hcallee) ?_ (ih hstands.program)
      cases made with
      | none => exact .none
      | some object => exact .some (h.object (hmade object rfl))
  | program _ => exact .nil

theorem world {world : World} (hstore : world.store = scene.store)
    (hdistances : world.distances = p.real) :
    world.Like p { world with distances := p.direct } where
  store := by
    rw [hstore]
    constructor
    · constructor
      · rw [h.images, List.length_map, List.length_range, h.grounded.size]
      · intro scope image himage
        obtain ⟨hlt, heq⟩ := h.images_getElem?.1 himage
        cases heq
        exact h.grounded.size ▸ hlt
      · intro scope other image hscope hother
        cases (h.images_getElem?.1 hscope).2
        cases (h.images_getElem?.1 hother).2
        rfl
      · intro image hlt
        exact ⟨image, h.images_getElem?.2 ⟨h.grounded.size.symm ▸ hlt, rfl⟩⟩
      · exact h.image h.grounded.globals
    · intro scope image himage name
      cases (h.images_getElem?.1 himage).2
      exact h.option (h.grounded.bindings scope name)
    · intro scope himage
      cases (h.images_getElem?.1 himage).2
    · rfl
    · intro object name
      exact h.option (h.grounded.fields object name)
    · rfl
  real := hdistances
  direct := rfl
  output := rfl
  clock := rfl

end Pairing.Shares

end LoxLang
