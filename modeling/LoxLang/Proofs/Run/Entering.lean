import LoxLang.Proofs.Run.Frames

/-!
# Steps into parts

A machine that stands at a site starts on a part: an expression, a statement, or the body of a
function.  There is one lemma for each function of the machine, all of one shape: under what the
site says, the machine that the function yields `Lands` at a site again.
-/

namespace LoxLang

/-- A machine that comes out of a world by making some scopes, with the given block runs and calls
under way. -/
structure Lands (past : Past) (world : World) (opened : List Opening) (active : List ScopeId)
    (next : Machine) : Prop where
  leads : (world.scene past).Leads opened next.world.store
  fits : Fits ((world.scene past).after opened next.world.store) next.env active next.control
    next.frames

namespace Lands

variable {past : Past} {world world' : World} {opened opened' : List Opening}
  {active : List ScopeId} {next : Machine}

/-- A step that makes no scope. -/
theorem of_leads (hleads : (world.scene past).Leads [] next.world.store)
    (hfits : Fits (next.world.scene past) next.env active next.control next.frames) :
    Lands past world [] active next := by
  refine ⟨hleads, ?_⟩
  rw [Scene.after_nil]
  exact hfits

/-- A change of the world, and then a step from there. -/
theorem after (hleads : (world.scene past).Leads opened world'.store)
    (h : Lands { past with openings := past.openings ++ opened } world' opened' active next) :
    Lands past world (opened ++ opened') active next := by
  refine ⟨hleads.trans h.leads, ?_⟩
  rw [← Scene.after_after _ _ _ world'.store]
  exact h.fits

theorem andThen (hleads : (world.scene past).Leads [] world'.store)
    (h : Lands past world' opened active next) : Lands past world opened active next := by
  refine ⟨hleads.andThen h.leads, ?_⟩
  exact h.fits

end Lands

section

variable {past : Past} {world : World} {site : Site} {frames : List Frame} {depth : Nat}
  {control : Control}

/-- The result of a part that needs no steps. -/
theorem lands_settle {opened : List Opening} {world' : World}
    {result : Except RuntimeFault Value} (hleads : (world.scene past).Leads opened world'.store)
    (hstands : site.Stands (world.scene past))
    (hvalue : ∀ value, result = .ok value →
      ((world.scene past).after opened world'.store).HasValue value)
    (hframes : Awaits (world.scene past) .value site frames) :
    Lands past world opened site.active
      (Machine.settle ⟨control, frames, site.env, depth, world'⟩ result) := by
  refine ⟨?_, ?_⟩
  · cases result <;> exact hleads
  · cases result with
    | ok value =>
        exact .value (hstands.mono hleads.grows) (hvalue value rfl) (hframes.mono hleads.grows)
    | error fault => exact .failed

/-- A class that has been made behind its name is assigned to the name. -/
theorem lands_assignClass {opened : List Opening} {name : Token} {named made : World}
    {ownClass : Class} (hname : name.Names Token.Genuine)
    (hnamed : (world.scene past).Leads [] named.store)
    (hmade : (named.scene past).Leads opened made.store)
    (hclass : ((named.scene past).after opened made.store).HasClass ownClass)
    (hbehind : (site.moved (site.path.enter name.lexeme)).Stands (named.scene past))
    (hframes : Awaits (named.scene past) .ending (site.moved (site.path.enter name.lexeme)) frames)
    (scope : ScopeId) :
    Lands past world opened site.active
      ⟨.completed .normal, frames, site.env, depth,
        made.set scope name.lexeme (.classValue ownClass)⟩ := by
  have hgrows := ((named.scene past).after opened made.store).grows_define scope name.lexeme
    (.classValue ownClass)
  have hvalue : Scene.HasValue _ (.classValue ownClass) := Scene.HasClass.mono hclass hgrows
  have hset := hmade.trans (hmade.grounded.define scope hname hvalue)
  rw [List.append_nil] at hset
  have hfits : Fits ((named.scene past).after opened
      (made.set scope name.lexeme (.classValue ownClass)).store)
      (site.moved (site.path.enter name.lexeme)).env site.active (.completed .normal) frames :=
    .completed (hbehind.mono hset.grows) (by decide) (hframes.mono hset.grows)
  exact ⟨hnamed.andThen hset, hfits⟩

variable (h : (world.scene past).Grounded)

include h

theorem lands_fail (fault : RuntimeFault) (active : List ScopeId) (env : Env) :
    Lands past world [] active (Machine.fail ⟨control, frames, env, depth, world⟩ fault) :=
  .of_leads (.refl h) .failed

theorem lands_value {value : Value} (hstands : site.Stands (world.scene past))
    (hvalue : (world.scene past).HasValue value)
    (hframes : Awaits (world.scene past) .value site frames) :
    Lands past world [] site.active ⟨.value value, frames, site.env, depth, world⟩ :=
  .of_leads (.refl h) (.value hstands hvalue hframes)

theorem lands_evaluating {expression : Expr} {frame : Frame}
    (hstands : site.Stands (world.scene past))
    (hlocated : Located site.program site.path (.expression expression))
    (hframes : Awaits (world.scene past) .value site (frame :: frames)) :
    Lands past world [] site.active
      (Machine.evaluating ⟨control, frames, site.env, depth, world⟩ expression frame) :=
  .of_leads (.refl h) (.evaluate hstands hlocated hframes)

theorem lands_completed {result : Result} (hresult : result ≠ .value)
    (hstands : site.Stands (world.scene past))
    (hframes : Awaits (world.scene past) result site frames) :
    Lands past world [] site.active
      ⟨.completed .normal, frames, site.env, depth, world⟩ :=
  .of_leads (.refl h) (.completed hstands hresult hframes)

/-! ## Calls -/

/-- The body of a function starts in a new scope that has the parameters. -/
theorem lands_enter {callee : Closure} {arguments : List Value} {made : Option Instance}
    (hcallee : (world.scene past).HasFunction callee)
    (harguments : ∀ value ∈ arguments, (world.scene past).HasValue value)
    (hlength : arguments.length = callee.arity)
    (hmade : ∀ object, made = some object → (world.scene past).HasClass object.ownClass)
    (hstands : site.Stands (world.scene past))
    (hframes : Awaits (world.scene past) .value site frames) :
    Lands past world [.call callee] (past.openings.length :: site.active)
      (Machine.enter ⟨control, frames, site.env, depth, world⟩ callee arguments made) := by
  let params := callee.declaration.params.map Token.lexeme
  let bindings := Bindings.ofList (params.zip arguments)
  have hleads : (world.scene past).Leads [.call callee] (world.store.newScope bindings).1 := by
    refine h.newScope ?_ ?_ ?_
    · intro name value hvalue
      have hmem : (name, value) ∈ params.zip arguments := Bindings.mem_of_get?_ofList hvalue
      exact harguments value (List.of_mem_zip hmem).2
    · rintro function object ⟨⟩
    · rintro name clause methods value outer ⟨⟩
  have hparams : ∀ param ∈ callee.declaration.params,
      ((world.store.newScope bindings).1.binding? (world.store.newScope bindings).2
        param.lexeme).isSome := by
    intro param hparam
    rw [Store.binding?_newScope, if_pos rfl]
    have hparamsLength : params.length ≤ arguments.length := by
      rw [hlength, List.length_map]
      exact Nat.le_refl _
    refine Bindings.isSome_get?_ofList ?_
    rw [List.map_fst_zip hparamsLength]
    exact List.mem_map_of_mem hparam
  have hopening := h.opening_newScope (.call callee) (world.store.newScope bindings).1 bindings
  obtain ⟨program, hprogram, path, construct, hfunction, hlocated, hactivates⟩ :=
    h.exists_body hleads.grows hcallee hopening hparams
  have hscope : (world.store.newScope bindings).2 = past.openings.length := h.size.symm
  let inside : Site := ⟨program, construct.opened :: path,
    (world.store.newScope bindings).2 :: callee.env, past.openings.length :: site.active⟩
  have hinside : inside.Stands ((world.scene past).after [.call callee]
      (world.store.newScope bindings).1) := by
    refine ⟨hprogram, hactivates, ?_⟩
    show Current ((world.store.newScope bindings).2 :: callee.env) _ _
    rw [hscope]
    exact .call hfunction
  refine ⟨hleads, .run hinside hlocated ?_⟩
  exact .activation rfl (congrArg (· :: _) hscope.symm) rfl (hcallee.mono hleads.grows)
    (fun object hobject => (hmade object hobject).mono hleads.grows) (hstands.mono hleads.grows)
    (hframes.mono hleads.grows)

/-- The call of a class with an initializer makes an instance and binds the initializer to it. -/
theorem lands_initialize {ownClass : Class} {method : Closure} {arguments : List Value}
    (hinitializer : ownClass.initializer? = some method)
    (hclass : (world.scene past).HasClass ownClass)
    (harguments : ∀ value ∈ arguments, (world.scene past).HasValue value)
    (hlength : arguments.length = method.arity) (hstands : site.Stands (world.scene past))
    (hframes : Awaits (world.scene past) .value site frames) :
    let made := world.construct ownClass
    let bound := made.1.bind method made.2
    Lands past world [.bound bound.2 made.2, .call bound.2]
      ((past.openings.length + 1) :: site.active)
      (Machine.enter ⟨control, frames, site.env, depth, bound.1⟩ bound.2 arguments
        (some made.2)) := by
  intro made bound
  have hmade : (world.scene past).Leads [] made.1.store := h.newObject
  have hobject : (made.1.scene past).HasClass made.2.ownClass := hclass.mono hmade.scene_grows
  obtain ⟨hbound, hfunction⟩ :=
    hmade.scene_grounded.bind (hobject.of_findMethod? hinitializer) hobject
  let later : Past := { past with openings := past.openings ++ [.bound bound.2 made.2] }
  have hgrounded : (bound.1.scene later).Grounded := hbound.grounded
  have hgrows : (world.scene past).Grows (bound.1.scene later) :=
    hmade.scene_grows.trans hbound.grows
  have hobject' : ∀ object, some made.2 = some object →
      (bound.1.scene later).HasClass object.ownClass := by
    rintro object ⟨⟩
    exact hobject.mono hbound.grows
  have henter : Lands later bound.1 [.call bound.2] (later.openings.length :: site.active)
      (Machine.enter ⟨control, frames, site.env, depth, bound.1⟩ bound.2 arguments
        (some made.2)) :=
    lands_enter hgrounded hfunction (fun value hvalue => (harguments value hvalue).mono hgrows)
      hlength hobject' (hstands.mono hgrows) (hframes.mono hgrows)
  have hsize : later.openings.length = past.openings.length + 1 := List.length_append
  rw [hsize] at henter
  exact .after (hmade.andThen hbound) henter

/-- A call whose arguments are known. -/
theorem lands_call {callee : Value} {arguments : List Value}
    (hcallee : (world.scene past).HasValue callee)
    (harguments : ∀ value ∈ arguments, (world.scene past).HasValue value) (paren : Token)
    (hstands : site.Stands (world.scene past))
    (hframes : Awaits (world.scene past) .value site frames) :
    let machine : Machine := ⟨control, frames, site.env, depth, world⟩
    Lands past world (machine.openedByCall callee arguments)
      (Opening.runs (machine.openedByCall callee arguments) past.openings.length ++ site.active)
      (machine.call paren callee arguments) := by
  intro machine
  unfold Machine.call Machine.openedByCall
  cases hobstacle : callObstacle? callee arguments machine.depth with
  | some cause => exact lands_fail h _ _ _
  | none =>
      have harity := (callObstacle?_eq_none_iff.1 hobstacle).1
      have hnone : ∀ object, (none : Option Instance) = some object →
          (world.scene past).HasClass object.ownClass := fun object hmade => by cases hmade
      cases callee with
      | function closure =>
          have hlength : arguments.length = closure.arity := (Option.some.inj harity).symm
          exact lands_enter h hcallee harguments hlength hnone hstands hframes
      | classValue ownClass =>
          have hmade : (world.scene past).Leads [] (world.construct ownClass).1.store :=
            h.newObject
          dsimp only
          cases hinitializer : ownClass.initializer? with
          | none =>
              have hobject : ((world.construct ownClass).1.scene past).HasValue
                  (.object (world.construct ownClass).2) :=
                    Scene.HasClass.mono hcallee hmade.scene_grows
              exact .andThen hmade (lands_value hmade.scene_grounded
                (hstands.mono hmade.scene_grows) hobject (hframes.mono hmade.scene_grows))
          | some method =>
              have hlength : arguments.length = method.arity :=
                Option.some.inj (harity.symm.trans (Value.arity?_of_initializer? hinitializer))
              exact lands_initialize h hinitializer hcallee harguments hlength hstands hframes
      | builtin native =>
          cases native with
          | clock =>
              have hseconds : (world.scene past).HasValue (.number world.tick.2) := trivial
              exact .of_leads (.refl h) (.value hstands hseconds hframes)
      | _ => exact lands_fail h _ _ _

theorem lands_nextArgument {callee : Value} {done : List Value} {rest : List Expr}
    (hcallee : (world.scene past).HasValue callee)
    (hdone : ∀ value ∈ done, (world.scene past).HasValue value)
    (hrest : ∀ argument ∈ rest, Located site.program site.path (.expression argument))
    (paren : Token) (hstands : site.Stands (world.scene past))
    (hframes : Awaits (world.scene past) .value site frames) :
    let machine : Machine := ⟨control, frames, site.env, depth, world⟩
    Lands past world (machine.openedByNext callee done rest)
      (Opening.runs (machine.openedByNext callee done rest) past.openings.length ++ site.active)
      (machine.nextArgument paren callee done rest) := by
  intro machine
  cases rest with
  | nil =>
      exact lands_call h hcallee (fun value hvalue => hdone value (List.mem_reverse.1 hvalue)) paren
        hstands hframes
  | cons argument rest =>
      exact lands_evaluating h hstands (hrest argument List.mem_cons_self)
        (.argument hcallee hdone (fun other hother => hrest other (List.mem_cons_of_mem _ hother))
          hframes)

/-! ## Expressions and statements -/

theorem hasValue_of_read {env : Env} {occurrence : Occurrence} {value : Value}
    (hvalue : world.read env occurrence = .ok value) : (world.scene past).HasValue value := by
  obtain ⟨scope, hbinding⟩ := World.exists_binding?_of_read hvalue
  exact h.bindings scope _ _ hbinding

theorem lands_evaluate {expression : Expr} (hstands : site.Stands (world.scene past))
    (hlocated : Located site.program site.path (.expression expression))
    (hframes : Awaits (world.scene past) .value site frames) :
    let machine : Machine := ⟨control, frames, site.env, depth, world⟩
    Lands past world (machine.openedByExpression expression) site.active
      (machine.evaluate expression) := by
  intro machine
  cases expression with
  | literal value =>
      have hvalue : (world.scene past).HasValue (.ofLiteral value) := by
        cases value <;> trivial
      exact lands_value h hstands hvalue hframes
  | grouping inner =>
      exact .of_leads (.refl h) (.evaluate hstands (hlocated.operand List.mem_cons_self) hframes)
  | unary operator operand =>
      exact lands_evaluating h hstands (hlocated.operand List.mem_cons_self)
        (.unary hlocated hframes)
  | binary operator left right =>
      exact lands_evaluating h hstands (hlocated.operand List.mem_cons_self)
        (.binaryLeft hlocated hframes)
  | logical operator left right =>
      have hright := hlocated.operand (List.mem_cons_of_mem _ List.mem_cons_self)
      exact lands_evaluating h hstands (hlocated.operand List.mem_cons_self)
        (.logical hright hframes)
  | «variable» occurrence =>
      exact lands_settle (.refl h) hstands
        (fun value hvalue => (hasValue_of_read h hvalue).mono (Scene.Leads.refl h).grows) hframes
  | assign target value =>
      exact lands_evaluating h hstands (hlocated.operand List.mem_cons_self)
        (.assign hlocated hframes)
  | call callee paren arguments =>
      exact lands_evaluating h hstands (hlocated.operand List.mem_cons_self)
        (.callee (fun argument hargument =>
          hlocated.operand (List.mem_cons_of_mem _ hargument)) hframes)
  | get object name =>
      exact lands_evaluating h hstands (hlocated.operand List.mem_cons_self) (.get hframes)
  | set object name value =>
      have hvalue := hlocated.operand (List.mem_cons_of_mem _ List.mem_cons_self)
      exact lands_evaluating h hstands (hlocated.operand List.mem_cons_self)
        (.setObject hvalue hframes)
  | thisRef occurrence =>
      exact lands_settle (.refl h) hstands
        (fun value hvalue => (hasValue_of_read h hvalue).mono (Scene.Leads.refl h).grows) hframes
  | superRef occurrence method =>
      obtain ⟨hleads, hvalue⟩ := h.superMethod site.env occurrence method
      exact lands_settle hleads hstands hvalue hframes

theorem lands_block {body : List Stmt} (hstands : site.Stands (world.scene past))
    (hlocated : Located site.program site.path (.statement (.block body)))
    (hframes : Awaits (world.scene past) .ending site frames) :
    Lands past world [.block body site.env] (past.openings.length :: site.active)
      (Machine.execute ⟨control, frames, site.env, depth, world⟩ (.block body)) := by
  have hleads : (world.scene past).Leads [.block body site.env] (world.store.newScope []).1 := by
    refine h.newScope ?_ ?_ ?_
    · rintro name value ⟨⟩
    · rintro function object ⟨⟩
    · rintro name clause methods value outer ⟨⟩
  have hopening := h.opening_newScope (.block body site.env) (world.store.newScope []).1 []
  have hscope : (world.store.newScope []).2 = past.openings.length := h.size.symm
  let inside : Site := ⟨site.program, (Construct.block body).opened :: site.path,
    (world.store.newScope []).2 :: site.env, past.openings.length :: site.active⟩
  have hinside : inside.Stands ((world.scene past).after [.block body site.env]
      (world.store.newScope []).1) := by
    refine ⟨hleads.grows.programs hstands.program, ?_, ?_⟩
    · exact .block hopening (hstands.activates.mono hleads.grows) fun name hname => by cases hname
    · show Current ((world.store.newScope []).2 :: site.env) _ _
      rw [hscope]
      exact .block hstands.current
  refine ⟨hleads, .run hinside hlocated.block ?_⟩
  exact .block rfl (congrArg (· :: _) hscope.symm) rfl (hstands.mono hleads.grows)
    (hframes.mono hleads.grows)

/-- A declaration gives its name a value, and the machine stands behind it. -/
theorem lands_define {name : Token} {value : Value} (hname : name.Names Token.Genuine)
    (hstands : site.Stands (world.scene past))
    (hvalue : ((world.define site.env name.lexeme value).scene past).HasValue value)
    (hframes : Awaits (world.scene past) .ending (site.moved (site.path.enter name.lexeme))
      frames) :
    Lands past world [] site.active
      ⟨.completed .normal, frames, site.env, depth, world.define site.env name.lexeme value⟩ := by
  have hleads : (world.scene past).Leads [] (world.define site.env name.lexeme value).store :=
    h.defineIn hstands.activates hname hvalue
  obtain ⟨hgrows, hactivates⟩ := h.activates_defineIn hstands.activates hname value
  have hbehind : (site.moved (site.path.enter name.lexeme)).Stands
      ((world.define site.env name.lexeme value).scene past) :=
    ⟨hgrows.programs hstands.program, hactivates, hstands.current.enter _⟩
  have hfits : Fits ((world.define site.env name.lexeme value).scene past)
      (site.moved (site.path.enter name.lexeme)).env site.active (.completed .normal) frames :=
    .completed hbehind (by decide) (hframes.mono hgrows)
  exact .of_leads hleads hfits

/-- The name of a class is bound before the class is made, and gets it afterwards. -/
theorem lands_declareClass {opened : List Opening} {name : Token} {superclass : Option Class}
    {methods : List FunctionDecl} (hname : name.Names Token.Genuine)
    (hstands : site.Stands (world.scene past))
    (hframes : Awaits (world.scene past) .ending (site.moved (site.path.enter name.lexeme)) frames)
    (hmakes : ∀ named : World, (named.scene past).Grounded →
      (site.moved (site.path.enter name.lexeme)).Stands (named.scene past) →
      (world.scene past).Grows (named.scene past) →
      (named.scene past).Leads opened
        (named.makeClass site.env name.lexeme superclass methods).1.store ∧
      ((named.scene past).after opened
        (named.makeClass site.env name.lexeme superclass methods).1.store).HasClass
          (named.makeClass site.env name.lexeme superclass methods).2) :
    Lands past world opened site.active
      (Machine.declareClass ⟨control, frames, site.env, depth, world⟩ name superclass methods) := by
  let named := world.define site.env name.lexeme .nil
  have hnamed : (world.scene past).Leads [] named.store :=
    h.defineIn hstands.activates hname trivial
  obtain ⟨hgrows, hactivates⟩ := h.activates_defineIn hstands.activates hname .nil
  have hbehind : (site.moved (site.path.enter name.lexeme)).Stands (named.scene past) :=
    ⟨hgrows.programs hstands.program, hactivates, hstands.current.enter _⟩
  obtain ⟨hmade, hclass⟩ := hmakes named hnamed.scene_grounded hbehind hgrows
  unfold Machine.declareClass
  dsimp only
  cases (named.makeClass site.env name.lexeme superclass methods).1.store.owner site.env name with
  | error fault => exact ⟨hnamed.andThen hmade, .failed⟩
  | ok scope =>
      exact lands_assignClass hname hnamed hmade hclass hbehind (hframes.mono hgrows) scope

theorem lands_classDecl {name : Token} {clause : Option Occurrence} {methods : List FunctionDecl}
    (hstands : site.Stands (world.scene past))
    (hlocated : Located site.program site.path (.statement (.classDecl name clause methods)))
    (hexecuted : ⟨.classDecl name clause methods, site.env, site.active⟩ ∈ past.executed)
    (hframes : Awaits (world.scene past) .ending (site.moved (site.path.enter name.lexeme))
      frames) :
    let machine : Machine := ⟨control, frames, site.env, depth, world⟩
    Lands past world (machine.openedByStatement (.classDecl name clause methods))
      (Opening.runs (machine.openedByStatement (.classDecl name clause methods))
        past.openings.length ++ site.active)
      (machine.execute (.classDecl name clause methods)) := by
  intro machine
  have hformed : Stmt.Formed Token.Genuine (.classDecl name clause methods) :=
    hlocated.formed (h.accepted _ hstands.program).formed
  have hname : name.Names Token.Genuine := hformed.spells.1
  have hdeclares {named : World}
      (hbehind : (site.moved (site.path.enter name.lexeme)).Stands (named.scene past)) :
      (named.scene past).DeclaresClass site.env name clause methods :=
    ⟨site.program, hbehind.program, site.path, hlocated,
      ⟨site.active, hexecuted, hbehind.current⟩, hbehind.activates⟩
  cases clause with
  | none =>
      show Lands past world [] site.active (machine.declareClass name none methods)
      exact lands_declareClass h hname hstands hframes
        fun named hgrounded hbehind _ => hgrounded.makeClass (hdeclares hbehind)
  | some clause =>
      dsimp only [Machine.openedByStatement, Machine.execute]
      cases hread : machine.world.read machine.env clause with
      | error fault => exact lands_fail h _ _ _
      | ok value =>
          cases value with
          | classValue above =>
              have habove : (world.scene past).HasClass above := hasValue_of_read h hread
              show Lands past world [.superclass name clause methods above site.env] site.active
                (machine.declareClass name (some above) methods)
              exact lands_declareClass h hname hstands hframes fun named hgrounded hbehind hgrows =>
                hgrounded.makeSubclass (hdeclares hbehind) (habove.mono hgrows)
          | _ => exact lands_fail h _ _ _

/-- A function is made where its name is about to be bound, and so it can refer to itself. -/
theorem lands_function {declaration : FunctionDecl} (hstands : site.Stands (world.scene past))
    (hlocated : Located site.program site.path (.statement (.function declaration)))
    (hexecuted : ⟨.function declaration, site.env, site.active⟩ ∈ past.executed)
    (hframes : Awaits (world.scene past) .ending
      (site.moved (site.path.enter declaration.name.lexeme)) frames) :
    Lands past world [] site.active
      (Machine.execute ⟨control, frames, site.env, depth, world⟩ (.function declaration)) := by
  have hformed : Stmt.Formed Token.Genuine (.function declaration) :=
    hlocated.formed (h.accepted _ hstands.program).formed
  let closed := world.close site.env declaration false
  have hclose : (world.scene past).Leads [] closed.1.store := h.close _ _ _
  have hstands' := hstands.mono hclose.scene_grows
  obtain ⟨hgrows, hactivates⟩ := hclose.scene_grounded.activates_defineIn hstands'.activates
    hformed.spells.1 (.function closed.2)
  have hfunction : Scene.HasFunction _ closed.2 :=
    .function (hgrows.programs hstands'.program) hlocated rfl
      ⟨site.active, hexecuted, hstands.current.enter _⟩ hactivates
  exact .andThen hclose (lands_define hclose.scene_grounded hformed.spells.1 hstands' hfunction
    (hframes.mono hclose.scene_grows))

theorem lands_execute {statement : Stmt} (hstands : site.Stands (world.scene past))
    (hlocated : Located site.program site.path (.statement statement))
    (hexecuted : ⟨statement, site.env, site.active⟩ ∈ past.executed)
    (hframes : Awaits (world.scene past) .ending (site.moved (site.path.after statement))
      frames) :
    let machine : Machine := ⟨control, frames, site.env, depth, world⟩
    Lands past world (machine.openedByStatement statement)
      (Opening.runs (machine.openedByStatement statement) past.openings.length ++ site.active)
      (machine.execute statement) := by
  intro machine
  have hformed : statement.Formed Token.Genuine :=
    hlocated.formed (h.accepted _ hstands.program).formed
  cases statement with
  | block body => exact lands_block h hstands hlocated hframes
  | classDecl name clause methods => exact lands_classDecl h hstands hlocated hexecuted hframes
  | expression value =>
      exact lands_evaluating h hstands (hlocated.expression List.mem_cons_self)
        (.expression hframes)
  | function declaration => exact lands_function h hstands hlocated hexecuted hframes
  | conditional condition thenBranch elseBranch =>
      exact lands_evaluating h hstands (hlocated.expression List.mem_cons_self)
        (.choice hlocated hframes)
  | print value =>
      exact lands_evaluating h hstands (hlocated.expression List.mem_cons_self) (.print hframes)
  | returnValue keyword value =>
      cases value with
      | none =>
          have hnil : (world.scene past).HasValue .nil := trivial
          have hending : Result.ending ≠ .value := by decide
          exact .of_leads (.refl h) (.returned hnil hending hframes)
      | some value =>
          exact lands_evaluating h hstands (hlocated.expression List.mem_cons_self)
            (.returning hframes)
  | varDecl name initializer =>
      cases initializer with
      | none => exact lands_define h hformed.spells hstands trivial hframes
      | some value =>
          exact lands_evaluating h hstands (hlocated.expression List.mem_cons_self)
            (.define hlocated hframes)
  | whileLoop condition body =>
      exact lands_evaluating h hstands (hlocated.expression List.mem_cons_self)
        (.loopTest hlocated hframes)

end

end LoxLang
