import LoxLang.Proofs.Run.Initializing

/-!
# Arguments and parameters

The body of a function runs for a call that has as many arguments as the function has parameters,
whether the function itself is called or a class for which it is the nearest initializer; so each
parameter gets an argument, and each argument goes to a parameter.  A call that cannot be made fails
before anything is made for it (`Run.Arises.arguments_pair_up`).
-/

namespace LoxLang

/-! ## Variables stay -/

/-- The variables of a store are there in another one too, whatever their values. -/
def Store.Retains (old new : Store) : Prop :=
  ∀ scope name, (old.binding? scope name).isSome → (new.binding? scope name).isSome

namespace Store

variable {first second third : Store}

theorem StaysIn.retains (h : first.StaysIn second) : first.Retains second := by
  intro scope name hbound
  have hlt : scope < first.scopes.size := by
    by_contra hnot
    rw [binding?, Array.getElem?_eq_none (Nat.le_of_not_lt hnot)] at hbound
    cases hbound
  rw [h.binding?_eq hlt]
  exact hbound

theorem retains_define (store : Store) (scope : ScopeId) (name : String) (value : Value) :
    store.Retains (store.define scope name value) := by
  intro other key hbound
  rw [binding?_define]
  split
  · rfl
  · exact hbound

theorem Retains.trans (h : first.Retains second) (h' : second.Retains third) :
    first.Retains third :=
  fun scope name hbound => h' scope name (h scope name hbound)

end Store

theorem World.retains_define (world : World) (env : Env) (name : String) (value : Value) :
    world.store.Retains (world.define env name value).store := by
  cases env with
  | nil => exact (Store.StaysIn.refl _).retains
  | cons scope outer => exact world.store.retains_define scope name value

namespace Machine

/-- From a machine to another one no call begins, and no variable goes. -/
structure Abides (machine next : Machine) : Prop where
  depth : next.depth ≤ machine.depth
  names : machine.world.store.Retains next.world.store

section

variable {machine : Machine}

theorem abides_of_staysIn {next : Machine} (hdepth : next.depth ≤ machine.depth)
    (h : machine.world.store.StaysIn next.world.store) : machine.Abides next :=
  ⟨hdepth, h.retains⟩

theorem abides_of_same {next : Machine} (hdepth : next.depth ≤ machine.depth)
    (hworld : next.world = machine.world) : machine.Abides next :=
  abides_of_staysIn hdepth (hworld ▸ .refl _)

theorem abides_settle {frames : List Frame} {world : World}
    (h : machine.world.store.StaysIn world.store) (result : Except RuntimeFault Value) :
    machine.Abides (settle { machine with frames := frames, world := world } result) := by
  cases result with
  | ok value => exact abides_of_staysIn (Nat.le_refl _) h
  | error fault => exact abides_of_staysIn (Nat.le_refl _) h

variable (machine)

theorem abides_evaluate (expression : Expr) : machine.Abides (machine.evaluate expression) := by
  cases expression with
  | «variable» occurrence => exact abides_settle (.refl _) _
  | thisRef occurrence => exact abides_settle (.refl _) _
  | superRef occurrence method =>
      exact abides_settle (machine.world.staysIn_superMethod machine.env occurrence method) _
  | _ => exact abides_of_same (Nat.le_refl _) rfl

theorem abides_declareClass (name : Token) (superclass : Option Class)
    (methods : List FunctionDecl) :
    machine.Abides (machine.declareClass name superclass methods) := by
  let named := machine.world.define machine.env name.lexeme .nil
  let made := named.makeClass machine.env name.lexeme superclass methods
  have hmade : machine.world.store.Retains made.1.store :=
    (machine.world.retains_define machine.env name.lexeme .nil).trans
      (named.staysIn_makeClass machine.env name.lexeme superclass methods).retains
  unfold declareClass
  dsimp only
  split
  · exact ⟨Nat.le_refl _, hmade.trans (made.1.store.retains_define _ _ _)⟩
  · exact ⟨Nat.le_refl _, hmade⟩

theorem abides_execute (statement : Stmt) : machine.Abides (machine.execute statement) := by
  cases statement with
  | block body => exact abides_of_staysIn (Nat.le_refl _) (Store.staysIn_newScope _ _)
  | classDecl name superclass methods =>
      cases superclass with
      | none => exact machine.abides_declareClass name none methods
      | some clause =>
          dsimp only [execute]
          split
          · exact machine.abides_declareClass name _ methods
          · exact abides_of_same (Nat.le_refl _) rfl
          · exact abides_of_same (Nat.le_refl _) rfl
  | function declaration =>
      let closed := machine.world.close machine.env declaration false
      exact ⟨Nat.le_refl _, closed.1.retains_define machine.env _ (.function closed.2)⟩
  | varDecl name initializer =>
      cases initializer with
      | none => exact ⟨Nat.le_refl _, machine.world.retains_define machine.env _ .nil⟩
      | some value => exact abides_of_same (Nat.le_refl _) rfl
  | returnValue keyword value => cases value <;> exact abides_of_same (Nat.le_refl _) rfl
  | _ => exact abides_of_same (Nat.le_refl _) rfl

/-- A value goes to a frame that makes no call of it. -/
theorem abides_receive {value : Value} {frame : Frame} {frames : List Frame}
    (hcontrol : machine.control = .value value) (hframes : machine.frames = frame :: frames)
    (hcalling : machine.calling? = none) :
    machine.Abides (receive { machine with frames := frames } value frame) := by
  rw [calling?, hcontrol, hframes] at hcalling
  cases frame with
  | unary operator => exact abides_settle (.refl _) _
  | binaryRight operator left => exact abides_settle (.refl _) _
  | logical operator right =>
      dsimp only [receive]
      split <;> exact abides_of_same (Nat.le_refl _) rfl
  | assign target =>
      dsimp only [receive]
      split
      · exact ⟨Nat.le_refl _, machine.world.store.retains_define _ _ _⟩
      · exact abides_of_same (Nat.le_refl _) rfl
  | callee paren arguments =>
      cases arguments with
      | nil => cases hcalling
      | cons argument rest => exact abides_of_same (Nat.le_refl _) rfl
  | argument paren callee done rest =>
      cases rest with
      | nil => cases hcalling
      | cons argument rest => exact abides_of_same (Nat.le_refl _) rfl
  | get name =>
      cases value with
      | object object =>
          exact abides_settle (machine.world.staysIn_property object name) _
      | _ => exact abides_of_same (Nat.le_refl _) rfl
  | setObject name expression => cases value <;> exact abides_of_same (Nat.le_refl _) rfl
  | setValue name object => exact abides_of_staysIn (Nat.le_refl _) (.refl _)
  | print =>
      have hprint : (machine.world.print value).1.store = machine.world.store := rfl
      dsimp only [receive]
      split
      · next printed heq =>
          rw [heq] at hprint
          exact abides_of_staysIn (Nat.le_refl _)
            (Store.staysIn_of_scopes (congrArg Store.scopes hprint))
      · next printed heq =>
          rw [heq] at hprint
          exact abides_of_staysIn (Nat.le_refl _)
            (Store.staysIn_of_scopes (congrArg Store.scopes hprint))
  | define name => exact ⟨Nat.le_refl _, machine.world.retains_define machine.env _ value⟩
  | choice thenBranch elseBranch =>
      dsimp only [receive]
      split
      · exact abides_of_same (Nat.le_refl _) rfl
      · cases elseBranch <;> exact abides_of_same (Nat.le_refl _) rfl
  | loopTest condition body =>
      dsimp only [receive]
      split <;> exact abides_of_same (Nat.le_refl _) rfl
  | _ => exact abides_of_same (Nat.le_refl _) rfl

theorem depth_finish_le (completion : Completion) (frame : Frame) :
    (machine.finish completion frame).depth ≤ machine.depth := by
  cases frame with
  | sequence rest => cases completion <;> exact Nat.le_refl _
  | loopBody condition body => cases completion <;> exact Nat.le_refl _
  | activation activation =>
      dsimp only [finish, leave]
      split
      · split <;> exact Nat.sub_le _ _
      · cases completion <;> exact Nat.sub_le _ _
  | _ => exact Nat.le_refl _

theorem abides_unwind (frame : Frame) : machine.Abides (machine.unwind frame) := by
  cases frame with
  | activation activation => exact abides_of_same (Nat.sub_le _ _) rfl
  | _ => exact abides_of_same (Nat.le_refl _) rfl

variable {machine}

/-- Only a call begins a call. -/
theorem abides_step (hcalling : machine.calling? = none) : machine.Abides machine.step := by
  obtain ⟨control, frames, env, depth, world⟩ := machine
  cases control with
  | evaluate expression => exact abides_evaluate _ expression
  | execute statement => exact abides_execute _ statement
  | run statements => cases statements <;> exact abides_of_same (Nat.le_refl _) rfl
  | value value =>
      cases frames with
      | nil => exact abides_of_same (Nat.le_refl _) rfl
      | cons frame frames => exact abides_receive _ rfl rfl hcalling
  | completed completion =>
      cases frames with
      | nil => exact abides_of_same (Nat.le_refl _) rfl
      | cons frame frames =>
          let rest : Machine := ⟨.completed completion, frames, env, depth, world⟩
          exact abides_of_same (rest.depth_finish_le completion frame)
            (rest.world_finish completion frame)
  | failed failure =>
      cases frames with
      | nil => exact abides_of_same (Nat.le_refl _) rfl
      | cons frame frames =>
          let rest : Machine := ⟨.failed failure, frames, env, depth, world⟩
          have hrest := rest.abides_unwind frame
          exact ⟨hrest.depth, hrest.names⟩

theorem retains_step (machine : Machine) :
    machine.world.store.Retains machine.step.world.store := by
  cases hcalling : machine.calling? with
  | none => exact (abides_step hcalling).names
  | some call =>
      obtain ⟨paren, callee, arguments⟩ := call
      rw [step_eq_call hcalling]
      let caller : Machine := { machine with frames := machine.frames.tail }
      exact (caller.staysIn_call paren callee arguments).retains

end

/-! ## Calls -/

/-- The next step is that of a call that fails.  Nothing else happens in it. -/
def Refuses (machine : Machine) (paren : Token) (cause : RuntimeCause) : Prop :=
  machine.step = { machine with
    control := .failed (.fault (paren.fault cause))
    frames := machine.frames.tail }

/-- The next step begins with the body of a function, for the call of that function or of a class
whose nearest initializer it is, in a new scope that has its parameters. -/
structure Invokes (machine : Machine) (callee : Value) (arguments : List Value)
    (function : Closure) : Prop where
  calling : ∃ paren, machine.calling? = some (paren, callee, arguments)
  callee : callee = .function function ∨ ∃ ownClass method, callee = .classValue ownClass ∧
    ownClass.Nearest FunctionDecl.initializerName method ∧
    function.declaration = method.declaration
  body : machine.step.control = .run function.declaration.body
  frames : ∃ made, machine.step.frames =
    .activation ⟨machine.env, function, made⟩ :: machine.frames.tail
  /-- In front of the scope of the call there is that of a method that is bound, if there is one. -/
  scope : ∃ others, machine.opened = others ++ [.call function] ∧
    (∀ opening ∈ others, opening.isRun = false) ∧
    machine.step.env = (machine.world.store.scopes.size + others.length) :: function.env ∧
    machine.step.world.store.Pairs (machine.world.store.scopes.size + others.length)
      function.declaration.params arguments

section

variable {machine : Machine} {paren : Token} {callee : Value} {arguments : List Value}
  (hcalling : machine.calling? = some (paren, callee, arguments))

include hcalling

theorem refuses_of_callObstacle? {cause : RuntimeCause}
    (h : callObstacle? callee arguments machine.depth = some cause) :
    machine.Refuses paren cause := by
  rw [Refuses, step_eq_call hcalling]
  exact call_of_obstacle h

theorem opened_eq_openedByCall : machine.opened = machine.openedByCall callee arguments := by
  obtain ⟨control, frames, env, depth, world⟩ := machine
  unfold calling? at hcalling
  dsimp only at hcalling
  split at hcalling
  · cases hcalling
    rfl
  · cases hcalling
    rfl
  · cases hcalling

variable (hobstacle : callObstacle? callee arguments machine.depth = none)

include hobstacle

theorem invokes_function {function : Closure} (hcallee : callee = .function function) :
    machine.Invokes callee arguments function := by
  subst hcallee
  have hcount := Option.some.inj (callObstacle?_eq_none_iff.1 hobstacle).1
  have hstep : machine.step =
      enter { machine with frames := machine.frames.tail } function arguments none := by
    rw [step_eq_call hcalling]
    exact call_function hobstacle
  have hopened : machine.opened = [.call function] := by
    rw [opened_eq_openedByCall hcalling]
    unfold openedByCall
    rw [hobstacle]
  refine ⟨⟨paren, hcalling⟩, .inl rfl, ?_, ⟨none, ?_⟩, [], hopened, List.forall_mem_nil _, ?_, ?_⟩
  · rw [hstep]
    rfl
  · rw [hstep]
    rfl
  · rw [hstep]
    rfl
  · rw [hstep]
    exact machine.world.store.pairs_newScope hcount.symm

theorem invokes_class {ownClass : Class} (hcallee : callee = .classValue ownClass)
    {method : Closure} (hinitializer : ownClass.initializer? = some method) :
    ∃ function, machine.Invokes callee arguments function := by
  subst hcallee
  have hcount : method.declaration.params.length = arguments.length := by
    have harity := (callObstacle?_eq_none_iff.1 hobstacle).1
    exact Option.some.inj ((Value.arity?_of_initializer? hinitializer).symm.trans harity)
  let made := machine.world.construct ownClass
  let bound := made.1.bind method made.2
  have hstep : machine.step =
      enter { machine with frames := machine.frames.tail, world := bound.1 } bound.2 arguments
        (some made.2) := by
    rw [step_eq_call hcalling]
    exact call_class_of_initializer? hobstacle hinitializer
  have hopened : machine.opened = [.bound bound.2 made.2, .call bound.2] := by
    rw [opened_eq_openedByCall hcalling]
    unfold openedByCall
    rw [hobstacle]
    dsimp only
    rw [hinitializer]
  have hsize : bound.1.store.scopes.size = machine.world.store.scopes.size + 1 :=
    Array.size_push _
  refine ⟨bound.2, ⟨paren, hcalling⟩, .inr ⟨ownClass, method, rfl, ?_, rfl⟩, ?_,
    ⟨some made.2, ?_⟩, [.bound bound.2 made.2], hopened, ?_, ?_, ?_⟩
  · exact Class.nearest_of_findMethod? ownClass hinitializer
  · rw [hstep]
    rfl
  · rw [hstep]
    rfl
  · intro opening hopening
    rw [List.mem_singleton.1 hopening]
    rfl
  · rw [List.length_singleton, hstep, ← hsize]
    rfl
  · rw [List.length_singleton, hstep, ← hsize]
    exact bound.1.store.pairs_newScope hcount.symm

/-- A call that can be made begins with the body of a function, unless there is none to run. -/
theorem invokes_or_depth_eq :
    (∃ function, machine.Invokes callee arguments function) ∨
      machine.step.depth = machine.depth ∧ machine.opened = [] := by
  have hopened := opened_eq_openedByCall hcalling
  have hstep := step_eq_call hcalling
  unfold openedByCall at hopened
  unfold call at hstep
  rw [hobstacle] at hopened hstep
  cases callee with
  | function function => exact .inl ⟨function, invokes_function hcalling hobstacle rfl⟩
  | classValue ownClass =>
      dsimp only at hopened hstep
      cases hinitializer : ownClass.initializer? with
      | some method => exact .inl (invokes_class hcalling hobstacle rfl hinitializer)
      | none =>
          rw [hinitializer] at hopened hstep
          exact .inr ⟨by rw [hstep], hopened⟩
  | builtin native =>
      cases native with
      | clock => exact .inr ⟨by rw [hstep], hopened⟩
  | _ => cases hobstacle

end

/-- The step that makes a scope for a call is that of a call. -/
theorem exists_calling?_of_opened {machine : Machine} {function : Closure}
    (h : .call function ∈ machine.opened) :
    ∃ paren callee arguments, machine.calling? = some (paren, callee, arguments) ∧
      callObstacle? callee arguments machine.depth = none := by
  have hopened {callee : Value} {arguments : List Value}
      (hmem : .call function ∈ machine.openedByCall callee arguments) :
      callObstacle? callee arguments machine.depth = none := by
    unfold openedByCall at hmem
    split at hmem
    · cases hmem
    · assumption
  obtain ⟨control, frames, env, depth, world⟩ := machine
  cases control with
  | evaluate expression =>
      cases expression with
      | superRef occurrence method =>
          have hsuper : .call function ∈ world.openedBySuper env occurrence method := h
          rcases world.superMethod_cases env occurrence method with ⟨fault, -, hnone⟩ |
            ⟨distance, superclass, bound, found, -, -, -, -, -, hsome⟩
          · rw [hnone] at hsuper
            cases hsuper
          · rw [hsome] at hsuper
            cases List.mem_singleton.1 hsuper
      | _ => cases h
  | execute statement =>
      cases statement with
      | block body => cases List.mem_singleton.1 h
      | classDecl name superclass methods =>
          cases superclass with
          | none => cases h
          | some clause =>
              dsimp only [opened, openedByStatement] at h
              split at h
              · cases List.mem_singleton.1 h
              · cases h
      | _ => cases h
  | value value =>
      cases frames with
      | nil => cases h
      | cons frame frames =>
          cases frame with
          | callee paren arguments =>
              cases arguments with
              | nil => exact ⟨paren, value, [], rfl, hopened h⟩
              | cons argument rest => cases h
          | argument paren callee done rest =>
              cases rest with
              | nil => exact ⟨paren, callee, (value :: done).reverse, rfl, hopened h⟩
              | cons argument rest => cases h
          | get name =>
              cases value with
              | object object =>
                  dsimp only [opened, openedByValue, World.openedByProperty] at h
                  split at h
                  · cases h
                  · split at h
                    · cases List.mem_singleton.1 h
                    · cases h
              | _ => cases h
          | _ => cases h
  | _ => cases h

/-- The scope that a step makes for a call has the parameters of the callee. -/
theorem bound_of_opened {machine : Machine} {index : Nat} {function : Closure}
    (h : machine.opened[index]? = some (.call function)) :
    ∀ param ∈ function.declaration.params,
      (machine.step.world.store.binding? (machine.world.store.scopes.size + index)
        param.lexeme).isSome := by
  obtain ⟨paren, callee, arguments, hcalling, hobstacle⟩ :=
    exists_calling?_of_opened (List.mem_of_getElem? h)
  rcases invokes_or_depth_eq hcalling hobstacle with ⟨called, hinvokes⟩ | ⟨-, hopened⟩
  · obtain ⟨others, hopened, hothers, -, hpairs⟩ := hinvokes.scope
    rw [hopened] at h
    rcases Nat.lt_or_ge index others.length with hlt | hge
    · rw [List.getElem?_append_left hlt] at h
      cases hothers _ (List.mem_of_getElem? h)
    · rw [List.getElem?_append_right hge] at h
      have hlast : index - others.length < 1 := (List.getElem?_eq_some_iff.1 h).1
      obtain rfl : index = others.length := by omega
      rw [Nat.sub_self] at h
      obtain rfl : called = function := Opening.call.inj (Option.some.inj h)
      exact hpairs.bound
  · rw [hopened] at h
    cases h

end Machine

/-! ## Runs -/

namespace Run

/-- A scope that was made for a call has all parameters of the callee for good. -/
theorem Arises.bound_parameters {run : Run} (h : run.Arises) {scope : ScopeId} {function : Closure}
    (hopening : run.past.openings[scope]? = some (.call function)) :
    ∀ param ∈ function.declaration.params,
      (run.machine.world.store.binding? scope param.lexeme).isSome := by
  induction h generalizing scope with
  | first _ _ =>
      have hglobals := List.mem_singleton.1 (List.mem_of_getElem? hopening)
      cases hglobals
  | @step run hrun ih =>
      intro param hparam
      have hopening : (run.past.openings ++ run.machine.opened)[scope]? = some (.call function) :=
        hopening
      rcases Nat.lt_or_ge scope run.past.openings.length with hlt | hge
      · rw [List.getElem?_append_left hlt] at hopening
        exact run.machine.retains_step scope _ (ih hopening param hparam)
      · rw [List.getElem?_append_right hge] at hopening
        have hbound := Machine.bound_of_opened hopening param hparam
        rw [← hrun.traced.size, Nat.add_sub_cancel' hge] at hbound
        exact hbound
  | @next run world program _ hstore _ ih =>
      intro param hparam
      show (world.store.binding? scope param.lexeme).isSome
      rw [hstore]
      exact ih hopening param hparam

/-- Arguments and parameters pair up, whether programs have been resolved or not.

The number of active calls only grows in the step of a call for which a function runs: the callee,
or the nearest initializer of the class that is called.  It has as many parameters as there are
arguments, and in its new scope each of them has its argument as value.  A scope that was made for a
call has a variable for each parameter for good.  A call of something that cannot be called, with
another number of arguments or at the limit fails, and nothing else happens; any other call of a
function, or of a class with an initializer, runs it. -/
theorem Arises.arguments_pair_up {run : Run} (h : run.Arises) :
    (run.machine.depth < run.machine.step.depth →
      ∃ callee arguments function, run.machine.Invokes callee arguments function) ∧
    (∀ scope function, run.past.openings[scope]? = some (.call function) →
      ∀ param ∈ function.declaration.params,
        (run.machine.world.store.binding? scope param.lexeme).isSome) ∧
    ∀ paren callee arguments, run.machine.calling? = some (paren, callee, arguments) →
      (callee.arity? = none → run.machine.Refuses paren .notCallable) ∧
      (∀ expected, callee.arity? = some expected → arguments.length ≠ expected →
        run.machine.Refuses paren (.argumentCount expected arguments.length)) ∧
      (callee.arity? = some arguments.length → callLimit ≤ run.machine.depth →
        run.machine.Refuses paren .callDepth) ∧
      (callee.arity? = some arguments.length → run.machine.depth < callLimit →
        (∀ function, callee = .function function →
          run.machine.Invokes callee arguments function) ∧
        ∀ ownClass method, callee = .classValue ownClass →
          ownClass.Nearest FunctionDecl.initializerName method →
          ∃ function, run.machine.Invokes callee arguments function) := by
  refine ⟨?_, fun scope function hopening => h.bound_parameters hopening, ?_⟩
  · intro hdepth
    cases hcalling : run.machine.calling? with
    | none => exact absurd (Machine.abides_step hcalling).depth (Nat.not_le_of_lt hdepth)
    | some call =>
        obtain ⟨paren, callee, arguments⟩ := call
        cases hobstacle : callObstacle? callee arguments run.machine.depth with
        | some cause =>
            have hrefuses := Machine.refuses_of_callObstacle? hcalling hobstacle
            rw [hrefuses] at hdepth
            exact absurd hdepth (Nat.lt_irrefl _)
        | none =>
            rcases Machine.invokes_or_depth_eq hcalling hobstacle with hinvokes | ⟨hsame, -⟩
            · exact ⟨callee, arguments, hinvokes⟩
            · exact absurd hsame (Nat.ne_of_gt hdepth)
  · intro paren callee arguments hcalling
    refine ⟨?_, ?_, ?_, ?_⟩
    · intro harity
      refine Machine.refuses_of_callObstacle? hcalling ?_
      rw [callObstacle?, harity]
    · intro expected harity hcount
      refine Machine.refuses_of_callObstacle? hcalling ?_
      rw [callObstacle?, harity]
      exact if_pos hcount
    · intro harity hdepth
      refine Machine.refuses_of_callObstacle? hcalling ?_
      rw [callObstacle?, harity]
      dsimp only
      rw [if_neg (not_not.2 rfl), if_pos hdepth]
    · intro harity hdepth
      have hobstacle : callObstacle? callee arguments run.machine.depth = none := by
        rw [callObstacle?, harity]
        dsimp only
        rw [if_neg (not_not.2 rfl), if_neg (Nat.not_le_of_lt hdepth)]
      refine ⟨fun function hcallee => Machine.invokes_function hcalling hobstacle hcallee, ?_⟩
      intro ownClass method hcallee hnearest
      exact Machine.invokes_class hcalling hobstacle hcallee hnearest.findMethod?

/-- A class that inherits its initializer, a call of it with an argument and one without.  Nothing
is resolved. -/
def inheriting : Program :=
  let above : Token := ⟨.identifier, "A", 1⟩
  let below : Token := ⟨.identifier, "B", 1⟩
  let paren : Token := ⟨.symbol .rightParen, ")", 1⟩
  [.classDecl above none [.mk ⟨.identifier, "init", 1⟩ [⟨.identifier, "x", 1⟩] []],
    .classDecl below (some ⟨0, above⟩) [],
    .expression (.call (.variable ⟨1, below⟩) paren [.literal .nil]),
    .expression (.call (.variable ⟨2, below⟩) paren [])]

theorem written_inheriting : inheriting.Written := by
  have hparse : Program.parse
      (TokenStream.ofSource "class A\x7binit(x)\x7b\x7d\x7dclass B<A\x7b\x7dB(nil);B();").tokens
      (TokenStream.ofSource "class A\x7binit(x)\x7b\x7d\x7dclass B<A\x7b\x7dB(nil);B();").endLine
      0 = ⟨.ok inheriting, 3⟩ := by decide +kernel
  have hwritten : (id inheriting).Written := .mk .script hparse
  exact hwritten

/-- The initializer runs for the call with an argument, and the call without one fails. -/
theorem arguments_pair_up_inheriting :
    let start := Run.start .initial (.initial none fun _ => 0) inheriting
    let first := start.runFor 12
    let second := start.runFor 21
    start.Arises ∧
    (first.machine.depth < first.machine.step.depth ∧
      ∃ callee function, first.machine.Invokes callee [.nil] function) ∧
    ∃ paren callee, second.machine.calling? = some (paren, callee, []) ∧
      callee.arity? = some 1 ∧ second.machine.Refuses paren (.argumentCount 1 0) := by
  intro start first second
  have hstart : start.Arises := .first rfl written_inheriting
  have hdepth : first.machine.depth < first.machine.step.depth := Nat.lt_succ_self 0
  obtain ⟨paren, callee, hcalling⟩ : ∃ paren callee,
      first.machine.calling? = some (paren, callee, [.nil]) := ⟨_, _, rfl⟩
  obtain ⟨paren', callee', hcalling', harity⟩ : ∃ paren callee,
      second.machine.calling? = some (paren, callee, []) ∧ callee.arity? = some 1 :=
    ⟨_, _, rfl, rfl⟩
  refine ⟨hstart, ⟨hdepth, ?_⟩, paren', callee', hcalling', harity, ?_⟩
  · obtain ⟨called, arguments, function, hinvokes⟩ :=
      (Arises.arguments_pair_up (hstart.runFor 12)).1 hdepth
    obtain ⟨paren'', hcalled⟩ := hinvokes.calling
    have hsame : some (paren'', called, arguments) = some (paren, callee, [.nil]) :=
      hcalled.symm.trans hcalling
    cases hsame
    exact ⟨callee, function, hinvokes⟩
  · exact ((Arises.arguments_pair_up (hstart.runFor 21)).2.2 paren' callee' [] hcalling').2.1 1
      harity (by decide)

end Run

end LoxLang
