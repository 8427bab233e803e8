import LoxLang.Proofs.Run.Reads

/-!
# Instances and superclasses

In the body of a method `this` is the instance to which the method was bound whose call encloses the
place, and `super` starts from the value that the superclass clause had when the class was declared.
So it is in blocks, functions and classes inside the method, and however the method was come by.
-/

namespace LoxLang

/-- The call of a method that was made of a class declaration and bound to an instance. -/
structure MethodCall where
  callee : Closure
  object : Instance
  /-- The scope of the call. -/
  scope : ScopeId
  /-- The scope in which `this` is the instance. -/
  bound : ScopeId
  /-- The environment in which the method was made. -/
  outer : Env
  name : Token
  superclass : Option Occurrence
  methods : List FunctionDecl
  /-- The environment in which the class declaration was executed. -/
  env : Env

/-- The class nearest around a place has its method `depth` constructs out, and the scope there is
that of a call of the method. -/
structure Scene.Encloses (scene : Scene) (env : Env) (path : Path) (depth : Nat)
    (call : MethodCall) : Prop where
  place : ∃ (outer : Path) (declared : List String),
    path.drop depth = ⟨.method call.callee.declaration, declared⟩ ::
      outer.inClass call.name call.superclass call.methods ∧
    scene.Executes call.env (outer.enter call.name.lexeme)
      (.classDecl call.name call.superclass call.methods)
  nearest : ∀ inner ∈ path.take depth, ¬inner.construct.isClass
  method : call.callee.declaration ∈ call.methods
  scopes : env.drop depth = call.scope :: call.bound :: call.outer
  called : scene.openings[call.scope]? = some (.call call.callee)
  /-- What was called is what came of binding the method to the instance. -/
  bound : scene.openings[call.bound]? = some (.bound call.callee call.object)
  calleeEnv : call.callee.env = call.bound :: call.outer
  methodEnv : scene.MethodEnv call.env call.name call.methods call.superclass call.outer
  /-- The words of the class are declared nowhere in between. -/
  this : path.distance? thisName = some (depth + 1)
  super : call.superclass.isSome → path.distance? superName = some (depth + 2)

/-- The methods of a call were made around the value of the superclass clause of their class. -/
def Scene.Inherits (scene : Scene) (call : MethodCall) (value : Class) : Prop :=
  ∃ clause scope, call.superclass = some clause ∧ call.outer = scope :: call.env ∧
    scene.openings[scope]? = some (.superclass call.name clause call.methods value call.env)

/-! ## Distances to the scopes of a class -/

namespace Path

variable {name : String} {enclosure : Enclosure} {path : Path}

theorem distance?_cons_of_mem (h : name ∈ enclosure.declared) :
    distance? (enclosure :: path) name = some 0 := by
  rw [distance?, List.findIdx?_cons, decide_eq_true h]
  rfl

theorem distance?_cons_of_not_mem (h : name ∉ enclosure.declared) :
    distance? (enclosure :: path) name = (path.distance? name).map (· + 1) := by
  rw [distance?, List.findIdx?_cons, decide_eq_false h]
  rfl

/-- The word `this` is bound by the class. -/
theorem distance?_this (path : Path) (name : Token) (superclass : Option Occurrence)
    (methods : List FunctionDecl) :
    (path.inClass name superclass methods).distance? thisName = some 0 :=
  distance?_cons_of_mem (List.mem_singleton_self _)

/-- The word `super` is bound around a class with a superclass. -/
theorem distance?_super (path : Path) (name : Token) (superclass : Occurrence)
    (methods : List FunctionDecl) :
    (path.inClass name (some superclass) methods).distance? superName = some 1 := by
  have hnot : superName ∉ (Construct.classBody name (some superclass) methods).opened.declared := by
    intro hmem
    exact absurd (List.mem_singleton.1 hmem) (by decide)
  rw [inClass, distance?_cons_of_not_mem hnot, inHead,
    distance?_cons_of_mem (List.mem_singleton_self _)]
  rfl

end Path

theorem Scene.Keeps.not_mem {scene : Scene} {scope : ScopeId} {names : List String}
    (h : scene.Keeps scope names) : thisName ∉ names ∧ superName ∉ names :=
  ⟨fun hmem => (h _ hmem).1 rfl, fun hmem => (h _ hmem).2.1 rfl⟩

namespace Scene.Encloses

variable {scene : Scene} {env : Env} {path : Path} {depth : Nat} {call : MethodCall}

/-- Inside a block or a function the method is further out. -/
theorem further (h : scene.Encloses env path depth call) {scope : ScopeId} {enclosure : Enclosure}
    (hclass : ¬enclosure.construct.isClass) (hkeeps : scene.Keeps scope enclosure.declared) :
    scene.Encloses (scope :: env) (enclosure :: path) (depth + 1) call := by
  refine { h with nearest := ?_, this := ?_, super := fun hsome => ?_ }
  · intro inner hinner
    rcases List.mem_cons.1 hinner with rfl | hmem
    · exact hclass
    · exact h.nearest inner hmem
  · rw [Path.distance?_cons_of_not_mem hkeeps.not_mem.1, h.this]
    rfl
  · rw [Path.distance?_cons_of_not_mem hkeeps.not_mem.2, h.super hsome]
    rfl

/-- The class nearest around the place is that of the method. -/
theorem class?_eq (h : scene.Encloses env path depth call) :
    path.class? = some (.classBody call.name call.superclass call.methods) := by
  obtain ⟨outer, declared, hplace, -⟩ := h.place
  have hnone : ((path.take depth).map Enclosure.construct).find? Construct.isClass = none := by
    rw [List.find?_eq_none]
    intro construct hconstruct
    obtain ⟨inner, hinner, rfl⟩ := List.mem_map.1 hconstruct
    exact h.nearest inner hinner
  rw [Path.class?, ← List.take_append_drop depth path, List.map_append, List.find?_append, hnone,
    hplace]
  rfl

end Scene.Encloses

/-- The methods of a class with a superclass are made inside the scope of the superclass. -/
theorem Scene.Encloses.exists_inherits {scene : Scene} {env : Env} {path : Path} {depth : Nat}
    {call : MethodCall} (h : scene.Encloses env path depth call) {clause : Occurrence}
    (hclause : call.superclass = some clause) : ∃ value, scene.Inherits call value := by
  have hmethodEnv := h.methodEnv
  rw [hclause] at hmethodEnv
  generalize houter : call.outer = outer at hmethodEnv
  cases hmethodEnv with
  | @derived scope _ value hopening => exact ⟨value, clause, scope, hclause, houter, hopening⟩

/-- Around every place in a class there is the call of a method. -/
theorem Scene.Activates.exists_call {scene : Scene} {env : Env} {path : Path}
    (h : scene.Activates env path) (hclass : path.class? ≠ none) :
    ∃ depth call, scene.Encloses env path depth call := by
  induction h with
  | globals => exact absurd rfl hclass
  | block _ _ hkeeps ih =>
      obtain ⟨depth, call, hcall⟩ := ih hclass
      exact ⟨depth + 1, call, hcall.further Bool.false_ne_true hkeeps⟩
  | function _ _ _ hkeeps ih =>
      obtain ⟨depth, call, hcall⟩ := ih hclass
      exact ⟨depth + 1, call, hcall.further Bool.false_ne_true hkeeps⟩
  | @method scope bound callee object outer env name superclass methods declared path hcalled hbound
      henv hmethod hmethodEnv hexecutes _ hkeeps _ =>
      refine ⟨0, ⟨callee, object, scope, bound, outer, name, superclass, methods, env⟩, ?_⟩
      constructor
      · exact ⟨path, declared, rfl, hexecutes⟩
      · intro inner hinner
        cases hinner
      · exact hmethod
      · rfl
      · exact hcalled
      · exact hbound
      · exact henv
      · exact hmethodEnv
      · rw [Path.distance?_cons_of_not_mem hkeeps.not_mem.1, Path.distance?_this]
        rfl
      · intro hsome
        obtain ⟨clause, rfl⟩ := Option.isSome_iff_exists.1 hsome
        rw [Path.distance?_cons_of_not_mem hkeeps.not_mem.2, Path.distance?_super]
        rfl

/-! ## The words of a class in runs -/

/-- A run evaluates an expression at a place inside the call of a method. -/
def Run.Within (run : Run) (expression : Expr) (depth : Nat) (call : MethodCall) : Prop :=
  ∃ program ∈ run.past.programs, ∃ path, Located program path (.expression expression) ∧
    run.scene.Activates run.machine.env path ∧ Current run.machine.env run.active path ∧
    run.scene.Encloses run.machine.env path depth call

namespace Scene.Encloses

variable {past : Past} {world : World} {env : Env} {path : Path} {depth : Nat} {call : MethodCall}

/-- Out by the distance of `this` there is the instance. -/
theorem getAt?_this (h : (world.scene past).Encloses env path depth call)
    (hgrounded : (world.scene past).Grounded) :
    world.store.getAt? env (depth + 1) thisName = some (.object call.object) := by
  have hscope : env[depth + 1]? = some call.bound := by
    rw [← List.getElem?_drop, h.scopes]
    rfl
  rw [Store.getAt?, hscope]
  exact hgrounded.instances call.bound call.callee call.object h.bound

/-- Out by the distance of `super` there is the superclass. -/
theorem getAt?_super (h : (world.scene past).Encloses env path depth call)
    (hgrounded : (world.scene past).Grounded) {value : Class}
    (hvalue : (world.scene past).Inherits call value) :
    world.store.getAt? env (depth + 2) superName = some (.classValue value) := by
  obtain ⟨clause, scope, -, houter, hopening⟩ := hvalue
  have hscope : env[depth + 2]? = some scope := by
    rw [← List.getElem?_drop, h.scopes, houter]
    rfl
  rw [Store.getAt?, hscope]
  exact hgrounded.superclasses scope call.name clause call.methods value call.env hopening

end Scene.Encloses

theorem Machine.step_thisRef {machine : Machine} {occurrence : Occurrence}
    (hcontrol : machine.control = .evaluate (.thisRef occurrence)) {value : Value}
    (hread : machine.world.read machine.env occurrence = .ok value) :
    machine.step = machine.yield value := by
  obtain ⟨control, frames, env, depth, world⟩ := machine
  cases hcontrol
  simp only [step, evaluate, hread]
  rfl

/-- The step of `super` with the superclass and the instance that are found. -/
theorem Machine.step_superRef {machine : Machine} {occurrence : Occurrence} {method : Token}
    (hcontrol : machine.control = .evaluate (.superRef occurrence method)) {distance : Nat}
    (hrecorded : machine.world.distances[occurrence.id]? = some distance) {value : Class}
    {object : Instance}
    (hsuper : machine.world.store.getAt? machine.env distance occurrence.name.lexeme =
      some (.classValue value))
    (hthis : machine.world.store.getAt? machine.env (distance - 1) thisName =
      some (.object object)) :
    (∀ found, value.findMethod? method.lexeme = some found →
      machine.step = { machine with
        control := .value (.function (machine.world.bind found object).2)
        world := (machine.world.bind found object).1 }) ∧
    (value.findMethod? method.lexeme = none →
      machine.step = machine.fail (method.fault (.undefinedProperty method.lexeme))) := by
  obtain ⟨control, frames, env, depth, world⟩ := machine
  cases hcontrol
  constructor
  · intro found hfound
    have hfinds : world.superMethod env occurrence method =
        ((world.bind found object).1, .ok (.function (world.bind found object).2)) := by
      simp only [World.superMethod, hrecorded, hsuper, hthis, hfound]
    simp only [step, evaluate, hfinds]
    rfl
  · intro hnone
    have hfails : world.superMethod env occurrence method =
        (world, .error (method.fault (.undefinedProperty method.lexeme))) := by
      simp only [World.superMethod, hrecorded, hsuper, hthis, hnone]
    simp only [step, evaluate, hfails]
    rfl

namespace Run

variable {run : Run}

/-- In the call of a method `this` is the instance to which the method was bound. -/
theorem InOrder.evaluates_this (h : run.InOrder) {occurrence : Occurrence}
    (hcontrol : run.machine.control = .evaluate (.thisRef occurrence)) :
    ∃ depth call, run.Within (.thisRef occurrence) depth call ∧
      run.machine.step = run.machine.yield (.object call.object) := by
  have hgrounded := h.sound.grounded
  obtain ⟨nextId, hpast⟩ := h.recorded
  obtain ⟨program, hprogram, path, hlocated, hactivates, hcurrent⟩ := h.sound.of_evaluate hcontrol
  have haccepted := hgrounded.accepted program hprogram
  have hinside := haccepted.obeysStaticRules.thisInClass hlocated
  have hclass : path.class? ≠ none := mt Path.class?_eq_none_iff.1 (not_not.2 hinside)
  obtain ⟨depth, call, hcall⟩ := hactivates.exists_call hclass
  refine ⟨depth, call, ⟨program, hprogram, path, hlocated, hactivates, hcurrent, hcall⟩, ?_⟩
  have hfinding := haccepted.thisRef_mem_findings hlocated
  have hrecorded : run.machine.world.distances[occurrence.id]? = some (depth + 1) :=
    (hpast.recorded program hprogram occurrence _ hfinding).trans hcall.this
  have hvalue := hcall.getAt?_this hgrounded
  rw [← haccepted.lexeme_thisRef hlocated] at hvalue
  exact Machine.step_thisRef hcontrol (World.read_of_recorded hrecorded hvalue)

/-- In the call of a method `super` starts from the superclass and leads to the same instance. -/
theorem InOrder.evaluates_super (h : run.InOrder) {occurrence : Occurrence} {method : Token}
    (hcontrol : run.machine.control = .evaluate (.superRef occurrence method)) :
    ∃ depth call value, run.Within (.superRef occurrence method) depth call ∧
      run.scene.Inherits call value ∧
      (∀ found, value.findMethod? method.lexeme = some found →
        run.machine.step = { run.machine with
          control := .value (.function (run.machine.world.bind found call.object).2)
          world := (run.machine.world.bind found call.object).1 }) ∧
      (value.findMethod? method.lexeme = none →
        run.machine.step =
          run.machine.fail (method.fault (.undefinedProperty method.lexeme))) := by
  have hgrounded := h.sound.grounded
  obtain ⟨nextId, hpast⟩ := h.recorded
  obtain ⟨program, hprogram, path, hlocated, hactivates, hcurrent⟩ := h.sound.of_evaluate hcontrol
  have haccepted := hgrounded.accepted program hprogram
  obtain ⟨name, clause, methods, hclass⟩ := haccepted.obeysStaticRules.superInSubclass hlocated
  have hsome : path.class? ≠ none := by
    rw [hclass]
    exact Option.some_ne_none _
  obtain ⟨depth, call, hcall⟩ := hactivates.exists_call hsome
  have hwithin : run.Within (.superRef occurrence method) depth call :=
    ⟨program, hprogram, path, hlocated, hactivates, hcurrent, hcall⟩
  -- The class around the call is the one that the static rules speak of.
  have hsuperclass : call.superclass = some clause := by
    have heq := hcall.class?_eq.symm.trans hclass
    cases call
    cases heq
    rfl
  obtain ⟨value, hinherits⟩ := hcall.exists_inherits hsuperclass
  have hfinding := haccepted.superRef_mem_findings hlocated
  have hdistance := hcall.super (Option.isSome_iff_exists.2 ⟨clause, hsuperclass⟩)
  have hrecorded : run.machine.world.distances[occurrence.id]? = some (depth + 2) :=
    (hpast.recorded program hprogram occurrence _ hfinding).trans hdistance
  have hsuper := hcall.getAt?_super hgrounded hinherits
  rw [← haccepted.lexeme_superRef hlocated] at hsuper
  refine ⟨depth, call, value, hwithin, hinherits, ?_⟩
  exact Machine.step_superRef hcontrol hrecorded hsuper (hcall.getAt?_this hgrounded)

/-- In the call of a method `this` is the instance to which the method was bound.  A method that is
taken from `super` is looked up from the value of the superclass clause and bound to the same
instance, and nothing can go wrong but that there is none. -/
theorem Occurs.dispatches (h : run.Occurs) :
    (∀ occurrence, run.machine.control = .evaluate (.thisRef occurrence) →
      ∃ depth call, run.Within (.thisRef occurrence) depth call ∧
        run.machine.step = run.machine.yield (.object call.object)) ∧
    (∀ occurrence method, run.machine.control = .evaluate (.superRef occurrence method) →
      ∃ depth call value, run.Within (.superRef occurrence method) depth call ∧
        run.scene.Inherits call value ∧
        (∀ found, value.findMethod? method.lexeme = some found →
          run.machine.step = { run.machine with
            control := .value (.function (run.machine.world.bind found call.object).2)
            world := (run.machine.world.bind found call.object).1 }) ∧
        (value.findMethod? method.lexeme = none →
          run.machine.step =
            run.machine.fail (method.fault (.undefinedProperty method.lexeme)))) := by
  constructor
  · intro occurrence hcontrol
    exact h.inOrder.evaluates_this hcontrol
  · intro occurrence method hcontrol
    exact h.inOrder.evaluates_super hcontrol

/-- A class whose initializer takes a method from its superclass, and a call of the class. -/
def superReading : Program :=
  let base : Token := ⟨.identifier, "A", 1⟩
  let derived : Token := ⟨.identifier, "B", 1⟩
  let method : Token := ⟨.identifier, "m", 1⟩
  [.classDecl base none [.mk method [] []],
    .classDecl derived (some ⟨0, base⟩) [.mk ⟨.identifier, "init", 1⟩ []
      [.expression (.superRef ⟨1, ⟨.keyword .superKw, "super", 1⟩⟩ method)]],
    .expression (.call (.variable ⟨2, derived⟩) ⟨.symbol .rightParen, ")", 1⟩ [])]

theorem occurs_superReading : (first none (fun _ => 0) superReading).Occurs := by
  refine occurs_first
    "class A\x7bm()\x7b\x7d\x7dclass B<A\x7binit()\x7bsuper.m;\x7d\x7dB();" 3 ?_ ?_ rfl none
      fun _ => 0
  · decide +kernel
  · decide +kernel

/-- When the initializer takes the method. -/
theorem dispatches_superReading :
    let run := (first none (fun _ => 0) superReading).runFor 13
    let occurrence : Occurrence := ⟨1, ⟨.keyword .superKw, "super", 1⟩⟩
    let method : Token := ⟨.identifier, "m", 1⟩
    run.machine.control = .evaluate (.superRef occurrence method) ∧
    ∃ depth call value, run.Within (.superRef occurrence method) depth call ∧
      run.scene.Inherits call value ∧
      (∀ found, value.findMethod? method.lexeme = some found →
        run.machine.step = { run.machine with
          control := .value (.function (run.machine.world.bind found call.object).2)
          world := (run.machine.world.bind found call.object).1 }) ∧
      (value.findMethod? method.lexeme = none →
        run.machine.step =
          run.machine.fail (method.fault (.undefinedProperty method.lexeme))) :=
  ⟨rfl, (Occurs.dispatches (occurs_superReading.runFor 13)).2 _ _ rfl⟩

end Run

end LoxLang
