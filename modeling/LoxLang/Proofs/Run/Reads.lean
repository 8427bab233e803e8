import LoxLang.Proofs.Run.Session

/-!
# Reading variables

An occurrence with a recorded distance reads the variable of one scope: that of the innermost
construct around it in which the name is declared in front of it, in the block run or call in which
the occurrence is reached.  The scope has the variable, and at every later moment the occurrence
still reads it there.
-/

namespace LoxLang

/-- The occurrence whose variable the next step reads, in an expression or as a superclass. -/
def Machine.reading? (machine : Machine) : Option Occurrence :=
  match machine.control with
  | .evaluate (.variable occurrence) => some occurrence
  | .execute (.classDecl _ superclass _) => superclass
  | _ => none

/-- A scope was made for a run of a block, or for a call of a function or a method, around which the
environment is `outer`. -/
inductive Scene.Opened (scene : Scene) (scope : ScopeId) (outer : Env) : Construct → Prop
  | block {body : List Stmt} :
      scene.openings[scope]? = some (.block body outer) → Opened scene scope outer (.block body)
  | function {callee : Closure} :
      scene.openings[scope]? = some (.call callee) → callee.env = outer →
      Opened scene scope outer (.function callee.declaration)
  | method {callee : Closure} :
      scene.openings[scope]? = some (.call callee) → callee.env = outer →
      Opened scene scope outer (.method callee.declaration)

/-- What a distance leads to from an occurrence of a run. -/
structure Run.Reaches (run : Run) (program : Program) (path : Path) (occurrence : Occurrence)
    (distance : Nat) (enclosure : Enclosure) (scope : ScopeId) : Prop where
  /-- The occurrence stands at a place, and the run is at that place. -/
  reads : program.Reads path occurrence
  activates : run.scene.Activates run.machine.env path
  current : Current run.machine.env run.active path
  binds : path.Binds occurrence.name.lexeme distance enclosure
  /-- Out by the distance there is a scope of the construct that binds the name. -/
  reached : run.machine.env[distance]? = some scope
  opened : run.scene.Opened scope (run.machine.env.drop (distance + 1)) enclosure.construct
  /-- If no call is in between, then it is that of the block run or call under way. -/
  active : (∀ inner ∈ path.take distance, ¬inner.construct.isFunction) →
    run.active[distance]? = some scope

/-! ## Scopes of declared names -/

/-- The scope of a construct that has declared a name has a variable for it. -/
theorem Scene.Activates.exists_scope {scene : Scene} {env : Env} {path : Path}
    (h : scene.Activates env path) {name : String} (hname : name ≠ thisName ∧ name ≠ superName)
    {distance : Nat} {enclosure : Enclosure} (hpath : path[distance]? = some enclosure)
    (hdeclared : name ∈ enclosure.declared) :
    ∃ scope, env[distance]? = some scope ∧
      scene.Opened scope (env.drop (distance + 1)) enclosure.construct ∧
      (scene.store.binding? scope name).isSome := by
  induction h generalizing distance with
  | globals => cases hpath
  | block hopening _ hkeeps ih =>
      cases distance with
      | zero =>
          cases hpath
          exact ⟨_, rfl, .block hopening, (hkeeps name hdeclared).2.2⟩
      | succ distance => exact ih hpath
  | function hopening _ _ hkeeps ih =>
      cases distance with
      | zero =>
          cases hpath
          exact ⟨_, rfl, .function hopening rfl, (hkeeps name hdeclared).2.2⟩
      | succ distance => exact ih hpath
  | method hopening _ henv _ hclass _ _ hkeeps ih =>
      -- The constructs of the class itself bind `this` and `super` only.
      match distance with
      | 0 =>
          cases hpath
          exact ⟨_, rfl, .method hopening henv, (hkeeps name hdeclared).2.2⟩
      | 1 =>
          cases hpath
          exact absurd (List.mem_singleton.1 hdeclared) hname.1
      | distance + 2 =>
          cases hclass with
          | plain => exact ih hpath
          | derived _ =>
              cases distance with
              | zero =>
                  cases hpath
                  exact absurd (List.mem_singleton.1 hdeclared) hname.2
              | succ distance => exact ih hpath

theorem World.read_of_recorded {world : World} {env : Env} {occurrence : Occurrence}
    {distance : Nat} (hrecorded : world.distances[occurrence.id]? = some distance) {value : Value}
    (hvalue : world.store.getAt? env distance occurrence.name.lexeme = some value) :
    world.read env occurrence = .ok value := by
  rw [World.read, hrecorded]
  dsimp only
  rw [Store.readAt, hvalue]

/-! ## Reads in runs -/

namespace Run

/-- A run that evaluates an expression is at the place of the expression. -/
theorem Sound.of_evaluate {run : Run} (h : run.Sound) {expression : Expr}
    (hcontrol : run.machine.control = .evaluate expression) :
    ∃ program ∈ run.past.programs, ∃ path, Located program path (.expression expression) ∧
      run.scene.Activates run.machine.env path ∧ Current run.machine.env run.active path := by
  have hfits := h.fits
  rw [hcontrol] at hfits
  generalize run.machine.env = env, run.active = active at hfits ⊢
  cases hfits with
  | evaluate hstands hlocated _ =>
      exact ⟨_, hstands.program, _, hlocated, hstands.activates, hstands.current⟩

/-- A run that executes a statement is at the place of the statement. -/
theorem Sound.of_execute {run : Run} (h : run.Sound) {statement : Stmt}
    (hcontrol : run.machine.control = .execute statement) :
    ∃ program ∈ run.past.programs, ∃ path, Located program path (.statement statement) ∧
      run.scene.Activates run.machine.env path ∧ Current run.machine.env run.active path := by
  have hfits := h.fits
  rw [hcontrol] at hfits
  generalize run.machine.env = env, run.active = active at hfits ⊢
  cases hfits with
  | execute hstands hlocated _ =>
      exact ⟨_, hstands.program, _, hlocated, hstands.activates, hstands.current⟩

/-- A run that is about to read a variable is at the place of the occurrence. -/
theorem Sound.of_reading {run : Run} (h : run.Sound) {occurrence : Occurrence}
    (hreading : run.machine.reading? = some occurrence) :
    ∃ program ∈ run.past.programs, ∃ path, program.Reads path occurrence ∧
      run.scene.Activates run.machine.env path ∧ Current run.machine.env run.active path := by
  unfold Machine.reading? at hreading
  split at hreading
  · next found hcontrol =>
      cases hreading
      obtain ⟨program, hprogram, path, hlocated, hplace⟩ := h.of_evaluate hcontrol
      exact ⟨program, hprogram, path, .variable hlocated, hplace⟩
  · next name superclass methods hcontrol =>
      subst hreading
      obtain ⟨program, hprogram, path, hlocated, hplace⟩ := h.of_execute hcontrol
      exact ⟨program, hprogram, path, .superclass hlocated, hplace⟩
  · cases hreading

/-- A read with a recorded distance reaches the scope of the innermost construct that has declared
the name in front of the occurrence, and finds the variable there, now and at every later moment. -/
theorem Occurs.reads_local {run : Run} (h : run.Occurs) {occurrence : Occurrence} {distance : Nat}
    (hreading : run.machine.reading? = some occurrence)
    (hrecorded : run.machine.world.distances[occurrence.id]? = some distance) :
    ∃ program ∈ run.past.programs, ∃ path enclosure scope,
      run.Reaches program path occurrence distance enclosure scope ∧
      ∀ later, run.Precedes later → ∃ value,
        later.machine.world.store.binding? scope occurrence.name.lexeme = some value ∧
        later.machine.world.read run.machine.env occurrence = .ok value := by
  obtain ⟨program, hprogram, path, hreads, hactivates, hcurrent⟩ :=
    h.inOrder.sound.of_reading hreading
  have haccepted := h.inOrder.sound.grounded.accepted program hprogram
  have hfinding := haccepted.reads_mem_findings hreads
  -- The recorded distance is the one that was found.
  obtain ⟨nextId, hpast⟩ := h.inOrder.recorded
  have hdistance : path.distance? occurrence.name.lexeme = some distance :=
    (hpast.recorded program hprogram occurrence _ hfinding).symm.trans hrecorded
  obtain ⟨enclosure, hbinds⟩ := Path.binds_of_distance? hdistance
  have hname : occurrence.name.lexeme ≠ thisName ∧ occurrence.name.lexeme ≠ superName :=
    (hreads.names haccepted.formed).ne
  obtain ⟨scope, hscope, hopened, hbinding⟩ := hactivates.exists_scope hname hbinds.found
    hbinds.declared
  have hreaches : run.Reaches program path occurrence distance enclosure scope :=
    { reads := hreads
      activates := hactivates
      current := hcurrent
      binds := hbinds
      reached := hscope
      opened := hopened
      active := fun hlocal => (hcurrent.getElem? hbinds.found hlocal).symm.trans hscope }
  refine ⟨program, hprogram, path, enclosure, scope, hreaches, ?_⟩
  intro later hlater
  obtain ⟨hoccurs, hgrows⟩ := h.of_precedes hlater
  obtain ⟨nextId', hpast'⟩ := hoccurs.inOrder.recorded
  have hrecorded' : later.machine.world.distances[occurrence.id]? = some distance :=
    (hpast'.recorded program (hgrows.programs hprogram) occurrence _ hfinding).trans hdistance
  obtain ⟨value, hvalue⟩ := Option.isSome_iff_exists.1 (hgrows.bindings scope _ hbinding)
  have hget : later.machine.world.store.getAt? run.machine.env distance occurrence.name.lexeme =
      some value := by
    rw [Store.getAt?, hscope]
    exact hvalue
  exact ⟨value, hvalue, World.read_of_recorded hrecorded' hget⟩

/-- A block that declares a variable and then reads it. -/
def blockReading : Program :=
  let name : Token := ⟨.identifier, "a", 1⟩
  [.block [.varDecl name none, .expression (.variable ⟨0, name⟩)]]

theorem occurs_blockReading : (first none (fun _ => 0) blockReading).Occurs := by
  refine occurs_first "\x7bvar a;a;\x7d" 1 ?_ ?_ rfl none fun _ => 0
  · decide +kernel
  · decide +kernel

/-- When the block reads its variable. -/
theorem reads_local_blockReading :
    let run := (first none (fun _ => 0) blockReading).runFor 7
    let occurrence : Occurrence := ⟨0, ⟨.identifier, "a", 1⟩⟩
    run.machine.reading? = some occurrence ∧
    run.machine.world.distances[occurrence.id]? = some 0 ∧
    ∃ program ∈ run.past.programs, ∃ path enclosure scope,
      run.Reaches program path occurrence 0 enclosure scope ∧
      ∀ later, run.Precedes later → ∃ value,
        later.machine.world.store.binding? scope occurrence.name.lexeme = some value ∧
        later.machine.world.read run.machine.env occurrence = .ok value :=
  ⟨rfl, rfl, Occurs.reads_local (occurs_blockReading.runFor 7) rfl rfl⟩

end Run

end LoxLang
