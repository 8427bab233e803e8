import LoxLang.Proofs.Run.Faults
import LoxLang.Proofs.Scope.Declarations

/-!
# Assigning to local variables

An assignment with a recorded distance gives one variable of one scope a value.  The scope is that
of the innermost construct around the assignment in which the name is declared in front of it, and
it has the variable already (`Run.Occurs.assigns_local`).  The one exception is an assignment to a
variable in that variable's own initializer: it is recorded for the innermost scope, in which the
variable is not bound yet, and so binds it (`Run.assigns_ownInitializer`).
-/

namespace LoxLang

/-! ## Where the target is found -/

/-- An assignment stands in the initializer of the local variable to which it assigns. -/
structure Program.AssignsInOwnInitializer (program : Program) (path : Path) (target : Occurrence)
    (expression : Expr) : Prop where
  isLocal : path ≠ []
  initializer : ∃ name initializer,
    Located program path (.statement (.varDecl name (some initializer))) ∧
      (Expr.assign target expression).Inside initializer ∧ target.name.lexeme = name.lexeme

namespace Program

variable {program : Program} {path : Path} {target : Occurrence} {expression : Expr}

/-- What resolution finds about the target of an assignment in the initializer of its variable. -/
theorem AssignsInOwnInitializer.mem_findings
    (h : program.AssignsInOwnInitializer path target expression) :
    .binding target (some 0) ∈ program.findings := by
  obtain ⟨hpath, name, initializer, hstatement, hinside, hname⟩ := h
  obtain ⟨enclosure, outer, rfl⟩ := List.exists_cons_of_ne_nil hpath
  have hdistance : (Path.pending (enclosure :: outer) name).distance? target.name.lexeme =
      some 0 := by
    rw [hname]
    exact Path.distance?_pending_self enclosure outer name
  have hown : (Path.pending (enclosure :: outer) name).binding target ∈
      (Expr.assign target expression).own (Path.context (enclosure :: outer))
        (Path.pending (enclosure :: outer) name) :=
    List.mem_singleton_self _
  rw [Scopes.binding, hdistance] at hown
  exact mem_findings_iff.2 ⟨_, _, hstatement,
    .inr ⟨initializer, List.mem_singleton_self _, initializer.mem_findings_iff.2
      ⟨_, hinside, hown⟩⟩⟩

/-- What resolution finds about the target of any other assignment. -/
theorem target_mem_findings
    (h : Located program path (.expression (.assign target expression)))
    (hother : ¬program.AssignsInOwnInitializer path target expression) :
    .binding target (path.distance? target.name.lexeme) ∈ program.findings := by
  apply Accepted.binding_mem_findings h
  · intro scopes
    exact List.mem_singleton_self _
  · intro name initializer hpath hstatement hinside hname
    exact hother ⟨hpath, name, initializer, hstatement, hinside, hname⟩

end Program

/-! ## What is written -/

/-- The next step gives one variable of one scope a value and leaves all other variables, the fields
of all instances and the output as they are. -/
structure Run.Assigns (run : Run) (scope : ScopeId) (name : String) (value : Value) : Prop where
  store : run.step.machine.world.store = run.machine.world.store.define scope name value
  written : run.step.machine.world.store.binding? scope name = some value
  others : ∀ other key, ¬(other = scope ∧ key = name) →
    run.step.machine.world.store.binding? other key = run.machine.world.store.binding? other key
  output : run.step.machine.world.output = run.machine.world.output
  result : run.step.machine.control = .value value

theorem Machine.step_assign {machine : Machine} {target : Occurrence} {value : Value}
    {frames : List Frame} {scope : ScopeId} (hcontrol : machine.control = .value value)
    (hframes : machine.frames = .assign target :: frames)
    (htarget : machine.world.target machine.env target = .ok scope) :
    machine.step = { machine with
      frames := frames
      world := machine.world.set scope target.name.lexeme value } := by
  obtain ⟨control, framesBefore, env, depth, world⟩ := machine
  cases hcontrol
  cases hframes
  rw [step, receive]
  dsimp only
  rw [htarget]

namespace Run

variable {run : Run} {target : Occurrence} {value : Value} {frames : List Frame}
  {distance : Nat} {scope : ScopeId}

/-- An assignment with a recorded distance writes to the scope at that distance. -/
theorem assigns_of_recorded (hcontrol : run.machine.control = .value value)
    (hframes : run.machine.frames = .assign target :: frames)
    (hrecorded : run.machine.world.distances[target.id]? = some distance)
    (hscope : run.machine.env[distance]? = some scope)
    (hlt : scope < run.machine.world.store.scopes.size) :
    run.Assigns scope target.name.lexeme value := by
  have htarget : run.machine.world.target run.machine.env target = .ok scope := by
    rw [World.target, hrecorded]
    dsimp only [Store.ownerAt]
    rw [hscope]
  have hstep : run.step.machine = { run.machine with
      frames := frames
      world := run.machine.world.set scope target.name.lexeme value } :=
    Machine.step_assign hcontrol hframes htarget
  have hstore : run.step.machine.world.store =
      run.machine.world.store.define scope target.name.lexeme value := by
    rw [hstep]
    rfl
  constructor
  · exact hstore
  · rw [hstore, Store.binding?_define, if_pos ⟨hlt, rfl, rfl⟩]
  · intro other key hne
    rw [hstore, Store.binding?_define, if_neg fun h => hne h.2]
  · rw [hstep]
    rfl
  · rw [hstep]
    exact hcontrol

/-- Overwriting a variable adds no name to any scope, and no scope. -/
theorem Assigns.isSome_binding?_iff {name : String} (h : run.Assigns scope name value)
    (hbound : (run.machine.world.store.binding? scope name).isSome) (other : ScopeId)
    (key : String) :
    (run.step.machine.world.store.binding? other key).isSome ↔
      (run.machine.world.store.binding? other key).isSome := by
  by_cases hsame : other = scope ∧ key = name
  · obtain ⟨rfl, rfl⟩ := hsame
    rw [h.written]
    exact iff_of_true rfl hbound
  · rw [h.others other key hsame]

/-- An assignment overwrites the variable of the innermost construct around it that has declared the
name in front of it. -/
structure Overwrites (run : Run) (path : Path) (name : String) (distance : Nat) (scope : ScopeId) :
    Prop where
  /-- The scope is the one of that construct. -/
  nearest : ∃ enclosure, path.Binds name distance enclosure ∧
    run.scene.Opened scope (run.machine.env.drop (distance + 1)) enclosure.construct
  bound : (run.machine.world.store.binding? scope name).isSome
  /-- No name is added to any scope. -/
  names : ∀ other key, (run.step.machine.world.store.binding? other key).isSome ↔
    (run.machine.world.store.binding? other key).isSome

/-- An assignment with a recorded distance gives a variable of the scope at that distance its value,
and nothing else.  Unless it stands in the initializer of the variable, the scope is that of the
innermost construct that has declared the name in front of the assignment; it has the variable, and
the assignment adds no name to any scope. -/
theorem Occurs.assigns_local (h : run.Occurs) (hcontrol : run.machine.control = .value value)
    (hframes : run.machine.frames = .assign target :: frames)
    (hrecorded : run.machine.world.distances[target.id]? = some distance) :
    ∃ program ∈ run.past.programs, ∃ path expression scope,
      Located program path (.expression (.assign target expression)) ∧
      run.scene.Activates run.machine.env path ∧ Current run.machine.env run.active path ∧
      run.machine.env[distance]? = some scope ∧ run.Assigns scope target.name.lexeme value ∧
      (program.AssignsInOwnInitializer path target expression → distance = 0) ∧
      (¬program.AssignsInOwnInitializer path target expression →
        run.Overwrites path target.name.lexeme distance scope) := by
  obtain ⟨site, hstands, -, hawaits, henv, hactive⟩ := h.inOrder.sound.of_value hcontrol
  rw [hframes] at hawaits
  cases hawaits with
  | @assign _ _ expression _ hlocated _ =>
      have hgrounded := h.inOrder.sound.grounded
      have haccepted := hgrounded.accepted _ hstands.program
      have hformed : Expr.Formed Token.Genuine (.assign target expression) :=
        hlocated.formed haccepted.formed
      obtain ⟨nextId, hpast⟩ := h.inOrder.recorded
      have hfound {found : Option Nat} (hfinding : .binding target found ∈ site.program.findings) :
          found = some distance :=
        (hpast.recorded _ hstands.program target found hfinding).symm.trans hrecorded
      have hactivates : run.scene.Activates run.machine.env site.path := by
        rw [henv]
        exact hstands.activates
      -- Whatever distance is recorded, a construct stands there.
      obtain ⟨found, hfinding, hlt⟩ := Program.assign_mem_findings hlocated
      obtain ⟨scope, opening, hscope, hopening, -⟩ :=
        hactivates.exists_scope_of_lt (hlt distance (hfound hfinding))
      have hsize : scope < run.machine.world.store.scopes.size := by
        have hopened := (List.getElem?_eq_some_iff.1 hopening).1
        rw [hgrounded.size] at hopened
        exact hopened
      have hassigns := assigns_of_recorded hcontrol hframes hrecorded hscope hsize
      refine ⟨site.program, hstands.program, site.path, expression, scope, hlocated, hactivates,
        ?_, hscope, hassigns, ?_, ?_⟩
      · rw [henv, hactive]
        exact hstands.current
      · intro hown
        exact (Option.some.inj (hfound hown.mem_findings)).symm
      · intro hother
        obtain ⟨enclosure, hbinds⟩ :=
          Path.binds_of_distance? (hfound (Program.target_mem_findings hlocated hother))
        have hname : target.name.Names Token.Genuine := hformed.spells
        obtain ⟨found, hfound, hopened, hbound⟩ :=
          hactivates.exists_scope hname.ne hbinds.found hbinds.declared
        obtain rfl : found = scope := Option.some.inj (hfound.symm.trans hscope)
        exact ⟨⟨enclosure, hbinds, hopened⟩, hbound, hassigns.isSome_binding?_iff hbound⟩

/-- A block that declares a variable and assigns to it. -/
def blockAssigning : Program :=
  let name : Token := ⟨.identifier, "a", 1⟩
  [.block [.varDecl name none, .expression (.assign ⟨1, name⟩ (.literal (.bool true)))]]

theorem occurs_blockAssigning : (first none (fun _ => 0) blockAssigning).Occurs := by
  refine occurs_first "\x7bvar a;a=true;\x7d" 2 ?_ ?_ rfl none fun _ => 0
  · decide +kernel
  · decide +kernel

/-- When the block assigns. -/
theorem assigns_local_blockAssigning :
    let run := (first none (fun _ => 0) blockAssigning).runFor 9
    let target : Occurrence := ⟨1, ⟨.identifier, "a", 1⟩⟩
    run.machine.control = .value (.bool true) ∧
    run.machine.frames = .assign target :: run.machine.frames.tail ∧
    run.machine.world.distances[target.id]? = some 0 ∧
    ∃ program ∈ run.past.programs, ∃ path expression scope,
      Located program path (.expression (.assign target expression)) ∧
      run.scene.Activates run.machine.env path ∧ Current run.machine.env run.active path ∧
      run.machine.env[0]? = some scope ∧ run.Assigns scope "a" (.bool true) ∧
      (program.AssignsInOwnInitializer path target expression → 0 = 0) ∧
      (¬program.AssignsInOwnInitializer path target expression →
        run.Overwrites path "a" 0 scope) :=
  ⟨rfl, rfl, rfl, Occurs.assigns_local (occurs_blockAssigning.runFor 9) rfl rfl rfl⟩

/-- A block with a variable, and a block in it whose variable of the same name is assigned to in its
own initializer. -/
def ownInitializer : Program :=
  let name : Token := ⟨.identifier, "a", 1⟩
  [.block [.varDecl name (some (.literal (.bool true))),
    .block [.varDecl name (some (.assign ⟨1, name⟩ (.literal .nil)))],
    .print (.variable ⟨2, name⟩)]]

theorem occurs_ownInitializer : (first none (fun _ => 0) ownInitializer).Occurs := by
  refine occurs_first "\x7bvar a=true;\x7bvar a=a=nil;\x7dprint a;\x7d" 3 ?_ ?_ rfl none fun _ => 0
  · decide +kernel
  · decide +kernel

/-- The assignment in the initializer binds the variable of the inner block, and leaves that of the
outer block, the nearest one that has been declared, as it is. -/
theorem assigns_ownInitializer :
    let run := (first none (fun _ => 0) ownInitializer).runFor 13
    let target : Occurrence := ⟨1, ⟨.identifier, "a", 1⟩⟩
    run.Occurs ∧ run.machine.control = .value .nil ∧
    run.machine.frames = .assign target :: run.machine.frames.tail ∧
    run.machine.world.distances[target.id]? = some 0 ∧ run.machine.env = [2, 1, 0] ∧
    run.machine.world.store.binding? 2 "a" = none ∧
    run.step.machine.world.store.binding? 2 "a" = some .nil ∧
    run.machine.world.store.binding? 1 "a" = some (.bool true) ∧
    run.step.machine.world.store.binding? 1 "a" = some (.bool true) :=
  ⟨occurs_ownInitializer.runFor 13, rfl, rfl, rfl, rfl, rfl, rfl, rfl, rfl⟩

end Run

end LoxLang
