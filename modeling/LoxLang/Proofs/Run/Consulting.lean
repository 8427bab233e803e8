import LoxLang.Proofs.Run.Faults

/-!
# What a step looks up

A step looks up the record of at most one occurrence: of a variable, `this` or `super` that is
evaluated, of the superclass clause of a class declaration that is executed, or of the target of an
assignment (`Machine.consulted?`).  What is on record about others makes no difference to it
(`Machine.step_recording`).  In a session the occurrence belongs to a program that has been run, and
resolution has come past it there (`Run.Sound.exists_finding`).
-/

namespace LoxLang

/-- The occurrence whose record the next step looks up. -/
def Machine.consulted? (machine : Machine) : Option Occurrence :=
  match machine.control, machine.frames with
  | .evaluate (.variable occurrence), _ => some occurrence
  | .evaluate (.thisRef occurrence), _ => some occurrence
  | .evaluate (.superRef occurrence _), _ => some occurrence
  | .execute (.classDecl _ superclass _), _ => superclass
  | .value _, .assign target :: _ => some target
  | _, _ => none

/-! ## Worlds with other records -/

namespace World

/-- A world in which something else is on record. -/
def recording (world : World) (distances : Distances) : World :=
  { world with distances := distances }

variable (world : World) (distances : Distances)

theorem closeAll_recording (env : Env) (methods : List FunctionDecl) :
    (world.recording distances).closeAll env methods =
      ((world.closeAll env methods).1.recording distances, (world.closeAll env methods).2) := by
  induction methods generalizing world with
  | nil => rfl
  | cons method rest ih =>
      let closed := world.close env method method.isInitializer
      have hrest := ih closed.1
      rw [closeAll, show (world.recording distances).close env method method.isInitializer =
        (closed.1.recording distances, closed.2) from rfl]
      dsimp only
      rw [hrest]
      rfl

theorem makeClass_recording (env : Env) (name : String) (superclass : Option Class)
    (methods : List FunctionDecl) :
    (world.recording distances).makeClass env name superclass methods =
      ((world.makeClass env name superclass methods).1.recording distances,
        (world.makeClass env name superclass methods).2) := by
  cases superclass with
  | none =>
      have hmethods := world.closeAll_recording distances env methods
      rw [makeClass.eq_def, makeClass.eq_def]
      dsimp only
      rw [hmethods]
      rfl
  | some superclass =>
      let scope := world.store.newScope [(superName, .classValue superclass)]
      have hmethods : ((world.recording distances).withStore scope.1).closeAll (scope.2 :: env)
          methods = _ :=
        closeAll_recording (world.withStore scope.1) distances (scope.2 :: env) methods
      rw [makeClass.eq_def, makeClass.eq_def]
      dsimp only
      rw [show (world.recording distances).store.newScope [(superName, .classValue superclass)] =
        scope from rfl, hmethods]
      rfl

theorem property_recording (object : Instance) (name : Token) :
    (world.recording distances).property object name =
      ((world.property object name).1.recording distances, (world.property object name).2) := by
  rw [property, property, show (world.recording distances).store = world.store from rfl]
  cases world.store.field? object.identity name.lexeme with
  | some value => rfl
  | none =>
      dsimp only
      cases object.ownClass.findMethod? name.lexeme <;> rfl

section

variable {world distances} {occurrence : Occurrence}
  (h : distances[occurrence.id]? = world.distances[occurrence.id]?) (env : Env)

include h

theorem read_recording :
    (world.recording distances).read env occurrence = world.read env occurrence := by
  rw [read, read, show (world.recording distances).distances = distances from rfl, h]
  rfl

theorem target_recording :
    (world.recording distances).target env occurrence = world.target env occurrence := by
  rw [target, target, show (world.recording distances).distances = distances from rfl, h]
  rfl

theorem superMethod_recording (method : Token) :
    (world.recording distances).superMethod env occurrence method =
      ((world.superMethod env occurrence method).1.recording distances,
        (world.superMethod env occurrence method).2) := by
  rw [superMethod, superMethod, show (world.recording distances).distances = distances from rfl, h]
  cases world.distances[occurrence.id]? with
  | none => rfl
  | some distance =>
      dsimp only
      rw [show (world.recording distances).store = world.store from rfl]
      cases world.store.getAt? env distance occurrence.name.lexeme with
      | none => rfl
      | some superclass =>
          cases world.store.getAt? env (distance - 1) thisName with
          | none => cases superclass <;> rfl
          | some object =>
              cases superclass with
              | classValue superclass =>
                  cases object with
                  | object object =>
                      dsimp only
                      cases superclass.findMethod? method.lexeme <;> rfl
                  | _ => rfl
              | _ => cases object <;> rfl

end

end World

/-! ## Machines with other records -/

namespace Machine

/-- A machine in whose world something else is on record. -/
def recording (machine : Machine) (distances : Distances) : Machine :=
  { machine with world := machine.world.recording distances }

section

variable (machine : Machine) (distances : Distances)

theorem settle_recording (result : Except RuntimeFault Value) :
    (machine.recording distances).settle result = (machine.settle result).recording distances := by
  cases result <;> rfl

theorem call_recording (paren : Token) (callee : Value) (arguments : List Value) :
    (machine.recording distances).call paren callee arguments =
      (machine.call paren callee arguments).recording distances := by
  unfold call
  rw [show (machine.recording distances).depth = machine.depth from rfl]
  cases callObstacle? callee arguments machine.depth with
  | some cause => rfl
  | none =>
      cases callee with
      | builtin native =>
          cases native with
          | clock => rfl
      | classValue ownClass =>
          dsimp only
          cases ownClass.initializer? <;> rfl
      | _ => rfl

theorem nextArgument_recording (paren : Token) (callee : Value) (done : List Value)
    (rest : List Expr) :
    (machine.recording distances).nextArgument paren callee done rest =
      (machine.nextArgument paren callee done rest).recording distances := by
  cases rest with
  | nil => exact machine.call_recording distances paren callee done.reverse
  | cons argument rest => rfl

theorem declareClass_recording (name : Token) (superclass : Option Class)
    (methods : List FunctionDecl) :
    (machine.recording distances).declareClass name superclass methods =
      (machine.declareClass name superclass methods).recording distances := by
  let named := machine.world.define machine.env name.lexeme .nil
  let made := named.makeClass machine.env name.lexeme superclass methods
  have hmade := named.makeClass_recording distances machine.env name.lexeme superclass methods
  unfold declareClass
  dsimp only
  rw [show (machine.recording distances).world.define (machine.recording distances).env name.lexeme
    .nil = named.recording distances from rfl,
    show (machine.recording distances).env = machine.env from rfl, hmade]
  dsimp only
  rw [show (made.1.recording distances).store = made.1.store from rfl]
  cases made.1.store.owner machine.env name <;> rfl

theorem finish_recording (completion : Completion) (frame : Frame) :
    (machine.recording distances).finish completion frame =
      (machine.finish completion frame).recording distances := by
  cases frame with
  | sequence rest => cases completion <;> rfl
  | loopBody condition body => cases completion <;> rfl
  | activation ended =>
      dsimp only [finish, leave, recording, World.recording]
      split
      · split <;> rfl
      · cases completion <;> rfl
  | _ => rfl

end

variable {machine : Machine} {distances : Distances}

theorem evaluate_recording {expression : Expr} (hcontrol : machine.control = .evaluate expression)
    (h : ∀ occurrence ∈ machine.consulted?,
      distances[occurrence.id]? = machine.world.distances[occurrence.id]?) :
    (machine.recording distances).evaluate expression =
      (machine.evaluate expression).recording distances := by
  rw [consulted?, hcontrol] at h
  cases expression with
  | «variable» occurrence =>
      rw [evaluate, evaluate, ← settle_recording]
      exact congrArg _ (World.read_recording (h occurrence rfl) machine.env)
  | thisRef occurrence =>
      rw [evaluate, evaluate, ← settle_recording]
      exact congrArg _ (World.read_recording (h occurrence rfl) machine.env)
  | superRef occurrence method =>
      have hsuper : (machine.recording distances).world.superMethod machine.env occurrence method =
          _ := World.superMethod_recording (h occurrence rfl) machine.env method
      rw [evaluate, evaluate]
      dsimp only
      rw [show (machine.recording distances).env = machine.env from rfl, hsuper]
      exact settle_recording { machine with
        world := (machine.world.superMethod machine.env occurrence method).1 } distances _
  | _ => rfl

theorem execute_recording {statement : Stmt} (hcontrol : machine.control = .execute statement)
    (h : ∀ occurrence ∈ machine.consulted?,
      distances[occurrence.id]? = machine.world.distances[occurrence.id]?) :
    (machine.recording distances).execute statement =
      (machine.execute statement).recording distances := by
  rw [consulted?, hcontrol] at h
  cases statement with
  | classDecl name superclass methods =>
      cases superclass with
      | none => exact machine.declareClass_recording distances name none methods
      | some clause =>
          have hread : (machine.recording distances).world.read machine.env clause = _ :=
            World.read_recording (h clause rfl) machine.env
          dsimp only [execute]
          rw [show (machine.recording distances).env = machine.env from rfl, hread]
          split
          · exact machine.declareClass_recording distances name _ methods
          · rfl
          · rfl
  | returnValue keyword value => cases value <;> rfl
  | varDecl name initializer => cases initializer <;> rfl
  | _ => rfl

/-- A value is handed to the innermost frame. -/
theorem receive_recording {value : Value} {frame : Frame} {stay : List Frame} {env : Env}
    {depth : Nat} {world : World}
    (h : ∀ occurrence ∈ consulted? ⟨.value value, frame :: stay, env, depth, world⟩,
      distances[occurrence.id]? = world.distances[occurrence.id]?) :
    (recording ⟨.value value, stay, env, depth, world⟩ distances).receive value frame =
      (receive ⟨.value value, stay, env, depth, world⟩ value frame).recording distances := by
  let popped : Machine := ⟨.value value, stay, env, depth, world⟩
  cases frame with
  | unary operator => exact popped.settle_recording distances _
  | binaryRight operator left => exact popped.settle_recording distances _
  | logical operator right =>
      dsimp only [receive, recording]
      split <;> rfl
  | assign target =>
      have htarget := World.target_recording (h target rfl) env
      dsimp only [receive, recording]
      rw [htarget]
      cases world.target env target <;> rfl
  | callee paren arguments =>
      exact popped.nextArgument_recording distances paren value [] arguments
  | argument paren callee done rest =>
      exact popped.nextArgument_recording distances paren callee (value :: done) rest
  | get name =>
      cases value with
      | object object =>
          have hproperty := world.property_recording distances object name
          dsimp only [receive, recording]
          rw [hproperty]
          exact settle_recording { popped with world := (world.property object name).1 } distances _
      | _ => rfl
  | setObject name expression => cases value <;> rfl
  | print =>
      obtain ⟨store, recorded, output, clock⟩ := world
      have hprint : World.print ⟨store, distances, output, clock⟩ value =
          ((World.print ⟨store, recorded, output, clock⟩ value).1.recording distances,
            (World.print ⟨store, recorded, output, clock⟩ value).2) := rfl
      dsimp only [receive, recording, World.recording]
      rw [hprint]
      generalize World.print ⟨store, recorded, output, clock⟩ value = printed
      obtain ⟨world, fits⟩ := printed
      cases fits <;> rfl
  | choice thenBranch elseBranch =>
      dsimp only [receive, recording]
      split
      · rfl
      · cases elseBranch <;> rfl
  | loopTest condition body =>
      dsimp only [receive, recording]
      split <;> rfl
  | _ => rfl

/-- Only what is on record about the occurrence that it looks up makes a difference to a step. -/
theorem step_recording
    (h : ∀ occurrence ∈ machine.consulted?,
      distances[occurrence.id]? = machine.world.distances[occurrence.id]?) :
    (machine.recording distances).step = machine.step.recording distances := by
  obtain ⟨control, frames, env, depth, world⟩ := machine
  cases control with
  | evaluate expression => exact evaluate_recording rfl h
  | execute statement => exact execute_recording rfl h
  | run statements => cases statements <;> rfl
  | value value =>
      cases frames with
      | nil => rfl
      | cons frame stay => exact receive_recording h
  | completed completion =>
      cases frames with
      | nil => rfl
      | cons frame stay =>
          exact finish_recording ⟨.completed completion, stay, env, depth, world⟩ distances
            completion frame
  | failed failure =>
      cases frames with
      | nil => rfl
      | cons frame stay => cases frame <;> rfl

end Machine

/-! ## What is looked up in a session -/

/-- Resolution has come past the occurrence that the next step looks up. -/
theorem Run.Sound.exists_finding {run : Run} (h : run.Sound) {occurrence : Occurrence}
    (hconsulted : run.machine.consulted? = some occurrence) :
    ∃ program ∈ run.past.programs, ∃ distance,
      .binding occurrence distance ∈ program.findings := by
  have haccepted := h.grounded.accepted
  unfold Machine.consulted? at hconsulted
  split at hconsulted
  · next found hcontrol =>
      cases hconsulted
      obtain ⟨program, hprogram, path, hlocated, -⟩ := h.of_evaluate hcontrol
      exact ⟨program, hprogram, _,
        (haccepted program hprogram).reads_mem_findings (.variable hlocated)⟩
  · next found hcontrol =>
      cases hconsulted
      obtain ⟨program, hprogram, path, hlocated, -⟩ := h.of_evaluate hcontrol
      exact ⟨program, hprogram, _, (haccepted program hprogram).thisRef_mem_findings hlocated⟩
  · next found method hcontrol =>
      cases hconsulted
      obtain ⟨program, hprogram, path, hlocated, -⟩ := h.of_evaluate hcontrol
      exact ⟨program, hprogram, _, (haccepted program hprogram).superRef_mem_findings hlocated⟩
  · next name superclass methods hcontrol =>
      subst hconsulted
      obtain ⟨program, hprogram, path, hlocated, -⟩ := h.of_execute hcontrol
      exact ⟨program, hprogram, _,
        (haccepted program hprogram).reads_mem_findings (.superclass hlocated)⟩
  · next value target frames hcontrol hframes =>
      cases hconsulted
      obtain ⟨site, hstands, -, hawaits, -⟩ := h.of_value hcontrol
      rw [hframes] at hawaits
      cases hawaits with
      | assign hlocated _ =>
          obtain ⟨distance, hfinding, -⟩ := Program.assign_mem_findings hlocated
          exact ⟨site.program, hstands.program, distance, hfinding⟩
  · cases hconsulted

end LoxLang
