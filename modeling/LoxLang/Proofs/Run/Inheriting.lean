import LoxLang.Proofs.Run.Origins

/-!
# Environments that are taken over

The environments in which a machine is after a step, or to which it goes back, are those in which
it was before or to which it went back; the only others are those of scopes that the step has made,
each inside the environment for which it was made (`Machine.inherits_step`).  And a class that is
made has an identity that none has had before.
-/

namespace LoxLang

/-- The environment in which a scope is made. -/
def Opening.outer : Opening → Env
  | globals => []
  | block _ outer => outer
  | call callee => callee.env
  | bound function _ => function.env.tail
  | superclass _ _ _ _ outer => outer

/-- The environment to which a machine goes back when it leaves a frame. -/
def Frame.outer? : Frame → Option Env
  | block outer => some outer
  | activation ended => some ended.caller
  | _ => none

namespace Machine

/-- The environments in which a machine is and to which it goes back. -/
def envs (machine : Machine) : List Env :=
  machine.env :: machine.frames.filterMap Frame.outer?

/-- A machine has its environments from others, except for those of scopes that have been made, and
there are no fewer functions and classes than before. -/
structure Inherits (envs : List Env) (old : Store) (opened : List Opening) (next : Machine) :
    Prop where
  envs : ∀ env ∈ next.envs, env ∈ envs ∨ ∃ index opening, opened[index]? = some opening ∧
    env = (old.scopes.size + index) :: opening.outer
  identities : old.identities ≤ next.world.store.identities

end Machine

/-! ## Identities -/

namespace World

variable (world : World)

theorem identities_define (env : Env) (name : String) (value : Value) :
    (world.define env name value).store.identities = world.store.identities := by
  cases env <;> rfl

theorem identities_closeAll (env : Env) (methods : List FunctionDecl) :
    world.store.identities ≤ (world.closeAll env methods).1.store.identities := by
  induction methods generalizing world with
  | nil => exact Nat.le_refl _
  | cons method rest ih =>
      exact Nat.le_trans (Nat.le_succ _) (ih (world.close env method method.isInitializer).1)

/-- A class gets the latest identity. -/
theorem identity_makeClass (env : Env) (name : String) (superclass : Option Class)
    (methods : List FunctionDecl) :
    let made := world.makeClass env name superclass methods
    world.store.identities ≤ made.2.identity ∧ made.1.store.identities = made.2.identity + 1 := by
  cases superclass with
  | none => exact ⟨world.identities_closeAll env methods, rfl⟩
  | some superclass =>
      let scope := world.store.newScope [(superName, .classValue superclass)]
      exact ⟨(world.withStore scope.1).identities_closeAll (scope.2 :: env) methods, rfl⟩

theorem identities_property (object : Instance) (name : Token) :
    world.store.identities ≤ (world.property object name).1.store.identities := by
  rw [property]
  split
  · exact Nat.le_refl _
  · split
    · exact Nat.le_succ _
    · exact Nat.le_refl _

theorem identities_superMethod (env : Env) (occurrence : Occurrence) (method : Token) :
    world.store.identities ≤ (world.superMethod env occurrence method).1.store.identities := by
  rcases world.superMethod_cases env occurrence method with
    ⟨fault, hresult, -⟩ | ⟨distance, superclass, object, found, -, -, -, -, hresult, -⟩
  · rw [hresult]
  · rw [hresult]
    exact Nat.le_succ _

end World

/-! ## Steps -/

namespace Machine

section

variable (machine : Machine)

/-- A machine in the same environments. -/
theorem inherits_of_same {next : Machine} {opened : List Opening}
    (henvs : next.envs = machine.envs)
    (hidentities : machine.world.store.identities ≤ next.world.store.identities) :
    Inherits machine.envs machine.world.store opened next :=
  ⟨fun _ henv => .inl (henvs ▸ henv), hidentities⟩

/-- A machine in a scope that has been made, from which it goes back to where it was. -/
theorem inherits_of_entered {next : Machine} {old : Store} {opened : List Opening} {index : Nat}
    {opening : Opening} (hopening : opened[index]? = some opening)
    (henvs : next.envs = ((old.scopes.size + index) :: opening.outer) :: machine.envs)
    (hidentities : old.identities ≤ next.world.store.identities) :
    Inherits machine.envs old opened next := by
  refine ⟨fun env henv => ?_, hidentities⟩
  rw [henvs] at henv
  rcases List.mem_cons.1 henv with rfl | hmem
  · exact .inr ⟨index, opening, hopening, rfl⟩
  · exact .inl hmem

theorem inherits_settle {world : World} {opened : List Opening}
    (hidentities : machine.world.store.identities ≤ world.store.identities)
    (result : Except RuntimeFault Value) :
    Inherits machine.envs machine.world.store opened
      (settle { machine with world := world } result) := by
  cases result with
  | ok value => exact machine.inherits_of_same rfl hidentities
  | error fault => exact machine.inherits_of_same rfl hidentities

theorem inherits_call (paren : Token) (callee : Value) (arguments : List Value) :
    Inherits machine.envs machine.world.store (machine.openedByCall callee arguments)
      (machine.call paren callee arguments) := by
  unfold call openedByCall
  cases callObstacle? callee arguments machine.depth with
  | some cause => exact machine.inherits_of_same rfl (Nat.le_refl _)
  | none =>
      cases callee with
      | builtin native =>
          cases native with
          | clock => exact machine.inherits_of_same rfl (Nat.le_refl _)
      | function closure =>
          have hopening : [Opening.call closure][0]? = some (.call closure) := rfl
          exact machine.inherits_of_entered hopening rfl (Nat.le_refl _)
      | classValue ownClass =>
          dsimp only
          cases ownClass.initializer? with
          | none => exact machine.inherits_of_same rfl (Nat.le_refl _)
          | some method =>
              let made := machine.world.construct ownClass
              let bound := made.1.bind method made.2
              -- The scope of the call is the second one, behind that of the bound method.
              have hopening : [Opening.bound bound.2 made.2, .call bound.2][1]? =
                some (.call bound.2) := rfl
              refine machine.inherits_of_entered hopening ?_ (Nat.le_succ _)
              show (bound.1.store.scopes.size :: bound.2.env) :: machine.envs = _
              rw [show bound.1.store.scopes.size = machine.world.store.scopes.size + 1 from
                Array.size_push _]
              rfl
      | _ => exact machine.inherits_of_same rfl (Nat.le_refl _)

theorem inherits_nextArgument (paren : Token) (callee : Value) (done : List Value)
    (rest : List Expr) :
    Inherits machine.envs machine.world.store (machine.openedByNext callee done rest)
      (machine.nextArgument paren callee done rest) := by
  cases rest with
  | nil => exact machine.inherits_call paren callee done.reverse
  | cons argument rest => exact machine.inherits_of_same rfl (Nat.le_refl _)

theorem inherits_evaluate (expression : Expr) :
    Inherits machine.envs machine.world.store (machine.openedByExpression expression)
      (machine.evaluate expression) := by
  cases expression with
  | «variable» occurrence => exact machine.inherits_settle (Nat.le_refl _) _
  | thisRef occurrence => exact machine.inherits_settle (Nat.le_refl _) _
  | superRef occurrence method =>
      exact machine.inherits_settle (machine.world.identities_superMethod _ _ _) _
  | _ => exact machine.inherits_of_same rfl (Nat.le_refl _)

theorem identities_declareClass (name : Token) (superclass : Option Class)
    (methods : List FunctionDecl) :
    (machine.declareClass name superclass methods).world.store.identities =
      ((machine.world.define machine.env name.lexeme .nil).makeClass machine.env name.lexeme
        superclass methods).2.identity + 1 := by
  rw [← (World.identity_makeClass _ _ _ _ _).2]
  unfold declareClass
  dsimp only
  split <;> rfl

theorem inherits_declareClass (name : Token) (superclass : Option Class)
    (methods : List FunctionDecl) {opened : List Opening} :
    Inherits machine.envs machine.world.store opened
      (machine.declareClass name superclass methods) := by
  refine machine.inherits_of_same ?_ ?_
  · unfold declareClass
    dsimp only
    split <;> rfl
  · have hdefined := World.identities_define machine.world machine.env name.lexeme .nil
    rw [identities_declareClass, ← hdefined]
    exact Nat.le_succ_of_le (World.identity_makeClass _ _ _ _ _).1

theorem inherits_execute (statement : Stmt) :
    Inherits machine.envs machine.world.store (machine.openedByStatement statement)
      (machine.execute statement) := by
  cases statement with
  | block body =>
      have hopening : [Opening.block body machine.env][0]? = some (.block body machine.env) := rfl
      exact machine.inherits_of_entered hopening rfl (Nat.le_refl _)
  | classDecl name superclass methods =>
      cases superclass with
      | none => exact machine.inherits_declareClass name none methods
      | some clause =>
          dsimp only [execute]
          split
          · exact machine.inherits_declareClass name _ methods
          · exact machine.inherits_of_same rfl (Nat.le_refl _)
          · exact machine.inherits_of_same rfl (Nat.le_refl _)
  | function declaration =>
      refine machine.inherits_of_same rfl ?_
      have hdefined := World.identities_define (machine.world.close machine.env declaration false).1
        machine.env declaration.name.lexeme
        (.function (machine.world.close machine.env declaration false).2)
      exact Nat.le_of_succ_le (Nat.le_of_eq hdefined.symm)
  | returnValue keyword value =>
      cases value with
      | none => exact machine.inherits_of_same rfl (Nat.le_refl _)
      | some value => exact machine.inherits_of_same rfl (Nat.le_refl _)
  | varDecl name initializer =>
      cases initializer with
      | none =>
          refine machine.inherits_of_same rfl (Nat.le_of_eq ?_)
          exact (World.identities_define _ _ _ _).symm
      | some value => exact machine.inherits_of_same rfl (Nat.le_refl _)
  | _ => exact machine.inherits_of_same rfl (Nat.le_refl _)

end

variable {control : Control} {stay : List Frame} {env : Env} {depth : Nat} {world : World}

/-- A value is handed to the innermost frame. -/
theorem inherits_receive (value : Value) (frame : Frame) :
    let full : Machine := ⟨control, frame :: stay, env, depth, world⟩
    Inherits full.envs world.store (full.openedByValue value frame)
      (receive ⟨control, stay, env, depth, world⟩ value frame) := by
  let popped : Machine := ⟨control, stay, env, depth, world⟩
  cases frame with
  | unary operator => exact popped.inherits_settle (Nat.le_refl _) _
  | binaryRight operator left => exact popped.inherits_settle (Nat.le_refl _) _
  | logical operator right =>
      dsimp only [receive]
      split
      · exact popped.inherits_of_same rfl (Nat.le_refl _)
      · exact popped.inherits_of_same rfl (Nat.le_refl _)
  | assign target =>
      dsimp only [receive]
      split
      · exact popped.inherits_of_same rfl (Nat.le_refl _)
      · exact popped.inherits_of_same rfl (Nat.le_refl _)
  | callee paren arguments => exact popped.inherits_nextArgument paren value [] arguments
  | argument paren callee done rest =>
      exact popped.inherits_nextArgument paren callee (value :: done) rest
  | get name =>
      cases value with
      | object object => exact popped.inherits_settle (world.identities_property object name) _
      | _ => exact popped.inherits_of_same rfl (Nat.le_refl _)
  | setObject name expression =>
      cases value with
      | object object => exact popped.inherits_of_same rfl (Nat.le_refl _)
      | _ => exact popped.inherits_of_same rfl (Nat.le_refl _)
  | print =>
      dsimp only [receive]
      have hprinted : world.store.identities ≤ (world.print value).1.store.identities :=
        Nat.le_refl _
      split
      · next printed heq =>
          rw [heq] at hprinted
          exact popped.inherits_of_same rfl hprinted
      · next printed heq =>
          rw [heq] at hprinted
          exact popped.inherits_of_same rfl hprinted
  | define name =>
      refine popped.inherits_of_same rfl (Nat.le_of_eq ?_)
      exact (World.identities_define _ _ _ _).symm
  | choice thenBranch elseBranch =>
      dsimp only [receive]
      split
      · exact popped.inherits_of_same rfl (Nat.le_refl _)
      · cases elseBranch with
        | none => exact popped.inherits_of_same rfl (Nat.le_refl _)
        | some elseBranch => exact popped.inherits_of_same rfl (Nat.le_refl _)
  | loopTest condition body =>
      dsimp only [receive]
      split
      · exact popped.inherits_of_same rfl (Nat.le_refl _)
      · exact popped.inherits_of_same rfl (Nat.le_refl _)
  | block outer =>
      exact inherits_of_same ⟨control, .block outer :: stay, env, depth, world⟩ rfl (Nat.le_refl _)
  | activation ended =>
      exact inherits_of_same ⟨control, .activation ended :: stay, env, depth, world⟩ rfl
        (Nat.le_refl _)
  | _ => exact popped.inherits_of_same rfl (Nat.le_refl _)

/-- A frame is left that goes back to some environment. -/
theorem inherits_of_left {frame : Frame} {outer : Env} (hframe : frame.outer? = some outer)
    {opened : List Opening} {next : Machine} (henv : next.env = outer)
    (hframes : next.frames = stay) (hstore : next.world.store = world.store) :
    Inherits (envs ⟨control, frame :: stay, env, depth, world⟩) world.store opened next := by
  refine ⟨fun other hother => .inl ?_, Nat.le_of_eq (by rw [hstore])⟩
  rw [envs, henv, hframes] at hother
  rw [envs, List.filterMap_cons, hframe]
  exact List.mem_cons_of_mem _ hother

theorem inherits_finish (completion : Completion) (frame : Frame) {opened : List Opening} :
    Inherits (envs ⟨control, frame :: stay, env, depth, world⟩) world.store opened
      (finish ⟨control, stay, env, depth, world⟩ completion frame) := by
  let popped : Machine := ⟨control, stay, env, depth, world⟩
  cases frame with
  | sequence rest =>
      cases completion with
      | normal => exact popped.inherits_of_same rfl (Nat.le_refl _)
      | returned value => exact popped.inherits_of_same rfl (Nat.le_refl _)
  | loopBody condition body =>
      cases completion with
      | normal => exact popped.inherits_of_same rfl (Nat.le_refl _)
      | returned value => exact popped.inherits_of_same rfl (Nat.le_refl _)
  | block outer => exact inherits_of_left rfl rfl rfl rfl
  | activation ended =>
      dsimp only [finish, leave]
      split
      · split
        · exact inherits_of_left rfl rfl rfl rfl
        · exact inherits_of_left rfl rfl rfl rfl
      · split
        · exact inherits_of_left rfl rfl rfl rfl
        · exact inherits_of_left rfl rfl rfl rfl
  | _ => exact popped.inherits_of_same rfl (Nat.le_refl _)

theorem inherits_unwind (frame : Frame) {opened : List Opening} :
    Inherits (envs ⟨control, frame :: stay, env, depth, world⟩) world.store opened
      (unwind ⟨control, stay, env, depth, world⟩ frame) := by
  cases frame with
  | block outer => exact inherits_of_left rfl rfl rfl rfl
  | activation ended => exact inherits_of_left rfl rfl rfl rfl
  | _ => exact inherits_of_same ⟨control, stay, env, depth, world⟩ rfl (Nat.le_refl _)

/-- After a step a machine is in the environments in which it was, and in those of scopes that have
been made, and it goes back to no others. -/
theorem inherits_step (machine : Machine) :
    Inherits machine.envs machine.world.store machine.opened machine.step := by
  obtain ⟨control, frames, env, depth, world⟩ := machine
  cases control with
  | evaluate expression => exact inherits_evaluate ⟨_, frames, env, depth, world⟩ expression
  | execute statement => exact inherits_execute ⟨_, frames, env, depth, world⟩ statement
  | run statements =>
      cases statements with
      | nil => exact inherits_of_same ⟨.run [], frames, env, depth, world⟩ rfl (Nat.le_refl _)
      | cons statement rest =>
          exact inherits_of_same ⟨.run (statement :: rest), frames, env, depth, world⟩ rfl
            (Nat.le_refl _)
  | value value =>
      cases frames with
      | nil => exact inherits_of_same ⟨.value value, [], env, depth, world⟩ rfl (Nat.le_refl _)
      | cons frame stay => exact inherits_receive value frame
  | completed completion =>
      cases frames with
      | nil =>
          exact inherits_of_same ⟨.completed completion, [], env, depth, world⟩ rfl (Nat.le_refl _)
      | cons frame stay => exact inherits_finish completion frame
  | failed failure =>
      cases frames with
      | nil => exact inherits_of_same ⟨.failed failure, [], env, depth, world⟩ rfl (Nat.le_refl _)
      | cons frame stay => exact inherits_unwind frame

end Machine

end LoxLang
