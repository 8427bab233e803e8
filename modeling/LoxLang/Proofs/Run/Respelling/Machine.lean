import LoxLang.Proofs.Run.Binding
import LoxLang.Proofs.Run.Reads
import LoxLang.Proofs.Run.Respelling.World

/-!
# Respelled machines

A machine whose programs spell variables in another way takes the same steps, as long as each name
that it uses is spelled as in the scope in which it uses it (`Machine.Suits`).  What it prints and
how it fails is then the same.
-/

namespace LoxLang

def Completion.respell (s : Spelling) : Completion → Completion
  | normal => normal
  | returned value => returned (value.recast s.recasting)

def Activation.respell (s : Spelling) (activation : Activation) : Activation where
  caller := activation.caller
  callee := activation.callee.recast s.recasting
  made := activation.made.map (Instance.recast s.recasting)

def Frame.respell (s : Spelling) : Frame → Frame
  | unary operator => unary operator
  | binaryLeft operator right => binaryLeft operator (right.respell s.code)
  | binaryRight operator left => binaryRight operator (left.recast s.recasting)
  | logical operator right => logical operator (right.respell s.code)
  | assign target => assign (target.respell s.code)
  | callee paren arguments => callee paren (Expr.respellAll s.code arguments)
  | argument paren called done rest =>
      argument paren (called.recast s.recasting) (done.map (Value.recast s.recasting))
        (Expr.respellAll s.code rest)
  | get name => get name
  | setObject name value => setObject name (value.respell s.code)
  | setValue name object => setValue name (object.recast s.recasting)
  | expression => expression
  | print => print
  | define name => define (name.respell s.code)
  | choice thenBranch elseBranch =>
      choice (thenBranch.respell s.code) (elseBranch.map (Stmt.respell s.code))
  | loopTest condition body => loopTest (condition.respell s.code) (body.respell s.code)
  | loopBody condition body => loopBody (condition.respell s.code) (body.respell s.code)
  | returning => returning
  | sequence rest => sequence (Stmt.respellAll s.code rest)
  | block outer => block outer
  | activation ended => activation (ended.respell s)

def Control.respell (s : Spelling) : Control → Control
  | evaluate expression => evaluate (expression.respell s.code)
  | execute statement => execute (statement.respell s.code)
  | run statements => run (Stmt.respellAll s.code statements)
  | value result => value (result.recast s.recasting)
  | completed completion => completed (completion.respell s)
  | failed failure => failed failure

namespace Machine

/-- A machine whose variables are spelled in another way. -/
def respell (s : Spelling) (machine : Machine) : Machine where
  control := machine.control.respell s
  frames := machine.frames.map (Frame.respell s)
  env := machine.env
  depth := machine.depth
  world := machine.world.respell s

/-- The names that the next step uses are spelled as in the scopes in which it uses them. -/
structure Suits (machine : Machine) (s : Spelling) : Prop where
  reads : ∀ occurrence, machine.reading? = some occurrence →
    s.Reads machine.world machine.env occurrence
  targets : ∀ target value frames, machine.control = .value value →
    machine.frames = .assign target :: frames → s.Targets machine.world machine.env target
  thisRef : ∀ occurrence, machine.control = .evaluate (.thisRef occurrence) →
    occurrence.name.lexeme = thisName
  superRef : ∀ occurrence method, machine.control = .evaluate (.superRef occurrence method) →
    occurrence.name.lexeme = superName
  /-- What is declared gets the name that it has in the innermost scope. -/
  binds : ∀ statement name scope, machine.Binds statement → statement.declared? = some name →
    machine.env.head? = some scope →
      (statement.respell s.code).declared? = some (s.nameIn scope name)
  hasScope : ∀ statement, machine.control = .execute statement →
    ∃ scope, machine.env.head? = some scope ∧ scope < machine.world.store.scopes.size
  /-- Parameters get the names that they have in the scope of the call. -/
  calls : ∀ index callee, machine.opened[index]? = some (.call callee) →
    ∀ param ∈ callee.declaration.params,
      s.Matches (machine.world.store.scopes.size + index) param.lexeme

section

variable (s : Spelling) (machine : Machine)

@[simp] theorem env_respell : (machine.respell s).env = machine.env := rfl

@[simp] theorem depth_respell : (machine.respell s).depth = machine.depth := rfl

@[simp] theorem world_respell : (machine.respell s).world = machine.world.respell s := rfl

theorem settle_respell (result : Except RuntimeFault Value) :
    (machine.respell s).settle (result.map (Value.recast s.recasting)) =
      (machine.settle result).respell s := by
  cases result <;> rfl

/-- A value or fault of an operator. -/
theorem settle_respell_operator (operator : Token) (result : Except RuntimeCause Value) :
    (machine.respell s).settle
        ((result.map (Value.recast s.recasting)).mapError operator.fault) =
      (machine.settle (result.mapError operator.fault)).respell s := by
  cases result <;> rfl

/-! ## Calls -/

variable {s machine}

theorem enter_respell {callee : Closure}
    (h : ∀ param ∈ callee.declaration.params,
      s.Matches machine.world.store.scopes.size param.lexeme)
    (arguments : List Value) (made : Option Instance) :
    (machine.respell s).enter (callee.recast s.recasting)
        (arguments.map (Value.recast s.recasting)) (made.map (Instance.recast s.recasting)) =
      (machine.enter callee arguments made).respell s := by
  let rename := s.nameIn machine.world.store.scopes.size
  have hparams : (callee.recast s.recasting).declaration.params.map Token.lexeme =
      (callee.declaration.params.map Token.lexeme).map rename := by
    show (callee.declaration.respell s.code).params.map Token.lexeme = _
    rw [FunctionDecl.params_respell, List.map_map, List.map_map]
    exact List.map_congr_left h
  have hzip : ((callee.declaration.params.map Token.lexeme).map rename).zip
        (arguments.map (Value.recast s.recasting)) =
      Bindings.recast s.recasting rename
        ((callee.declaration.params.map Token.lexeme).zip arguments) :=
    List.zip_map
  have hlist := Bindings.ofList_recast (r := s.recasting)
    (s.injective machine.world.store.scopes.size)
    ((callee.declaration.params.map Token.lexeme).zip arguments)
  have hscope (bindings : Bindings) :
      (machine.respell s).world.store.newScope (bindings.recast s.recasting rename) = _ :=
    machine.world.store.newScope_recast s.recasting bindings
  have hbody : (callee.recast s.recasting).declaration.body = _ :=
    callee.declaration.body_respell s.code
  unfold enter
  dsimp only
  rw [hparams, hzip, hlist, hscope, hbody]
  rfl

variable (s machine)

theorem callObstacle?_respell (callee : Value) (arguments : List Value) (depth : Nat) :
    callObstacle? (callee.recast s.recasting) (arguments.map (Value.recast s.recasting)) depth =
      callObstacle? callee arguments depth := by
  rw [callObstacle?, callObstacle?, callee.arity?_recast, List.length_map]

variable {s machine}

theorem call_respell {paren : Token} {callee : Value} {arguments : List Value}
    (h : ∀ index closure, (machine.openedByCall callee arguments)[index]? = some (.call closure) →
      ∀ param ∈ closure.declaration.params,
        s.Matches (machine.world.store.scopes.size + index) param.lexeme) :
    (machine.respell s).call paren (callee.recast s.recasting)
        (arguments.map (Value.recast s.recasting)) =
      (machine.call paren callee arguments).respell s := by
  unfold openedByCall at h
  unfold call
  rw [depth_respell, callObstacle?_respell]
  cases hobstacle : callObstacle? callee arguments machine.depth with
  | some cause => rfl
  | none =>
      rw [hobstacle] at h
      cases callee with
      | builtin native =>
          cases native with
          | clock => rfl
      | function closure => exact enter_respell (h 0 closure rfl) arguments none
      | classValue ownClass =>
          have hobject : (machine.respell s).world.construct (ownClass.recast s.recasting) = _ :=
            machine.world.construct_recast s.recasting id ownClass
          simp only [Value.recast, hobject, ownClass.initializer?_recast]
          cases hinitializer : ownClass.initializer? with
          | none => rfl
          | some method =>
              let constructed := machine.world.construct ownClass
              let bound := constructed.1.bind method constructed.2
              simp only [hinitializer] at h
              have hsize : bound.1.store.scopes.size = machine.world.store.scopes.size + 1 :=
                Array.size_push _
              have hparams : ∀ param ∈ bound.2.declaration.params,
                  s.Matches bound.1.store.scopes.size param.lexeme := by
                rw [hsize]
                exact h 1 bound.2 rfl
              simp only [Option.map_some, World.bind_recast]
              exact @enter_respell s { machine with world := bound.1 } bound.2 hparams arguments
                (some constructed.2)
      | _ => rfl

theorem nextArgument_respell {paren : Token} {callee : Value} {done : List Value}
    {rest : List Expr}
    (h : ∀ index closure, (machine.openedByNext callee done rest)[index]? = some (.call closure) →
      ∀ param ∈ closure.declaration.params,
        s.Matches (machine.world.store.scopes.size + index) param.lexeme) :
    (machine.respell s).nextArgument paren (callee.recast s.recasting)
        (done.map (Value.recast s.recasting)) (Expr.respellAll s.code rest) =
      (machine.nextArgument paren callee done rest).respell s := by
  cases rest with
  | nil =>
      rw [Expr.respellAll, nextArgument, nextArgument, ← List.map_reverse]
      exact call_respell h
  | cons argument rest => rfl

/-- The name of the class keeps its spelling, and it is found where it has been bound. -/
theorem declareClass_respell {name : Token} {scope : ScopeId}
    (hscope : machine.env.head? = some scope) (hlt : scope < machine.world.store.scopes.size)
    (hname : name.lexeme = s.nameIn scope name.lexeme) (superclass : Option Class)
    (methods : List FunctionDecl) :
    (machine.respell s).declareClass name (superclass.map (Class.recast s.recasting))
        (FunctionDecl.respellAll s.code methods) =
      (machine.declareClass name superclass methods).respell s := by
  let named := machine.world.define machine.env name.lexeme .nil
  let made := named.makeClass machine.env name.lexeme superclass methods
  have hscope' : (machine.respell s).env.head? = some scope := hscope
  have hlt' : scope < (machine.respell s).world.store.scopes.size := by
    show scope < (machine.world.store.recast s.recasting).scopes.size
    rw [Store.size_recast]
    exact hlt
  have hnamed :
      (machine.world.respell s).define machine.env name.lexeme .nil = named.respell s := by
    refine machine.world.define_recast s.recasting id (fun other hother => ?_) .nil
    cases hscope.symm.trans hother
    exact hname
  have hmade : (named.respell s).makeClass machine.env name.lexeme
      (superclass.map (Class.recast s.recasting)) (methods.map (FunctionDecl.respell s.code)) =
      (made.1.respell s, made.2.recast s.recasting) :=
    named.makeClass_recast s.recasting id machine.env name.lexeme superclass methods
  rw [FunctionDecl.respellAll_eq_map, declareClass_eq hscope hlt, declareClass_eq hscope' hlt']
  simp only [world_respell, env_respell, hnamed, hmade]
  have hset := made.1.set_recast s.recasting id hname (.classValue made.2)
  exact congrArg (Machine.mk (.completed .normal) _ _ _) hset

/-! ## Results -/

variable (s machine)

theorem leave_respell (activation : Activation) (completion : Completion) :
    (machine.respell s).leave (activation.respell s) (completion.respell s) =
      (machine.leave activation completion).respell s := by
  have hbound : (machine.respell s).world.store.getAt? (activation.respell s).callee.env 0
      thisName = _ := World.getAt?_respell_word s.this 0
  have hname : (activation.respell s).callee.declaration.name = _ :=
    activation.callee.declaration.name_respell s.code
  unfold leave
  dsimp only
  rw [hbound, hname]
  by_cases hinitializer : activation.callee.isInitializer
  · rw [if_pos hinitializer, if_pos (show (activation.respell s).callee.isInitializer from
      hinitializer)]
    cases hfound : machine.world.store.getAt? activation.callee.env 0 thisName with
    | none =>
        rw [show machine.world.store.getAt? (activation.respell s).callee.env 0 thisName = none from
          hfound]
        rfl
    | some bound =>
        rw [show machine.world.store.getAt? (activation.respell s).callee.env 0 thisName =
          some bound from hfound]
        cases hmade : activation.made <;> simp [Activation.respell, hmade] <;> rfl
  · rw [if_neg hinitializer, if_neg (show ¬(activation.respell s).callee.isInitializer from
      hinitializer)]
    cases completion <;> rfl

theorem finish_respell (completion : Completion) (frame : Frame) :
    (machine.respell s).finish (completion.respell s) (frame.respell s) =
      (machine.finish completion frame).respell s := by
  cases frame with
  | activation activation => exact machine.leave_respell s activation completion
  | sequence rest => cases completion <;> rfl
  | loopBody condition body => cases completion <;> rfl
  | _ => rfl

theorem unwind_respell (frame : Frame) :
    (machine.respell s).unwind (frame.respell s) = (machine.unwind frame).respell s := by
  cases frame <;> rfl

end

/-! ## Steps -/

section

variable {s : Spelling} {machine : Machine} (h : machine.Suits s)

include h

theorem Suits.evaluate_respell {expression : Expr}
    (hcontrol : machine.control = .evaluate expression) :
    (machine.respell s).evaluate (expression.respell s.code) =
      (machine.evaluate expression).respell s := by
  cases expression with
  | literal value =>
      exact congrArg (fun value => Machine.mk (.value value) _ _ _ _)
        (Value.recast_ofLiteral s.recasting value).symm
  | «variable» occurrence =>
      have hreading : machine.reading? = some occurrence := by simp only [reading?, hcontrol]
      rw [Expr.respell, evaluate, evaluate, world_respell, env_respell,
        World.read_respell (h.reads occurrence hreading)]
      exact machine.settle_respell s _
  | thisRef occurrence =>
      have hword : ∀ scope, s.nameIn scope occurrence.name.lexeme = occurrence.name.lexeme := by
        rw [h.thisRef occurrence hcontrol]
        exact s.this
      rw [Expr.respell, evaluate, evaluate, world_respell, env_respell,
        World.read_respell_word hword]
      exact machine.settle_respell s _
  | superRef occurrence method =>
      have hword := h.superRef occurrence method hcontrol
      rw [Expr.respell, evaluate, evaluate, world_respell, env_respell,
        World.superMethod_respell hword]
      exact settle_respell s
        { machine with world := (machine.world.superMethod machine.env occurrence method).1 }
        (machine.world.superMethod machine.env occurrence method).2
  | _ => rfl

theorem Suits.execute_respell {statement : Stmt} (hcontrol : machine.control = .execute statement) :
    (machine.respell s).execute (statement.respell s.code) =
      (machine.execute statement).respell s := by
  obtain ⟨scope, hscope, hlt⟩ := h.hasScope statement hcontrol
  cases statement with
  | block body =>
      have hnew : (machine.respell s).world.store.newScope [] = _ :=
        machine.world.store.newScope_recast s.recasting []
      rw [Stmt.respell, execute, execute]
      dsimp only
      rw [hnew]
      rfl
  | classDecl name superclass methods =>
      have hname (hbinds : machine.Binds (.classDecl name superclass methods)) :
          name.lexeme = s.nameIn scope name.lexeme :=
        Option.some.inj (h.binds _ name.lexeme scope hbinds rfl hscope)
      cases superclass with
      | none =>
          exact declareClass_respell hscope hlt (hname (.classDecl hcontrol)) none methods
      | some occurrence =>
          have hreading : machine.reading? = some occurrence := by simp only [reading?, hcontrol]
          have hread := World.read_respell (h.reads occurrence hreading)
          unfold execute
          dsimp only [Stmt.respell, Option.map_some]
          rw [env_respell, world_respell, hread]
          rcases hvalue : machine.world.read machine.env occurrence with fault | value
          · rfl
          · cases value with
            | classValue superclass =>
                exact declareClass_respell hscope hlt (hname (.subclass hcontrol hvalue))
                  (some superclass) methods
            | _ => rfl
  | function declaration =>
      have hname : declaration.name.lexeme = s.nameIn scope declaration.name.lexeme := by
        have hdeclared := h.binds _ declaration.name.lexeme scope (.function hcontrol) rfl hscope
        have hsame := Option.some.inj hdeclared
        rwa [declaration.name_respell] at hsame
      have hnames : ∀ other, machine.env.head? = some other →
          declaration.name.lexeme = s.nameIn other declaration.name.lexeme := by
        intro other hother
        cases hscope.symm.trans hother
        exact hname
      let closed := machine.world.close machine.env declaration false
      have hclosed :
          (machine.world.respell s).close machine.env (declaration.respell s.code) false =
          (closed.1.respell s, closed.2.recast s.recasting) := rfl
      have hdefine := closed.1.define_recast s.recasting id hnames (.function closed.2)
      rw [Stmt.respell, execute, execute]
      dsimp only
      rw [world_respell, env_respell, hclosed, declaration.name_respell]
      exact congrArg (Machine.mk (.completed .normal) _ _ _) hdefine
  | conditional condition thenBranch elseBranch => cases elseBranch <;> rfl
  | returnValue keyword value => cases value <;> rfl
  | varDecl name initializer =>
      cases initializer with
      | some value => rfl
      | none =>
          have hnames : ∀ other, machine.env.head? = some other →
              s.code name.lexeme = s.nameIn other name.lexeme := fun other hother =>
            Option.some.inj (h.binds _ name.lexeme other (.plain hcontrol) rfl hother)
          have hdefine := machine.world.define_recast s.recasting id hnames .nil
          exact congrArg (Machine.mk (.completed .normal) _ _ _) hdefine
  | _ => rfl

end

theorem Suits.receive_respell {s : Spelling} {value : Value} {frame : Frame} {frames : List Frame}
    {env : Env} {depth : Nat} {world : World}
    (h : Suits ⟨.value value, frame :: frames, env, depth, world⟩ s) :
    (respell s ⟨.value value, frames, env, depth, world⟩).receive (value.recast s.recasting)
        (frame.respell s) =
      (receive ⟨.value value, frames, env, depth, world⟩ value frame).respell s := by
  let machine : Machine := ⟨.value value, frames, env, depth, world⟩
  cases frame with
  | unary operator =>
      unfold receive
      dsimp only [Frame.respell]
      rw [Value.unary_recast]
      exact machine.settle_respell_operator s operator _
  | binaryRight operator left =>
      unfold receive
      dsimp only [Frame.respell]
      rw [Value.binary_recast]
      exact machine.settle_respell_operator s operator _
  | logical operator right =>
      unfold receive
      dsimp only [Frame.respell]
      rw [Value.decides_recast]
      split <;> rfl
  | assign target =>
      obtain ⟨htarget, hmatches⟩ := World.target_respell (h.targets target value frames rfl rfl)
      unfold receive
      dsimp only [Frame.respell, respell]
      rw [htarget]
      cases hscope : world.target env target with
      | error fault => rfl
      | ok scope =>
          exact congrArg (Machine.mk (.value (value.recast s.recasting)) _ _ _)
            (world.set_recast s.recasting id (hmatches scope hscope) value)
  | callee paren arguments =>
      exact @nextArgument_respell s machine paren value [] arguments h.calls
  | argument paren callee done rest =>
      exact @nextArgument_respell s machine paren callee (value :: done) rest h.calls
  | get name =>
      cases value with
      | object object =>
          have hproperty := world.property_respell s object name
          unfold receive
          dsimp only [Frame.respell, Value.recast]
          rw [world_respell, hproperty]
          exact settle_respell s { machine with world := (world.property object name).1 }
            (world.property object name).2
      | _ => rfl
  | setObject name expression => cases value <;> rfl
  | setValue name object =>
      have hstore := world.store.setField_recast s.recasting object.identity name.lexeme value
      exact congrArg (fun store => Machine.mk (.value (value.recast s.recasting)) _ _ _
        ((world.respell s).withStore store)) hstore
  | print =>
      have hprint := world.print_recast s.recasting id value
      unfold receive
      dsimp only [Frame.respell]
      rw [world_respell, hprint]
      rcases world.print value with ⟨printed, _ | _⟩
      · rfl
      · rfl
  | define name =>
      have hnames : ∀ scope, env.head? = some scope →
          s.code name.lexeme = s.nameIn scope name.lexeme := fun scope hscope =>
        Option.some.inj (h.binds (.varDecl name (some (.literal .nil))) name.lexeme scope
          (.initialized rfl rfl) rfl hscope)
      have hdefine := world.define_recast s.recasting id hnames value
      exact congrArg (Machine.mk (.completed .normal) _ _ _) hdefine
  | choice thenBranch elseBranch =>
      unfold receive
      dsimp only [Frame.respell]
      rw [Value.isTruthy_recast]
      split
      · rfl
      · cases elseBranch <;> rfl
  | loopTest condition body =>
      unfold receive
      dsimp only [Frame.respell]
      rw [Value.isTruthy_recast]
      split <;> rfl
  | _ => rfl

/-- A machine whose variables are spelled in another way takes the same step. -/
theorem Suits.step_respell {s : Spelling} {machine : Machine} (h : machine.Suits s) :
    (machine.respell s).step = machine.step.respell s := by
  obtain ⟨control, frames, env, depth, world⟩ := machine
  cases control with
  | evaluate expression => exact h.evaluate_respell rfl
  | execute statement => exact h.execute_respell rfl
  | run statements => cases statements <;> rfl
  | value value =>
      cases frames with
      | nil => rfl
      | cons frame frames => exact h.receive_respell
  | completed completion =>
      cases frames with
      | nil => rfl
      | cons frame frames =>
          exact finish_respell s ⟨.completed completion, frames, env, depth, world⟩ completion frame
  | failed failure =>
      cases frames with
      | nil => rfl
      | cons frame frames =>
          exact unwind_respell s ⟨.failed failure, frames, env, depth, world⟩ frame

theorem outcome?_respell (s : Spelling) (machine : Machine) :
    (machine.respell s).outcome? = machine.outcome?.map (Except.map (Completion.respell s)) := by
  obtain ⟨control, frames, env, depth, world⟩ := machine
  cases frames <;> cases control <;> rfl

end Machine

end LoxLang
