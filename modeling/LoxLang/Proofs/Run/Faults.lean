import LoxLang.Diagnostic
import LoxLang.Proofs.Run.Binding
import LoxLang.Proofs.Run.Dispatch
import LoxLang.Proofs.Run.Returning
import LoxLang.Proofs.Run.Writing

/-!
# Faults of runs

Most faults come from the values that a program computes.  The others would mean that something is
not as the static checks have it: an operator that there is none of, a word of a class that leads
nowhere, a class that is not found under its own name.  Of those no run raises any; and no name is
missing but that of a global.
-/

namespace LoxLang

namespace RuntimeCause

/-- Whether the values that a program computes are what is wrong. -/
def concernsValues : RuntimeCause → Bool
  | undefinedVariable _ => false
  | notUnary => false
  | notBinary => false
  | superUnresolved => false
  | superMisbound => false
  | _ => true

/-- Whether something is wrong that no program without static faults can be blamed for. -/
def isInternal : RuntimeCause → Bool
  | undefinedVariable name => name == thisName || name == superName
  | notUnary => true
  | notBinary => true
  | superUnresolved => true
  | superMisbound => true
  | _ => false

/-- What is said of such a fault. -/
def internalMessages : List String :=
  ["Invalid unary operator.", "Invalid binary operator.", "Invalid 'super' binding.",
    "Can't use 'super' outside of a class.", "Undefined variable 'this'.",
    "Undefined variable 'super'."]

theorem isInternal_of_concernsValues {cause : RuntimeCause} (h : cause.concernsValues) :
    cause.isInternal = false := by
  cases cause with
  | undefinedVariable name => cases h
  | notUnary => cases h
  | notBinary => cases h
  | superUnresolved => cases h
  | superMisbound => cases h
  | _ => rfl

/-- A text that begins in a way in which no message does is none of them. -/
theorem not_mem_of_not_isPrefix {messages : List String} {words rest : String}
    (h : ∀ message ∈ messages, ¬words.toList <+: message.toList) : words ++ rest ∉ messages := by
  intro hmem
  refine h _ hmem ?_
  rw [String.toList_append]
  exact List.prefix_append _ _

/-- No other fault is reported in the same words. -/
theorem isInternal_of_message_mem {cause : RuntimeCause} (h : cause.message ∈ internalMessages) :
    cause.isInternal := by
  cases cause with
  | undefinedVariable name =>
      have hname {word : String} (heq : "Undefined variable '" ++ name ++ "'." =
          "Undefined variable '" ++ word ++ "'.") : name = word := by
        rwa [String.append_left_inj, String.append_right_inj] at heq
      rcases List.mem_append.1 ((List.take_append_drop 4 internalMessages).symm ▸ h) with
        hfirst | hlast
      · have hwords : "Undefined variable '" ++ name ++ "'." ∉ internalMessages.take 4 := by
          rw [String.append_assoc]
          exact not_mem_of_not_isPrefix (by decide)
        exact absurd hfirst hwords
      · rcases List.mem_cons.1 hlast with hthis | hsuper
        · obtain rfl : name = thisName := hname hthis
          rfl
        · obtain rfl : name = superName := hname (List.mem_singleton.1 hsuper)
          rfl
  | undefinedProperty name =>
      have hwords : "Undefined property '" ++ name ++ "'." ∉ internalMessages := by
        rw [String.append_assoc]
        exact not_mem_of_not_isPrefix (by decide)
      exact absurd h hwords
  | argumentCount expected got =>
      have hwords : "Expected " ++ toString expected ++ " arguments but got " ++ toString got ++
          "." ∉ internalMessages := by
        rw [String.append_assoc, String.append_assoc, String.append_assoc]
        exact not_mem_of_not_isPrefix (by decide)
      exact absurd h hwords
  | notUnary => rfl
  | notBinary => rfl
  | superUnresolved => rfl
  | superMisbound => rfl
  | _ => exact absurd h (by decide)

end RuntimeCause

/-! ## What a step can raise -/

namespace Value

/-- The operators of programs fail on values only. -/
theorem concernsValues_of_unary {operator : Kind} {operand : Value} {cause : RuntimeCause}
    (h : operand.unary operator = .error cause) (hoperator : operator ∈ Kind.unaryOperators) :
    cause.concernsValues := by
  rcases List.mem_cons.1 hoperator with rfl | hminus
  · cases h
  · obtain rfl := List.mem_singleton.1 hminus
    cases operand <;> cases h <;> rfl

theorem concernsValues_of_add {left right : Value} {cause : RuntimeCause}
    (h : left.add right = .error cause) : cause.concernsValues := by
  unfold add at h
  split at h <;> cases h
  rfl

theorem concernsValues_of_binary {operator : Kind} {left right : Value} {cause : RuntimeCause}
    (h : left.binary operator right = .error cause)
    (hoperator : operator ∈ Kind.binaryOperators) : cause.concernsValues := by
  unfold binary at h
  split at h
  · cases h
  · cases h
  · exact concernsValues_of_add h
  · split at h
    · unfold arithmetic at h
      split at h <;> simp_all [Kind.binaryOperators]
    · cases h
      rfl

end Value

/-- If there is no property, then the instance has none of that name. -/
theorem World.concernsValues_of_property {world : World} {object : Instance} {name : Token}
    {fault : RuntimeFault} (h : (world.property object name).2 = .error fault) :
    fault.cause.concernsValues := by
  rw [World.property] at h
  split at h
  · cases h
  · split at h <;> cases h
    rfl

namespace Machine

/-- The next step may raise a fault: over values, or over what is named here. -/
inductive Raises (machine : Machine) (fault : RuntimeFault) : Prop
  | values : fault.cause.concernsValues → Raises machine fault
  | unary {operator : Token} {value : Value} {frames : List Frame} :
      machine.control = .value value → machine.frames = .unary operator :: frames →
      operator.kind ∉ Kind.unaryOperators → Raises machine fault
  | binary {operator : Token} {left right : Value} {frames : List Frame} :
      machine.control = .value right → machine.frames = .binaryRight operator left :: frames →
      operator.kind ∉ Kind.binaryOperators → Raises machine fault
  | reading {occurrence : Occurrence} :
      machine.reading? = some occurrence →
      machine.world.read machine.env occurrence = .error fault → Raises machine fault
  | target {occurrence : Occurrence} {value : Value} {frames : List Frame} :
      machine.control = .value value → machine.frames = .assign occurrence :: frames →
      machine.world.target machine.env occurrence = .error fault → Raises machine fault
  | thisRef {occurrence : Occurrence} :
      machine.control = .evaluate (.thisRef occurrence) → Raises machine fault
  | superRef {occurrence : Occurrence} {method : Token} :
      machine.control = .evaluate (.superRef occurrence method) → Raises machine fault
  | className {name : Token} {clause : Option Occurrence} {methods : List FunctionDecl}
      {superclass : Option Class} :
      machine.control = .execute (.classDecl name clause methods) →
      (machine.declareClass name superclass methods).control = .failed (.fault fault) →
      Raises machine fault
  | made {completion : Completion} {activation : Activation} {frames : List Frame} :
      machine.control = .completed completion → machine.frames = .activation activation :: frames →
      activation.callee.isInitializer →
      machine.world.store.getAt? activation.callee.env 0 thisName = none → Raises machine fault

variable {machine : Machine} {fault : RuntimeFault}

theorem eq_error_of_settle {result : Except RuntimeFault Value}
    (h : (machine.settle result).control = .failed (.fault fault)) : result = .error fault := by
  cases result with
  | ok value => cases h
  | error found =>
      cases h
      rfl

theorem concernsValues_of_call {paren : Token} {callee : Value} {arguments : List Value}
    (h : (machine.call paren callee arguments).control = .failed (.fault fault)) :
    fault.cause.concernsValues := by
  unfold call at h
  cases hobstacle : callObstacle? callee arguments machine.depth with
  | some cause =>
      rw [hobstacle] at h
      cases h
      rw [callObstacle?] at hobstacle
      split at hobstacle
      · cases hobstacle
        rfl
      · split at hobstacle
        · cases hobstacle
          rfl
        · split at hobstacle <;> cases hobstacle
          rfl
  | none =>
      rw [hobstacle] at h
      cases callee with
      | builtin native =>
          cases native with
          | clock => cases h
      | function closure => cases h
      | classValue ownClass =>
          dsimp only at h
          split at h <;> cases h
      | _ =>
          cases h
          rfl

theorem concernsValues_of_nextArgument {paren : Token} {callee : Value} {done : List Value}
    {rest : List Expr}
    (h : (machine.nextArgument paren callee done rest).control = .failed (.fault fault)) :
    fault.cause.concernsValues := by
  cases rest with
  | nil => exact concernsValues_of_call h
  | cons argument rest => cases h

theorem raises_of_evaluate {expression : Expr} (hcontrol : machine.control = .evaluate expression)
    (h : (machine.evaluate expression).control = .failed (.fault fault)) :
    machine.Raises fault := by
  cases expression with
  | «variable» occurrence =>
      have hreading : machine.reading? = some occurrence := by simp only [reading?, hcontrol]
      exact .reading hreading (eq_error_of_settle h)
  | thisRef occurrence => exact .thisRef hcontrol
  | superRef occurrence method => exact .superRef hcontrol
  | _ => cases h

theorem raises_of_execute {statement : Stmt} (hcontrol : machine.control = .execute statement)
    (h : (machine.execute statement).control = .failed (.fault fault)) : machine.Raises fault := by
  cases statement with
  | classDecl name clause methods =>
      cases clause with
      | none =>
          have hfails : (machine.declareClass name none methods).control = .failed (.fault fault) :=
            h
          exact .className hcontrol hfails
      | some occurrence =>
          dsimp only [execute] at h
          split at h
          · exact .className hcontrol h
          · cases h
            exact .values rfl
          · next found hread =>
              cases h
              have hreading :
                  machine.reading? = some occurrence := by simp only [reading?, hcontrol]
              exact .reading hreading hread
  | returnValue keyword value => cases value <;> cases h
  | varDecl name initializer => cases initializer <;> cases h
  | _ => cases h

/-- The cause of a fault that an operator raises at its token. -/
theorem exists_of_mapError {result : Except RuntimeCause Value} {operator : Token}
    (h : result.mapError operator.fault = .error fault) :
    result = .error fault.cause := by
  cases result with
  | ok value => cases h
  | error cause =>
      cases h
      rfl

theorem raises_of_receive {value : Value} {frame : Frame} {frames : List Frame} {env : Env}
    {depth : Nat} {world : World}
    (h : (receive ⟨.value value, frames, env, depth, world⟩ value frame).control =
      .failed (.fault fault)) :
    Raises ⟨.value value, frame :: frames, env, depth, world⟩ fault := by
  cases frame with
  | unary operator =>
      have hcause := exists_of_mapError (eq_error_of_settle h)
      by_cases hoperator : operator.kind ∈ Kind.unaryOperators
      · exact .values (Value.concernsValues_of_unary hcause hoperator)
      · exact .unary rfl rfl hoperator
  | binaryRight operator left =>
      have hcause := exists_of_mapError (eq_error_of_settle h)
      by_cases hoperator : operator.kind ∈ Kind.binaryOperators
      · exact .values (Value.concernsValues_of_binary hcause hoperator)
      · exact .binary rfl rfl hoperator
  | logical operator right =>
      dsimp only [receive] at h
      split at h <;> cases h
  | assign target =>
      dsimp only [receive] at h
      split at h
      · cases h
      · next found htarget =>
          cases h
          exact .target rfl rfl htarget
  | callee paren arguments => exact .values (concernsValues_of_nextArgument h)
  | argument paren callee done rest => exact .values (concernsValues_of_nextArgument h)
  | get name =>
      cases value with
      | object object => exact .values (World.concernsValues_of_property (eq_error_of_settle h))
      | _ =>
          cases h
          exact .values rfl
  | setObject name expression =>
      cases value with
      | object object => cases h
      | _ =>
          cases h
          exact .values rfl
  | print =>
      dsimp only [receive] at h
      split at h <;> cases h
  | choice thenBranch elseBranch =>
      dsimp only [receive] at h
      split at h
      · cases h
      · cases elseBranch <;> cases h
  | loopTest condition body =>
      dsimp only [receive] at h
      split at h <;> cases h
  | _ => cases h

theorem raises_of_finish {completion : Completion} {frame : Frame} {frames : List Frame}
    {env : Env} {depth : Nat} {world : World}
    (h : (finish ⟨.completed completion, frames, env, depth, world⟩ completion frame).control =
      .failed (.fault fault)) :
    Raises ⟨.completed completion, frame :: frames, env, depth, world⟩ fault := by
  cases frame with
  | sequence rest => cases completion <;> cases h
  | loopBody condition body => cases completion <;> cases h
  | activation activation =>
      dsimp only [finish, leave] at h
      split at h
      · next hinitializer =>
          split at h
          · cases h
          · next hnone => exact .made rfl rfl hinitializer hnone
      · split at h <;> cases h
  | _ => cases h

/-- What a step can raise, unless it takes a failure out of a frame. -/
theorem raises_of_step (h : machine.step.control = .failed (.fault fault))
    (hrunning : ∀ failure, machine.control ≠ .failed failure) : machine.Raises fault := by
  obtain ⟨control, frames, env, depth, world⟩ := machine
  cases control with
  | evaluate expression => exact raises_of_evaluate rfl h
  | execute statement => exact raises_of_execute rfl h
  | run statements => cases statements <;> cases h
  | value value =>
      cases frames with
      | nil => cases h
      | cons frame frames => exact raises_of_receive h
  | completed completion =>
      cases frames with
      | nil => cases h
      | cons frame frames => exact raises_of_finish h
  | failed failure => exact absurd rfl (hrunning failure)

/-- The occurrence whose variable the next step reads or assigns to. -/
def used? (machine : Machine) : Option Occurrence :=
  match machine.control, machine.frames with
  | .value _, .assign target :: _ => some target
  | _, _ => machine.reading?

theorem used?_of_reading? {occurrence : Occurrence}
    (h : machine.reading? = some occurrence) : machine.used? = some occurrence := by
  unfold used?
  split
  · next value target frames hcontrol hframes =>
      rw [reading?, hcontrol] at h
      cases h
  · exact h

end Machine

/-! ## Runs -/

namespace Run

/-- The next step raises the fault that no global has the name of an occurrence, for which
resolution has found no scope. -/
structure MissesGlobal (run : Run) (occurrence : Occurrence) (fault : RuntimeFault) : Prop where
  uses : run.machine.used? = some occurrence
  unresolved : ∃ program ∈ run.past.programs, .binding occurrence none ∈ program.findings
  unrecorded : run.machine.world.distances[occurrence.id]? = none
  names : occurrence.name.Names Token.Genuine
  missing : run.machine.world.store.binding? Store.globalScope occurrence.name.lexeme = none
  fault_eq : fault = occurrence.name.undefined

variable {run : Run} {fault : RuntimeFault} {occurrence : Occurrence}

/-- A run that has a value stands at a site at which its frames wait for it. -/
theorem Sound.of_value (h : run.Sound) {value : Value}
    (hcontrol : run.machine.control = .value value) :
    ∃ site : Site, site.Stands run.scene ∧ run.scene.HasValue value ∧
      Awaits run.scene .value site run.machine.frames ∧ run.machine.env = site.env ∧
      run.active = site.active := by
  have hfits := h.fits
  rw [hcontrol] at hfits
  generalize run.machine.env = env, run.active = active at hfits ⊢
  cases hfits with
  | value hstands hvalue hframes => exact ⟨_, hstands, hvalue, hframes, rfl, rfl⟩

/-- An occurrence that is read where resolution has found a scope has a value there. -/
theorem InOrder.exists_read (h : run.InOrder) (hreading : run.machine.reading? = some occurrence)
    {distance : Nat} (hrecorded : run.machine.world.distances[occurrence.id]? = some distance) :
    ∃ value, run.machine.world.read run.machine.env occurrence = .ok value := by
  obtain ⟨program, hprogram, path, hreads, hactivates, -⟩ := h.sound.of_reading hreading
  have haccepted := h.sound.grounded.accepted program hprogram
  obtain ⟨nextId, hpast⟩ := h.recorded
  have hdistance : path.distance? occurrence.name.lexeme = some distance :=
    (hpast.recorded program hprogram occurrence _ (haccepted.reads_mem_findings hreads)).symm.trans
      hrecorded
  obtain ⟨enclosure, hbinds⟩ := Path.binds_of_distance? hdistance
  have hname := (hreads.names haccepted.formed).ne
  obtain ⟨scope, hscope, -, hbinding⟩ := hactivates.exists_scope hname hbinds.found hbinds.declared
  obtain ⟨value, hvalue⟩ := Option.isSome_iff_exists.1 hbinding
  refine ⟨value, World.read_of_recorded hrecorded ?_⟩
  rw [Store.getAt?, hscope]
  exact hvalue

theorem InOrder.missesGlobal_of_read (h : run.InOrder)
    (hreading : run.machine.reading? = some occurrence)
    (hread : run.machine.world.read run.machine.env occurrence = .error fault) :
    run.MissesGlobal occurrence fault := by
  obtain ⟨program, hprogram, path, hreads, -⟩ := h.sound.of_reading hreading
  have haccepted := h.sound.grounded.accepted program hprogram
  have hunrecorded : run.machine.world.distances[occurrence.id]? = none := by
    by_contra hsome
    obtain ⟨distance, hdistance⟩ := Option.ne_none_iff_exists'.1 hsome
    obtain ⟨value, hvalue⟩ := h.exists_read hreading hdistance
    cases hvalue.symm.trans hread
  have hfinding := haccepted.reads_mem_findings hreads
  obtain ⟨nextId, hpast⟩ := h.recorded
  have hnone : path.distance? occurrence.name.lexeme = none :=
    (hpast.recorded program hprogram occurrence _ hfinding).symm.trans hunrecorded
  rw [World.read, hunrecorded] at hread
  dsimp only [Store.read] at hread
  split at hread
  · cases hread
  · next hget =>
      cases hread
      exact {
        uses := Machine.used?_of_reading? hreading
        unresolved := ⟨program, hprogram, hnone ▸ hfinding⟩
        unrecorded := hunrecorded
        names := hreads.names haccepted.formed
        missing := List.findSome?_eq_none_iff.1 hget _ List.mem_cons_self
        fault_eq := rfl }

/-- An assignment with a recorded distance has a scope. -/
theorem InOrder.missesGlobal_of_target (h : run.InOrder) {value : Value} {frames : List Frame}
    (hcontrol : run.machine.control = .value value)
    (hframes : run.machine.frames = .assign occurrence :: frames)
    (htarget : run.machine.world.target run.machine.env occurrence = .error fault) :
    run.MissesGlobal occurrence fault := by
  obtain ⟨site, hstands, -, hawaits, henv, -⟩ := h.sound.of_value hcontrol
  rw [hframes] at hawaits
  cases hawaits with
  | @assign _ _ expression _ hlocated _ =>
      have haccepted := h.sound.grounded.accepted _ hstands.program
      have hformed : Expr.Formed Token.Genuine (.assign occurrence expression) :=
        hlocated.formed haccepted.formed
      obtain ⟨distance, hfinding, hlt⟩ := Program.assign_mem_findings hlocated
      obtain ⟨nextId, hpast⟩ := h.recorded
      have hrecorded := hpast.recorded _ hstands.program occurrence distance hfinding
      rw [World.target, hrecorded, henv] at htarget
      cases distance with
      | some distance =>
          obtain ⟨scope, -, hscope, -⟩ := hstands.activates.exists_scope_of_lt (hlt distance rfl)
          dsimp only [Store.ownerAt] at htarget
          rw [hscope] at htarget
          cases htarget
      | none =>
          dsimp only [Store.owner] at htarget
          split at htarget
          · cases htarget
          · next howner =>
              cases htarget
              have hnone := List.find?_eq_none.1 howner _ List.mem_cons_self
              exact {
                uses := by simp only [Machine.used?, hcontrol, hframes]
                unresolved := ⟨_, hstands.program, hfinding⟩
                unrecorded := hrecorded
                names := hformed.spells
                missing := Option.not_isSome_iff_eq_none.1 hnone
                fault_eq := rfl }

/-- When a class declaration is executed, its name can be bound in the innermost scope and is found
there when the class has been made. -/
theorem InOrder.declares_class (h : run.InOrder) {name : Token} {clause : Option Occurrence}
    {methods : List FunctionDecl}
    (hcontrol : run.machine.control = .execute (.classDecl name clause methods))
    (superclass : Option Class) :
    ∃ scope made, run.machine.env.head? = some scope ∧
      (run.machine.declareClass name superclass methods).control = .completed .normal ∧
      (run.machine.declareClass name superclass methods).world.store.binding? scope name.lexeme =
        some (.classValue made) := by
  obtain ⟨program, -, path, -, hactivates, -⟩ := h.sound.of_execute hcontrol
  obtain ⟨scope, hscope⟩ := hactivates.exists_head
  have hlt := h.sound.grounded.head_lt hactivates hscope
  have hcompletes : (run.machine.declareClass name superclass methods).control =
      .completed .normal := by
    rw [Machine.declareClass_eq hscope hlt]
  have hbinding := (Machine.binding?_declareClass hscope hlt name superclass methods hlt
    name.lexeme).trans (if_pos ⟨hscope, rfl⟩)
  exact ⟨scope, _, hscope, hcompletes, hbinding⟩

/-- The call that a run leaves is that of a function that has been made. -/
theorem Sound.of_leaving (h : run.Sound) {completion : Completion} {activation : Activation}
    {frames : List Frame} (hcontrol : run.machine.control = .completed completion)
    (hframes : run.machine.frames = .activation activation :: frames) :
    run.scene.HasFunction activation.callee := by
  have hfits := h.fits
  rw [hcontrol, hframes] at hfits
  generalize run.machine.env = env, run.active = active at hfits
  cases hfits with
  | completed _ _ hawaits =>
      cases hawaits with
      | activation _ _ _ hcallee _ _ _ => exact hcallee
  | returned _ _ hawaits =>
      cases hawaits with
      | activation _ _ _ hcallee _ _ _ => exact hcallee

/-- An initializer that is called has been bound to an instance. -/
theorem InOrder.getAt?_this (h : run.InOrder) {callee : Closure}
    (hcallee : run.scene.HasFunction callee) (hinitializer : callee.isInitializer) :
    ∃ object, run.machine.world.store.getAt? callee.env 0 thisName = some (.object object) := by
  cases hcallee with
  | function _ _ hnot _ _ => cases hnot.symm.trans hinitializer
  | @bound scope object outer hopening henv _ =>
      refine ⟨object, ?_⟩
      rw [henv]
      exact h.sound.grounded.instances scope callee object hopening

/-- What the steps of a run raise concerns values, unless it is the name of a global that is
missing. -/
theorem InOrder.of_fails (h : run.InOrder)
    (hfails : run.machine.step.control = .failed (.fault fault))
    (hrunning : ∀ failure, run.machine.control ≠ .failed failure) :
    fault.cause.concernsValues ∨ ∃ occurrence, run.MissesGlobal occurrence fault := by
  have hgrounded := h.sound.grounded
  cases Machine.raises_of_step hfails hrunning with
  | values hvalues => exact .inl hvalues
  | reading hreading hread => exact .inr ⟨_, h.missesGlobal_of_read hreading hread⟩
  | target hcontrol hframes htarget =>
      exact .inr ⟨_, h.missesGlobal_of_target hcontrol hframes htarget⟩
  | thisRef hcontrol =>
      obtain ⟨depth, call, -, hstep⟩ := h.evaluates_this hcontrol
      rw [hstep] at hfails
      cases hfails
  | @superRef occurrence method hcontrol =>
      obtain ⟨depth, call, value, -, -, hfound, hnone⟩ := h.evaluates_super hcontrol
      cases hmethod : value.findMethod? method.lexeme with
      | some found =>
          rw [hfound found hmethod] at hfails
          cases hfails
      | none =>
          rw [hnone hmethod] at hfails
          cases hfails
          exact .inl rfl
  | @unary operator value frames hcontrol hframes hoperator =>
      obtain ⟨site, hstands, -, hawaits, -⟩ := h.sound.of_value hcontrol
      rw [hframes] at hawaits
      cases hawaits with
      | unary hlocated _ =>
          have hformed : Expr.Formed Token.Genuine (.unary operator _) :=
            hlocated.formed (hgrounded.accepted _ hstands.program).formed
          exact absurd hformed.spells hoperator
  | @binary operator left right frames hcontrol hframes hoperator =>
      obtain ⟨site, hstands, -, hawaits, -⟩ := h.sound.of_value hcontrol
      rw [hframes] at hawaits
      cases hawaits with
      | binaryRight hlocated _ _ =>
          have hformed : Expr.Formed Token.Genuine (.binary operator _ _) :=
            hlocated.formed (hgrounded.accepted _ hstands.program).formed
          exact absurd hformed.spells hoperator
  | @className name clause methods superclass hcontrol hdeclares =>
      obtain ⟨scope, made, -, hcompletes, -⟩ := h.declares_class hcontrol superclass
      cases hcompletes.symm.trans hdeclares
  | made hcontrol hframes hinitializer hnone =>
      have hcallee := h.sound.of_leaving hcontrol hframes
      obtain ⟨object, hobject⟩ := h.getAt?_this hcallee hinitializer
      cases hobject.symm.trans hnone

/-- Whenever a run has failed with a fault, either the fault concerns values or it is due to a step
of the same run for which the name of a global was missing. -/
theorem Occurs.of_failed (h : run.Occurs) (hfailed : run.machine.control = .failed (.fault fault)) :
    fault.cause.concernsValues ∨ ∃ earlier : Run, ∃ occurrence count, earlier.Occurs ∧
      earlier.MissesGlobal occurrence fault ∧
      earlier.step.machine.control = .failed (.fault fault) ∧
      Run.step^[count] earlier.step = run := by
  induction h with
  | start _ _ _ => cases hfailed
  | @step run hrun ih =>
      by_cases hrunning : ∀ failure, run.machine.control ≠ .failed failure
      · rcases hrun.inOrder.of_fails hfailed hrunning with hvalues | ⟨occurrence, hmisses⟩
        · exact .inl hvalues
        · exact .inr ⟨run, occurrence, 0, hrun, hmisses, hfailed, rfl⟩
      · obtain ⟨failure, hfailure⟩ := not_forall_not.1 hrunning
        obtain ⟨hcontrol, -⟩ := Machine.step_of_failed hfailure
        have hbefore : run.machine.control = .failed (.fault fault) :=
          hfailure.trans (hcontrol.symm.trans hfailed)
        rcases ih hbefore with hvalues |
          ⟨earlier, occurrence, count, hearlier, hmisses, hfails, hcount⟩
        · exact .inl hvalues
        · refine .inr ⟨earlier, occurrence, count + 1, hearlier, hmisses, hfails, ?_⟩
          rw [Function.iterate_succ_apply', hcount]

/-- A run never returns outside its calls. -/
theorem Occurs.stays (h : run.Occurs) :
    run.machine.Stays ∧ run.machine.LeadsBack [] Store.globalEnv 0 := by
  induction h with
  | @start session compiled past prepare source diagnostics program hreached hprepare hcompile =>
      obtain ⟨-, -, hprogram⟩ := (Session.compiles hcompile).resolved.choose_spec
      have hclean := (hprepare.accepted (hprogram program rfl).1).1.clean
      refine ⟨⟨[], fun frame hframe => (by cases hframe), .inl ⟨rfl, ?_⟩⟩, [], rfl, rfl, rfl⟩
      exact Program.returnsAny_eq_false hclean
  | @step run _ ih =>
      obtain ⟨hstays, hback⟩ := ih
      have hcalls : run.machine.depth = Frame.calls run.machine.frames := by
        obtain ⟨inner, hframes, -, hdepth⟩ := hback
        rw [hframes, hdepth, List.append_nil, Nat.zero_add]
      refine ⟨hstays.step (Nat.le_of_eq hcalls.symm), ?_⟩
      show run.machine.step.LeadsBack [] Store.globalEnv 0
      by_cases hended : run.machine.Ended []
      · rwa [Machine.step_of_ended hended]
      · exact (hback.step hended).1

theorem Occurs.exists_activation (h : run.Occurs) {value : Value}
    (hreturned : run.machine.control = .completed (.returned value)) :
    ∃ activation, .activation activation ∈ run.machine.frames := by
  obtain ⟨outer, -, ⟨-, hcontrol⟩ | ⟨inner, activation, hframes⟩⟩ := h.stays.1
  · rw [hreturned] at hcontrol
    cases hcontrol
  · refine ⟨activation, ?_⟩
    rw [hframes]
    exact List.mem_append_right _ List.mem_cons_self

/-- What the static checks are there to rule out never happens in a run.  A `return` is always on
its way to a call, so no statement of a program and no program ends with one.  No fault is reported
in the words that are kept for such things.  If a name is missing, then it is a step of the same run
that has failed, at which an occurrence was read or assigned to for which resolution had found no
scope, and there was no such global.  And the class that a declaration makes is always found under
its name. -/
theorem Occurs.never_fails_internally (h : run.Occurs) :
    (∀ value, run.machine.control = .completed (.returned value) →
      ∃ activation, .activation activation ∈ run.machine.frames) ∧
    (∀ fault, run.machine.control = .failed (.fault fault) →
      fault.cause.message ∉ RuntimeCause.internalMessages ∧
      ∀ name, fault.cause = .undefinedVariable name →
        ∃ earlier : Run, ∃ occurrence count, earlier.Occurs ∧
          earlier.MissesGlobal occurrence fault ∧
          earlier.step.machine.control = .failed (.fault fault) ∧
          Run.step^[count] earlier.step = run) ∧
    (∀ name clause methods, run.machine.control = .execute (.classDecl name clause methods) →
      ∀ superclass, ∃ scope made, run.machine.env.head? = some scope ∧
        (run.machine.declareClass name superclass methods).control = .completed .normal ∧
        (run.machine.declareClass name superclass methods).world.store.binding? scope name.lexeme =
          some (.classValue made)) := by
  refine ⟨fun value => h.exists_activation, fun fault hfailed => ⟨fun hmessage => ?_, ?_⟩,
    fun name clause methods hcontrol => h.inOrder.declares_class hcontrol⟩
  · have hinternal := RuntimeCause.isInternal_of_message_mem hmessage
    rcases h.of_failed hfailed with hvalues | ⟨earlier, occurrence, -, -, hmisses, -⟩
    · cases (RuntimeCause.isInternal_of_concernsValues hvalues).symm.trans hinternal
    · obtain ⟨hthis, hsuper⟩ := hmisses.names.ne
      rw [hmisses.fault_eq] at hinternal
      rcases Bool.or_eq_true_iff.1 hinternal with hword | hword
      · exact hthis (beq_iff_eq.1 hword)
      · exact hsuper (beq_iff_eq.1 hword)
  · intro name hname
    rcases h.of_failed hfailed with hvalues | hmisses
    · rw [hname] at hvalues
      cases hvalues
    · exact hmisses

/-- A function that returns the value of a global, and a call of it while there is no such
global. -/
def globalReading : Program :=
  let function : Token := ⟨.identifier, "f", 1⟩
  let missing : Token := ⟨.identifier, "g", 1⟩
  [.function (.mk function []
      [.returnValue ⟨.keyword .returnKw, "return", 1⟩ (some (.variable ⟨0, missing⟩))]),
    .expression (.call (.variable ⟨1, function⟩) ⟨.symbol .rightParen, ")", 1⟩ [])]

theorem occurs_globalReading : (first none (fun _ => 0) globalReading).Occurs := by
  refine occurs_first "fun f()\x7breturn g;\x7df();" 2 ?_ ?_ rfl none fun _ => 0
  · decide +kernel
  · decide +kernel

/-- When the call has failed. -/
theorem never_fails_internally_globalReading :
    let run := (first none (fun _ => 0) globalReading).runFor 11
    let fault : RuntimeFault := ⟨.undefinedVariable "g", 1⟩
    run.machine.control = .failed (.fault fault) ∧
    fault.cause.message ∉ RuntimeCause.internalMessages ∧
    ∃ earlier : Run, ∃ occurrence count, earlier.Occurs ∧
      earlier.MissesGlobal occurrence fault ∧
      earlier.step.machine.control = .failed (.fault fault) ∧ Run.step^[count] earlier.step = run :=
  have h := (Occurs.never_fails_internally (occurs_globalReading.runFor 11)).2.1
    ⟨.undefinedVariable "g", 1⟩ rfl
  ⟨rfl, h.1, h.2 "g" rfl⟩

end Run

end LoxLang
