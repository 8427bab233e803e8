import LoxLang.Proofs.Run.Sound

/-!
# What is recorded stays

A run does not touch the recorded distances, and the texts of a session record theirs under numbers
of their own.  So at every moment of a session what is recorded about an occurrence in a program
that has been run is what was found about it there, whatever was read in between, accepted or not.
-/

namespace LoxLang

/-! ## Runs do not touch what is recorded -/

namespace World

theorem distances_closeAll (world : World) (env : Env) (methods : List FunctionDecl) :
    (world.closeAll env methods).1.distances = world.distances := by
  induction methods generalizing world with
  | nil => rfl
  | cons method rest ih => exact ih _

theorem distances_makeClass (world : World) (env : Env) (name : String)
    (superclass : Option Class) (methods : List FunctionDecl) :
    (world.makeClass env name superclass methods).1.distances = world.distances := by
  cases superclass with
  | none => exact world.distances_closeAll env methods
  | some superclass => exact distances_closeAll _ _ methods

theorem distances_property (world : World) (object : Instance) (name : Token) :
    (world.property object name).1.distances = world.distances := by
  rw [property]
  split
  · rfl
  · split <;> rfl

theorem distances_superMethod (world : World) (env : Env) (occurrence : Occurrence)
    (method : Token) : (world.superMethod env occurrence method).1.distances = world.distances := by
  rcases world.superMethod_cases env occurrence method with
    ⟨fault, hresult, -⟩ | ⟨distance, superclass, object, found, -, -, -, -, hresult, -⟩
  · rw [hresult]
  · rw [hresult]
    rfl

end World

namespace Machine

variable (machine : Machine)

theorem distances_call (paren : Token) (callee : Value) (arguments : List Value) :
    (machine.call paren callee arguments).world.distances = machine.world.distances := by
  unfold call
  cases callObstacle? callee arguments machine.depth with
  | some cause => rfl
  | none =>
      cases callee with
      | builtin native =>
          cases native with
          | clock => rfl
      | classValue ownClass =>
          dsimp only
          cases ownClass.initializer? <;> rfl
      | _ => rfl

theorem distances_nextArgument (paren : Token) (callee : Value) (done : List Value)
    (rest : List Expr) :
    (machine.nextArgument paren callee done rest).world.distances = machine.world.distances := by
  cases rest with
  | nil => exact machine.distances_call paren callee done.reverse
  | cons argument rest => rfl

theorem distances_evaluate (expression : Expr) :
    (machine.evaluate expression).world.distances = machine.world.distances := by
  cases expression with
  | «variable» occurrence => exact congrArg World.distances (machine.world_settle _)
  | thisRef occurrence => exact congrArg World.distances (machine.world_settle _)
  | superRef occurrence method =>
      rw [evaluate, world_settle]
      exact machine.world.distances_superMethod _ _ _
  | _ => rfl

theorem distances_declareClass (name : Token) (superclass : Option Class)
    (methods : List FunctionDecl) :
    (machine.declareClass name superclass methods).world.distances = machine.world.distances := by
  have hmade := World.distances_makeClass (machine.world.define machine.env name.lexeme .nil)
    machine.env name.lexeme superclass methods
  unfold declareClass
  dsimp only
  split
  · exact hmade
  · exact hmade

theorem distances_execute (statement : Stmt) :
    (machine.execute statement).world.distances = machine.world.distances := by
  cases statement with
  | classDecl name superclass methods =>
      cases superclass with
      | none => exact machine.distances_declareClass name none methods
      | some occurrence =>
          dsimp only [execute]
          split
          · exact machine.distances_declareClass name _ methods
          · rfl
          · rfl
  | returnValue keyword value => cases value <;> rfl
  | varDecl name initializer => cases initializer <;> rfl
  | _ => rfl

theorem distances_receive (value : Value) (frame : Frame) :
    (machine.receive value frame).world.distances = machine.world.distances := by
  cases frame with
  | unary operator => exact congrArg World.distances (machine.world_settle _)
  | binaryRight operator left => exact congrArg World.distances (machine.world_settle _)
  | logical operator right =>
      unfold receive
      dsimp only
      split <;> rfl
  | assign target =>
      unfold receive
      dsimp only
      split <;> rfl
  | callee paren arguments => exact machine.distances_nextArgument _ _ _ _
  | argument paren callee done rest => exact machine.distances_nextArgument _ _ _ _
  | get name =>
      cases value with
      | object object =>
          exact (congrArg World.distances (world_settle _ _)).trans
            (machine.world.distances_property object name)
      | _ => rfl
  | setObject name expression => cases value <;> rfl
  | print =>
      have hprint : (machine.world.print value).1.distances = machine.world.distances := rfl
      unfold receive
      dsimp only
      split
      · next printed heq => rw [← hprint, heq]
      · next printed heq => rw [← hprint, heq]
  | choice thenBranch elseBranch =>
      unfold receive
      dsimp only
      split
      · rfl
      · cases elseBranch <;> rfl
  | loopTest condition body =>
      unfold receive
      dsimp only
      split <;> rfl
  | _ => rfl

/-- A step does not touch what is recorded. -/
theorem distances_step : machine.step.world.distances = machine.world.distances := by
  obtain ⟨control, frames, env, depth, world⟩ := machine
  cases control with
  | evaluate expression => exact distances_evaluate _ expression
  | execute statement => exact distances_execute _ statement
  | run statements => cases statements <;> rfl
  | value value =>
      cases frames with
      | nil => rfl
      | cons frame frames => exact distances_receive _ value frame
  | completed completion =>
      cases frames with
      | nil => rfl
      | cons frame frames => exact congrArg World.distances (world_finish _ completion frame)
  | failed failure =>
      cases frames with
      | nil => rfl
      | cons frame frames => cases frame <;> rfl

theorem distances_runFor (budget : Nat) :
    (machine.runFor budget).world.distances = machine.world.distances := by
  induction budget generalizing machine with
  | zero => rfl
  | succ budget ih =>
      rw [runFor]
      split
      · rfl
      · rw [ih, distances_step]

end Machine

theorem Run.distances_runFor (run : Run) (budget : Nat) :
    (run.runFor budget).machine.world.distances = run.machine.world.distances := by
  rw [run.machine_runFor]
  exact run.machine.distances_runFor budget

/-! ## Texts record what is found under numbers of their own -/

/-- The recorded distances are those that were found in the programs that have been run, and nothing
is recorded yet under the numbers that are to come. -/
structure Past.Recorded (past : Past) (distances : Distances) (nextId : NodeId) : Prop where
  fresh : ∀ id, nextId ≤ id → distances[id]? = none
  used : ∀ program ∈ past.programs, ∀ id ∈ Finding.ids program.findings, id < nextId
  recorded : ∀ program ∈ past.programs, ∀ occurrence distance,
    .binding occurrence distance ∈ program.findings → distances[occurrence.id]? = distance

namespace Past.Recorded

variable {past : Past} {distances : Distances} {nextId next : NodeId} {findings : List Finding}

theorem of_programs (h : past.Recorded distances nextId) {later : Past}
    (heq : later.programs = past.programs) : later.Recorded distances nextId where
  fresh := h.fresh
  used program hprogram := h.used program (heq ▸ hprogram)
  recorded program hprogram := h.recorded program (heq ▸ hprogram)

/-- Findings about occurrences with new numbers leave what has been recorded as it is. -/
theorem recordAll (h : past.Recorded distances nextId)
    (hfresh : Fresh nextId next (Finding.ids findings)) (hle : nextId ≤ next) :
    past.Recorded (distances.recordAll findings) next where
  fresh id hid := by
    have hnot : id ∉ Finding.ids findings := fun hmem => Nat.not_lt.2 hid (hfresh.lt id hmem)
    rw [Distances.getElem?_recordAll_of_not_mem distances hnot]
    exact h.fresh id (Nat.le_trans hle hid)
  used program hprogram id hid := Nat.lt_of_lt_of_le (h.used program hprogram id hid) hle
  recorded program hprogram occurrence distance hfinding := by
    have hlt := h.used program hprogram occurrence.id (Finding.mem_ids hfinding)
    have hnot : occurrence.id ∉ Finding.ids findings :=
      fun hmem => Nat.not_lt.2 (hfresh.ge occurrence.id hmem) hlt
    rw [Distances.getElem?_recordAll_of_not_mem distances hnot]
    exact h.recorded program hprogram occurrence distance hfinding

/-- A program whose findings have just been recorded. -/
theorem addProgram (h : past.Recorded distances nextId) {program : Program}
    (hfresh : Fresh nextId next (Finding.ids program.findings)) (hle : nextId ≤ next) :
    Past.Recorded { past with programs := program :: past.programs }
      (distances.recordAll program.findings) next := by
  have hrecorded := h.recordAll hfresh hle
  refine ⟨hrecorded.fresh, ?_, ?_⟩
  · intro other hother
    rcases List.mem_cons.1 hother with rfl | hmem
    · exact hfresh.lt
    · exact hrecorded.used other hmem
  · intro other hother occurrence distance hfinding
    rcases List.mem_cons.1 hother with rfl | hmem
    · have hnew := h.fresh occurrence.id (hfresh.ge _ (Finding.mem_ids hfinding))
      exact Distances.getElem?_recordAll distances hfinding hfresh.nodup hnew
    · exact hrecorded.recorded other hmem occurrence distance hfinding

end Past.Recorded

/-- What comes of a session when a text is read and resolved: something may have been recorded,
under new numbers, and if there is a program to run then it is accepted and what was found in it has
been recorded. -/
structure Session.Compiles (session compiled : Session) (program? : Option Program) : Prop where
  store : compiled.world.store = session.world.store
  le : session.nextId ≤ compiled.nextId
  resolved : ∃ findings, Fresh session.nextId compiled.nextId (Finding.ids findings) ∧
    compiled.world.distances = session.world.distances.recordAll findings ∧
      ∀ program ∈ program?, program.Accepted ∧ program.findings = findings

theorem Session.compiles {session compiled : Session} {source : String}
    {diagnostics : List Diagnostic} {program? : Option Program}
    (h : session.compile source = (compiled, diagnostics, program?)) :
    session.Compiles compiled program? := by
  let stream := TokenStream.ofSource source
  have hle := Program.le_nextId_parse stream.tokens stream.endLine session.nextId
  -- Nothing is resolved after a fault of the text.
  have hrejected : session.Compiles
      { session with
        nextId := (Program.parse stream.tokens stream.endLine session.nextId).nextId } none :=
    ⟨rfl, hle, [], .nil _ _, rfl, fun program hprogram => by cases hprogram⟩
  unfold Session.compile at h
  dsimp only at h
  cases hparse : (Program.parse stream.tokens stream.endLine session.nextId).result with
  | error faults =>
      rw [hparse] at h
      cases h
      exact hrejected
  | ok program =>
      obtain ⟨hderives, hids⟩ := Program.derives_of_parse_eq_ok hparse
      have hfresh : Fresh session.nextId
          (Program.parse stream.tokens stream.endLine session.nextId).nextId
          (Finding.ids program.findings) :=
        hids.sublist (Stmt.ids_findingsAll_sublist _ _ program)
      have hformed : program.Formed Token.Genuine :=
        hderives.formed fun token htoken => TokenStream.genuine_of_mem_tokens htoken
      rw [hparse] at h
      dsimp only at h
      split at h
      · cases h
        exact hrejected
      · split at h
        · next hclean =>
            cases h
            refine ⟨rfl, hle, program.findings, hfresh, rfl, ?_⟩
            rintro found ⟨⟩
            exact ⟨⟨hformed, hclean⟩, rfl⟩
        · cases h
          exact ⟨rfl, hle, program.findings, hfresh, rfl, fun found hfound => by cases hfound⟩

end LoxLang
