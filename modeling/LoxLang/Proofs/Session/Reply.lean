import LoxLang.Session

/-!
# What is seen of a session

From outside a session shows what has been written and, when the work on a source text has come to
its end, the diagnostics and whether faults are remembered.  The store, the recorded distances and
the numbers of occurrences are not seen.
-/

namespace LoxLang

/-- The faults of a source text on its own: in its tokens, in its syntax, or in the names of its
program. -/
def sourceFaults (source : String) : List Diagnostic :=
  let stream := TokenStream.ofSource source
  stream.faults.map .lexical ++
    match (Program.parse stream.tokens stream.endLine 0).result with
    | .error faults => faults.map .syntactic
    | .ok program => program.staticFaults.map .static

/-- What can be done with a session.  The work on a text takes at most as many steps of the machine
as its budget. -/
inductive Action where
  | script (budget : Nat) (source : String)
  | line (budget : Nat) (source : String)
  | forget

/-- The source text of an action. -/
def Action.source? : Action → Option String
  | script _ source => some source
  | line _ source => some source
  | forget => none

/-- How the work on a source text has ended. -/
structure Verdict where
  diagnostics : List Diagnostic
  hadError : Bool
  hadRuntimeError : Bool

/-- What is seen of an action: all that has been written up to then, and the verdict if the work has
come to its end. -/
structure Reply where
  output : Output
  verdict : Option Verdict

namespace Session

/-- What is seen when the session is left with some diagnostics. -/
def verdict (session : Session) (diagnostics : List Diagnostic) : Verdict :=
  ⟨diagnostics, session.hadError, session.hadRuntimeError⟩

/-- The world in which the work on a source text has come to its end or used up its budget. -/
def worldAfter (session : Session) (budget : Nat) (prepare : Program → Program)
    (source : String) : World :=
  match session.compile source with
  | (compiled, _, none) => compiled.world
  | (compiled, _, some program) =>
      ((Machine.start compiled.world Store.globalEnv (prepare program)).runFor budget).world

/-- What is seen of the work on a source text. -/
def reply (session : Session) (budget : Nat) (prepare : Program → Program) (source : String) :
    Reply where
  output := (session.worldAfter budget prepare source).output
  verdict := (session.step budget prepare source).map fun (next, diagnostics) =>
    next.verdict diagnostics

/-- The session behind an action, if it comes to its end, and what is seen of it. -/
def perform (session : Session) : Action → Option Session × Reply
  | .script budget source =>
      ((session.runScript budget source).map Prod.fst, session.reply budget id source)
  | .line budget source =>
      ((session.runLine budget source).map Prod.fst, session.reply budget Program.echoing source)
  | .forget => (some session.forget, ⟨session.world.output, some (session.forget.verdict [])⟩)

/-- What is seen of actions that follow one another, up to one that does not come to its end. -/
def replies (session : Session) : List Action → List Reply
  | [] => []
  | action :: rest =>
      (session.perform action).2 ::
        match (session.perform action).1 with
        | none => []
        | some next => next.replies rest

/-- The machine that runs a program in the world of a session, at the end of the run or of the
budget. -/
def running (session : Session) (program : Program) (budget : Nat) : Machine :=
  (Machine.start session.world Store.globalEnv program).runFor budget

/-- The session behind the run of a program, and what is reported of the run, if it has come to its
end. -/
def afterRun (session : Session) (machine : Machine) : Option (Session × List Diagnostic) :=
  machine.outcome?.map fun outcome =>
    let failures :=
      match outcome with
      | .ok _ => []
      | .error failure => [.ofFailure failure]
    ({ session with world := machine.world }.noting failures, failures)

/-! ## How a text is compiled -/

section

variable {session : Session} {source : String} {parsed : Parsed Program}
  (hparse : Program.parse (TokenStream.ofSource source).tokens
    (TokenStream.ofSource source).endLine session.nextId = parsed)

include hparse

theorem compile_of_error {faults : List SyntaxFault} (h : parsed.result = .error faults) :
    session.compile source = ({ session with nextId := parsed.nextId },
      (TokenStream.ofSource source).faults.map .lexical ++ faults.map .syntactic, none) := by
  unfold compile
  dsimp only
  rw [hparse, h]

/-- Nothing is resolved after a fault. -/
theorem compile_of_blocked {program : Program} (h : parsed.result = .ok program)
    (hblocked : session.hadError ∨ (TokenStream.ofSource source).faults ≠ []) :
    session.compile source = ({ session with nextId := parsed.nextId },
      (TokenStream.ofSource source).faults.map .lexical, none) := by
  have hfault : session.hadError ||
      !((TokenStream.ofSource source).faults.map Diagnostic.lexical).isEmpty := by
    simpa using hblocked
  unfold compile
  dsimp only
  rw [hparse, h]
  exact if_pos hfault

theorem compile_of_resolved {program : Program} (h : parsed.result = .ok program)
    (hnone : session.hadError = false) (hlexical : (TokenStream.ofSource source).faults = []) :
    session.compile source =
      ({ session with
          nextId := parsed.nextId
          world := session.world.resolved program.findings },
        program.staticFaults.map .static,
        if program.staticFaults = [] then some program else none) := by
  have hfaults : program.findings.filterMap Finding.fault? = program.staticFaults := rfl
  unfold compile
  dsimp only
  rw [hparse, h, hnone, hlexical]
  dsimp only
  rw [hfaults]
  cases program.staticFaults <;> rfl

end

/-- Compiling a text gives out numbers and records distances, and does nothing else to a session;
and a program that may run is what has been read, without any diagnostics. -/
theorem of_compile {session compiled : Session} {source : String}
    {diagnostics : List Diagnostic} {program? : Option Program}
    (h : session.compile source = (compiled, diagnostics, program?)) :
    compiled = { session with
      nextId := compiled.nextId
      world := { session.world with distances := compiled.world.distances } } ∧
    ∀ program ∈ program?, diagnostics = [] ∧
      Program.parse (TokenStream.ofSource source).tokens
        (TokenStream.ofSource source).endLine session.nextId = ⟨.ok program, compiled.nextId⟩ := by
  rcases hparse : Program.parse (TokenStream.ofSource source).tokens
    (TokenStream.ofSource source).endLine session.nextId with ⟨faults | program, nextId⟩
  · rw [compile_of_error hparse rfl] at h
    cases h
    exact ⟨rfl, fun program hprogram => by cases hprogram⟩
  · by_cases hblocked : session.hadError ∨ (TokenStream.ofSource source).faults ≠ []
    · rw [compile_of_blocked hparse rfl hblocked] at h
      cases h
      exact ⟨rfl, fun program hprogram => by cases hprogram⟩
    · obtain ⟨hnone, hlexical⟩ := not_or.1 hblocked
      rw [Bool.not_eq_true] at hnone
      rw [Classical.not_not] at hlexical
      rw [compile_of_resolved hparse rfl hnone hlexical] at h
      cases h
      refine ⟨rfl, fun found hfound => ?_⟩
      split at hfound
      · next hclean =>
          cases hfound
          exact ⟨congrArg (List.map Diagnostic.static) hclean, rfl⟩
      · cases hfound

/-- A program that may run is run. -/
theorem step_of_compile {session compiled : Session} {source : String}
    {diagnostics : List Diagnostic} {program : Program}
    (h : session.compile source = (compiled, diagnostics, some program)) (budget : Nat)
    (prepare : Program → Program) :
    session.step budget prepare source =
      compiled.afterRun (compiled.running (prepare program) budget) := by
  obtain ⟨rfl, -⟩ := (of_compile h).2 program rfl
  unfold step runProgram World.runProgram World.run afterRun running
  rw [h]
  dsimp only
  rcases Machine.outcome? _ with _ | failure | completion <;> rfl

theorem worldAfter_of_compile {session compiled : Session} {source : String}
    {diagnostics : List Diagnostic} {program : Program}
    (h : session.compile source = (compiled, diagnostics, some program)) (budget : Nat)
    (prepare : Program → Program) :
    session.worldAfter budget prepare source =
      (compiled.running (prepare program) budget).world := by
  rw [worldAfter, h]
  rfl

/-- What comes of a run depends on its end and the world that is left. -/
theorem afterRun_congr (session : Session) {machine machine' : Machine}
    (houtcome : machine'.outcome? = machine.outcome?) (hworld : machine'.world = machine.world) :
    session.afterRun machine' = session.afterRun machine := by
  rw [afterRun, afterRun, houtcome, hworld]

@[simp] theorem noting_nil (session : Session) : session.noting [] = session := by
  simp [noting]

theorem of_afterRun {session next : Session} {machine : Machine} {diagnostics : List Diagnostic}
    (h : session.afterRun machine = some (next, diagnostics)) :
    next = { session with world := machine.world }.noting diagnostics ∧
      (diagnostics = [] ∧ (∃ completion, machine.outcome? = some (.ok completion)) ∨
        diagnostics ≠ [] ∧ ∃ failure, machine.outcome? = some (.error failure)) := by
  obtain ⟨outcome, houtcome, hnext⟩ := Option.map_eq_some_iff.1 h
  cases outcome with
  | ok completion =>
      cases hnext
      exact ⟨rfl, .inl ⟨rfl, completion, houtcome⟩⟩
  | error failure =>
      cases hnext
      exact ⟨rfl, .inr ⟨List.cons_ne_nil _ _, failure, houtcome⟩⟩

end Session

end LoxLang
