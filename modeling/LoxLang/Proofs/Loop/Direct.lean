import LoxLang.Proofs.Grammar.Form
import LoxLang.Proofs.Run.Restoration
import LoxLang.Proofs.Scope.Relabeling

/-!
# Counting loops by themselves

A counting loop is read as a block with a `while` loop in it, whose body is a block again.  `Loop`
keeps its clauses apart, and `LoopRun` says what it does without these blocks: one scope is opened
for the initializer and for all that follows, the condition is evaluated in front of each turn, and
the increment behind it.  A part that returns or fails ends the loop.
-/

namespace LoxLang

/-- The clauses of a counting loop, each of which may be missing, and its body, which is no
declaration. -/
structure Loop where
  initializer : Option Stmt
  condition : Option Expr
  increment : Option Expr
  body : Stmt
  body_declares : body.declared? = none

/-- The parts of a loop on which there is work. -/
inductive Loop.Part where
  | initializer
  | condition
  | body
  | increment

namespace Loop

/-- What is made of a loop when it is read. -/
def tree (loop : Loop) : Stmt :=
  Stmt.forLoop loop.initializer loop.condition loop.increment loop.body

/-- What is read as a counting loop is the tree of one, since its body is read as a statement. -/
theorem exists_tree_eq {n : Nat} {isOpen : Bool} {tokens : List Token} {body : Stmt}
    (h : (Grammar.phrases n).statement isOpen tokens body) (initializer : Option Stmt)
    (condition increment : Option Expr) :
    ∃ loop : Loop, loop.tree = Stmt.forLoop initializer condition increment body :=
  have hforms := Grammar.forms_phrases (fun _ => True) n
  ⟨⟨initializer, condition, increment, body, (hforms.statement h fun _ _ => trivial).2⟩, rfl⟩

/-- The loop with other labels. -/
def relabel (r : Relabeling) (loop : Loop) : Loop where
  initializer := loop.initializer.map (Stmt.relabel r)
  condition := loop.condition.map (Expr.relabel r)
  increment := loop.increment.map (Expr.relabel r)
  body := loop.body.relabel r
  body_declares := by
    have hdeclares := loop.body_declares
    revert hdeclares
    cases loop.body with
    | conditional condition thenBranch elseBranch =>
        rw [Stmt.relabel_conditional]
        exact id
    | varDecl name initializer => exact nofun
    | function declaration => exact nofun
    | classDecl name superclass methods => exact nofun
    | _ => exact id

/-- The scopes around the condition, the body and the increment. -/
def scopesInside (loop : Loop) (scopes : Scopes) : Scopes :=
  match loop.initializer with
  | none => scopes
  | some initializer => Scopes.after ([] :: scopes) initializer

/-- The findings in the initializer. -/
def initializerFindings (loop : Loop) (context : Context) (scopes : Scopes) : List Finding :=
  match loop.initializer with
  | none => []
  | some initializer => initializer.findings context ([] :: scopes)

/-- The findings in a loop, where the body has no scope of its own beside the increment. -/
def findings (loop : Loop) (context : Context) (scopes : Scopes) : List Finding :=
  let inside := loop.scopesInside scopes
  loop.initializerFindings context scopes ++ Expr.findingsOf context inside loop.condition ++
    loop.body.findings context inside ++ Expr.findingsOf context inside loop.increment

theorem scopesInside_relabel (r : Relabeling) (loop : Loop) (scopes : Scopes) :
    (loop.relabel r).scopesInside scopes = loop.scopesInside scopes := by
  obtain ⟨initializer, condition, increment, body, hbody⟩ := loop
  cases initializer with
  | none => rfl
  | some initializer => exact Scopes.after_relabel r _ initializer

/-- The same is found in the loop with other labels. -/
theorem findings_relabel (r : Relabeling) (loop : Loop) (context : Context) (scopes : Scopes) :
    (loop.relabel r).findings context scopes =
      (loop.findings context scopes).map (Finding.relabel r) := by
  have hinitializer : (loop.relabel r).initializerFindings context scopes =
      (loop.initializerFindings context scopes).map (Finding.relabel r) := by
    obtain ⟨initializer, condition, increment, body, hbody⟩ := loop
    cases initializer with
    | none => rfl
    | some initializer => exact initializer.findings_relabel r context _
  rw [findings, findings, scopesInside_relabel, hinitializer, List.map_append, List.map_append,
    List.map_append, ← Expr.findingsOf_relabel, ← Expr.findingsOf_relabel, ← Stmt.findings_relabel]
  rfl

/-- Each occurrence is met once. -/
theorem ids_findings_sublist (loop : Loop) (context : Context) (scopes : Scopes) :
    (Finding.ids (loop.findings context scopes)).Sublist loop.tree.ids := by
  have hinitializer : (Finding.ids (loop.initializerFindings context scopes)).Sublist
      (Stmt.idsOf loop.initializer) := by
    rw [initializerFindings]
    cases loop.initializer with
    | none => exact List.Sublist.refl _
    | some initializer => exact initializer.ids_findings_sublist context _
  rw [tree, Stmt.ids_forLoop, findings, Finding.ids_append, Finding.ids_append, Finding.ids_append,
    List.append_assoc, List.append_assoc]
  exact hinitializer.append ((Expr.ids_findingsOf_sublist context _ _).append
    ((loop.body.ids_findings_sublist context _).append (Expr.ids_findingsOf_sublist context _ _)))

end Loop

/-! ## What a loop does -/

/-- Whether a machine on which no frame waits has a result. -/
def Machine.isOver (machine : Machine) : Bool :=
  machine.frames.isEmpty && machine.control.isResult

/-- A loop that is being run: the environment around it, the part on which there is work, none if
the loop has ended, and the machine that does this work and nothing else. -/
structure LoopRun where
  loop : Loop
  outer : Env
  part : Option Loop.Part
  machine : Machine

namespace LoopRun

/-- Starts the work on a part. -/
def begin (run : LoopRun) (part : Loop.Part) (control : Control) : LoopRun :=
  { run with part := some part, machine := { run.machine with control := control } }

/-- Ends the loop with a result, and goes back to the environment around it. -/
def finish (run : LoopRun) (control : Control) : LoopRun :=
  { run with part := none, machine := { run.machine with control := control, env := run.outer } }

/-- Starts a turn. -/
def turn (run : LoopRun) : LoopRun :=
  run.begin .body (.execute run.loop.body)

/-- Decides whether there is another turn.  There always is one if there is no condition. -/
def test (run : LoopRun) : LoopRun :=
  match run.loop.condition with
  | some condition => run.begin .condition (.evaluate condition)
  | none => run.turn

/-- Goes on behind a turn. -/
def advance (run : LoopRun) : LoopRun :=
  match run.loop.increment with
  | some increment => run.begin .increment (.evaluate increment)
  | none => run.test

/-- What is done with the result of a part.  The value of the increment is dropped; and whatever
does not come to its end in the normal way, the loop ends with it. -/
def next (run : LoopRun) (part : Loop.Part) : LoopRun :=
  match part, run.machine.control with
  | .initializer, .completed .normal => run.test
  | .condition, .value value =>
      if value.isTruthy then run.turn else run.finish (.completed .normal)
  | .body, .completed .normal => run.advance
  | .increment, .value _ => run.test
  | _, control => run.finish control

/-- One step, of the part on which there is work or behind it. -/
def step (run : LoopRun) : LoopRun :=
  match run.part with
  | none => run
  | some part =>
      if run.machine.isOver then run.next part else { run with machine := run.machine.step }

/-- A loop that is about to be run in the state of a machine.  The one scope is opened here. -/
def start (loop : Loop) (machine : Machine) : LoopRun :=
  let run : LoopRun := ⟨loop, machine.env, none, { machine with frames := [] }⟩
  match loop.initializer with
  | none => run.test
  | some initializer =>
      let (store, scope) := machine.world.store.newScope []
      begin
        { run with
          machine :=
            { run.machine with
              env := scope :: machine.env
              world := machine.world.withStore store } }
        .initializer (.execute initializer)

/-- So many steps from the start. -/
def after (loop : Loop) (machine : Machine) (count : Nat) : LoopRun :=
  step^[count] (start loop machine)

/-- A loop that has ended stays as it is. -/
theorem step_of_part_eq_none {run : LoopRun} (h : run.part = none) : run.step = run := by
  rw [step, h]

end LoopRun

end LoxLang
