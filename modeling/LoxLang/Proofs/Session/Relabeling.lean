import LoxLang.Proofs.Grammar.Rereading.Program
import LoxLang.Proofs.Run.Relabeling.Machine
import LoxLang.Proofs.Run.Session
import LoxLang.Proofs.Session.Reply

/-!
# Relabelled sessions

A session in which the occurrences of all programs have other numbers (`Session.Renumbers`) replies
to every action as the session itself does.
-/

namespace LoxLang

/-! ## Diagnostics on other lines -/

/-- A diagnostic on another line. -/
def Diagnostic.mapLine (lines : Nat → Nat) : Diagnostic → Diagnostic
  | lexical fault => lexical (fault.mapLine lines)
  | syntactic fault => syntactic (fault.mapLine lines)
  | static fault => static (fault.mapLine lines)
  | runtime fault => runtime (fault.mapLine lines)
  | outputFull => outputFull

namespace Diagnostic

theorem isRuntime_mapLine (lines : Nat → Nat) (diagnostic : Diagnostic) :
    (diagnostic.mapLine lines).isRuntime = diagnostic.isRuntime := by
  cases diagnostic <;> rfl

theorem ofFailure_mapLine (lines : Nat → Nat) (failure : Failure) :
    ofFailure (failure.mapLine lines) = (ofFailure failure).mapLine lines := by
  cases failure <;> rfl

theorem mapLine_id (diagnostic : Diagnostic) : diagnostic.mapLine id = diagnostic := by
  cases diagnostic with
  | syntactic fault =>
      obtain ⟨cause, place⟩ := fault
      cases place <;> rfl
  | _ => rfl

theorem map_mapLine_id (diagnostics : List Diagnostic) :
    diagnostics.map (mapLine id) = diagnostics := by
  rw [show mapLine id = id from funext mapLine_id, List.map_id]

theorem map_syntactic_mapLine (lines : Nat → Nat) (faults : List SyntaxFault) :
    (faults.map (SyntaxFault.mapLine lines)).map syntactic =
      (faults.map syntactic).map (mapLine lines) := by
  rw [List.map_map, List.map_map]
  rfl

theorem map_static_mapLine (lines : Nat → Nat) (faults : List StaticFault) :
    (faults.map (StaticFault.mapLine lines)).map static =
      (faults.map static).map (mapLine lines) := by
  rw [List.map_map, List.map_map]
  rfl

end Diagnostic

namespace Session

/-! ## Other labels -/

/-- A session whose programs have other labels. -/
def relabel (r : Relabeling) (recorded : Distances) (nextId : NodeId) (session : Session) :
    Session :=
  { session with world := session.world.relabel r recorded, nextId := nextId }

theorem noting_relabel (r : Relabeling) (recorded : Distances) (nextId : NodeId)
    (session : Session) (diagnostics : List Diagnostic) :
    (session.relabel r recorded nextId).noting (diagnostics.map (Diagnostic.mapLine r.lines)) =
      (session.noting diagnostics).relabel r recorded nextId := by
  have hruntime : (diagnostics.map (Diagnostic.mapLine r.lines)).any Diagnostic.isRuntime =
      diagnostics.any Diagnostic.isRuntime := by
    rw [List.any_map]
    congr 1
    funext diagnostic
    exact diagnostic.isRuntime_mapLine r.lines
  have hother : (diagnostics.map (Diagnostic.mapLine r.lines)).any (!·.isRuntime) =
      diagnostics.any (!·.isRuntime) := by
    rw [List.any_map]
    congr 1
    funext diagnostic
    exact congrArg (!·) (diagnostic.isRuntime_mapLine r.lines)
  rw [noting, noting, hruntime, hother]
  rfl

theorem afterRun_relabel (r : Relabeling) (recorded : Distances) (nextId : NodeId)
    (session : Session) (machine : Machine) :
    (session.relabel r recorded nextId).afterRun (machine.relabel r recorded) =
      (session.afterRun machine).map
        (Prod.map (relabel r recorded nextId) (List.map (Diagnostic.mapLine r.lines))) := by
  rw [afterRun, afterRun, Machine.outcome?_relabel, Option.map_map, Option.map_map]
  congr 1
  funext outcome
  have hnoting (diagnostics : List Diagnostic) :=
    noting_relabel r recorded nextId { session with world := machine.world } diagnostics
  cases outcome with
  | ok completion => exact congrArg (·, []) (hnoting [])
  | error failure =>
      have hfailure := Diagnostic.ofFailure_mapLine r.lines failure
      simp only [Function.comp, Relabeling.ending, Prod.map, hfailure]
      exact congrArg (·, [_]) (hnoting [.ofFailure failure])

end Session

/-! ## Other numbers -/

/-- The same program is read wherever its numbers start. -/
theorem Program.parse_add (tokens : List Token) (endLine : Nat) (nextId : NodeId) :
    parse tokens endLine nextId =
      (parse tokens endLine 0).relabel (.ofIds fun id => id + nextId) := by
  let labels := Relabeling.ofIds fun id => id + nextId
  have hcounts : ∀ id, 0 ≤ id → labels.ids (id + 1) = labels.ids id + 1 :=
    fun id _ => Nat.add_right_comm id 1 nextId
  have hparse := parse_relabel labels tokens endLine hcounts
  rw [Relabeling.map_token_ofIds] at hparse
  exact (congrArg (parse tokens endLine) (Nat.zero_add nextId)).symm.trans hparse

/-- The faults of a text do not depend on where its numbers start. -/
theorem sourceFaults_eq (source : String) (nextId : NodeId) :
    sourceFaults source =
      (TokenStream.ofSource source).faults.map .lexical ++
        match (Program.parse (TokenStream.ofSource source).tokens
          (TokenStream.ofSource source).endLine nextId).result with
        | .error faults => faults.map .syntactic
        | .ok program => program.staticFaults.map .static := by
  rw [sourceFaults, Program.parse_add _ _ nextId, Parsed.relabel]
  dsimp only
  congr 1
  cases (Program.parse (TokenStream.ofSource source).tokens
    (TokenStream.ofSource source).endLine 0).result with
  | error faults =>
      show _ = (faults.map (SyntaxFault.mapLine id)).map Diagnostic.syntactic
      rw [Diagnostic.map_syntactic_mapLine, Diagnostic.map_mapLine_id]
  | ok program =>
      dsimp only
      rw [Program.staticFaults_relabel, Diagnostic.map_static_mapLine]
      exact (Diagnostic.map_mapLine_id _).symm

theorem Program.echoing_relabel (r : Relabeling) (program : Program) :
    (program.relabel r).echoing = program.echoing.relabel r := by
  rcases program with _ | ⟨statement, _ | ⟨second, rest⟩⟩
  · rfl
  · cases statement with
    | conditional condition thenBranch elseBranch => cases elseBranch <;> rfl
    | _ => rfl
  · cases statement with
    | conditional condition thenBranch elseBranch => cases elseBranch <;> rfl
    | _ => rfl

/-- What is done with a program before it runs does not depend on its labels. -/
theorem Prepares.relabel {prepare : Program → Program} (h : Prepares prepare) (r : Relabeling)
    (program : Program) : prepare (program.relabel r) = (prepare program).relabel r := by
  cases h with
  | script => rfl
  | line => exact program.echoing_relabel r

/-- Different numbers stay different, and from some number on they follow one another as before. -/
structure KeepsOrder (ids : NodeId → NodeId) (start : NodeId) : Prop where
  injective : Function.Injective ids
  counts : ∀ id, start ≤ id → ids (id + 1) = ids id + 1

theorem KeepsOrder.mono {ids : NodeId → NodeId} {start later : NodeId} (h : KeepsOrder ids start)
    (hle : start ≤ later) : KeepsOrder ids later :=
  ⟨h.injective, fun id hid => h.counts id (Nat.le_trans hle hid)⟩

namespace Session

/-- The other session is the same one under other numbers. -/
def Renumbers (ids : NodeId → NodeId) (session other : Session) : Prop :=
  ∃ recorded, (Relabeling.ofIds ids).Agrees session.world.distances recorded ∧
    other = session.relabel (.ofIds ids) recorded (ids session.nextId)

variable {ids : NodeId → NodeId} {session other : Session}

theorem Renumbers.compile (h : session.Renumbers ids other) (hids : KeepsOrder ids session.nextId)
    (source : String) :
    ∃ compiled, (session.compile source).1.Renumbers ids compiled ∧
      other.compile source = (compiled, (session.compile source).2.1,
        (session.compile source).2.2.map (Program.relabel (.ofIds ids))) := by
  obtain ⟨recorded, hagrees, rfl⟩ := h
  rcases hparse : Program.parse (TokenStream.ofSource source).tokens
    (TokenStream.ofSource source).endLine session.nextId with ⟨result, nextId⟩
  let moved := session.relabel (.ofIds ids) recorded (ids session.nextId)
  have hparse' : Program.parse (TokenStream.ofSource source).tokens
      (TokenStream.ofSource source).endLine moved.nextId =
        (Parsed.mk result nextId).relabel (.ofIds ids) := by
    rw [← hparse, ← Program.parse_relabel _ _ _ hids.counts, Relabeling.map_token_ofIds]
    rfl
  cases result with
  | error faults =>
      rw [compile_of_error hparse rfl]
      refine ⟨_, ⟨recorded, hagrees, rfl⟩, (compile_of_error hparse' rfl).trans ?_⟩
      show (_, _ ++ (faults.map (SyntaxFault.mapLine id)).map _, _) = _
      rw [Diagnostic.map_syntactic_mapLine, Diagnostic.map_mapLine_id]
      rfl
  | ok program =>
      have hresult : ((Parsed.mk (.ok program) nextId).relabel (.ofIds ids)).result =
          .ok (program.relabel (.ofIds ids)) := rfl
      by_cases hblocked : session.hadError ∨ (TokenStream.ofSource source).faults ≠ []
      · rw [compile_of_blocked hparse rfl hblocked]
        exact ⟨_, ⟨recorded, hagrees, rfl⟩, compile_of_blocked hparse' hresult hblocked⟩
      · obtain ⟨hnone, hlexical⟩ := not_or.1 hblocked
        rw [Bool.not_eq_true] at hnone
        rw [not_not] at hlexical
        have hfaults : (program.relabel (.ofIds ids)).staticFaults = program.staticFaults := by
          rw [Program.staticFaults_relabel]
          exact List.map_id _
        have hnone' : moved.hadError = false := hnone
        rw [compile_of_resolved hparse rfl hnone hlexical]
        refine ⟨_, ⟨_, hagrees.recordAll hids.injective program.findings, rfl⟩, ?_⟩
        refine (compile_of_resolved hparse' hresult hnone' hlexical).trans ?_
        rw [hfaults, Program.findings_relabel]
        split <;> rfl

theorem le_nextId_of_step {next : Session} {budget : Nat} {prepare : Program → Program}
    {source : String} {diagnostics : List Diagnostic}
    (h : session.step budget prepare source = some (next, diagnostics)) :
    session.nextId ≤ next.nextId := by
  obtain ⟨compiled, found, program?, hcompile, hnextId, -⟩ := of_step h
  rw [hnextId]
  exact (compiles hcompile).le

theorem Renumbers.verdict (h : session.Renumbers ids other) (diagnostics : List Diagnostic) :
    other.verdict diagnostics = session.verdict diagnostics := by
  obtain ⟨recorded, -, rfl⟩ := h
  rfl

theorem Renumbers.forget (h : session.Renumbers ids other) :
    session.forget.Renumbers ids other.forget := by
  obtain ⟨recorded, hagrees, rfl⟩ := h
  exact ⟨recorded, hagrees, rfl⟩

/-- The work on a text ends in two such sessions, with the same diagnostics. -/
def EndsAlike (ids : NodeId → NodeId) (result result' : Session × List Diagnostic) : Prop :=
  result.1.Renumbers ids result'.1 ∧ result'.2 = result.2

theorem Renumbers.noting (h : session.Renumbers ids other) (diagnostics : List Diagnostic) :
    (session.noting diagnostics).Renumbers ids (other.noting diagnostics) := by
  obtain ⟨recorded, hagrees, rfl⟩ := h
  have hnoting := noting_relabel (.ofIds ids) recorded (ids session.nextId) session diagnostics
  have hlines : diagnostics.map (Diagnostic.mapLine (Relabeling.ofIds ids).lines) = diagnostics :=
    Diagnostic.map_mapLine_id diagnostics
  rw [hlines] at hnoting
  exact ⟨recorded, hagrees, hnoting⟩

theorem Renumbers.afterRun (h : session.Renumbers ids other) {machine : Machine}
    (hdistances : machine.world.distances = session.world.distances) :
    Option.Rel (EndsAlike ids) (session.afterRun machine)
      (other.afterRun (machine.relabel (.ofIds ids) other.world.distances)) := by
  obtain ⟨recorded, hagrees, rfl⟩ := h
  rw [← hdistances] at hagrees
  show Option.Rel _ _ ((session.relabel _ recorded _).afterRun (machine.relabel _ recorded))
  rw [afterRun_relabel]
  unfold Session.afterRun
  cases machine.outcome? with
  | none => exact .none
  | some outcome => exact .some ⟨⟨recorded, hagrees, rfl⟩, Diagnostic.map_mapLine_id _⟩

/-- A program runs in the same way under other numbers. -/
theorem Renumbers.running (h : session.Renumbers ids other) (program : Program) (budget : Nat) :
    other.running (program.relabel (.ofIds ids)) budget =
      (session.running program budget).relabel (.ofIds ids) other.world.distances := by
  obtain ⟨recorded, hagrees, rfl⟩ := h
  let start := Machine.start session.world Store.globalEnv program
  have hrun : (start.relabel (.ofIds ids) recorded).runFor budget = _ :=
    Machine.runFor_relabel hagrees budget
  exact hrun

/-- The work on a text goes the same way. -/
theorem Renumbers.step (h : session.Renumbers ids other) (hids : KeepsOrder ids session.nextId)
    {prepare : Program → Program} (hprepare : Prepares prepare) (budget : Nat) (source : String) :
    (other.worldAfter budget prepare source).output =
        (session.worldAfter budget prepare source).output ∧
      Option.Rel (EndsAlike ids) (session.step budget prepare source)
        (other.step budget prepare source) := by
  obtain ⟨compiled', hcompiled, hcompile'⟩ := h.compile hids source
  rcases hcompile : session.compile source with ⟨compiled, diagnostics, program?⟩
  rw [hcompile] at hcompile' hcompiled
  dsimp only at hcompile' hcompiled
  cases program? with
  | none =>
      have houtput : compiled'.world.output = compiled.world.output := by
        obtain ⟨recorded, -, rfl⟩ := hcompiled
        rfl
      rw [worldAfter, worldAfter, Session.step, Session.step, hcompile, hcompile']
      exact ⟨houtput, .some ⟨hcompiled.noting diagnostics, rfl⟩⟩
  | some program =>
      have hrun := hcompiled.running (prepare program) budget
      rw [← hprepare.relabel] at hrun
      rw [worldAfter_of_compile hcompile, worldAfter_of_compile hcompile',
        step_of_compile hcompile, step_of_compile hcompile', hrun]
      exact ⟨rfl, hcompiled.afterRun (Machine.distances_runFor _ budget)⟩

/-- Work on two texts that goes the same way is seen as the same, and leads to such sessions
again. -/
theorem reply_eq_of_endsAlike {budget budget' : Nat} {prepare prepare' : Program → Program}
    {source source' : String}
    (houtput : (other.worldAfter budget' prepare' source').output =
      (session.worldAfter budget prepare source).output)
    (h : Option.Rel (EndsAlike ids) (session.step budget prepare source)
      (other.step budget' prepare' source')) :
    other.reply budget' prepare' source' = session.reply budget prepare source ∧
      Option.Rel (Renumbers ids) ((session.step budget prepare source).map Prod.fst)
        ((other.step budget' prepare' source').map Prod.fst) := by
  rw [Session.reply, Session.reply, houtput]
  generalize session.step budget prepare source = first? at h ⊢
  generalize other.step budget' prepare' source' = second? at h ⊢
  cases h with
  | none => exact ⟨rfl, .none⟩
  | @some result result' h =>
      obtain ⟨next, diagnostics⟩ := result
      obtain ⟨next', diagnostics'⟩ := result'
      obtain ⟨hrenumbers, rfl⟩ := h
      refine ⟨?_, .some hrenumbers⟩
      exact congrArg (fun verdict => Reply.mk _ (some verdict)) (hrenumbers.verdict diagnostics')

/-- An action is seen as the same one in both sessions, and leads to such sessions again. -/
theorem Renumbers.perform (h : session.Renumbers ids other) (hids : KeepsOrder ids session.nextId)
    (action : Action) :
    (other.perform action).2 = (session.perform action).2 ∧
      Option.Rel (Renumbers ids) (session.perform action).1 (other.perform action).1 := by
  cases action with
  | script budget source =>
      obtain ⟨houtput, hends⟩ := h.step hids .script budget source
      simp only [Session.perform, runScript]
      exact reply_eq_of_endsAlike houtput hends
  | line budget source =>
      obtain ⟨houtput, hends⟩ := h.step hids .line budget source
      simp only [Session.perform, runLine]
      exact reply_eq_of_endsAlike houtput hends
  | forget =>
      have hforget := h.forget
      obtain ⟨recorded, -, rfl⟩ := h
      exact ⟨rfl, .some hforget⟩

theorem le_nextId_of_perform {next : Session} {action : Action}
    (h : (session.perform action).1 = some next) : session.nextId ≤ next.nextId := by
  cases action with
  | script budget source =>
      obtain ⟨⟨after, diagnostics⟩, hstep, rfl⟩ := Option.map_eq_some_iff.1 h
      exact le_nextId_of_step hstep
  | line budget source =>
      obtain ⟨⟨after, diagnostics⟩, hstep, rfl⟩ := Option.map_eq_some_iff.1 h
      exact le_nextId_of_step hstep
  | forget =>
      cases h
      exact Nat.le_refl _

/-- All that is seen of the two sessions is the same. -/
theorem Renumbers.replies (h : session.Renumbers ids other) (hids : KeepsOrder ids session.nextId)
    (actions : List Action) : other.replies actions = session.replies actions := by
  induction actions generalizing session other with
  | nil => rfl
  | cons action rest ih =>
      obtain ⟨hreply, hafter⟩ := h.perform hids action
      rw [Session.replies, Session.replies, hreply]
      rcases hnext : session.perform action with ⟨next?, reply⟩
      rw [hnext] at hafter
      generalize (other.perform action).1 = next'? at hafter
      cases hafter with
      | none => rfl
      | some hrenumbers =>
          have hle := le_nextId_of_perform (congrArg Prod.fst hnext)
          exact congrArg _ (ih hrenumbers (hids.mono hle))

end Session

end LoxLang
