import LoxLang.Proofs.Grammar.Acceptance
import LoxLang.Proofs.Session.Relabeling

/-!
# What a session remembers of faults

The two flags of a session tell what has been reported since faults were last forgotten
(`Session.Remembers`).  The first of them also decides what becomes of the next text: a text is run
exactly if it has no faults of its own and no fault is remembered but those of running programs
(`Session.Handles`).
-/

namespace LoxLang

/-! ## The faults of a text by their stages -/

/-- The faults in the tokens of a source text. -/
def lexicalFaults (source : String) : List Diagnostic :=
  (TokenStream.ofSource source).faults.map .lexical

/-- The faults in the syntax of a source text. -/
def syntaxFaults (source : String) : List Diagnostic :=
  let stream := TokenStream.ofSource source
  match (Program.parse stream.tokens stream.endLine 0).result with
  | .error faults => faults.map .syntactic
  | .ok _ => []

/-- The faults in the names of the program that a source text is read as. -/
def nameFaults (source : String) : List Diagnostic :=
  let stream := TokenStream.ofSource source
  match (Program.parse stream.tokens stream.endLine 0).result with
  | .error _ => []
  | .ok program => program.staticFaults.map .static

theorem sourceFaults_eq_append (source : String) :
    sourceFaults source = lexicalFaults source ++ (syntaxFaults source ++ nameFaults source) := by
  unfold sourceFaults lexicalFaults syntaxFaults nameFaults
  dsimp only
  cases (Program.parse (TokenStream.ofSource source).tokens
    (TokenStream.ofSource source).endLine 0).result with
  | error faults => rw [List.append_nil]
  | ok program => rw [List.nil_append]

section

variable {source : String} {parsed : Parsed Program} {nextId : NodeId}
  (hparse : Program.parse (TokenStream.ofSource source).tokens
    (TokenStream.ofSource source).endLine nextId = parsed)

include hparse

/-- A text that cannot be read cannot be read wherever its numbers start, for the same faults. -/
theorem stages_of_error {faults : List SyntaxFault} (h : parsed.result = .error faults) :
    syntaxFaults source = faults.map .syntactic ∧ syntaxFaults source ≠ [] ∧
      nameFaults source = [] := by
  have hfaults : faults ≠ [] := Parsed.ne_nil_of_result_eq_error (hparse ▸ h)
  rw [Program.parse_add] at hparse
  rw [← hparse, Parsed.relabel] at h
  unfold syntaxFaults nameFaults
  dsimp only at h ⊢
  cases hresult : (Program.parse (TokenStream.ofSource source).tokens
    (TokenStream.ofSource source).endLine 0).result with
  | ok program =>
      rw [hresult] at h
      cases h
  | error found =>
      rw [hresult] at h
      cases h
      have hsame : (found.map (SyntaxFault.mapLine id)).map Diagnostic.syntactic =
          found.map .syntactic := by
        rw [Diagnostic.map_syntactic_mapLine, Diagnostic.map_mapLine_id]
      exact ⟨hsame.symm, fun hnil => hfaults (by simpa using hnil), rfl⟩

theorem stages_of_ok {program : Program} (h : parsed.result = .ok program) :
    syntaxFaults source = [] ∧ nameFaults source = program.staticFaults.map .static := by
  have hsource := sourceFaults_eq source nextId
  rw [sourceFaults_eq_append, hparse, h] at hsource
  have hstages := List.append_cancel_left hsource
  have hread : syntaxFaults source = [] := by
    rw [Program.parse_add] at hparse
    rw [← hparse, Parsed.relabel] at h
    unfold syntaxFaults
    dsimp only at h ⊢
    cases hresult : (Program.parse (TokenStream.ofSource source).tokens
      (TokenStream.ofSource source).endLine 0).result with
    | ok found => rfl
    | error found =>
        rw [hresult] at h
        cases h
  refine ⟨hread, ?_⟩
  rw [hread] at hstages
  exact hstages

end

namespace Session

/-! ## What is reported of a text before it is run -/

/-- The faults that a session reports of a source text: those in its tokens and then those in its
syntax; or, if there are none and none are remembered, those in its names. -/
def faultsIn (session : Session) (source : String) : List Diagnostic :=
  if session.hadError ∨ lexicalFaults source ≠ [] ∨ syntaxFaults source ≠ [] then
    lexicalFaults source ++ syntaxFaults source
  else
    nameFaults source

/-- A text is compiled to a program exactly if it has no faults and none are remembered. -/
theorem compile_faultsIn (session : Session) (source : String) :
    ∃ compiled program?, session.compile source = (compiled, session.faultsIn source, program?) ∧
      (program? = none ↔ session.hadError = true ∨ sourceFaults source ≠ []) := by
  rw [sourceFaults_eq_append]
  rcases hparse : Program.parse (TokenStream.ofSource source).tokens
    (TokenStream.ofSource source).endLine session.nextId with ⟨faults | program, nextId⟩
  · obtain ⟨hread, hne, -⟩ := stages_of_error hparse rfl
    have hcompile := compile_of_error hparse rfl
    rw [← hread] at hcompile
    have hfaults : session.faultsIn source = lexicalFaults source ++ syntaxFaults source :=
      if_pos (.inr (.inr hne))
    rw [hfaults]
    refine ⟨_, none, hcompile, iff_of_true rfl (.inr ?_)⟩
    intro hnil
    exact hne (List.append_eq_nil_iff.1 (List.append_eq_nil_iff.1 hnil).2).1
  · obtain ⟨hread, hnames⟩ := stages_of_ok hparse rfl
    rw [hread, List.nil_append]
    by_cases hblocked : session.hadError ∨ (TokenStream.ofSource source).faults ≠ []
    · have hstop : session.hadError ∨ lexicalFaults source ≠ [] := by
        simpa [lexicalFaults] using hblocked
      have hfaults : session.faultsIn source = lexicalFaults source := by
        rw [faultsIn, if_pos (hstop.imp_right .inl), hread, List.append_nil]
      rw [hfaults]
      refine ⟨_, none, compile_of_blocked hparse rfl hblocked, ?_⟩
      refine iff_of_true rfl (hstop.imp_right ?_)
      intro hlexical hnil
      exact hlexical (List.append_eq_nil_iff.1 hnil).1
    · obtain ⟨hnone, hlexical⟩ := not_or.1 hblocked
      rw [Bool.not_eq_true] at hnone
      rw [not_not] at hlexical
      have hclean : lexicalFaults source = [] := congrArg (List.map Diagnostic.lexical) hlexical
      have hfaults : session.faultsIn source = program.staticFaults.map .static := by
        rw [faultsIn, hnone, hclean, hread, if_neg (by simp), hnames]
      rw [hfaults]
      refine ⟨_, _, compile_of_resolved hparse rfl hnone hlexical, ?_⟩
      rw [hnone, hclean, hnames]
      simp

/-! ## Actions on a text -/

/-- The session behind an action, if it comes to its end, and what is reported. -/
def act (session : Session) : Action → Option (Session × List Diagnostic)
  | .script budget source => session.runScript budget source
  | .line budget source => session.runLine budget source
  | .forget => some (session.forget, [])

end Session

/-- How many steps of the machine an action may take. -/
def Action.budget : Action → Nat
  | script budget _ => budget
  | line budget _ => budget
  | forget => 0

/-- What becomes of a program before it is run. -/
def Action.prepare : Action → Program → Program
  | line _ _ => Program.echoing
  | _ => id

namespace Session

variable {session next : Session} {action : Action} {source : String}
  {diagnostics : List Diagnostic}

theorem act_eq_step (haction : action.source? = some source) :
    session.act action = session.step action.budget action.prepare source := by
  cases action <;> cases haction <;> rfl

/-- The world that an action on a source text leaves, also when its budget is used up. -/
def worldBehind (session : Session) (action : Action) (source : String) : World :=
  session.worldAfter action.budget action.prepare source

/-- How a session deals with an action on a source text. -/
structure Handles (session : Session) (action : Action) (source : String) : Prop where
  /-- A text without faults is run if no fault is remembered. -/
  runs : session.hadError = false → sourceFaults source = [] →
    ∃ program nextId, Program.parse (TokenStream.ofSource source).tokens
        (TokenStream.ofSource source).endLine session.nextId = ⟨.ok program, nextId⟩ ∧
      let compiled : Session :=
        { session with nextId := nextId, world := session.world.resolved program.findings }
      let machine := compiled.running (action.prepare program) action.budget
      session.worldBehind action source = machine.world ∧
        session.act action = compiled.afterRun machine
  /-- Otherwise its faults are reported, and nothing is written and no variable is changed. -/
  rejects : session.hadError = true ∨ sourceFaults source ≠ [] →
    ∃ next, session.act action = some (next, session.faultsIn source) ∧
      session.worldBehind action source =
        { session.world with distances := next.world.distances }
  /-- What is reported are the faults of a text that is not run, or at most one failure. -/
  reports : ∀ next diagnostics, session.act action = some (next, diagnostics) →
    next.world = session.worldBehind action source ∧
      if session.hadError = true ∨ sourceFaults source ≠ [] then
        diagnostics = session.faultsIn source
      else
        diagnostics = [] ∨ ∃ failure, diagnostics = [.ofFailure failure]
  /-- A flag stays set, and is set if there is a report of its kind. -/
  remembers : ∀ next diagnostics, session.act action = some (next, diagnostics) →
    next.hadError = (session.hadError || diagnostics.any (!·.isRuntime)) ∧
      next.hadRuntimeError = (session.hadRuntimeError || diagnostics.any Diagnostic.isRuntime)

/-- A text that is not run ends where it was compiled. -/
theorem step_of_rejected {compiled : Session} (hcompile :
      session.compile source = (compiled, diagnostics, none)) (budget : Nat)
    (prepare : Program → Program) :
    session.step budget prepare source = some (compiled.noting diagnostics, diagnostics) ∧
      session.worldAfter budget prepare source = compiled.world := by
  rw [step, worldAfter, hcompile]
  exact ⟨rfl, rfl⟩

theorem flags_of_compile {compiled : Session} {program? : Option Program}
    (hcompile : session.compile source = (compiled, diagnostics, program?)) :
    compiled.hadError = session.hadError ∧
      compiled.hadRuntimeError = session.hadRuntimeError := by
  rw [(of_compile hcompile).1]
  exact ⟨rfl, rfl⟩

/-- Every way in which a text can be dealt with notes what is reported, and nothing else. -/
theorem flags_of_step {budget : Nat} {prepare : Program → Program}
    (h : session.step budget prepare source = some (next, diagnostics)) :
    next.hadError = (session.hadError || diagnostics.any (!·.isRuntime)) ∧
      next.hadRuntimeError = (session.hadRuntimeError || diagnostics.any Diagnostic.isRuntime) := by
  rcases hcompile : session.compile source with ⟨compiled, found, _ | program⟩
  · rw [(step_of_rejected hcompile budget prepare).1] at h
    obtain ⟨herror, hruntime⟩ := flags_of_compile hcompile
    cases h
    rw [noting, herror, hruntime]
    exact ⟨rfl, rfl⟩
  · rw [step_of_compile hcompile] at h
    obtain ⟨rfl, -⟩ := of_afterRun h
    obtain ⟨herror, hruntime⟩ := flags_of_compile hcompile
    rw [noting, herror, hruntime]
    exact ⟨rfl, rfl⟩

theorem failures_of_afterRun {machine : Machine}
    (h : session.afterRun machine = some (next, diagnostics)) :
    diagnostics = [] ∨ ∃ failure, diagnostics = [.ofFailure failure] := by
  obtain ⟨outcome, -, hnext⟩ := Option.map_eq_some_iff.1 h
  cases outcome with
  | ok completion =>
      cases hnext
      exact .inl rfl
  | error failure =>
      cases hnext
      exact .inr ⟨failure, rfl⟩

theorem handles (session : Session) (haction : action.source? = some source) :
    session.Handles action source := by
  obtain ⟨compiled, program?, hcompile, hprogram⟩ := session.compile_faultsIn source
  have hact : session.act action = session.step action.budget action.prepare source :=
    act_eq_step haction
  constructor
  · intro hnone hclean
    cases program? with
    | none => simp [hnone, hclean] at hprogram
    | some program =>
        obtain ⟨-, hparsed⟩ := of_compile hcompile
        obtain ⟨-, hparse⟩ := hparsed program rfl
        have hlexical : (TokenStream.ofSource source).faults = [] := by
          rw [sourceFaults_eq_append] at hclean
          exact List.map_eq_nil_iff.1 (List.append_eq_nil_iff.1 hclean).1
        have hresolved := compile_of_resolved hparse rfl hnone hlexical
        generalize compiled.nextId = nextId at hparse hresolved
        obtain rfl := congrArg Prod.fst (hcompile.symm.trans hresolved)
        refine ⟨program, _, hparse, ?_, ?_⟩
        · exact worldAfter_of_compile hcompile _ _
        · rw [hact]
          exact step_of_compile hcompile _ _
  · intro hfault
    obtain rfl := hprogram.2 hfault
    obtain ⟨hstep, hworld⟩ := step_of_rejected hcompile action.budget action.prepare
    refine ⟨_, hact.trans hstep, hworld.trans ?_⟩
    rw [(of_compile hcompile).1]
    rfl
  · intro next diagnostics h
    rw [hact] at h
    cases program? with
    | none =>
        obtain ⟨hstep, hworld⟩ := step_of_rejected hcompile action.budget action.prepare
        rw [hstep] at h
        cases h
        exact ⟨hworld.symm, by rw [if_pos (hprogram.1 rfl)]⟩
    | some program =>
        rw [step_of_compile hcompile] at h
        obtain ⟨rfl, -⟩ := of_afterRun h
        refine ⟨(worldAfter_of_compile hcompile _ _).symm, ?_⟩
        rw [if_neg fun hfault => nomatch hprogram.2 hfault]
        exact failures_of_afterRun h
  · intro next diagnostics h
    rw [hact] at h
    exact flags_of_step h

/-! ## What is remembered -/

/-- The sessions that there can be, each with what has been reported since faults were last
forgotten. -/
inductive Remembers : Session → List Diagnostic → Prop where
  | initial (capacity : Option Nat) (reading : Nat → Float) :
      Remembers (.initial capacity reading) []
  | act {session next : Session} {action : Action} {source : String}
      {remembered diagnostics : List Diagnostic} :
      Remembers session remembered → action.source? = some source →
      session.act action = some (next, diagnostics) → Remembers next (remembered ++ diagnostics)
  | forget {session : Session} {remembered : List Diagnostic} :
      Remembers session remembered → Remembers session.forget []

theorem Remembers.flags {remembered : List Diagnostic} (h : session.Remembers remembered) :
    session.hadError = remembered.any (!·.isRuntime) ∧
      session.hadRuntimeError = remembered.any Diagnostic.isRuntime := by
  induction h with
  | initial capacity reading => exact ⟨rfl, rfl⟩
  | @act session next action source remembered diagnostics _ haction hact ih =>
      obtain ⟨herror, hruntime⟩ := (session.handles haction).remembers next diagnostics hact
      rw [herror, hruntime, ih.1, ih.2, List.any_append, List.any_append]
      exact ⟨rfl, rfl⟩
  | forget _ _ => exact ⟨rfl, rfl⟩

/-- In every session that can be reached the flags tell what has been reported since faults were
last forgotten, and the first flag decides about every text that comes next: it is run if it has no
faults and none is remembered, and else nothing comes of it but reports.  Only forgetting takes a
flag back. -/
theorem Remembers.flag_discipline {remembered : List Diagnostic}
    (h : session.Remembers remembered) :
    (session.hadError = remembered.any (!·.isRuntime) ∧
      session.hadRuntimeError = remembered.any Diagnostic.isRuntime) ∧
    (∀ action source, action.source? = some source → session.Handles action source) ∧
    session.act .forget =
      some ({ session with hadError := false, hadRuntimeError := false }, []) := by
  refine ⟨h.flags, ?_, rfl⟩
  intro action source haction
  exact session.handles haction

/-- A text that prints a number; a text with a fault in its tokens and one in its syntax; and the
first text again, which prints nothing now. -/
theorem flag_discipline_blocked :
    let session := initial none fun _ => 0
    let sound := "var a = 1; print a;"
    let faulty := "print (a # b;"
    let reported : List Diagnostic :=
      [.lexical ⟨.unexpectedCharacter, 1⟩,
        .syntactic ⟨.parenAfterExpression, .token ⟨.identifier, "b", 1⟩⟩]
    session.Remembers [] ∧
      ∃ first, session.act (.script 20 sound) = some (first, []) ∧ first.Remembers [] ∧
        first.world.output.written = "1\n".toUTF8 ∧
        ∃ next, first.act (.line 10 faulty) = some (next, reported) ∧ next.Remembers reported ∧
          next.hadError = true ∧ next.hadRuntimeError = false ∧
          ∃ last, next.act (.script 20 sound) = some (last, []) ∧
            last.world.output = first.world.output := by
  intro session sound faulty reported
  have hinitial : session.Remembers [] := .initial none _
  have hprints : (session.act (.script 20 sound)).map (fun ended =>
      (ended.1.world.output.written, ended.2)) = some ("1\n".toUTF8, []) := by
    decide +kernel
  obtain ⟨⟨first, none⟩, hsound, hwritten⟩ := Option.map_eq_some_iff.1 hprints
  obtain ⟨hwritten, rfl⟩ := Prod.mk.inj hwritten
  have hfirst : first.Remembers [] := hinitial.act rfl hsound
  obtain ⟨-, hhandles, -⟩ := hfirst.flag_discipline
  have hfaults : first.faultsIn faulty = reported := by
    have hlexical : lexicalFaults faulty ≠ [] := by decide +kernel
    rw [faultsIn, if_pos (.inr (.inl hlexical))]
    decide +kernel
  have hsource : sourceFaults faulty ≠ [] := by decide +kernel
  have hfaulty := hhandles (.line 10 faulty) faulty rfl
  obtain ⟨next, hact, hbehind⟩ := hfaulty.rejects (.inr hsource)
  rw [hfaults] at hact
  have hnext : next.Remembers reported := hfirst.act rfl hact
  obtain ⟨⟨herror, hruntime⟩, hhandles', -⟩ := hnext.flag_discipline
  have hagain := hhandles' (.script 20 sound) sound rfl
  obtain ⟨last, hact', hbehind'⟩ := hagain.rejects (.inl herror)
  have hnone : next.faultsIn sound = [] := by
    rw [faultsIn, if_pos (.inl herror)]
    decide +kernel
  rw [hnone] at hact'
  refine ⟨hinitial, first, hsound, hfirst, hwritten, next, hact, hnext, herror, hruntime, last,
    hact', ?_⟩
  rw [(hagain.reports _ _ hact').1, hbehind', (hfaulty.reports _ _ hact).1, hbehind]

end Session

end LoxLang
