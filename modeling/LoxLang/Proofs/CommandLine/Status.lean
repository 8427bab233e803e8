import LoxLang.Proofs.Run.Room
import LoxLang.Proofs.Session.Printing

/-!
# What a command reports, and its status

A command that has read a source text reports the faults of one stage after the other: tokens,
syntax, names, and the run.  The stages behind the syntax are reached only if nothing has been
reported, and which there are depends on the task (`Task.Diagnoses`).  The status of the command
tells whether there was any report (`Command.respond_diagnoses`).
-/

namespace LoxLang

/-! ## Reports -/

namespace Diagnostic

theorem foldl_report (before : String) (diagnostics : List Diagnostic) :
    diagnostics.foldl (fun text diagnostic => text ++ diagnostic.text ++ "\n") before =
      before ++ report diagnostics := by
  induction diagnostics generalizing before with
  | nil => exact String.append_empty.symm
  | cons diagnostic rest ih =>
      rw [report, List.foldl_cons, List.foldl_cons, ih, ih, String.empty_append,
        String.append_assoc, String.append_assoc, String.append_assoc]

theorem report_cons (diagnostic : Diagnostic) (rest : List Diagnostic) :
    report (diagnostic :: rest) = diagnostic.text ++ "\n" ++ report rest := by
  rw [report, List.foldl_cons, foldl_report, String.empty_append]

/-- A report takes up a line at least. -/
theorem report_eq_empty_iff {diagnostics : List Diagnostic} :
    report diagnostics = "" ↔ diagnostics = [] := by
  cases diagnostics with
  | nil => exact iff_of_true rfl rfl
  | cons diagnostic rest =>
      rw [report_cons]
      simp

theorem any_or_any_isRuntime (diagnostics : List Diagnostic) :
    (diagnostics.any (!·.isRuntime) || diagnostics.any Diagnostic.isRuntime) =
      !diagnostics.isEmpty := by
  cases diagnostics with
  | nil => rfl
  | cons diagnostic rest =>
      simp only [List.any_cons, List.isEmpty_cons]
      cases diagnostic.isRuntime <;> simp

end Diagnostic

namespace Response

/-- An answer that consists of some diagnostics and the status that goes with them, besides what is
written. -/
structure Reports (response : Response) (diagnostics : List Diagnostic) : Prop where
  stderr : response.stderr = Diagnostic.report diagnostics
  status : response.status = if diagnostics = [] then 0 else faulty

theorem reports_reporting {diagnostics : List Diagnostic} {failed : Bool}
    (hfailed : failed = !diagnostics.isEmpty) (stdout : String) :
    (reporting stdout diagnostics failed).Reports diagnostics := by
  refine ⟨rfl, ?_⟩
  subst hfailed
  cases diagnostics <;> rfl

variable {response : Response} {diagnostics : List Diagnostic}

theorem Reports.status_eq_faulty_iff (h : response.Reports diagnostics) :
    response.status = faulty ↔ diagnostics ≠ [] := by
  rw [h.status]
  split
  · next hnil => exact iff_of_false nofun (not_not.2 hnil)
  · next hne => exact iff_of_true rfl hne

/-- Where nothing is reported there is no sign of it. -/
theorem Reports.silent (h : response.Reports diagnostics) (hstatus : response.status ≠ faulty) :
    response.status = 0 ∧ response.stderr = "" := by
  have hnil : diagnostics = [] := not_not.1 (mt h.status_eq_faulty_iff.2 hstatus)
  rw [h.status, h.stderr, hnil]
  exact ⟨rfl, rfl⟩

end Response

/-! ## The stages -/

/-- The faults in the syntax of a source text that is to be one expression. -/
def expressionFaults (source : String) : List Diagnostic :=
  let stream := TokenStream.ofSource source
  match (Expr.parse stream.tokens stream.endLine 0).result with
  | .error faults => faults.map .syntactic
  | .ok _ => []

/-- A run has ended with some reports: with none, or with that of its fault. -/
inductive Machine.Reports (machine : Machine) : List Diagnostic → Prop
  | nothing {completion : Completion} : machine.outcome? = some (.ok completion) →
      Reports machine []
  | fault {fault : RuntimeFault} : machine.outcome? = some (.error (.fault fault)) →
      Reports machine [.runtime fault]

namespace Machine

variable {machine : Machine} {diagnostics : List Diagnostic}

theorem Reports.isSome_outcome? (h : machine.Reports diagnostics) : machine.outcome?.isSome := by
  cases h with
  | nothing houtcome => exact Option.isSome_of_eq_some houtcome
  | fault houtcome => exact Option.isSome_of_eq_some houtcome

theorem Prints.reports {output : Output} {result : Except RuntimeFault Value}
    (h : machine.Prints output result) : machine.Reports (printedDiagnostics result) := by
  cases result with
  | ok value => exact .nothing h.outcome
  | error fault => exact .fault h.outcome

/-- What a session reports of a run that fails by faults of its program only. -/
theorem reports_of_afterRun {session next : Session}
    (hfaults : ∀ failure, machine.outcome? = some (.error failure) →
      ∃ fault, failure = .fault fault)
    (h : session.afterRun machine = some (next, diagnostics)) : machine.Reports diagnostics := by
  obtain ⟨outcome, houtcome, hnext⟩ := Option.map_eq_some_iff.1 h
  cases outcome with
  | ok completion =>
      cases hnext
      exact .nothing houtcome
  | error failure =>
      obtain ⟨fault, rfl⟩ := hfaults failure houtcome
      cases hnext
      exact .fault houtcome

end Machine

namespace Task

/-- The faults in the syntax of a source text that a task meets. -/
def syntaxFaults (source : String) : Task → List Diagnostic
  | tokenize _ => []
  | parse => expressionFaults source
  | evaluate => expressionFaults source
  | run => LoxLang.syntaxFaults source

/-- What is reported of a text that has no faults in its tokens or its syntax. -/
inductive ReportsLater (budget : Nat) (reading : Nat → Float) (source : String) :
    Task → List Diagnostic → Prop
  | tokenize {json : Bool} : ReportsLater budget reading source (tokenize json) []
  | parse : ReportsLater budget reading source parse []
  /-- The expression is evaluated; its names are not resolved. -/
  | evaluate {value : Expr} {diagnostics : List Diagnostic} :
      (Expr.parse (TokenStream.ofSource source).tokens
        (TokenStream.ofSource source).endLine 0).result = .ok value →
      ((Session.initial none reading).running [.print value] budget).Reports diagnostics →
      ReportsLater budget reading source evaluate diagnostics
  /-- The names of the program break static rules. -/
  | rejected : nameFaults source ≠ [] →
      ReportsLater budget reading source run (nameFaults source)
  /-- The program is run. -/
  | ran {program : Program} {nextId : NodeId} {diagnostics : List Diagnostic} :
      (Session.initial none reading).Accepts source program nextId →
      (((Session.initial none reading).loaded program nextId).running program budget).Reports
        diagnostics →
      ReportsLater budget reading source run diagnostics

/-- A task comes to its end on a source text, with the diagnostics of the stages that it goes
through. -/
def Diagnoses (budget : Nat) (reading : Nat → Float) (source : String) (task : Task)
    (diagnostics : List Diagnostic) : Prop :=
  ∃ later, diagnostics = lexicalFaults source ++ task.syntaxFaults source ++ later ∧
    if lexicalFaults source ++ task.syntaxFaults source = [] then
      task.ReportsLater budget reading source later
    else
      later = []

section

variable {budget : Nat} {reading : Nat → Float} {source : String} {task : Task}
  {diagnostics : List Diagnostic} {response : Response}

theorem diagnoses_of_faults (h : lexicalFaults source ++ task.syntaxFaults source ≠ []) :
    task.Diagnoses budget reading source
      (lexicalFaults source ++ task.syntaxFaults source) := by
  refine ⟨[], (List.append_nil _).symm, ?_⟩
  rw [if_neg h]

theorem diagnoses_of_reportsLater (h : lexicalFaults source ++ task.syntaxFaults source = [])
    (hlater : task.ReportsLater budget reading source diagnostics) :
    task.Diagnoses budget reading source diagnostics := by
  refine ⟨diagnostics, ?_, ?_⟩
  · rw [h, List.nil_append]
  · rw [if_pos h]
    exact hlater

theorem Diagnoses.reportsLater (h : task.Diagnoses budget reading source diagnostics)
    (hclean : lexicalFaults source ++ task.syntaxFaults source = []) :
    task.ReportsLater budget reading source diagnostics := by
  obtain ⟨later, hdiagnostics, hlater⟩ := h
  rw [hclean, List.nil_append] at hdiagnostics
  rw [if_pos hclean] at hlater
  rw [hdiagnostics]
  exact hlater

/-! ## Listings of tokens -/

/-- The fault that an entry of a listing stands for. -/
def entryFault? : Except LexicalFault Entry → Option Diagnostic
  | .ok _ => none
  | .error fault => some (.lexical fault)

theorem reports_foldl_addLine (json : Bool) (entries : List (Except LexicalFault Entry))
    (h : response.Reports diagnostics) :
    (entries.foldl (Response.addLine json) response).Reports
      (diagnostics ++ entries.filterMap entryFault?) := by
  induction entries generalizing response diagnostics with
  | nil =>
      rw [List.filterMap_nil, List.append_nil]
      exact h
  | cons entry rest ih =>
      obtain ⟨hstderr, hstatus⟩ := h
      cases entry with
      | ok entry => exact ih ⟨hstderr, hstatus⟩
      | error fault =>
          have hline : (response.addLine json (.error fault)).Reports
              (diagnostics ++ [.lexical fault]) := by
            constructor
            · show response.stderr ++ (Diagnostic.lexical fault).text ++ "\n" = _
              rw [hstderr, Diagnostic.report, Diagnostic.report, List.foldl_append]
              rfl
            · rw [if_neg (by simp)]
              rfl
          have hrest := ih hline
          rw [List.append_assoc] at hrest
          exact hrest

theorem filterMap_listing (source : String) :
    (TokenStream.ofSource source).listing.filterMap entryFault? = lexicalFaults source := by
  rw [TokenStream.listing, List.filterMap_append, List.filterMap_map, lexicalFaults,
    TokenStream.faults, List.map_filterMap]
  refine (List.append_nil _).trans ?_
  congr 1
  funext item
  cases item <;> rfl

theorem reports_listTokens (json : Bool) (source : String) :
    (listTokens json source).Reports (lexicalFaults source) := by
  have hempty : Response.Reports ⟨"", "", 0⟩ [] := ⟨rfl, rfl⟩
  have hlisting := reports_foldl_addLine json (TokenStream.ofSource source).listing hempty
  rw [filterMap_listing, List.nil_append] at hlisting
  exact hlisting

/-! ## Single expressions -/

theorem readExpression_of_faults (h : lexicalFaults source ++ expressionFaults source ≠ []) :
    readExpression source = (lexicalFaults source ++ expressionFaults source, none) := by
  unfold readExpression
  unfold expressionFaults at h ⊢
  dsimp only at h ⊢
  cases hresult : (Expr.parse (TokenStream.ofSource source).tokens
    (TokenStream.ofSource source).endLine 0).result with
  | error faults => rfl
  | ok value =>
      rw [hresult, List.append_nil] at h
      rw [List.append_nil]
      have hlexical :
          ((TokenStream.ofSource source).faults.map Diagnostic.lexical).isEmpty = false :=
        Bool.eq_false_iff.2 (mt List.isEmpty_iff.1 h)
      dsimp only
      rw [hlexical]
      rfl

theorem readExpression_of_nil (h : lexicalFaults source ++ expressionFaults source = []) :
    ∃ value, (Expr.parse (TokenStream.ofSource source).tokens
        (TokenStream.ofSource source).endLine 0).result = .ok value ∧
      readExpression source = ([], some value) := by
  obtain ⟨hlexical, hsyntax⟩ := List.append_eq_nil_iff.1 h
  unfold expressionFaults at hsyntax
  dsimp only at hsyntax
  unfold lexicalFaults at hlexical
  cases hresult : (Expr.parse (TokenStream.ofSource source).tokens
    (TokenStream.ofSource source).endLine 0).result with
  | error faults =>
      rw [hresult] at hsyntax
      have hnil : faults = [] := List.map_eq_nil_iff.1 hsyntax
      exact absurd hnil (Parsed.ne_nil_of_result_eq_error hresult)
  | ok value =>
      refine ⟨value, rfl, ?_⟩
      rw [readExpression, hresult, hlexical]
      rfl

/-- An expression that cannot be used is not shown. -/
theorem of_showOutline (source : String) :
    ∃ diagnostics, parse.Diagnoses budget reading source diagnostics ∧
      (showOutline source).Reports diagnostics ∧
      (diagnostics ≠ [] → (showOutline source).stdout = "") := by
  by_cases hclean : lexicalFaults source ++ expressionFaults source = []
  · obtain ⟨value, -, hread⟩ := readExpression_of_nil hclean
    refine ⟨[], diagnoses_of_reportsLater hclean .parse, ?_, fun hne => absurd rfl hne⟩
    rw [showOutline, hread]
    exact Response.reports_reporting rfl _
  · refine ⟨_, diagnoses_of_faults hclean, ?_, ?_⟩
    · rw [showOutline, readExpression_of_faults hclean]
      apply Response.reports_reporting
      simpa using hclean
    · intro _
      rw [showOutline, readExpression_of_faults hclean]
      rfl

/-- The work on an expression that can be used ends with the run that prints it. -/
theorem isSome_printValue {value : Expr} (hread : readExpression source = ([], some value)) :
    (printValue budget reading source).isSome =
      ((Session.initial none reading).running [.print value] budget).outcome?.isSome := by
  rw [printValue, hread]
  dsimp only
  rw [Option.isSome_map, World.runProgram, World.run, Option.isSome_map]
  rfl

/-- The value of an expression is written only if nothing is reported. -/
theorem of_printValue (h : printValue budget reading source = some response) :
    ∃ diagnostics, evaluate.Diagnoses budget reading source diagnostics ∧
      response.Reports diagnostics ∧ (diagnostics ≠ [] → response.stdout = "") := by
  by_cases hclean : lexicalFaults source ++ expressionFaults source = []
  · obtain ⟨value, hparse, hread⟩ := readExpression_of_nil hclean
    have hended :
        ((Session.initial none reading).running [.print value] budget).outcome?.isSome := by
      rw [← isSome_printValue hread, h]
      rfl
    obtain ⟨result, hprints⟩ := Session.exists_prints_of_outcome hended
    rw [hprints.printValue hread] at h
    cases h
    have hfailed : (!result.isOk) = !(printedDiagnostics result).isEmpty := by
      cases result <;> rfl
    refine ⟨printedDiagnostics result, ?_, Response.reports_reporting hfailed _, ?_⟩
    · exact diagnoses_of_reportsLater hclean (.evaluate hparse hprints.reports)
    · intro hne
      cases result with
      | ok value => exact absurd rfl hne
      | error fault => rfl
  · rw [printValue, readExpression_of_faults hclean] at h
    cases h
    refine ⟨_, diagnoses_of_faults hclean, ?_, fun _ => rfl⟩
    apply Response.reports_reporting
    simpa using hclean

/-! ## Scripts -/

/-- The faults of a text that is not run are those of the first stages that have any. -/
theorem diagnoses_faultsIn (session : Session) (hnone : session.hadError = false)
    (hfaults : sourceFaults source ≠ []) :
    run.Diagnoses budget reading source (session.faultsIn source) := by
  rw [sourceFaults_eq_append, ← List.append_assoc] at hfaults
  by_cases hread : lexicalFaults source ++ LoxLang.syntaxFaults source = []
  · have hnames : nameFaults source ≠ [] := by
      rw [hread] at hfaults
      exact hfaults
    obtain ⟨hlexical, hsyntax⟩ := List.append_eq_nil_iff.1 hread
    have hfaultsIn : session.faultsIn source = nameFaults source :=
      if_neg (by simp [hnone, hlexical, hsyntax])
    rw [hfaultsIn]
    exact diagnoses_of_reportsLater hread (.rejected hnames)
  · have hfaultsIn : session.faultsIn source =
        lexicalFaults source ++ LoxLang.syntaxFaults source :=
      if_pos (.inr (not_and_or.1 (mt List.append_eq_nil_iff.2 hread)))
    rw [hfaultsIn]
    exact diagnoses_of_faults hread

theorem diagnoses_of_accepts {program : Program} {nextId : NodeId} {next : Session}
    (haccepts : (Session.initial none reading).Accepts source program nextId)
    (h : (Session.initial none reading).runScript budget source = some (next, diagnostics))
    (hclean : sourceFaults source = []) : run.Diagnoses budget reading source diagnostics := by
  rw [sourceFaults_eq_append, ← List.append_assoc] at hclean
  have hafter := (haccepts.step budget).symm.trans h
  apply diagnoses_of_reportsLater (List.append_eq_nil_iff.1 hclean).1
  apply ReportsLater.ran haccepts
  apply Machine.reports_of_afterRun _ hafter
  intro failure hfailure
  exact Machine.exists_fault_of_outcome rfl hfailure

/-- A script writes only if there are no faults in its text. -/
theorem of_runScript (h : runScript budget reading source = some response) :
    ∃ diagnostics, run.Diagnoses budget reading source diagnostics ∧
      response.Reports diagnostics ∧ (response.stdout ≠ "" → sourceFaults source = []) := by
  obtain ⟨⟨next, diagnostics⟩, hscript, rfl⟩ := Option.map_eq_some_iff.1 h
  have hreports :
      Response.Reports (.reporting (Utf8.decodeCut next.world.output.written) diagnostics
      (next.hadError || next.hadRuntimeError)) diagnostics := by
    obtain ⟨herror, hruntime⟩ := Session.flags_of_step hscript
    apply Response.reports_reporting
    rw [herror, hruntime]
    exact Diagnostic.any_or_any_isRuntime diagnostics
  have hnone : (Session.initial none reading).hadError = false := rfl
  by_cases hclean : sourceFaults source = []
  · obtain ⟨program, nextId, haccepts⟩ := Session.accepts_of_sourceFaults hnone hclean
    exact ⟨diagnostics, diagnoses_of_accepts haccepts hscript hclean, hreports, fun _ => hclean⟩
  · have haction : (Action.script budget source).source? = some source := rfl
    have hhandles := (Session.initial none reading).handles haction
    obtain ⟨hworld, hdiagnostics⟩ := hhandles.reports next diagnostics hscript
    obtain ⟨rejected, -, hbehind⟩ := hhandles.rejects (.inr hclean)
    rw [if_pos (.inr hclean)] at hdiagnostics
    have hnothing : next.world.output.written = "".toUTF8 := by
      rw [hworld, hbehind]
      rfl
    have hstdout : Utf8.decodeCut next.world.output.written = "" := by
      rw [hnothing, Utf8.decodeCut_toUTF8]
    refine ⟨diagnostics, ?_, hreports, fun hwritten => absurd hstdout hwritten⟩
    rw [hdiagnostics]
    exact diagnoses_faultsIn _ hnone hclean

/-! ## All tasks -/

/-- Whatever a task answers, it reports what the stages have come to, and writes no more than goes
with that. -/
theorem of_perform (h : task.perform budget reading source = some response) :
    ∃ diagnostics, task.Diagnoses budget reading source diagnostics ∧
      response.Reports diagnostics ∧
      (diagnostics ≠ [] → task = parse ∨ task = evaluate → response.stdout = "") ∧
      (task = run → response.stdout ≠ "" → sourceFaults source = []) := by
  cases task with
  | tokenize json =>
      cases h
      refine ⟨lexicalFaults source, ?_, reports_listTokens json source, nofun, nofun⟩
      refine ⟨[], by simp [syntaxFaults], ?_⟩
      split
      · exact .tokenize
      · rfl
  | parse =>
      cases h
      obtain ⟨diagnostics, hdiagnoses, hreports, hsilent⟩ := of_showOutline source
      exact ⟨diagnostics, hdiagnoses, hreports, fun hne _ => hsilent hne, nofun⟩
  | evaluate =>
      obtain ⟨diagnostics, hdiagnoses, hreports, hsilent⟩ := of_printValue h
      exact ⟨diagnostics, hdiagnoses, hreports, fun hne _ => hsilent hne, nofun⟩
  | run =>
      obtain ⟨diagnostics, hdiagnoses, hreports, hwrites⟩ := of_runScript h
      exact ⟨diagnostics, hdiagnoses, hreports, nofun, fun _ => hwrites⟩

/-- A task whose stages come to their end answers. -/
theorem Diagnoses.isSome_perform (h : task.Diagnoses budget reading source diagnostics) :
    (task.perform budget reading source).isSome := by
  cases task with
  | tokenize json => rfl
  | parse => rfl
  | evaluate =>
      show (printValue budget reading source).isSome
      by_cases hclean : lexicalFaults source ++ expressionFaults source = []
      · cases h.reportsLater hclean with
        | @evaluate value _ hparse hreports =>
            obtain ⟨value', hparse', hread⟩ := readExpression_of_nil hclean
            obtain rfl : value = value' := Except.ok.inj (hparse.symm.trans hparse')
            rw [isSome_printValue hread]
            exact hreports.isSome_outcome?
      · rw [printValue, readExpression_of_faults hclean]
        rfl
  | run =>
      show (runScript budget reading source).isSome
      rw [runScript, Option.isSome_map]
      by_cases hclean : sourceFaults source = []
      · have hstages := sourceFaults_eq_append source
        rw [hclean, ← List.append_assoc] at hstages
        obtain ⟨hread, hnames⟩ := List.append_eq_nil_iff.1 hstages.symm
        cases h.reportsLater hread with
        | rejected hne => exact absurd hnames hne
        | ran haccepts hreports =>
            have hscript := haccepts.step budget
            rw [Session.runScript, hscript, Session.afterRun, Option.isSome_map]
            exact hreports.isSome_outcome?
      · have haction : (Action.script budget source).source? = some source := rfl
        obtain ⟨next, hact, -⟩ :=
          ((Session.initial none reading).handles haction).rejects (.inr hclean)
        exact Option.isSome_of_eq_some hact

end

end Task

/-- A command that has read a source text reports what the stages of its task have come to.  Its
status is 65 if that is anything, and else 0; with status 65 the outline and the value of an
expression are not written, and a script has written something only if its text has no faults. -/
theorem Command.respond_diagnoses {files : String → Option ByteArray} {file source : String}
    {bytes : ByteArray} (hfile : files file = some bytes) (hsource : Utf8.decode bytes = .ok source)
    (budget : Nat) (reading : Nat → Float) (input : ByteArray) (task : Task) :
    ((respond budget reading files input ⟨task, some file⟩).isSome ↔
      ∃ diagnostics, task.Diagnoses budget reading source diagnostics) ∧
    ∀ response, respond budget reading files input ⟨task, some file⟩ = some response →
      ∃ diagnostics, task.Diagnoses budget reading source diagnostics ∧
        response.stderr = Diagnostic.report diagnostics ∧
        (response.stderr ≠ "" ↔ diagnostics ≠ []) ∧
        (response.status = 65 ↔ diagnostics ≠ []) ∧
        (response.status ≠ 65 → response.status = 0 ∧ response.stderr = "") ∧
        (response.status = 65 → task = .parse ∨ task = .evaluate → response.stdout = "") ∧
        (task = .run → response.stdout ≠ "" → sourceFaults source = []) := by
  have hrespond : respond budget reading files input ⟨task, some file⟩ =
      task.perform budget reading source := by
    simp only [respond, hfile, hsource]
  rw [hrespond]
  refine ⟨⟨?_, ?_⟩, ?_⟩
  · intro hsome
    obtain ⟨response, hresponse⟩ := Option.isSome_iff_exists.1 hsome
    obtain ⟨diagnostics, hdiagnoses, -⟩ := Task.of_perform hresponse
    exact ⟨diagnostics, hdiagnoses⟩
  · rintro ⟨diagnostics, hdiagnoses⟩
    exact hdiagnoses.isSome_perform
  · intro response hresponse
    obtain ⟨diagnostics, hdiagnoses, hreports, hsilent, hwrites⟩ := Task.of_perform hresponse
    refine ⟨diagnostics, hdiagnoses, hreports.stderr, ?_, hreports.status_eq_faulty_iff,
      hreports.silent, ?_, hwrites⟩
    · rw [hreports.stderr]
      exact not_congr Diagnostic.report_eq_empty_iff
    · intro hstatus
      exact hsilent (hreports.status_eq_faulty_iff.1 hstatus)

/-- A script that writes a line and then fails. -/
theorem Command.respond_diagnoses_undefined :
    let source := "print nil; print missing;"
    let files : String → Option ByteArray := fun name =>
      if name = "a.lox" then some source.toUTF8 else none
    let reading : Nat → Float := fun _ => 0
    let response : Response := ⟨"nil\n", "Undefined variable 'missing'.\n[line 1]\n", 65⟩
    files "a.lox" = some source.toUTF8 ∧ Utf8.decode source.toUTF8 = .ok source ∧
      respond 20 reading files .empty ⟨.run, some "a.lox"⟩ = some response ∧
      ∃ diagnostics, Task.run.Diagnoses 20 reading source diagnostics ∧ diagnostics ≠ [] ∧
        response.stderr = Diagnostic.report diagnostics ∧ sourceFaults source = [] := by
  intro source files reading response
  have hfile : files "a.lox" = some source.toUTF8 := rfl
  have hsource : Utf8.decode source.toUTF8 = .ok source := Utf8.decode_toUTF8 source
  have hresponse : respond 20 reading files .empty ⟨.run, some "a.lox"⟩ = some response := by
    decide +kernel
  obtain ⟨-, hanswers⟩ := respond_diagnoses hfile hsource 20 reading .empty .run
  obtain ⟨diagnostics, hdiagnoses, hstderr, -, hstatus, -, -, hwrites⟩ := hanswers _ hresponse
  have hwritten : response.stdout ≠ "" := by decide
  exact ⟨hfile, hsource, hresponse, diagnostics, hdiagnoses, hstatus.1 rfl, hstderr,
    hwrites rfl hwritten⟩

end LoxLang
