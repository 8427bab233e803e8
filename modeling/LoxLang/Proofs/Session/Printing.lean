import LoxLang.CommandLine
import LoxLang.Proofs.Grammar.Standalone
import LoxLang.Proofs.Run.Plain
import LoxLang.Proofs.Session.Discipline
import LoxLang.Proofs.Session.Joining
import LoxLang.Proofs.Token.Wrapping

/-!
# Three ways to print the value of an expression

An expression can be handed to the command that evaluates it, entered as a line of a dialogue, or
put into a script behind the word `print`.  The three read it with different entry points of the
grammar, and only two of them resolve its names; still all of them print the same
(`Session.prints_alike`).  An expression outside all blocks has global names only, so resolving it
records nothing, and the numbers of its occurrences do not matter.
-/

namespace LoxLang

/-! ## Texts -/

/-- The bytes of a text are the bytes of that text. -/
theorem Utf8.decode_toUTF8 (text : String) : decode text.toUTF8 = .ok text := by
  have htext : String.fromUTF8? text.toUTF8 = some text := by
    rw [String.fromUTF8?, String.toUTF8_eq_toByteArray, dif_pos text.isValidUTF8]
    rfl
  rw [decode, htext]

theorem Utf8.decodeCut_toUTF8 (text : String) : decodeCut text.toUTF8 = text := by
  rw [decodeCut, decode_toUTF8]

namespace TokenStream

/-- A text without faults that stands between the word `print` and a semicolon on the next line. -/
theorem ofSource_printed {source : String}
    (h : (ofSource ("print " ++ source ++ "\n;")).faults = []) :
    (ofSource source).faults = [] ∧ (ofSource (source ++ "\n;")).faults = [] ∧
      ∃ keyword semicolon : Token,
        (ofSource ("print " ++ source ++ "\n;")).tokens =
          keyword :: ((ofSource source).tokens ++ [semicolon]) ∧
        (ofSource (source ++ "\n;")).tokens = (ofSource source).tokens ++ [semicolon] := by
  have hline : source ++ "\n;" = source ++ "\n" ++ ";" := by
    rw [String.append_assoc]
    rfl
  have hprint := ofSource_print (source ++ "\n;")
  rw [← String.append_assoc] at hprint
  have hstated : (ofSource (source ++ "\n;")).faults = [] := by
    rw [hprint] at h
    exact h
  have hquote : '"' ∉ ";".toList := by decide
  have halone : (ofSource source).faults = [] := by
    rw [hline] at hstated
    exact faults_eq_nil_of_join hquote hstated
  let keyword : Token := ⟨.keyword .printKw, "print", 1⟩
  have hkeyword : (ofSource ("print " ++ source ++ "\n;")).tokens =
      keyword :: (ofSource (source ++ "\n;")).tokens := by
    rw [hprint]
    rfl
  obtain ⟨htokens, -, -⟩ := ofSource_join ";" halone
  have hsemicolon : (ofSource ";").tokens = [⟨.symbol .semicolon, ";", 1⟩] := rfl
  rw [← hline, hsemicolon, List.map_singleton] at htokens
  refine ⟨halone, hstated, keyword, _, ?_, htokens⟩
  rw [hkeyword, htokens]

end TokenStream

/-! ## Expressions outside all blocks -/

section

variable {context : Context}

/-- Outside all blocks every name is that of a global. -/
theorem Expr.ne_local_of_mem_findings {expression : Expr} {occurrence : Occurrence}
    {distance : Nat} : .binding occurrence (some distance) ∉ expression.findings context [] := by
  intro hmem
  obtain ⟨inner, -, hown⟩ := expression.mem_findings_iff.1 hmem
  cases inner with
  | thisRef found =>
      have hfound : Finding.binding occurrence (some distance) ∈ context.usingThis found [] := hown
      rw [Context.usingThis] at hfound
      split at hfound <;> cases List.mem_singleton.1 hfound
  | superRef found method =>
      have hfound : Finding.binding occurrence (some distance) ∈ context.usingSuper found [] := hown
      rw [Context.usingSuper] at hfound
      split at hfound <;> simp [Scopes.binding, Scopes.distance?] at hfound
  | _ =>
      simp [Expr.own, Scopes.reading, Scopes.binding, Scopes.distance?, Scopes.innermost?] at hown

theorem Distances.recordAll_eq_self (distances : Distances) {findings : List Finding}
    (h : ∀ occurrence distance, .binding occurrence (some distance) ∉ findings) :
    distances.recordAll findings = distances := by
  induction findings with
  | nil => rfl
  | cons finding rest ih =>
      have hrecord : distances.record finding = distances := by
        cases finding with
        | fault broken => rfl
        | binding occurrence distance =>
            cases distance with
            | none => rfl
            | some distance => exact absurd List.mem_cons_self (h occurrence distance)
      rw [recordAll, List.foldl_cons, hrecord]
      apply ih
      intro occurrence distance hmem
      exact h occurrence distance (List.mem_cons_of_mem _ hmem)

end

/-- Resolving an expression outside all blocks records nothing. -/
theorem World.resolved_print (world : World) (value : Expr) :
    world.resolved (Program.findings [.print value]) = world := by
  have hfindings : Program.findings [.print value] = value.findings ⟨.outside, .outside⟩ [] :=
    List.append_nil _
  rw [resolved, hfindings, Distances.recordAll_eq_self]
  intro occurrence distance
  exact Expr.ne_local_of_mem_findings

/-! ## Other numbers -/

namespace Machine

variable {machine : Machine} {output : Output} {result : Except RuntimeFault Value}
  {ids : NodeId → NodeId} {recorded : Distances}

theorem ending_ofIds_iff {outcome : Except Failure Completion} :
    (Relabeling.ofIds ids).ending outcome = printedOutcome result ↔
      outcome = printedOutcome result := by
  cases result with
  | ok value =>
      cases outcome with
      | error failure => exact iff_of_false (fun h => by cases h) (fun h => by cases h)
      | ok completion =>
          cases completion with
          | normal => exact Iff.rfl
          | returned found => exact iff_of_false (fun h => by cases h) (fun h => by cases h)
  | error fault =>
      cases outcome with
      | ok completion => exact iff_of_false (fun h => by cases h) (fun h => by cases h)
      | error failure =>
          cases failure with
          | fault found => exact Iff.rfl
          | outputFull => exact Iff.rfl

/-- Other numbers make no difference to what is printed. -/
theorem prints_relabel_iff :
    (machine.relabel (.ofIds ids) recorded).Prints output result ↔
      machine.Prints output result := by
  have houtcome : (machine.relabel (.ofIds ids) recorded).outcome? = some (printedOutcome result) ↔
      machine.outcome? = some (printedOutcome result) := by
    rw [outcome?_relabel]
    cases machine.outcome? with
    | none => exact Iff.rfl
    | some outcome => simp only [Option.map_some, Option.some.injEq, ending_ofIds_iff]
  constructor
  · intro h
    exact ⟨houtcome.1 h.outcome, h.written⟩
  · intro h
    exact ⟨houtcome.2 h.outcome, h.written⟩

end Machine

/-- What is reported of the result of an expression. -/
def printedDiagnostics : Except RuntimeFault Value → List Diagnostic
  | .ok _ => []
  | .error fault => [.runtime fault]

namespace Session

variable {source : String} {reading : Nat → Float} {budget : Nat} {value first second : Expr}
  {result : Except RuntimeFault Value}

/-- In a fresh session there are no numbers, so they can be changed at will. -/
theorem renumbers_initial (reading : Nat → Float) {ids : NodeId → NodeId} (hids : ids 0 = 0) :
    (initial none reading).Renumbers ids (initial none reading) := by
  refine ⟨{}, ?_, ?_⟩
  · intro id
    exact Std.TreeMap.getElem?_emptyc.trans Std.TreeMap.getElem?_emptyc.symm
  · show initial none reading = Session.mk { World.initial none reading with
      store := Store.initial.relabel (.ofIds ids) } (ids 0) false false
    rw [Store.relabel_initial, hids]
    rfl

/-- In a fresh session a program that prints an expression has come to its end with a result. -/
def Prints (reading : Nat → Float) (budget : Nat) (value : Expr)
    (result : Except RuntimeFault Value) : Prop :=
  ((initial none reading).running [.print value] budget).Prints (.empty none) result

theorem exists_prints (reading : Nat → Float) (value : Expr) :
    ∃ enough result, ∀ budget, enough ≤ budget → Prints reading budget value result :=
  Machine.exists_prints (World.isPlain_initial none reading) rfl Store.globalEnv value

/-- What has been written is the text of the result. -/
theorem Prints.written_eq (h : Prints reading budget value result) :
    ((initial none reading).running [.print value] budget).world.output.written =
      (printedText result).toUTF8 := by
  rw [h.written, Output.write_of_capacity_eq_none _ _ rfl]
  exact ByteArray.empty_append

/-- If the run has come to its end, it has printed the result. -/
theorem exists_prints_of_outcome
    (h : ((initial none reading).running [.print value] budget).outcome?.isSome) :
    ∃ result, Prints reading budget value result := by
  obtain ⟨enough, result, hprints⟩ := exists_prints reading value
  have henough := hprints enough (Nat.le_refl _)
  have hended : ((initial none reading).running [.print value] enough).outcome?.isSome :=
    Option.isSome_of_eq_some henough.outcome
  have hsame : (initial none reading).running [.print value] budget =
      (initial none reading).running [.print value] enough :=
    Machine.runFor_eq_of_isSome h hended
  refine ⟨result, ?_⟩
  rw [Prints, hsame]
  exact henough

/-- Expressions that differ in the numbers of their occurrences print the same. -/
theorem Prints.congr (h : Prints reading budget first result)
    (hsame : second.unnumbered = first.unnumbered) : Prints reading budget second result := by
  have hrenumbers : (initial none reading).Renumbers (fun _ => 0) (initial none reading) :=
    renumbers_initial reading rfl
  have hrunning (value : Expr) : (initial none reading).running [.print value.unnumbered] budget =
      ((initial none reading).running [.print value] budget).relabel (.ofIds fun _ => 0) {} := by
    rw [← value.relabel_zero]
    exact hrenumbers.running [.print value] budget
  unfold Prints at h ⊢
  rw [← Machine.prints_relabel_iff, ← hrunning] at h ⊢
  rw [hsame]
  exact h

/-- A session that has printed the result of an expression. -/
structure HasPrinted (session : Session) (result : Except RuntimeFault Value) : Prop where
  written : session.world.output.written = (printedText result).toUTF8
  hadError : session.hadError = false
  hadRuntimeError : session.hadRuntimeError = !result.isOk

/-- A run that has printed the result of an expression reports its fault, if there is one. -/
theorem afterRun_of_prints {session : Session} {machine : Machine} {output : Output}
    (h : machine.Prints output result) :
    session.afterRun machine =
      some ({ session with
        world := machine.world
        hadRuntimeError := session.hadRuntimeError || !result.isOk },
        printedDiagnostics result) := by
  obtain ⟨world, nextId, hadError, hadRuntimeError⟩ := session
  rw [afterRun, h.outcome]
  cases result with
  | ok value => simp [printedOutcome, printedDiagnostics, Except.isOk, Except.toBool]
  | error fault =>
      simp [printedOutcome, noting, printedDiagnostics, Except.isOk, Except.toBool,
        Diagnostic.ofFailure, Diagnostic.isRuntime]

/-- A text of a fresh session that is compiled to an expression to print. -/
theorem Prints.step (h : Prints reading budget value result) {program : Program} {nextId : NodeId}
    {prepare : Program → Program} (haccepts : (initial none reading).Accepts source program nextId)
    (hprepare : prepare program = [.print value])
    (hfindings : program.findings = Program.findings [.print value]) :
    ∃ next, (initial none reading).step budget prepare source =
        some (next, printedDiagnostics result) ∧ next.HasPrinted result := by
  have hrunning : ((initial none reading).loaded program nextId).running [.print value] budget =
      (initial none reading).running [.print value] budget := by
    rw [running, loaded, hfindings, World.resolved_print]
    rfl
  have hstep := step_of_compile haccepts.compile budget prepare
  rw [hprepare, hrunning, afterRun_of_prints h] at hstep
  exact ⟨_, hstep, h.written_eq, rfl, Bool.false_or _⟩

/-- A text that may run has no faults. -/
theorem accepts_of_compile {session : Session} {program : Program}
    (h : (session.compile source).2.2 = some program) :
    ∃ nextId, session.Accepts source program nextId := by
  obtain ⟨compiled, program?, hcompile, hprogram⟩ := session.compile_faultsIn source
  rw [hcompile] at h
  have hclean : ¬(session.hadError = true ∨ sourceFaults source ≠ []) := by
    rw [← hprogram, show program? = some program from h]
    exact nofun
  obtain ⟨hnone, hfaults⟩ := not_or.1 hclean
  rw [Bool.not_eq_true] at hnone
  rw [not_not] at hfaults
  obtain ⟨found, nextId, haccepts⟩ := accepts_of_sourceFaults hnone hfaults
  have hfound : some found = program? :=
    congrArg (·.2.2) (haccepts.compile.symm.trans hcompile)
  cases hfound.trans h
  exact ⟨nextId, haccepts⟩

/-- The command that evaluates an expression prints it like a program. -/
theorem Prints.printValue (h : Prints reading budget value result)
    (hread : Task.readExpression source = ([], some value)) :
    Task.printValue budget reading source =
      some (.reporting (printedText result) (printedDiagnostics result) (!result.isOk)) := by
  have hrun : (World.initial none reading).runProgram budget [.print value] =
      some (((initial none reading).running [.print value] budget).world,
        printedOutcome result) := by
    show Option.map _ ((initial none reading).running [.print value] budget).outcome? = _
    rw [h.outcome]
    rfl
  rw [Task.printValue, hread]
  dsimp only
  rw [hrun, Option.map_some, h.written_eq, Utf8.decodeCut_toUTF8]
  cases result with
  | ok value => rfl
  | error fault => rfl

end Session

/-- The same static rules are broken by an expression under other numbers, whether it is printed or
not. -/
theorem Program.staticFaults_expression {first second : Expr}
    (hsame : second.unnumbered = first.unnumbered) :
    Program.staticFaults [.expression second] = Program.staticFaults [.print first] := by
  have hunnumbered (value : Expr) :
      Program.staticFaults [.print value] = Program.staticFaults [.print value.unnumbered] := by
    have hrelabel := Program.staticFaults_relabel (.ofIds fun _ => 0) [.print value]
    rw [← value.relabel_zero]
    exact (hrelabel.trans (List.map_id _)).symm
  have hechoing : Program.staticFaults [.expression second] =
      Program.staticFaults [.print second] := rfl
  rw [hechoing, hunnumbered, hsame, ← hunnumbered]

namespace Session

/-- If a text behind the word `print` is compiled to the printing of one expression, then the
command that evaluates it, a line with it and the script all come to their end, with the same text
written and the same report. -/
theorem prints_alike {source : String} {reading : Nat → Float} {value : Expr}
    (h : ((initial none reading).compile ("print " ++ source ++ "\n;")).2.2 =
      some [.print value]) :
    ∃ (result : Except RuntimeFault Value) (enough : Nat), ∀ budget, enough ≤ budget →
      Task.printValue budget reading source =
        some (.reporting (printedText result) (printedDiagnostics result) (!result.isOk)) ∧
      (∃ line, (initial none reading).runLine budget (source ++ "\n;") =
        some (line, printedDiagnostics result) ∧ line.HasPrinted result) ∧
      ∃ script, (initial none reading).runScript budget ("print " ++ source ++ "\n;") =
        some (script, printedDiagnostics result) ∧ script.HasPrinted result := by
  obtain ⟨nextId, hscript⟩ := accepts_of_compile h
  obtain ⟨halone, hstated, keyword, semicolon, hwhole, hline⟩ :=
    TokenStream.ofSource_printed hscript.lexical
  have hread := congrArg Parsed.result hscript.read
  rw [Program.readFrom, hwhole] at hread
  obtain ⟨⟨alone, hreadAlone, hsameAlone⟩, stated, hreadStated, hsameStated⟩ :=
    Program.reads_of_print hread (TokenStream.ofSource source).endLine
      (TokenStream.ofSource (source ++ "\n;")).endLine 0 0
  have hexpression : Task.readExpression source = ([], some alone) := by
    rw [Task.readExpression, hreadAlone, halone]
    rfl
  have haccepts : ∃ nextId, (initial none reading).Accepts (source ++ "\n;")
      [.expression stated] nextId := by
    rw [← hline] at hreadStated
    refine ⟨(Program.readFrom 0 (source ++ "\n;")).nextId, rfl, hstated, ?_, ?_⟩
    · exact congrArg (Parsed.mk · _) hreadStated
    · rw [Program.staticFaults_expression hsameStated, hscript.clean]
  obtain ⟨lastId, haccepts⟩ := haccepts
  obtain ⟨enough, result, hprints⟩ := exists_prints reading value
  refine ⟨result, enough, ?_⟩
  intro budget hbudget
  have hvalue := hprints budget hbudget
  refine ⟨?_, ?_, ?_⟩
  · exact (hvalue.congr hsameAlone).printValue hexpression
  · exact (hvalue.congr hsameStated).step haccepts rfl rfl
  · exact hvalue.step hscript rfl rfl

/-- A text that ends in a comment; the newline in front of the semicolon ends the comment. -/
theorem prints_alike_clock :
    let reading : Nat → Float := fun _ => 0
    let fresh := initial none reading
    let source := "clock // no"
    let value : Expr := .variable ⟨0, ⟨.identifier, "clock", 1⟩⟩
    (fresh.compile ("print " ++ source ++ "\n;")).2.2 = some [.print value] ∧
      ∃ (result : Except RuntimeFault Value) (budget : Nat),
        Task.printValue budget reading source =
          some (.reporting (printedText result) (printedDiagnostics result) (!result.isOk)) ∧
        (∃ line, fresh.runLine budget (source ++ "\n;") =
          some (line, printedDiagnostics result) ∧ line.HasPrinted result) ∧
        ∃ script, fresh.runScript budget ("print " ++ source ++ "\n;") =
          some (script, printedDiagnostics result) ∧ script.HasPrinted result := by
  intro reading fresh source value
  have htext : "print " ++ "clock // no" ++ "\n;" = "print clock // no\n;" := by decide
  have hlexical : (TokenStream.ofSource "print clock // no\n;").faults = [] := by decide
  have htokens : (TokenStream.ofSource "print clock // no\n;").tokens =
      [⟨.keyword .printKw, "print", 1⟩, ⟨.identifier, "clock", 1⟩,
          ⟨.symbol .semicolon, ";", 2⟩] := by
    decide
  have hend : (TokenStream.ofSource "print clock // no\n;").endLine = 2 := by decide
  have hparse : Program.parse (TokenStream.ofSource "print clock // no\n;").tokens
      (TokenStream.ofSource "print clock // no\n;").endLine fresh.nextId =
        ⟨.ok [.print value], 1⟩ := by
    rw [htokens, hend]
    rfl
  have hnone : fresh.hadError = false := rfl
  have hclean : Program.staticFaults [.print value] = [] := rfl
  have hcompile : (fresh.compile ("print " ++ source ++ "\n;")).2.2 = some [.print value] := by
    rw [htext, compile_of_parse hnone hlexical hparse hclean]
  obtain ⟨result, enough, hprints⟩ := prints_alike hcompile
  exact ⟨hcompile, result, enough, hprints enough (Nat.le_refl _)⟩

end Session

end LoxLang
