import LoxLang.Proofs.Grammar.Form
import LoxLang.Proofs.Run.Respelling.Renaming
import LoxLang.Proofs.Session.Reply

/-!
# Local names do not matter

A local variable of a program may get another name: the program is accepted as before, each
occurrence is bound as far out as before, and nothing that is seen of its run changes.
-/

namespace LoxLang

/-- A session starts with nothing but built-in functions, which keep their names. -/
theorem Store.recast_initial (s : Spelling) : Store.initial.recast s.recasting = Store.initial := by
  have hclock : s.recasting.nameIn 0 Builtin.clock.name = Builtin.clock.name := s.globals _
  simp [recast, initial, Bindings.recast, hclock, Value.recast]

namespace Session

/-- What is seen when a session runs a program that has been compiled in it. -/
def shown (session : Session) (program : Program) (budget : Nat) : Reply where
  output := (session.running program budget).world.output
  verdict := (session.afterRun (session.running program budget)).map fun (next, diagnostics) =>
    next.verdict diagnostics

theorem reply_of_compile {session compiled : Session} {source : String}
    {diagnostics : List Diagnostic} {program : Program}
    (h : session.compile source = (compiled, diagnostics, some program)) (budget : Nat)
    (prepare : Program → Program) :
    session.reply budget prepare source = compiled.shown (prepare program) budget := by
  rw [reply, worldAfter_of_compile h, step_of_compile h]
  rfl

/-- A run that ends in the same way is seen as the same. -/
theorem shown_eq {session : Session} {program renamed : Program} {budget : Nat} {s : Spelling}
    (h : session.running program budget = (session.running renamed budget).respell s) :
    session.shown renamed budget = session.shown program budget := by
  unfold shown afterRun
  rw [h, Machine.outcome?_respell]
  rcases Machine.outcome? _ with _ | failure | completion <;> rfl

section

variable {capacity : Option Nat} {reading : Nat → Float} {source : String} {compiled : Session}
  {program renamed : Program} {old new : String}
  (hcompile : (initial capacity reading).compile source = (compiled, [], some program))
  (hfresh : ∀ token ∈ (TokenStream.ofSource source).tokens, token.lexeme ≠ new)
  (hnew : ∀ keyword : Keyword, new ≠ keyword.spelling)
  (hrenames : program.Renames ⟨compiled.world.distances, old, new⟩ renamed)

include hcompile hfresh hnew hrenames

/-- The program and the renamed one. -/
theorem renamesLocal_of_compile :
    program.RenamesLocal ⟨compiled.world.distances, old, new⟩ renamed := by
  have hformed : program.Formed (Renaming.Admits ⟨compiled.world.distances, old, new⟩) := by
    obtain ⟨-, hparse⟩ := (of_compile hcompile).2 program rfl
    obtain ⟨hderives, -⟩ := Program.derives_of_parse_eq_ok (congrArg Parsed.result hparse)
    exact hderives.formed fun token htoken =>
      ⟨TokenStream.genuine_of_mem_tokens htoken, hfresh token htoken⟩
  obtain ⟨findings, hids, hdistances, hprogram⟩ := (compiles hcompile).resolved
  obtain ⟨haccepted, rfl⟩ := hprogram program rfl
  refine ⟨hrenames.proper hformed hnew, haccepted, hformed, ?_, hrenames⟩
  intro occurrence distance hfinding
  show compiled.world.distances[occurrence.id]? = distance
  rw [hdistances]
  exact Distances.getElem?_recordAll _ hfinding hids.nodup Std.TreeMap.getElem?_emptyc

/-- A run of the renamed program. -/
theorem renamed_of_compile :
    (Run.start .initial compiled.world renamed).Renamed ⟨compiled.world.distances, old, new⟩
      program renamed := by
  have hlocal := renamesLocal_of_compile hcompile hfresh hnew hrenames
  have hcompiles := compiles hcompile
  have hsound := sound_initial capacity reading
  obtain ⟨findings, hids, hdistances, hprogram⟩ := hcompiles.resolved
  obtain ⟨-, rfl⟩ := hprogram program rfl
  refine ⟨hlocal, ⟨Run.sound_start (hcompiles.grounded hsound.grounded) hlocal.accepted_renamed,
    compiled.nextId, ?_⟩, rfl⟩
  rw [← hlocal.ids_eq] at hids
  show Past.Recorded _ compiled.world.distances compiled.nextId
  rw [hdistances, ← hlocal.recordAll_eq]
  exact hsound.recorded.addProgram hids hcompiles.le

/-- The renamed program runs in the same way. -/
theorem shown_renamed (budget : Nat) :
    compiled.shown renamed budget = compiled.shown program budget := by
  have hrun := renamed_of_compile hcompile hfresh hnew hrenames
  have hglobals := (hrun.inOrder.sound.runFor budget).grounded.globals
  have hrespelled := @Run.Renamed.runFor_respell _ _ _ _ _ hrun.renames.proper hglobals hrun budget
    List.prefix_rfl
  let spelling := Renaming.spelling _ hrun.renames.proper _ hglobals
  have hstore : compiled.world.store.recast spelling.recasting = compiled.world.store := by
    rw [(compiles hcompile).store]
    exact Store.recast_initial spelling
  have hworld : compiled.world.respell spelling = compiled.world :=
    congrArg compiled.world.withStore hstore
  have hstart : (Machine.start compiled.world Store.globalEnv renamed).respell spelling =
      Machine.start compiled.world Store.globalEnv program := by
    show Machine.start (compiled.world.respell spelling) _ (renamed.respell _) = _
    rw [hworld]
    exact congrArg _ hrun.renames.respell_eq
  refine shown_eq (Eq.trans ?_ hrespelled)
  exact congrArg (Machine.runFor budget) hstart.symm

/-- The same distances are recorded. -/
theorem resolved_renamed :
    (World.initial capacity reading).resolved renamed.findings = compiled.world := by
  have hlocal := renamesLocal_of_compile hcompile hfresh hnew hrenames
  obtain ⟨findings, -, hdistances, hprogram⟩ := (compiles hcompile).resolved
  obtain ⟨-, rfl⟩ := hprogram program rfl
  have hcompiled := congrArg Session.world (of_compile hcompile).1
  rw [World.resolved, hlocal.recordAll_eq]
  rw [hdistances] at hcompiled
  exact hcompiled.symm

/-- A text of the renamed program is compiled to it. -/
theorem compile_renamed {text : String} (hlexical : (TokenStream.ofSource text).faults = [])
    (hparse : Program.parse (TokenStream.ofSource text).tokens
      (TokenStream.ofSource text).endLine 0 = ⟨.ok renamed, compiled.nextId⟩) :
    (initial capacity reading).compile text = (compiled, [], some renamed) := by
  have hlocal := renamesLocal_of_compile hcompile hfresh hnew hrenames
  have hworld : (initial capacity reading).world.resolved renamed.findings = compiled.world :=
    resolved_renamed hcompile hfresh hnew hrenames
  have hcompiled : (initial capacity reading).compile text = (_, [], some renamed) :=
    compile_of_parse rfl hlexical hparse hlocal.staticFaults_eq_nil
  rw [hworld] at hcompiled
  rw [hcompiled, (of_compile hcompile).1]

end

/-- Local names do not matter.  In a script that may run, a local variable gets a name that does not
occur in the script and is no reserved word: any variable, be it a parameter or declared in a block
or a function, and it gets the name in just those occurrences that are bound to it.  The program is
accepted, the distances that are recorded are the same, and so is all that is seen of its run; and a
text that reads as the renamed program is seen as the script is. -/
theorem local_names_do_not_matter (capacity : Option Nat) (reading : Nat → Float) (source : String)
    {compiled : Session} {program : Program}
    (hcompile : (initial capacity reading).compile source = (compiled, [], some program))
    (old new : String) (hnew : ∀ keyword : Keyword, new ≠ keyword.spelling)
    (hfresh : ∀ token ∈ (TokenStream.ofSource source).tokens, token.lexeme ≠ new) :
    let r : Renaming := ⟨compiled.world.distances, old, new⟩
    (∀ (path : Path) (part : Part) (construct : Construct), Located program path part →
      construct ∈ path.constructs → old ∈ construct.variables →
        ∃ renamed outer, program.Renames r renamed ∧
          Located renamed ((construct.rename r).opened :: outer)
            (.statements (construct.rename r).body)) ∧
    ∀ renamed : Program, program.Renames r renamed →
      renamed.Accepted ∧
      (World.initial capacity reading).resolved renamed.findings = compiled.world ∧
      (∀ budget, compiled.shown renamed budget = compiled.shown program budget) ∧
      ∀ text : String, (TokenStream.ofSource text).faults = [] →
        Program.parse (TokenStream.ofSource text).tokens (TokenStream.ofSource text).endLine 0 =
          ⟨.ok renamed, compiled.nextId⟩ →
        (initial capacity reading).compile text = (compiled, [], some renamed) ∧
        ∀ budget, (initial capacity reading).reply budget id text =
          (initial capacity reading).reply budget id source := by
  intro r
  refine ⟨fun path part construct hlocated hmem hold => hlocated.exists_renames hmem hold,
    fun renamed hrenames => ?_⟩
  have hshown := shown_renamed hcompile hfresh hnew hrenames
  refine ⟨(renamesLocal_of_compile hcompile hfresh hnew hrenames).accepted_renamed,
    resolved_renamed hcompile hfresh hnew hrenames, hshown, fun text hlexical hparse => ?_⟩
  have hcompiled := compile_renamed hcompile hfresh hnew hrenames hlexical hparse
  refine ⟨hcompiled, fun budget => ?_⟩
  rw [reply_of_compile hcompiled, reply_of_compile hcompile]
  exact hshown budget

/-- A function that prints its parameter, which has some name, behind a block that has a variable
`a`; and a call of the function. -/
def shadowed (param : String) : Program :=
  let name (text : String) : Token := ⟨.identifier, text, 1⟩
  [.function (.mk (name "f") [name param]
      [.block [.varDecl (name "a") none,
          .expression (.assign ⟨2, name "a"⟩ (.variable ⟨1, name "a"⟩))],
        .print (.variable ⟨3, name param⟩)]),
    .expression (.call (.variable ⟨4, name "f"⟩) ⟨.symbol .rightParen, ")", 1⟩
      [.literal (.bool true)])]

/-- The text of this program. -/
def shadowedText (param : String) : String :=
  "fun f(" ++ param ++ ")\x7b\x7bvar a;a=a;\x7dprint " ++ param ++ ";\x7df(true);"

theorem parse_shadowedText : ∀ param ∈ ["a", "c"],
    (TokenStream.ofSource (shadowedText param)).faults = [] ∧
      Program.parse (TokenStream.ofSource (shadowedText param)).tokens
        (TokenStream.ofSource (shadowedText param)).endLine 0 = ⟨.ok (shadowed param), 5⟩ := by
  decide +kernel

/-- The parameter is renamed, and the variable in the block that hides it is not. -/
theorem local_names_do_not_matter_shadowed :
    let session := initial none fun _ => 0
    ∃ compiled, session.compile (shadowedText "a") = (compiled, [], some (shadowed "a")) ∧
      (shadowed "a").Renames ⟨compiled.world.distances, "a", "c"⟩ (shadowed "c") ∧
      session.compile (shadowedText "c") = (compiled, [], some (shadowed "c")) ∧
      (session.reply 40 id (shadowedText "c")).output.written = "true\n".toUTF8 ∧
      ∀ budget, session.reply budget id (shadowedText "c") =
        session.reply budget id (shadowedText "a") := by
  intro session
  obtain ⟨hlexical, hparse⟩ := parse_shadowedText "a" List.mem_cons_self
  obtain ⟨hlexical', hparse'⟩ :=
    parse_shadowedText "c" (List.mem_cons_of_mem _ List.mem_cons_self)
  have hcompile : session.compile (shadowedText "a") = (_, [], some (shadowed "a")) :=
    compile_of_parse rfl hlexical hparse rfl
  have hkeywords : ∀ keyword : Keyword, "c" ≠ keyword.spelling := by
    rintro ⟨⟩ <;> decide
  have htokens : ∀ token ∈ (TokenStream.ofSource (shadowedText "a")).tokens,
      token.lexeme ≠ "c" := by decide +kernel
  obtain ⟨-, hrenamed⟩ := local_names_do_not_matter none (fun _ => 0) (shadowedText "a") hcompile
    "a" "c" hkeywords htokens
  have hrenames : (shadowed "a").Renames
      ⟨(session.world.resolved (shadowed "a").findings).distances, "a", "c"⟩ (shadowed "c") :=
    .head (.function List.mem_cons_self) _
  obtain ⟨-, -, -, hseen⟩ := hrenamed (shadowed "c") hrenames
  obtain ⟨hcompile', hreply⟩ := hseen (shadowedText "c") hlexical' hparse'
  have hwritten : (session.reply 40 id (shadowedText "c")).output.written = "true\n".toUTF8 := by
    decide +kernel
  exact ⟨_, hcompile, hrenames, hcompile', hwritten, hreply⟩

end Session

end LoxLang
