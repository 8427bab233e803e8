import LoxLang.Proofs.Run.Recorded
import LoxLang.Tree.Equality

/-!
# Sound sessions

Every session that can be reached is in a grounded scene and has recorded what was found in the
programs that it has run; and every run that can occur in it is sound, at every moment.
-/

namespace LoxLang

/-! ## Programs as they are run -/

namespace Program

theorem findings_echoing (program : Program) : program.echoing.findings = program.findings := by
  rw [echoing.eq_def]
  split
  · rfl
  · rfl

theorem Formed.echoing {genuine : Token → Prop} {program : Program} (h : program.Formed genuine) :
    program.echoing.Formed genuine := by
  intro statement hstatement
  rw [echoing.eq_def] at hstatement
  split at hstatement
  · next value =>
      obtain rfl := List.mem_singleton.1 hstatement
      have hformed := h _ List.mem_cons_self
      cases hformed with
      | mk _ hexpressions _ _ _ =>
          exact .mk trivial hexpressions (fun _ hbranch => by cases hbranch)
            (fun _ hbranch => by cases hbranch) fun _ hinner => by cases hinner
  · exact h statement hstatement

theorem Accepted.echoing {program : Program} (h : program.Accepted) : program.echoing.Accepted := by
  refine ⟨h.formed.echoing, ?_⟩
  rw [staticFaults, findings_echoing]
  exact h.clean

end Program

/-- What is made of a program before it is run is accepted like the program, and the same is found
in it. -/
theorem Prepares.accepted {prepare : Program → Program} (h : Prepares prepare) {program : Program}
    (hprogram : program.Accepted) :
    (prepare program).Accepted ∧ (prepare program).findings = program.findings := by
  cases h with
  | script => exact ⟨hprogram, rfl⟩
  | line => exact ⟨hprogram.echoing, program.findings_echoing⟩

/-! ## Sessions and runs -/

/-- A session in a grounded scene that has recorded what was found in the programs of its past. -/
structure Session.Sound (session : Session) (past : Past) : Prop where
  grounded : (session.world.scene past).Grounded
  recorded : past.Recorded session.world.distances session.nextId

namespace Session

variable {session next compiled : Session} {past : Past}

/-- The only scope is that of the globals, and the only value in it is a built-in function. -/
theorem sound_initial (capacity : Option Nat) (reading : Nat → Float) :
    (initial capacity reading).Sound .initial := by
  have hglobals {scope : ScopeId} {opening : Opening}
      (hopening : Past.initial.openings[scope]? = some opening) : opening = .globals :=
    List.mem_singleton.1 (List.mem_of_getElem? hopening)
  constructor
  · constructor
    · rfl
    · rfl
    · intro program hprogram
      cases hprogram
    · intro scope name value hvalue
      obtain rfl := Store.eq_builtin_of_binding?_initial hvalue
      trivial
    · intro object name value hvalue
      cases hvalue
    · intro scope function object hopening
      cases hglobals hopening
    · intro scope name clause methods value outer hopening
      cases hglobals hopening
  · constructor
    · intro id _
      exact Std.TreeMap.getElem?_emptyc
    · intro program hprogram
      cases hprogram
    · intro program hprogram
      cases hprogram

/-- Running a program leaves the session in the world of the machine that has run it. -/
theorem eq_of_runProgram {budget : Nat} {program : Program} {failures : List Diagnostic}
    (h : session.runProgram budget program = some (next, failures)) :
    next = { session with
      world := ((Machine.start session.world Store.globalEnv program).runFor budget).world } := by
  obtain ⟨world, nextId, hadError, hadRuntimeError⟩ := session
  unfold runProgram at h
  dsimp only at h
  split at h
  · cases h
  · next ran outcome hran =>
      obtain ⟨ending, -, hending⟩ := Option.map_eq_some_iff.1 hran
      cases hending
      cases outcome <;> cases h <;> rfl

/-- A text that is rejected leaves what reading it has come to, and one that is accepted is run. -/
theorem of_step {budget : Nat} {prepare : Program → Program} {source : String}
    {diagnostics : List Diagnostic}
    (h : session.step budget prepare source = some (next, diagnostics)) :
    ∃ compiled found program?, session.compile source = (compiled, found, program?) ∧
      next.nextId = compiled.nextId ∧
      (program? = none ∧ next.world = compiled.world ∨
        ∃ program, program? = some program ∧ next.world =
          ((Machine.start compiled.world Store.globalEnv (prepare program)).runFor
            budget).world) := by
  rcases hcompile : session.compile source with ⟨compiled, found, program?⟩
  refine ⟨compiled, found, program?, rfl, ?_⟩
  unfold step at h
  rw [hcompile] at h
  cases program? with
  | none =>
      cases h
      exact ⟨rfl, .inl ⟨rfl, rfl⟩⟩
  | some program =>
      obtain ⟨⟨ran, failures⟩, hran, heq⟩ := Option.map_eq_some_iff.1 h
      cases heq
      rw [eq_of_runProgram hran]
      exact ⟨rfl, .inr ⟨program, rfl, rfl⟩⟩

/-- A session that only differs in what is remembered and written. -/
theorem Sound.of_eq (h : session.Sound past) (hstore : next.world.store = session.world.store)
    (hdistances : next.world.distances = session.world.distances)
    (hnextId : next.nextId = session.nextId) : next.Sound past := by
  have hscene : next.world.scene past = session.world.scene past := by
    rw [World.scene, hstore]
    rfl
  constructor
  · rw [hscene]
    exact h.grounded
  · rw [hdistances, hnextId]
    exact h.recorded

theorem Compiles.grounded {program? : Option Program} (h : session.Compiles compiled program?)
    (hgrounded : (session.world.scene past).Grounded) :
    (compiled.world.scene past).Grounded := by
  rw [World.scene, h.store]
  exact hgrounded

/-- Reading a text that is not run. -/
theorem Sound.compile (h : session.Sound past) {program? : Option Program}
    (hcompiles : session.Compiles compiled program?) : compiled.Sound past := by
  obtain ⟨findings, hfresh, hdistances, -⟩ := hcompiles.resolved
  constructor
  · exact hcompiles.grounded h.grounded
  · rw [hdistances]
    exact h.recorded.recordAll hfresh hcompiles.le

end Session

/-! ## Runs in a session -/

/-- A run is in order if it is sound and what is recorded is what was found in the programs of its
past. -/
structure Run.InOrder (run : Run) : Prop where
  sound : run.Sound
  recorded : ∃ nextId, run.past.Recorded run.machine.world.distances nextId

/-- A program that is about to run in a session. -/
theorem Session.Sound.start {session compiled : Session} {past : Past} (h : session.Sound past)
    {program : Program} (hcompiles : session.Compiles compiled (some program))
    {prepare : Program → Program} (hprepare : Prepares prepare) :
    (Run.start past compiled.world (prepare program)).Sound ∧
      (Run.start past compiled.world (prepare program)).past.Recorded
        compiled.world.distances compiled.nextId := by
  obtain ⟨findings, hfresh, hdistances, hprogram⟩ := hcompiles.resolved
  obtain ⟨haccepted, rfl⟩ := hprogram program rfl
  obtain ⟨hprepared, hfindings⟩ := hprepare.accepted haccepted
  constructor
  · exact Run.sound_start (hcompiles.grounded h.grounded) hprepared
  · rw [hdistances, ← hfindings]
    rw [← hfindings] at hfresh
    exact h.recorded.addProgram hfresh hcompiles.le

namespace Run

theorem InOrder.step {run : Run} (h : run.InOrder) : run.step.InOrder := by
  obtain ⟨nextId, hrecorded⟩ := h.recorded
  refine ⟨h.sound.step, nextId, ?_⟩
  have hdistances : run.step.machine.world.distances = run.machine.world.distances :=
    run.machine.distances_step
  rw [hdistances]
  exact hrecorded.of_programs rfl

/-- The programs of the past stay the same during a run. -/
theorem programs_runFor (run : Run) (budget : Nat) :
    (run.runFor budget).past.programs = run.past.programs := by
  induction budget generalizing run with
  | zero => rfl
  | succ budget ih =>
      rw [runFor]
      split
      · rfl
      · exact ih run.step

end Run

/-- A sound session is sound behind a source text, whether its program is run or not. -/
theorem Session.Sound.step {session next : Session} {past : Past} (h : session.Sound past)
    {budget : Nat} {prepare : Program → Program} {source : String} {diagnostics : List Diagnostic}
    (hprepare : Prepares prepare)
    (hstep : session.step budget prepare source = some (next, diagnostics)) :
    next.Sound (past.after session budget prepare source) := by
  obtain ⟨compiled, found, program?, hcompile, hnextId, hworld⟩ := of_step hstep
  have hcompiles := Session.compiles hcompile
  rcases hworld with ⟨rfl, hworld⟩ | ⟨program, rfl, hworld⟩
  · have hpast : past.after session budget prepare source = past := by
      rw [Past.after, hcompile]
    rw [hpast]
    refine (h.compile hcompiles).of_eq ?_ ?_ hnextId
    · rw [hworld]
    · rw [hworld]
  · let run := Run.start past compiled.world (prepare program)
    have hpast : past.after session budget prepare source = (run.runFor budget).past := by
      rw [Past.after, hcompile]
    obtain ⟨hsound, hrecorded⟩ := h.start hcompiles hprepare
    have hmachine : next.world = (run.runFor budget).machine.world := by
      rw [hworld, Run.machine_runFor]
      rfl
    have hdistances : next.world.distances = compiled.world.distances := by
      rw [hmachine]
      exact run.distances_runFor budget
    rw [hpast]
    constructor
    · rw [hmachine]
      exact (hsound.runFor budget).grounded
    · rw [hdistances, hnextId]
      exact hrecorded.of_programs (run.programs_runFor budget)

/-- Every session that can be reached is sound. -/
theorem Session.Reached.sound {session : Session} {past : Past} (h : session.Reached past) :
    session.Sound past := by
  induction h with
  | initial capacity reading => exact sound_initial capacity reading
  | step _ hprepare hstep ih => exact ih.step hprepare hstep
  | forget _ ih => exact ih.of_eq rfl rfl rfl
  | write _ _ ih => exact ih.of_eq rfl rfl rfl

/-- A text without faults is compiled to its program, and what is found in it is recorded. -/
theorem Session.compile_of_parse {session : Session} {source : String} {program : Program}
    {nextId : NodeId} (hnone : session.hadError = false)
    (hlexical : (TokenStream.ofSource source).faults = [])
    (hparse : Program.parse (TokenStream.ofSource source).tokens
      (TokenStream.ofSource source).endLine session.nextId = ⟨.ok program, nextId⟩)
    (hclean : program.staticFaults = []) :
    session.compile source =
      ({ session with
          nextId := nextId
          world := session.world.resolved program.findings }, [], some program) := by
  have hfaults : program.findings.filterMap Finding.fault? = [] := hclean
  simp [compile, hparse, hlexical, hnone, hfaults]

-- Whether a text is read as a given program is decided by reading it.
deriving instance DecidableEq for Parsed

namespace Run

/-- Every run that can occur is in order, at every moment. -/
theorem Occurs.inOrder {run : Run} (h : run.Occurs) : run.InOrder := by
  induction h with
  | start hreached hprepare hcompile =>
      obtain ⟨hsound, hrecorded⟩ := hreached.sound.start (Session.compiles hcompile) hprepare
      exact ⟨hsound, _, hrecorded⟩
  | step _ ih => exact ih.step

theorem Occurs.runFor {run : Run} (h : run.Occurs) (budget : Nat) :
    (run.runFor budget).Occurs := by
  induction budget generalizing run with
  | zero => exact h
  | succ budget ih =>
      rw [Run.runFor]
      split
      · exact h
      · exact ih h.step

/-- A text without faults can be run as the first one of a session. -/
theorem occurs_first (source : String) {program : Program} (nextId : NodeId)
    (hlexical : (TokenStream.ofSource source).faults = [])
    (hparse : Program.parse (TokenStream.ofSource source).tokens
      (TokenStream.ofSource source).endLine 0 = ⟨.ok program, nextId⟩)
    (hclean : program.staticFaults = []) (capacity : Option Nat) (reading : Nat → Float) :
    (first capacity reading program).Occurs :=
  .start (.initial capacity reading) .script
    (Session.compile_of_parse rfl hlexical hparse hclean)

/-- Whatever happens, scopes and their variables are there to stay. -/
theorem Occurs.of_precedes {run later : Run} (h : run.Occurs) (hlater : run.Precedes later) :
    later.Occurs ∧ run.scene.Grows later.scene := by
  induction hlater with
  | refl => exact ⟨h, .refl _⟩
  | step _ ih =>
      obtain ⟨hoccurs, hgrows⟩ := ih
      exact ⟨hoccurs.step, hgrows.trans hoccurs.inOrder.sound.grows_step⟩
  | @start later session compiled prepare source diagnostics program _ hreached hstore hprepare
      hcompile ih =>
      obtain ⟨hoccurs, hgrows⟩ := ih
      have hcompiles := Session.compiles hcompile
      have hnext :
          later.scene.Grows (Run.start later.past compiled.world (prepare program)).scene := by
        refine ⟨List.subset_cons_self _ _, List.Subset.refl _, List.prefix_rfl, ?_⟩
        intro scope name hbinding
        show (compiled.world.store.binding? scope name).isSome
        rw [hcompiles.store, hstore]
        exact hbinding
      exact ⟨.start hreached hprepare hcompile, hgrows.trans hnext⟩

end Run

end LoxLang
