import LoxLang.Proofs.Grammar.Joining
import LoxLang.Proofs.Run.Continuation
import LoxLang.Proofs.Run.Returning
import LoxLang.Proofs.Session.Rejection

/-!
# Texts run in one piece or one after the other

What is found in the declarations of a text does not depend on the text above it.  So a text with
another one below it runs like the first one, up to its end, and then like the second one, whose
tokens are further down.  If the first one fails, the second one is not run.
-/

namespace LoxLang

open TokenStream

namespace Session

/-! ## Compiling -/

/-- The session when a program has been compiled that may run. -/
def loaded (session : Session) (program : Program) (nextId : NodeId) : Session :=
  { session with
    nextId := nextId
    world := session.world.resolved program.findings }

/-- In the session a source text is compiled to a program that may run. -/
structure Accepts (session : Session) (source : String) (program : Program) (nextId : NodeId) :
    Prop where
  unblocked : session.hadError = false
  lexical : (ofSource source).faults = []
  read : Program.readFrom session.nextId source = ⟨.ok program, nextId⟩
  clean : program.staticFaults = []

/-- A text without faults is compiled to a program that may run. -/
theorem accepts_of_sourceFaults {session : Session} (hnone : session.hadError = false)
    {source : String} (h : sourceFaults source = []) :
    ∃ program nextId, session.Accepts source program nextId := by
  rw [sourceFaults_eq source session.nextId, List.append_eq_nil_iff, List.map_eq_nil_iff] at h
  obtain ⟨hlexical, hfaults⟩ := h
  rcases hread : Program.readFrom session.nextId source with ⟨faults | program, nextId⟩
  · have hresult : (Program.readFrom session.nextId source).result = .error faults := by rw [hread]
    rw [Program.readFrom] at hread
    rw [hread] at hfaults
    exact absurd (List.map_eq_nil_iff.1 hfaults) (Parsed.ne_nil_of_result_eq_error hresult)
  · refine ⟨program, nextId, hnone, hlexical, hread, ?_⟩
    rw [Program.readFrom] at hread
    rw [hread] at hfaults
    exact List.map_eq_nil_iff.1 hfaults

section

variable {session : Session} {first second : String} {program program' : Program}
  {middle last : NodeId} {past : Past}

theorem Accepts.compile (h : session.Accepts first program middle) :
    session.compile first = (session.loaded program middle, [], some program) :=
  compile_of_parse h.unblocked h.lexical h.read h.clean

theorem Accepts.step (h : session.Accepts first program middle) (budget : Nat) :
    session.step budget id first = (session.loaded program middle).afterRun
      ((session.loaded program middle).running program budget) :=
  step_of_compile h.compile budget id

theorem Accepts.worldAfter (h : session.Accepts first program middle) (budget : Nat) :
    session.worldAfter budget id first =
      ((session.loaded program middle).running program budget).world :=
  worldAfter_of_compile h.compile budget id

/-- The declarations of both texts. -/
theorem Accepts.join (h : session.Accepts first program middle)
    (h' : (session.loaded program middle).Accepts second program' last) :
    session.Accepts (first ++ "\n" ++ second) (program ++ program'.mapLine (· + linesAbove first))
      last := by
  obtain ⟨-, hfaults, -⟩ := ofSource_join second h.lexical
  rw [h'.lexical] at hfaults
  exact ⟨h.unblocked, hfaults, Program.readFrom_join h.lexical h.read h'.read,
    Program.staticFaults_append_mapLine h.clean h'.clean _⟩

/-- The same is recorded for both programs at once as for one after the other. -/
theorem loaded_append (session : Session) (program program' : Program) (middle last : NodeId)
    (lines : Nat → Nat) :
    session.loaded (program ++ program'.mapLine lines) last =
      (session.loaded program middle).loaded program' last := by
  have hdistances : session.world.distances.recordAll
      (Program.findings (program ++ program'.mapLine lines)) =
        (session.world.distances.recordAll program.findings).recordAll program'.findings := by
    rw [Program.findings_append, Program.findings_mapLine, Distances.recordAll_append,
      Distances.recordAll_ofLines]
  unfold loaded World.resolved
  rw [hdistances]

end

/-! ## Running -/

section

variable {session : Session} {first second : String} {program program' : Program}
  {middle last : NodeId} {past : Past} (h : session.Accepts first program middle)
  (h' : (session.loaded program middle).Accepts second program' last)
  (hreached : session.Reached past)

include h h' hreached

/-- When the second text has been compiled too, only the numbers to come are others. -/
theorem Accepts.renumbers :
    (session.loaded program middle).Renumbers (movedUp middle (last - middle))
      ((session.loaded program middle).loaded program' last) := by
  have hids := keepsOrder_movedUp middle (last - middle)
  have hcompiles := compiles h.compile
  apply (hreached.sound.compile hcompiles).renumbers_of_compile h'.compile
  apply hreached.store_relabel hids.injective
  intro id hid
  exact movedUp_of_lt (Nat.lt_of_lt_of_le hid hcompiles.le)

/-- When the second text has been compiled too, the first program runs as before. -/
theorem Accepts.running_loaded (budget : Nat) :
    ((session.loaded program middle).loaded program' last).running program budget =
      ((session.loaded program middle).running program budget).relabel
        (.ofIds (movedUp middle (last - middle)))
        ((session.loaded program middle).loaded program' last).world.distances := by
  have hprogram : program.relabel (.ofIds (movedUp middle (last - middle))) = program := by
    obtain ⟨-, hfresh⟩ := Program.derives_of_parse_eq_ok (congrArg Parsed.result h.read)
    apply program.relabel_eq_self
    intro id hid
    exact movedUp_of_lt (Nat.lt_of_lt_of_eq (hfresh.lt id hid) (congrArg Parsed.nextId h.read))
  have hrun := (h.renumbers h' hreached).running program budget
  rw [hprogram] at hrun
  exact hrun

/-- Below a text that does not come to its end, or fails, nothing is run. -/
theorem Accepts.step_join {budget : Nat}
    (hfailed : ((session.loaded program middle).running program budget).outcome? ≠
      some (.ok .normal)) :
    (session.worldAfter budget id (first ++ "\n" ++ second)).output =
        (session.worldAfter budget id first).output ∧
      Option.Rel (EndsAlike (movedUp middle (last - middle))) (session.step budget id first)
        (session.step budget id (first ++ "\n" ++ second)) := by
  have hrun := h.running_loaded h' hreached budget
  have hfailed' : (((session.loaded program middle).loaded program' last).running program
      budget).outcome? ≠ some (.ok .normal) := by
    rw [hrun, ne_eq, Machine.outcome?_relabel_eq_normal]
    exact hfailed
  obtain ⟨houtcome, hworld⟩ := Machine.runFor_append_of_ne_normal _ program
    (program'.mapLine (· + linesAbove first)) hfailed'
  change (running _ _ _).outcome? = (running _ _ _).outcome? at houtcome
  change (running _ _ _).world = (running _ _ _).world at hworld
  rw [h.step, h.worldAfter, (h.join h').step, (h.join h').worldAfter, loaded_append, hworld,
    afterRun_congr _ houtcome hworld, hrun]
  exact ⟨rfl, (h.renumbers h' hreached).afterRun (Machine.distances_runFor _ budget)⟩

/-- Below a text that fails nothing is run, and nothing that is seen later is different. -/
theorem Accepts.replies_join {budget : Nat}
    (hfailed : ((session.loaded program middle).running program budget).outcome? ≠
      some (.ok .normal)) (rest : List Action) :
    session.replies (.script budget (first ++ "\n" ++ second) :: rest) =
      session.replies (.script budget first :: rest) := by
  obtain ⟨houtput, hends⟩ := h.step_join h' hreached hfailed
  obtain ⟨hreply, hnext⟩ := reply_eq_of_endsAlike houtput hends
  rw [replies, replies, perform, perform, hreply, runScript, runScript]
  refine congrArg _ ?_
  generalize (session.step budget id (first ++ "\n" ++ second)).map Prod.fst = next'? at hnext ⊢
  rcases hstep : session.step budget id first with _ | ⟨next, diagnostics⟩
  · rw [hstep] at hnext
    cases hnext
    rfl
  · rw [hstep] at hnext
    cases hnext with
    | some hrenumbers =>
        rw [h.step] at hstep
        obtain ⟨rfl, -⟩ := of_afterRun hstep
        exact hrenumbers.replies (keepsOrder_movedUp middle _) rest

/-- When the first text has been run, the second one is loaded in the world in which it is run below
the first one. -/
theorem Accepts.loaded_after {budget : Nat} {next : Session}
    (hstep : session.step budget id first = some (next, [])) :
    next.Accepts second program' last ∧
      next.loaded program' last = { (session.loaded program middle).loaded program' last with
        world := (((session.loaded program middle).loaded program' last).running program
          budget).world } := by
  have hreached' := hreached.step .script hstep
  rw [h.step] at hstep
  obtain ⟨rfl, -⟩ := of_afterRun hstep
  rw [noting_nil] at hreached' ⊢
  let machine := (session.loaded program middle).running program budget
  let next := { session.loaded program middle with world := machine.world }
  have hnext : next.Accepts second program' last :=
    ⟨h'.unblocked, h'.lexical, h'.read, h'.clean⟩
  obtain ⟨recorded, -, hloaded⟩ := hreached'.renumbers_of_compile hnext.compile
  have hrecorded : recorded =
      ((session.loaded program middle).loaded program' last).world.distances := by
    have hdistances := congrArg (fun session : Session => session.world.distances) hloaded
    refine hdistances.symm.trans ?_
    have hkept : machine.world.distances = (session.loaded program middle).world.distances :=
      Machine.distances_runFor _ budget
    exact congrArg (fun distances : Distances => distances.recordAll program'.findings) hkept
  have hworld : (next.loaded program' last).world =
      (((session.loaded program middle).loaded program' last).running program budget).world := by
    rw [h.running_loaded h' hreached, ← hrecorded]
    exact congrArg Session.world hloaded
  refine ⟨hnext, ?_⟩
  rw [← hworld]
  rfl

/-- Behind a program that has come to its end the joined text runs in the world that is left. -/
theorem Accepts.running_join {budget : Nat} {next : Session}
    (hstep : session.step budget id first = some (next, [])) :
    ∃ steps, ∀ more,
      ((session.loaded program middle).loaded program' last).running
          (program ++ program'.mapLine (· + linesAbove first)) (steps + more) =
        (next.loaded program' last).running (program'.mapLine (· + linesAbove first)) more := by
  obtain ⟨-, hloaded⟩ := h.loaded_after h' hreached hstep
  rw [h.step] at hstep
  obtain ⟨-, ⟨-, completion, houtcome⟩ | ⟨hfailed, -⟩⟩ := of_afterRun hstep
  · have hnormal : (((session.loaded program middle).loaded program' last).running program
        budget).outcome? = some (.ok .normal) := by
      rw [h.running_loaded h' hreached, Machine.outcome?_relabel_eq_normal, houtcome]
      cases completion with
      | normal => rfl
      | returned value => exact absurd houtcome (Machine.outcome?_start_ne_returned h.clean _ _ _ _)
    rw [hloaded]
    exact Machine.runFor_append_of_normal _ program _ hnormal
  · exact absurd rfl hfailed

end

/-! ## Lines of a fresh session -/

/-- In a world in which no line changes a program on other lines runs in the same way. -/
theorem running_mapLine {session : Session} {lines : Nat → Nat}
    (hstore : session.world.store.relabel (.ofLines lines) = session.world.store)
    (program : Program) (budget : Nat) :
    session.running (program.mapLine lines) budget =
      (session.running program budget).relabel (.ofLines lines) session.world.distances := by
  let start := Machine.start session.world Store.globalEnv program
  have hstart : start.relabel (.ofLines lines) session.world.distances =
      Machine.start
        { session.world with store := session.world.store.relabel (.ofLines lines) }
        Store.globalEnv (program.mapLine lines) := rfl
  have hrun : (start.relabel (.ofLines lines) session.world.distances).runFor budget = _ :=
    Machine.runFor_relabel (fun _ => rfl) budget
  rw [hstart, hstore] at hrun
  exact hrun

section

variable {capacity : Option Nat} {reading : Nat → Float} {first second : String}
  {program program' : Program} {middle last : NodeId} {budget : Nat} {next : Session}
  {diagnostics : List Diagnostic}

/-- Lines that stay in the tokens of a text stay in all that comes of its run. -/
theorem Accepts.running_relabel_eq_self
    (h : (initial capacity reading).Accepts first program middle)
    {lines : Nat → Nat} (hlines : ∀ token ∈ (ofSource first).tokens, lines token.line = token.line)
    (budget : Nat) :
    let loaded := (initial capacity reading).loaded program middle
    (loaded.running program budget).relabel (.ofLines lines) loaded.world.distances =
      loaded.running program budget := by
  intro loaded
  have hstore : loaded.world.store.relabel (.ofLines lines) = loaded.world.store :=
    Store.relabel_initial _
  have hrun := running_mapLine hstore program budget
  rw [Program.mapLine_eq_self h.read hlines] at hrun
  exact hrun.symm

/-- The lines that are reported for the run of a text are lines of its tokens. -/
theorem Accepts.line_of_runtime (h : (initial capacity reading).Accepts first program middle)
    (hstep : (initial capacity reading).step budget id first = some (next, diagnostics))
    {fault : RuntimeFault} (hfault : .runtime fault ∈ diagnostics) :
    ∃ token ∈ (ofSource first).tokens, token.line = fault.line := by
  -- All other lines may be changed, and the run stays as it is.
  classical
  let lines (line : Nat) : Nat :=
    if ∃ token ∈ (ofSource first).tokens, token.line = line then line else line + 1
  let loaded := (initial capacity reading).loaded program middle
  have hlines : ∀ token ∈ (ofSource first).tokens, lines token.line = token.line :=
    fun token htoken => if_pos ⟨token, htoken, rfl⟩
  have hrun := h.running_relabel_eq_self hlines budget
  have hafter : loaded.afterRun _ = _ := (congrArg loaded.afterRun hrun.symm).trans
    (afterRun_relabel (.ofLines lines) loaded.world.distances middle loaded _)
  rw [h.step] at hstep
  rw [hstep] at hafter
  have hdiagnostics : diagnostics.map id = diagnostics.map (Diagnostic.mapLine lines) := by
    rw [List.map_id]
    exact congrArg Prod.snd (Option.some.inj hafter)
  have hline : lines fault.line = fault.line := by
    have hsame := List.map_inj_left.1 hdiagnostics _ hfault
    exact (congrArg RuntimeFault.line (Diagnostic.runtime.inj hsame)).symm
  by_contra hnone
  rw [show lines fault.line = fault.line + 1 from if_neg hnone] at hline
  omega

end

end Session

/-! ## Replies -/

/-- What is seen, with diagnostics on other lines. -/
def Reply.mapLine (lines : Nat → Nat) (reply : Reply) : Reply :=
  { reply with
    verdict := reply.verdict.map fun verdict =>
      { verdict with diagnostics := verdict.diagnostics.map (Diagnostic.mapLine lines) } }

namespace Session

/-- What is seen of a machine that runs a program of the session. -/
def seen (session : Session) (machine : Machine) : Reply where
  output := machine.world.output
  verdict := (session.afterRun machine).map fun (next, diagnostics) => next.verdict diagnostics

theorem seen_relabel (r : Relabeling) (recorded : Distances) (session : Session)
    (machine : Machine) :
    session.seen (machine.relabel r recorded) = (session.seen machine).mapLine r.lines := by
  have hrun := afterRun_relabel r recorded session.nextId session machine
  have hsame : (session.relabel r recorded session.nextId).afterRun (machine.relabel r recorded) =
      session.afterRun (machine.relabel r recorded) := rfl
  rw [hsame] at hrun
  rw [seen, hrun, Option.map_map, seen, Reply.mapLine, Option.map_map]
  rfl

theorem Accepts.reply {session : Session} {source : String} {program : Program} {nextId : NodeId}
    (h : session.Accepts source program nextId) (budget : Nat) :
    session.reply budget id source = (session.loaded program nextId).seen
      ((session.loaded program nextId).running program budget) := by
  rw [Session.reply, h.step, h.worldAfter]
  rfl

section

variable {capacity : Option Nat} {reading : Nat → Float} {first second : String}
  {program program' : Program} {middle last : NodeId}

/-- Below a text that has come to its end in a fresh session another one is seen as it is seen
behind it, but for the lines of its tokens. -/
theorem Accepts.reply_below (h : (initial capacity reading).Accepts first program middle)
    (h' : ((initial capacity reading).loaded program middle).Accepts second program' last)
    {budget : Nat} {next : Session}
    (hstep : (initial capacity reading).step budget id first = some (next, [])) :
    ∃ steps, ∀ more, next.reply more id second =
      ((initial capacity reading).reply (steps + more) id (first ++ "\n" ++ second)).mapLine
        (ownLine (linesAbove first)) := by
  have hreached : (initial capacity reading).Reached .initial := .initial capacity reading
  obtain ⟨steps, hjoin⟩ := h.running_join h' hreached hstep
  obtain ⟨hnext, hloaded⟩ := h.loaded_after h' hreached hstep
  refine ⟨steps, fun more => ?_⟩
  have hstore : (next.loaded program' last).world.store.relabel
      (.ofLines (ownLine (linesAbove first))) = (next.loaded program' last).world.store := by
    rw [h.step] at hstep
    obtain ⟨rfl, -⟩ := of_afterRun hstep
    have hrun := h.running_relabel_eq_self
      (fun token htoken => ownLine_of_le (line_le_linesAbove htoken)) budget
    exact congrArg (fun machine : Machine => machine.world.store) hrun
  have hrun := running_mapLine hstore (program'.mapLine (· + linesAbove first)) more
  rw [Program.mapLine_ownLine_below h'.read] at hrun
  have hseen (machine : Machine) : (next.loaded program' last).seen machine =
      (((initial capacity reading).loaded program middle).loaded program' last).seen machine := by
    rw [hloaded]
    rfl
  rw [hnext.reply, (h.join h').reply, loaded_append, hjoin, hrun, hseen]
  exact seen_relabel _ _ _ _

/-- Two source texts without faults are run in a fresh session in one piece, with a newline in
between, as they are run one after the other.  The tokens of the second text are further down, below
those of the first one, and the lines that are reported for the run are lines of tokens.  If the
first text is run without a fault, then from some moment on the joined text is seen as the second
one is seen behind the first one, but for the lines of its tokens.  If the first text fails, the
joined text is seen as the first one, and so is all that is done later. -/
theorem reply_join {first second : String} (hfirst : sourceFaults first = [])
    (hsecond : sourceFaults second = []) (capacity : Option Nat) (reading : Nat → Float)
    {budget : Nat} {next : Session} {diagnostics : List Diagnostic}
    (hrun : (initial capacity reading).runScript budget first = some (next, diagnostics)) :
    let fresh := initial capacity reading
    let joined := first ++ "\n" ++ second
    let above := linesAbove first
    ((ofSource joined).tokens =
        (ofSource first).tokens ++ (ofSource second).tokens.map (Token.mapLine (· + above)) ∧
      (∀ token ∈ (ofSource first).tokens, token.line ≤ above) ∧
      (∀ token ∈ (ofSource second).tokens, above < token.line + above) ∧
      ∀ budget ended diagnostics, fresh.runScript budget joined = some (ended, diagnostics) →
        ∀ fault, .runtime fault ∈ diagnostics →
          ∃ token ∈ (ofSource joined).tokens, token.line = fault.line) ∧
    (diagnostics = [] → ∃ steps, ∀ more, next.reply more id second =
      (fresh.reply (steps + more) id joined).mapLine (ownLine above)) ∧
    (diagnostics ≠ [] → ∀ budget rest,
      fresh.replies (.script budget joined :: rest) =
        fresh.replies (.script budget first :: rest)) := by
  intro fresh joined above
  obtain ⟨program, middle, h⟩ := @accepts_of_sourceFaults fresh rfl first hfirst
  obtain ⟨program', last, h'⟩ :=
    @accepts_of_sourceFaults (fresh.loaded program middle) rfl second hsecond
  refine ⟨⟨?_, ?_, ?_, ?_⟩, ?_, ?_⟩
  · exact (ofSource_join second h.lexical).1
  · intro token htoken
    exact line_le_linesAbove htoken
  · intro token htoken
    exact Nat.lt_add_of_pos_left (line_of_mem_tokens htoken).1
  · intro budget ended diagnostics hrun fault hfault
    exact (h.join h').line_of_runtime hrun hfault
  · rintro rfl
    exact h.reply_below h' hrun
  · intro hdiagnostics more rest
    apply h.replies_join h' (.initial capacity reading)
    intro hnormal
    rw [runScript, h.step] at hrun
    obtain ⟨-, ⟨hnone, -⟩ | ⟨-, failure, hfailed⟩⟩ := of_afterRun hrun
    · exact hdiagnostics hnone
    · have hsame := Machine.runFor_eq_of_isSome (Option.isSome_of_eq_some hnormal)
        (Option.isSome_of_eq_some hfailed)
      rw [running, hsame] at hnormal
      rw [running, hnormal] at hfailed
      cases hfailed

/-- A function that is declared in one text fails when it is called in another one; and a text that
fails keeps the other one from being run. -/
theorem reply_join_initial :
    let fresh := initial none fun _ => 0
    let declaring := "var a;\nfun f() { print missing; }"
    let failing := "print missing;"
    let second := "print 1;\nf();"
    sourceFaults declaring = [] ∧ sourceFaults failing = [] ∧ sourceFaults second = [] ∧
      (∃ next, fresh.runScript 10 declaring = some (next, []) ∧
        ∃ steps, ∀ more, next.reply more id second =
          (fresh.reply (steps + more) id (declaring ++ "\n" ++ second)).mapLine (ownLine 2)) ∧
      ∃ next, fresh.runScript 10 failing =
          some (next, [.runtime ⟨.undefinedVariable "missing", 1⟩]) ∧
        ∀ budget rest, fresh.replies (.script budget (failing ++ "\n" ++ second) :: rest) =
          fresh.replies (.script budget failing :: rest) := by
  intro fresh declaring failing second
  have hdeclaring : sourceFaults declaring = [] := by decide +kernel
  have hfailing : sourceFaults failing = [] := by decide +kernel
  have hsecond : sourceFaults second = [] := by decide +kernel
  have habove : linesAbove declaring = 2 := by decide +kernel
  have hended : (fresh.runScript 10 declaring).map Prod.snd = some [] := by decide +kernel
  have hfailed : (fresh.runScript 10 failing).map Prod.snd =
      some [.runtime ⟨.undefinedVariable "missing", 1⟩] := by decide +kernel
  obtain ⟨⟨next, diagnostics⟩, hnext, rfl⟩ := Option.map_eq_some_iff.1 hended
  obtain ⟨⟨next', diagnostics'⟩, hnext', hdiagnostics⟩ := Option.map_eq_some_iff.1 hfailed
  obtain ⟨-, hjoined, -⟩ := reply_join hdeclaring hsecond none _ hnext
  obtain ⟨-, -, hstopped⟩ := reply_join hfailing hsecond none _ hnext'
  rw [habove] at hjoined
  cases hdiagnostics
  refine ⟨hdeclaring, hfailing, hsecond, ⟨next, hnext, hjoined rfl⟩, next', hnext', ?_⟩
  exact hstopped (List.cons_ne_nil _ _)

end

end Session

end LoxLang
