import LoxLang.Proofs.Run.Writing
import LoxLang.Proofs.Session.Reply

/-!
# Sessions with a limit for their output

A script runs in the same way whether there is a limit for the output or not, as long as the output
is within the limit.  If it is not, the run stops where the first byte does not fit, whatever it
would have done behind that: the bytes that fit are written, and that there is no room for more is
all that is reported.
-/

namespace LoxLang

namespace World

/-- A world with a limit for all that is written in it. -/
def limitedTo (world : World) (limit : Nat) : World :=
  world.withOutput (world.output.limitedTo limit)

end World

namespace Session

/-- A session with a limit for all that is written in it. -/
def limitedTo (session : Session) (limit : Nat) : Session :=
  { session with world := session.world.limitedTo limit }

/-- What has been written when a script has come to its end or used up its budget. -/
def writtenBy (session : Session) (source : String) (budget : Nat) : ByteArray :=
  (session.worldAfter budget id source).output.written

section

variable (session : Session) (limit : Nat)

/-- Compiling a text does not depend on a limit. -/
theorem compile_limitedTo (source : String) :
    (session.limitedTo limit).compile source =
      ((session.compile source).1.limitedTo limit, (session.compile source).2) := by
  unfold compile
  dsimp only
  have hnextId : (session.limitedTo limit).nextId = session.nextId := rfl
  have hadError : (session.limitedTo limit).hadError = session.hadError := rfl
  rw [hnextId, hadError]
  split
  · rfl
  · split
    · rfl
    · split <;> rfl

theorem afterRun_limitedTo (machine : Machine) :
    (session.limitedTo limit).afterRun (machine.limitedTo limit) =
      (session.afterRun machine).map fun (next, diagnostics) =>
        (next.limitedTo limit, diagnostics) := by
  have houtcome : (machine.limitedTo limit).outcome? = machine.outcome? := rfl
  rw [afterRun, afterRun, houtcome, Option.map_map]
  cases machine.outcome? <;> rfl

/-- What is left when a run fails. -/
theorem afterRun_of_error {machine : Machine} {failure : Failure}
    (h : machine.outcome? = some (.error failure)) :
    session.afterRun machine =
      some ({ session with world := machine.world }.noting [.ofFailure failure],
        [.ofFailure failure]) := by
  rw [afterRun, h]
  rfl

end

section

variable {session compiled : Session} {source : String} {diagnostics : List Diagnostic}
  {program : Program}
  (hcompile : session.compile source = (compiled, diagnostics, some program))

include hcompile

/-- A program that may run is run under the limit. -/
theorem limitedTo_of_compile (limit budget : Nat) :
    let machine := ((Machine.start compiled.world Store.globalEnv program).limitedTo limit).runFor
      budget
    (session.limitedTo limit).worldAfter budget id source = machine.world ∧
      (session.limitedTo limit).runScript budget source =
        (compiled.limitedTo limit).afterRun machine := by
  have hlimited := session.compile_limitedTo limit source
  rw [hcompile] at hlimited
  exact ⟨worldAfter_of_compile hlimited budget id, step_of_compile hlimited budget id⟩

end

/-- As long as the output is within the limit everything is the same under it. -/
theorem runScript_limitedTo {session : Session} (hnone : session.world.output.capacity = none)
    {source : String} {limit budget : Nat}
    (hfits : (session.worldAfter budget id source).output.written.size ≤ limit) :
    (session.limitedTo limit).worldAfter budget id source =
        (session.worldAfter budget id source).limitedTo limit ∧
      (session.limitedTo limit).runScript budget source =
        (session.runScript budget source).map fun (next, diagnostics) =>
          (next.limitedTo limit, diagnostics) := by
  rcases hcompile : session.compile source with ⟨compiled, diagnostics, none | program⟩
  · have hlimited := session.compile_limitedTo limit source
    rw [hcompile] at hlimited
    rw [worldAfter, hlimited, worldAfter, hcompile, runScript, step, hlimited, runScript, step,
      hcompile]
    exact ⟨rfl, rfl⟩
  · have hnone' : compiled.world.output.capacity = none := by
      rw [(of_compile hcompile).1]
      exact hnone
    let machine := Machine.start compiled.world Store.globalEnv program
    have hworld : session.worldAfter budget id source = (machine.runFor budget).world :=
      worldAfter_of_compile hcompile budget id
    have hscript : session.runScript budget source =
        compiled.afterRun (machine.runFor budget) := step_of_compile hcompile budget id
    obtain ⟨hworld', hscript'⟩ := limitedTo_of_compile hcompile limit budget
    rw [hworld] at hfits
    rw [hworld', hscript', Machine.runFor_limitedTo hnone' hfits, afterRun_limitedTo, hworld,
      hscript]
    exact ⟨rfl, rfl⟩

/-- If the output passes the limit then the run stops at the first byte that does not fit. -/
theorem runScript_limitedTo_of_lt {session : Session}
    (hnone : session.world.output.capacity = none) {source : String} {limit budget : Nat}
    (hroom : session.world.output.written.size ≤ limit)
    (hfull : limit < (session.worldAfter budget id source).output.written.size) :
    ∃ moment < budget,
      (session.worldAfter moment id source).output.written.size ≤ limit ∧
      limit < (session.worldAfter (moment + 1) id source).output.written.size ∧
      let stopped := (session.worldAfter moment id source).withOutput
        ((session.worldAfter budget id source).output.cutTo limit)
      (∀ later > moment, (session.limitedTo limit).worldAfter later id source = stopped) ∧
      ∃ enough, ∀ later ≥ enough, ∃ next,
        (session.limitedTo limit).runScript later source = some (next, [.outputFull]) ∧
        next.world = stopped ∧ next.hadError = true ∧
        next.hadRuntimeError = session.hadRuntimeError := by
  rcases hcompile : session.compile source with ⟨compiled, diagnostics, none | program⟩
  · rw [worldAfter, hcompile, (of_compile hcompile).1] at hfull
    exact absurd hroom (Nat.not_le.2 hfull)
  · have houtput : compiled.world.output = session.world.output := by
      rw [(of_compile hcompile).1]
    let machine := Machine.start compiled.world Store.globalEnv program
    have hworld (budget : Nat) : session.worldAfter budget id source =
        (machine.runFor budget).world := worldAfter_of_compile hcompile budget id
    rw [hworld] at hfull
    obtain ⟨moment, hmoment, hbefore, hafter, hcut, hlater⟩ := Machine.runFor_limitedTo_of_lt
      (houtput ▸ hnone : machine.world.output.capacity = none) (houtput ▸ hroom) hfull
    let cut := (machine.runFor moment).cutOff limit
    have hfailed : cut.control = .failed .outputFull := rfl
    simp only [hworld]
    refine ⟨moment, hmoment, hbefore, hafter, ?_, moment + 1 + cut.frames.length, ?_⟩
    · intro later hlate
      obtain ⟨more, rfl⟩ := Nat.exists_eq_add_of_le (Nat.succ_le_of_lt hlate)
      obtain ⟨hlimited, -⟩ := limitedTo_of_compile hcompile limit (moment + 1 + more)
      rw [hlimited, hlater, (Machine.runFor_of_failed hfailed more).1]
      exact hcut
    · intro later henough
      obtain ⟨more, rfl⟩ := Nat.exists_eq_add_of_le henough
      rw [Nat.add_assoc]
      obtain ⟨-, hscript⟩ :=
        limitedTo_of_compile hcompile limit (moment + 1 + (cut.frames.length + more))
      obtain ⟨hleft, hended⟩ := Machine.runFor_of_failed hfailed (cut.frames.length + more)
      rw [hlater, afterRun_of_error _ (hended (Nat.le_add_right _ _)), hleft] at hscript
      refine ⟨_, hscript, hcut, Bool.or_true _, ?_⟩
      show (compiled.hadRuntimeError || false) = _
      rw [Bool.or_false, (of_compile hcompile).1]

/-- A script that is run in a fresh session with room for `limit` bytes.  As long as it does not
write more than that without a limit, it does the same.  If it does, be it in a run without end, the
run with the limit stops: exactly the first bytes are written, the variables and fields, the clock
and all else stay as they were at that moment, and the only thing that is reported is that there is
no room. -/
theorem runScript_initial_limited (source : String) (limit : Nat) (reading : Nat → Float)
    (budget : Nat) :
    let free := initial none reading
    let limited := initial (some limit) reading
    let out := free.writtenBy source
    ((out budget).size ≤ limit →
      limited.worldAfter budget id source = (free.worldAfter budget id source).limitedTo limit ∧
      limited.runScript budget source =
        (free.runScript budget source).map fun (next, diagnostics) =>
          (next.limitedTo limit, diagnostics)) ∧
    (limit < (out budget).size →
      ∃ moment < budget, (out moment).size ≤ limit ∧ limit < (out (moment + 1)).size ∧
        let stopped := (free.worldAfter moment id source).withOutput
          ⟨(out budget).extract 0 limit, some limit⟩
        (∀ later > moment, limited.worldAfter later id source = stopped) ∧
        ∃ enough, ∀ later ≥ enough, ∃ next,
          limited.runScript later source = some (next, [.outputFull]) ∧
          next.world = stopped ∧ next.hadError = true ∧ next.hadRuntimeError = false) ∧
    Diagnostic.report [.outputFull] = "sink full\n" := by
  intro free limited out
  refine ⟨fun hfits => ?_, fun hfull => ?_, rfl⟩
  · exact runScript_limitedTo rfl hfits
  · exact runScript_limitedTo_of_lt rfl (Nat.zero_le limit) hfull

/-- A loop without end is stopped in the middle of its second line. -/
theorem runScript_initial_limited_loop :
    let source := "while (true) print \"ab\";"
    let free := initial none fun _ => 0
    let limited := initial (some 4) fun _ => 0
    let out := free.writtenBy source
    (out 8).size ≤ 4 ∧ limited.worldAfter 8 id source = (free.worldAfter 8 id source).limitedTo 4 ∧
      4 < (out 16).size ∧ (out 16).extract 0 4 = "ab\na".toUTF8 ∧
      ∃ moment < 16, (out moment).size ≤ 4 ∧ 4 < (out (moment + 1)).size ∧
        let stopped := (free.worldAfter moment id source).withOutput
          ⟨(out 16).extract 0 4, some 4⟩
        (∀ later > moment, limited.worldAfter later id source = stopped) ∧
        ∃ enough, ∀ later ≥ enough, ∃ next,
          limited.runScript later source = some (next, [.outputFull]) ∧
          next.world = stopped ∧ next.hadError = true ∧ next.hadRuntimeError = false := by
  intro source free limited out
  have hfits : (out 8).size ≤ 4 := by decide +kernel
  have hfull : 4 < (out 16).size := by decide +kernel
  have hbytes : (out 16).extract 0 4 = "ab\na".toUTF8 := by decide +kernel
  have hbefore := runScript_initial_limited source 4 (fun _ => 0) 8
  have hlater := runScript_initial_limited source 4 (fun _ => 0) 16
  exact ⟨hfits, (hbefore.1 hfits).1, hfull, hbytes, hlater.2.1 hfull⟩

end Session

end LoxLang
