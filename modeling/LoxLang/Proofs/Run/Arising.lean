import LoxLang.Proofs.Run.Session

/-!
# Programs that need not be resolved

A program that has been read can be run although it has static faults, or although it has not been
resolved, or in a world in which other distances are recorded than those that belong to it.  The
runs that arise in this way include those of sessions (`Run.Occurs.arises`).
-/

namespace LoxLang

/-- A program that has been read from a source text, as it is run.  The text may have lexical
faults, and the program static ones. -/
inductive Program.Written : Program → Prop
  | mk {source : String} {nextId next : NodeId} {prepare : Program → Program} {program : Program} :
      Prepares prepare →
      Program.parse (TokenStream.ofSource source).tokens (TokenStream.ofSource source).endLine
        nextId = ⟨.ok program, next⟩ →
      Written (prepare program)

theorem Program.Written.formed {program : Program} (h : program.Written) :
    program.Formed Token.Genuine := by
  cases h with
  | @mk source nextId next prepare program hprepare hparse =>
      have hresult : (Program.parse (TokenStream.ofSource source).tokens
          (TokenStream.ofSource source).endLine nextId).result = .ok program := by rw [hparse]
      obtain ⟨hderives, -⟩ := Program.derives_of_parse_eq_ok hresult
      have hformed : program.Formed Token.Genuine :=
        hderives.formed fun token htoken => TokenStream.genuine_of_mem_tokens htoken
      cases hprepare with
      | script => exact hformed
      | line => exact Program.Formed.echoing hformed

namespace Run

/-- The runs that there can be if programs need not be resolved, at every moment.  What is recorded
about their names, the output and the clock may be anything when a program is started; the variables
and fields are as they were left.

A run ends with a `return` outside all calls.  The statements behind it, if they are executed all
the same, are a program that is run next. -/
inductive Arises : Run → Prop
  | first {world : World} {program : Program} : world.store = .initial → program.Written →
      Arises (.start .initial world program)
  | step {run : Run} : Arises run → Arises run.step
  | next {run : Run} {world : World} {program : Program} : Arises run →
      world.store = run.machine.world.store → program.Written →
      Arises (.start run.past world program)

theorem Arises.runFor {run : Run} (h : run.Arises) (budget : Nat) :
    (run.runFor budget).Arises := by
  induction budget generalizing run with
  | zero => exact h
  | succ budget ih =>
      rw [Run.runFor]
      split
      · exact h
      · exact ih h.step

end Run

/-! ## Sessions -/

theorem Session.written_of_compile {session compiled : Session} {source : String}
    {diagnostics : List Diagnostic} {program : Program}
    (h : session.compile source = (compiled, diagnostics, some program))
    {prepare : Program → Program} (hprepare : Prepares prepare) : (prepare program).Written := by
  let stream := TokenStream.ofSource source
  rcases hparse : Program.parse stream.tokens stream.endLine session.nextId with ⟨result, next⟩
  unfold compile at h
  dsimp only at h
  rw [hparse] at h
  cases result with
  | error faults => cases h
  | ok found =>
      dsimp only at h
      split at h
      · cases h
      · split at h
        · cases h
          exact .mk hprepare hparse
        · cases h

/-- What a session has come to is where a program can be started. -/
theorem Session.Reached.arises_start {session : Session} {past : Past} (h : session.Reached past)
    {world : World} (hworld : world.store = session.world.store) {program : Program}
    (hprogram : program.Written) : (Run.start past world program).Arises := by
  induction h generalizing world program with
  | initial capacity reading => exact .first hworld hprogram
  | @step session next past budget prepare source diagnostics _ hprepare hstep ih =>
      obtain ⟨compiled, found, program?, hcompile, -, hnext⟩ := of_step hstep
      have hstore := (Session.compiles hcompile).store
      rcases hnext with ⟨rfl, hnext⟩ | ⟨ran, rfl, hnext⟩
      · rw [Past.after, hcompile]
        exact ih (by rw [hworld, hnext, hstore]) hprogram
      · rw [Past.after, hcompile]
        have hran := (ih hstore (written_of_compile hcompile hprepare)).runFor budget
        refine .next hran ?_ hprogram
        rw [hworld, hnext, Run.machine_runFor]
        rfl
  | forget _ ih => exact ih hworld hprogram
  | write output _ ih => exact ih hworld hprogram

namespace Run

/-- The runs of sessions are among those that can arise. -/
theorem Occurs.arises {run : Run} (h : run.Occurs) : run.Arises := by
  induction h with
  | start hreached hprepare hcompile =>
      exact hreached.arises_start (Session.compiles hcompile).store
        (Session.written_of_compile hcompile hprepare)
  | step _ ih => exact ih.step

end Run

end LoxLang
