import LoxLang.Proofs.Session.Discipline

/-!
# Rejected texts

A text with a fault in it is not run, but reading it takes numbers away and resolving it may record
distances.  Nothing of that is ever seen: the values of a session only hold numbers that were given
out before, so the session in which the text was rejected is the same one with all numbers to come
moved up.
-/

namespace LoxLang

/-! ## Numbers that are moved up -/

/-- Moves the numbers from `start` on up by some distance. -/
def movedUp (start distance id : Nat) : Nat :=
  if id < start then id else id + distance

theorem movedUp_of_lt {start distance id : Nat} (h : id < start) :
    movedUp start distance id = id :=
  if_pos h

theorem movedUp_of_le {start distance id : Nat} (h : start ≤ id) :
    movedUp start distance id = id + distance :=
  if_neg (Nat.not_lt.2 h)

theorem keepsOrder_movedUp (start distance : Nat) : KeepsOrder (movedUp start distance) start := by
  constructor
  · show ∀ first second : Nat, movedUp start distance first = movedUp start distance second →
      first = second
    intro first second heq
    unfold movedUp at heq
    split at heq <;> split at heq <;> omega
  · intro id hid
    rw [movedUp_of_le hid, movedUp_of_le (Nat.le_succ_of_le hid)]
    exact Nat.add_right_comm id 1 distance

namespace Session

variable {session : Session} {past : Past}

/-- Nothing is recorded under numbers that have not been given out. -/
theorem Sound.agrees (h : session.Sound past) {ids : NodeId → NodeId}
    (hids : Function.Injective ids) (hfixed : ∀ id < session.nextId, ids id = id) :
    (Relabeling.ofIds ids).Agrees session.world.distances session.world.distances := by
  intro id
  show session.world.distances[ids id]? = session.world.distances[id]?
  by_cases hid : id < session.nextId
  · rw [hfixed id hid]
  · have hmoved : session.nextId ≤ ids id := by
      by_contra hlt
      have hsame : ids id = id := hids (hfixed (ids id) (Nat.lt_of_not_le hlt))
      rw [hsame] at hlt
      exact hid (Nat.lt_of_not_le hlt)
    rw [h.recorded.fresh id (Nat.le_of_not_lt hid), h.recorded.fresh (ids id) hmoved]

/-- The values of a session only hold numbers that have been given out. -/
theorem Reached.store_relabel (h : session.Reached past) {ids : NodeId → NodeId}
    (hids : Function.Injective ids) (hfixed : ∀ id < session.nextId, ids id = id) :
    session.world.store.relabel (.ofIds ids) = session.world.store := by
  induction h with
  | initial capacity reading => exact Store.relabel_initial _
  | @step session next past budget prepare source diagnostics hreached hprepare hstep ih =>
      obtain ⟨compiled, found, program?, hcompile, hnextId, hworld⟩ := of_step hstep
      have hcompiles := compiles hcompile
      have hstore : compiled.world.store.relabel (.ofIds ids) = compiled.world.store := by
        rw [hcompiles.store]
        exact ih fun id hid => hfixed id (Nat.lt_of_lt_of_le hid (le_nextId_of_step hstep))
      rcases hworld with ⟨rfl, hworld⟩ | ⟨program, rfl, hworld⟩
      · rw [hworld, hstore]
      · rw [hnextId] at hfixed
        have hagrees := (hreached.sound.compile hcompiles).agrees hids hfixed
        obtain ⟨-, hparse⟩ := (of_compile hcompile).2 program rfl
        obtain ⟨-, hfresh⟩ := Program.derives_of_parse_eq_ok (congrArg Parsed.result hparse)
        rw [hparse] at hfresh
        have hprogram : (prepare program).relabel (.ofIds ids) = prepare program := by
          rw [← hprepare.relabel]
          exact congrArg prepare
            (program.relabel_eq_self fun id hid => hfixed id (hfresh.lt id hid))
        let start := Machine.start compiled.world Store.globalEnv (prepare program)
        have hstart : start.relabel (.ofIds ids) compiled.world.distances = start := by
          have hstarted : start.relabel (.ofIds ids) compiled.world.distances =
              Machine.start { compiled.world with
                store := compiled.world.store.relabel (.ofIds ids) } Store.globalEnv
                ((prepare program).relabel (.ofIds ids)) := rfl
          rw [hstarted, hstore, hprogram]
        have hrun := Machine.runFor_relabel_eq_self hagrees hstart budget
        rw [hworld]
        exact congrArg (fun machine : Machine => machine.world.store) hrun
  | forget _ ih => exact ih hfixed
  | write _ _ ih => exact ih hfixed

/-! ## Texts with faults -/

/-- A text with faults does not run. -/
theorem compile_of_sourceFaults (session : Session) {source : String}
    (h : sourceFaults source ≠ []) :
    ∃ compiled diagnostics, session.compile source = (compiled, diagnostics, none) := by
  obtain ⟨compiled, program?, hcompile, hprogram⟩ := session.compile_faultsIn source
  obtain rfl := hprogram.2 (.inr h)
  exact ⟨compiled, session.faultsIn source, hcompile⟩

/-- Compiling a text moves the numbers to come up, and does nothing else. -/
theorem Sound.renumbers_of_compile (h : session.Sound past) {compiled : Session}
    {source : String} {diagnostics : List Diagnostic} {program? : Option Program}
    (hcompile : session.compile source = (compiled, diagnostics, program?))
    (hstore : session.world.store.relabel
        (.ofIds (movedUp session.nextId (compiled.nextId - session.nextId))) =
      session.world.store) :
    session.Renumbers (movedUp session.nextId (compiled.nextId - session.nextId)) compiled := by
  have hcompiles := compiles hcompile
  obtain ⟨findings, hfresh, hdistances, -⟩ := hcompiles.resolved
  have hnextId : movedUp session.nextId (compiled.nextId - session.nextId) session.nextId =
      compiled.nextId := by
    rw [movedUp_of_le (Nat.le_refl _), Nat.add_sub_of_le hcompiles.le]
  refine ⟨compiled.world.distances, ?_, ?_⟩
  · intro id
    show compiled.world.distances[movedUp session.nextId _ id]? = session.world.distances[id]?
    rw [hdistances]
    by_cases hid : id < session.nextId
    · rw [movedUp_of_lt hid]
      apply Distances.getElem?_recordAll_of_not_mem
      intro hmem
      exact absurd hid (Nat.not_lt.2 (hfresh.ge id hmem))
    · have hle := Nat.le_of_not_lt hid
      have hmoved : compiled.nextId ≤ id + (compiled.nextId - session.nextId) := by
        have hsum := Nat.add_sub_of_le hcompiles.le
        exact hsum.symm.le.trans (Nat.add_le_add_right hle _)
      rw [movedUp_of_le hle, h.recorded.fresh id hle, Distances.getElem?_recordAll_of_not_mem]
      · exact h.recorded.fresh _ (hcompiles.le.trans hmoved)
      · intro hmem
        exact absurd (hfresh.lt _ hmem) (Nat.not_lt.2 hmoved)
  · rw [(of_compile hcompile).1]
    show _ = Session.mk { session.world with
      store := session.world.store.relabel _
      distances := compiled.world.distances } (movedUp session.nextId _ session.nextId) _ _
    rw [hnextId, hstore]

theorem Reached.renumbers_of_compile (h : session.Reached past) {compiled : Session}
    {source : String} {diagnostics : List Diagnostic} {program? : Option Program}
    (hcompile : session.compile source = (compiled, diagnostics, program?)) :
    session.Renumbers (movedUp session.nextId (compiled.nextId - session.nextId)) compiled := by
  apply h.sound.renumbers_of_compile hcompile
  exact h.store_relabel (keepsOrder_movedUp _ _).injective fun id hid => movedUp_of_lt hid

/-- A text with faults writes nothing when it is run as a script or as a line, in whatever session,
and all that is seen of the session afterwards, when the faults have been forgotten, is what would
have been seen without it. -/
theorem Reached.replies_after_rejection (h : session.Reached past) {source : String}
    (hfaults : sourceFaults source ≠ []) {action : Action} (haction : action.source? = some source)
    (rest : List Action) :
    (session.perform action).2.output = session.world.output ∧
      ∃ rejected, (session.perform action).1 = some rejected ∧
        rejected.forget.replies rest = session.forget.replies rest := by
  obtain ⟨compiled, diagnostics, hcompile⟩ := session.compile_of_sourceFaults hfaults
  have hstep (budget : Nat) (prepare : Program → Program) :
      session.step budget prepare source = some (compiled.noting diagnostics, diagnostics) := by
    rw [Session.step, hcompile]
  have hworld (budget : Nat) (prepare : Program → Program) :
      session.worldAfter budget prepare source = compiled.world := by
    rw [worldAfter, hcompile]
  have houtput : compiled.world.output = session.world.output := by
    rw [(of_compile hcompile).1]
  have hrenumbers := (h.renumbers_of_compile hcompile).forget
  have hreplies : (compiled.noting diagnostics).forget.replies rest =
      session.forget.replies rest :=
    hrenumbers.replies (keepsOrder_movedUp _ _) rest
  cases action with
  | script budget text =>
      cases haction
      refine ⟨?_, compiled.noting diagnostics, ?_, hreplies⟩
      · rw [perform, reply, hworld, houtput]
      · rw [perform, runScript, hstep]
        rfl
  | line budget text =>
      cases haction
      refine ⟨?_, compiled.noting diagnostics, ?_, hreplies⟩
      · rw [perform, reply, hworld, houtput]
      · rw [perform, runLine, hstep]
        rfl
  | forget => cases haction

/-- In a fresh session a block records the distance of a local variable before its fault is
found. -/
theorem replies_after_rejection_initial :
    let session := initial none fun _ => 0
    let source := "{ var a; a; return; }"
    let rest := [Action.script 100 "fun f(a) { return a; } print f(1);", .line 100 "f(2)"]
    session.Reached .initial ∧ sourceFaults source ≠ [] ∧
      (Action.line 10 source).source? = some source ∧
      ∃ rejected, (session.perform (.line 10 source)).1 = some rejected ∧
        rejected.forget.replies rest = session.forget.replies rest := by
  intro session source rest
  have hreached : session.Reached .initial := .initial none _
  have hfaults : sourceFaults source ≠ [] := by decide +kernel
  have haction : (Action.line 10 source).source? = some source := rfl
  obtain ⟨-, hrejected⟩ := hreached.replies_after_rejection hfaults haction rest
  exact ⟨hreached, hfaults, haction, hrejected⟩

end Session

end LoxLang
