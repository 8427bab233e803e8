import LoxLang.Proofs.Run.Faults
import LoxLang.Proofs.Scope.Declarations

/-!
# Globals

The globals are what the declarations of programs bind outside all blocks and functions, and the
built-in functions.  Nothing else binds one, and nothing but an assignment to a name for which
resolution has found no scope sets one: code in a block or a function has a scope of its own that is
not that of the globals, and a recorded distance never leads so far out.
-/

namespace LoxLang

namespace Scene

variable {scene : Scene} {env : Env} {path : Path}

/-- No construct has the scope of the globals. -/
theorem Activates.eq_nil_of_head (h : scene.Activates env path)
    (hglobals : scene.openings[Store.globalScope]? = some .globals)
    (hscope : env.head? = some Store.globalScope) : path = [] := by
  cases path with
  | nil => rfl
  | cons enclosure outer =>
      obtain ⟨scope, opening, hhead, hopening, hne⟩ :=
        h.exists_scope_of_lt (Nat.succ_pos outer.length)
      rw [← List.head?_eq_getElem?] at hhead
      obtain rfl : scope = Store.globalScope := Option.some.inj (hhead.symm.trans hscope)
      exact absurd (Option.some.inj (hopening.symm.trans hglobals)) hne

theorem Activates.eq_globalEnv (h : scene.Activates env []) : env = Store.globalEnv := by
  cases h
  rfl

end Scene

theorem Current.eq_nil {env : Env} {active : List ScopeId} (h : Current env active []) :
    active = [] := by
  cases h
  rfl

/-! ## Steps -/

namespace Run

/-- The next step binds the name of a declaration that stands in a program of the session outside
all blocks and functions. -/
structure DeclaresGlobal (run : Run) (name : String) : Prop where
  declaration : ∃ program ∈ run.past.programs, ∃ statement ∈ program,
    statement.declared? = some name ∧ run.machine.Binds statement
  env : run.machine.env = Store.globalEnv
  active : run.active = []

/-- The next step assigns to an occurrence of a name for which resolution has found no scope. -/
structure AssignsGlobal (run : Run) (name : String) : Prop where
  target : ∃ target value frames, run.machine.control = .value value ∧
    run.machine.frames = .assign target :: frames ∧ target.name.lexeme = name ∧
    (∃ program ∈ run.past.programs, .binding target none ∈ program.findings) ∧
    run.machine.world.distances[target.id]? = none
  bound : (run.machine.world.store.binding? Store.globalScope name).isSome

variable {run : Run} {name : String}

/-- A run that binds the name of a declaration is at the place of one. -/
theorem InOrder.of_binds (h : run.InOrder) {statement : Stmt}
    (hbinds : run.machine.Binds statement) :
    ∃ program ∈ run.past.programs, ∃ path found, Located program path (.statement found) ∧
      found.declared? = statement.declared? ∧ run.machine.Binds found ∧
      run.scene.Activates run.machine.env path ∧ Current run.machine.env run.active path := by
  have hexecutes (hcontrol : run.machine.control = .execute statement) :
      ∃ program ∈ run.past.programs, ∃ path found, Located program path (.statement found) ∧
        found.declared? = statement.declared? ∧ run.machine.Binds found ∧
        run.scene.Activates run.machine.env path ∧ Current run.machine.env run.active path := by
    obtain ⟨program, hprogram, path, hlocated, hplace⟩ := h.sound.of_execute hcontrol
    exact ⟨program, hprogram, path, statement, hlocated, rfl, hbinds, hplace⟩
  cases hbinds with
  | plain hcontrol => exact hexecutes hcontrol
  | function hcontrol => exact hexecutes hcontrol
  | classDecl hcontrol => exact hexecutes hcontrol
  | subclass hcontrol _ => exact hexecutes hcontrol
  | initialized hcontrol hframes =>
      obtain ⟨site, hstands, -, hawaits, henv, hactive⟩ := h.sound.of_value hcontrol
      rw [hframes] at hawaits
      rw [henv, hactive]
      cases hawaits with
      | define hlocated _ =>
          exact ⟨site.program, hstands.program, site.path, _, hlocated, rfl,
            .initialized hcontrol hframes, hstands.activates, hstands.current⟩

/-- What gives a global a value is a declaration outside all constructs or an assignment to a name
for which resolution has found no scope. -/
theorem InOrder.of_changes (h : run.InOrder)
    (hchanges : run.machine.Changes Store.globalScope name) :
    run.DeclaresGlobal name ∨ run.AssignsGlobal name := by
  have hgrounded := h.sound.grounded
  cases hchanges with
  | @declares statement hbinds hname hscope =>
      obtain ⟨program, hprogram, path, found, hlocated, hdeclared, hbinds', hactivates, hcurrent⟩ :=
        h.of_binds hbinds
      obtain rfl := hactivates.eq_nil_of_head hgrounded.globals hscope
      have hfound : found.declared? = some name := hdeclared.trans hname
      have hmem : found ∈ program := by
        apply hlocated.mem_of_declared (hgrounded.accepted program hprogram).formed
        rw [hfound]
        exact Option.some_ne_none name
      exact .inl ⟨⟨program, hprogram, found, hmem, hfound, hbinds'⟩, hactivates.eq_globalEnv,
        hcurrent.eq_nil⟩
  | @assigns target value frames hcontrol hframes hname htarget =>
      obtain ⟨site, hstands, -, hawaits, henv, -⟩ := h.sound.of_value hcontrol
      rw [hframes] at hawaits
      cases hawaits with
      | assign hlocated _ =>
          obtain ⟨distance, hfinding, hlt⟩ := Program.assign_mem_findings hlocated
          obtain ⟨nextId, hpast⟩ := h.recorded
          have hrecorded := hpast.recorded _ hstands.program target distance hfinding
          rw [World.target, hrecorded, henv] at htarget
          cases distance with
          | some distance =>
              -- The scope that is `distance` scopes out belongs to a construct.
              obtain ⟨scope, opening, hscope, hopening, hne⟩ :=
                hstands.activates.exists_scope_of_lt (hlt distance rfl)
              dsimp only [Store.ownerAt] at htarget
              rw [hscope] at htarget
              cases htarget
              exact absurd (Option.some.inj (hopening.symm.trans hgrounded.globals)) hne
          | none =>
              refine .inr ⟨⟨target, value, frames, hcontrol, hframes, hname,
                ⟨_, hstands.program, hfinding⟩, hrecorded⟩, ?_⟩
              dsimp only [Store.owner] at htarget
              split at htarget
              · next scope howner =>
                  cases htarget
                  have hbound := List.find?_some howner
                  rwa [hname] at hbound
              · cases htarget

/-- A step leaves a global as it is, unless it declares it or assigns to it. -/
theorem InOrder.binding?_step (h : run.InOrder)
    (hchanged : run.step.machine.world.store.binding? Store.globalScope name ≠
      run.machine.world.store.binding? Store.globalScope name) :
    run.DeclaresGlobal name ∨ run.AssignsGlobal name := by
  have hgrounded := h.sound.grounded
  have hglobal : Store.globalScope < run.machine.world.store.scopes.size :=
    hgrounded.head_lt .globals rfl
  have hscope : ∀ statement, run.machine.control = .execute statement →
      ∃ scope, run.machine.env.head? = some scope ∧
        scope < run.machine.world.store.scopes.size := by
    intro statement hcontrol
    obtain ⟨program, -, path, -, hactivates, -⟩ := h.sound.of_execute hcontrol
    obtain ⟨scope, hhead⟩ := hactivates.exists_head
    exact ⟨scope, hhead, hgrounded.head_lt hactivates hhead⟩
  rcases Machine.leavesTo_step hglobal hscope with hchanges | hsame
  · exact h.of_changes hchanges
  · exact absurd hsame hchanged

/-! ## Runs -/

/-- Every global has been declared at some earlier moment of the session, but for the built-in
function. -/
structure Accounted (run : Run) : Prop where
  builtin : (run.machine.world.store.binding? Store.globalScope Builtin.clock.name).isSome
  declared : ∀ name, (run.machine.world.store.binding? Store.globalScope name).isSome →
    name = Builtin.clock.name ∨ ∃ earlier : Run, earlier.Occurs ∧ earlier.DeclaresGlobal name ∧
      earlier.step.Precedes run

theorem Accounted.step (h : run.Accounted) (hrun : run.Occurs) : run.step.Accounted := by
  constructor
  · exact hrun.inOrder.sound.grows_step.bindings _ _ h.builtin
  · intro name hbound
    by_cases hbefore : (run.machine.world.store.binding? Store.globalScope name).isSome
    · rcases h.declared name hbefore with hclock | ⟨earlier, hearlier, hdeclares, hprecedes⟩
      · exact .inl hclock
      · exact .inr ⟨earlier, hearlier, hdeclares, .step hprecedes⟩
    · have hchanged : run.step.machine.world.store.binding? Store.globalScope name ≠
          run.machine.world.store.binding? Store.globalScope name := by
        intro hsame
        rw [hsame] at hbound
        exact hbefore hbound
      rcases hrun.inOrder.binding?_step hchanged with hdeclares | hassigns
      · exact .inr ⟨run, hrun, hdeclares, .refl⟩
      · exact absurd hassigns.bound hbefore

theorem Accounted.runFor (h : run.Accounted) (hrun : run.Occurs) (budget : Nat) :
    (run.runFor budget).Accounted := by
  induction budget generalizing run with
  | zero => exact h
  | succ budget ih =>
      rw [Run.runFor]
      split
      · exact h
      · exact ih (h.step hrun) hrun.step

end Run

/-- Where a session has its variables from: they are the initial ones, or what its last run has left
behind. -/
inductive Session.Follows (session : Session) (past : Past) : Prop
  | initial : session.world.store = .initial → Follows session past
  | run {last : Run} : last.Occurs → last.Accounted → last.past = past →
      last.machine.world.store = session.world.store → Follows session past

namespace Session

variable {session next compiled : Session} {past : Past}

theorem Follows.of_store (h : session.Follows past)
    (hstore : next.world.store = session.world.store) : next.Follows past := by
  cases h with
  | initial hinitial => exact .initial (hstore.trans hinitial)
  | run hoccurs haccounted hpast hlast =>
      exact .run hoccurs haccounted hpast (hlast.trans hstore.symm)

/-- The globals at the start of a program are accounted for. -/
theorem Follows.start (h : session.Follows past) (hreached : session.Reached past)
    {prepare : Program → Program} (hprepare : Prepares prepare) {source : String}
    {diagnostics : List Diagnostic} {program : Program}
    (hcompile : session.compile source = (compiled, diagnostics, some program)) :
    (Run.start past compiled.world (prepare program)).Accounted := by
  have hcompiled : compiled.world.store = session.world.store := (Session.compiles hcompile).store
  have hsame (name : String) :
      (Run.start past compiled.world (prepare program)).machine.world.store.binding?
        Store.globalScope name = session.world.store.binding? Store.globalScope name := by
    show compiled.world.store.binding? _ name = _
    rw [hcompiled]
  cases h with
  | initial hinitial =>
      constructor
      · rw [hsame, hinitial]
        rfl
      · intro name hbound
        rw [hsame, hinitial] at hbound
        obtain ⟨value, hvalue⟩ := Option.isSome_iff_exists.1 hbound
        have hlookup : [(Builtin.clock.name, Value.builtin .clock)].lookup name = some value :=
          hvalue
        cases List.mem_singleton.1 (Scene.mem_of_lookup hlookup)
        exact .inl rfl
  | @run last hoccurs haccounted hpast hlast =>
      subst hpast
      constructor
      · rw [hsame, ← hlast]
        exact haccounted.builtin
      · intro name hbound
        rw [hsame, ← hlast] at hbound
        rcases haccounted.declared name hbound with hclock
          | ⟨earlier, hearlier, hdeclares, hprecedes⟩
        · exact .inl hclock
        · exact .inr ⟨earlier, hearlier, hdeclares,
            .start hprecedes hreached hlast.symm hprepare hcompile⟩

/-- Between the runs of a session its variables stay as they are. -/
theorem Reached.follows (h : session.Reached past) : session.Follows past := by
  induction h with
  | initial capacity reading => exact .initial rfl
  | @step session next past budget prepare source diagnostics hreached hprepare hstep ih =>
      obtain ⟨compiled, found, program?, hcompile, -, hworld⟩ := of_step hstep
      rcases hworld with ⟨rfl, hworld⟩ | ⟨program, rfl, hworld⟩
      · have hpast : past.after session budget prepare source = past := by
          rw [Past.after, hcompile]
        rw [hpast]
        apply ih.of_store
        rw [hworld]
        exact (Session.compiles hcompile).store
      · let run := Run.start past compiled.world (prepare program)
        have hoccurs : run.Occurs := .start hreached hprepare hcompile
        have hpast : past.after session budget prepare source = (run.runFor budget).past := by
          rw [Past.after, hcompile]
        have hlast : next.world = (run.runFor budget).machine.world := by
          rw [hworld, Run.machine_runFor]
          rfl
        exact .run (hoccurs.runFor budget)
          ((ih.start hreached hprepare hcompile).runFor hoccurs budget)
          hpast.symm (congrArg World.store hlast.symm)
  | forget _ ih => exact ih.of_store rfl
  | write _ _ ih => exact ih.of_store rfl

end Session

namespace Run

variable {run later : Run} {name : String}

theorem Occurs.accounted (h : run.Occurs) : run.Accounted := by
  induction h with
  | start hreached hprepare hcompile => exact hreached.follows.start hreached hprepare hcompile
  | step hrun ih => exact ih.step hrun

/-- A declaration outside all constructs leaves a global. -/
theorem DeclaresGlobal.isSome_binding? (h : run.DeclaresGlobal name) (hrun : run.Occurs) :
    (run.step.machine.world.store.binding? Store.globalScope name).isSome := by
  obtain ⟨program, -, statement, -, hname, hbinds⟩ := h.declaration
  have hscope : run.machine.env.head? = some Store.globalScope := by
    rw [h.env]
    rfl
  exact hbinds.isSome_binding? hname hscope (hrun.inOrder.sound.grounded.head_lt .globals rfl)

/-- If a global has another value at a later moment, then in between it was declared or assigned
to. -/
theorem Precedes.exists_change (h : run.Precedes later) (hrun : run.Occurs)
    (hchanged : later.machine.world.store.binding? Store.globalScope name ≠
      run.machine.world.store.binding? Store.globalScope name) :
    ∃ middle : Run, run.Precedes middle ∧ middle.step.Precedes later ∧
      (middle.DeclaresGlobal name ∨ middle.AssignsGlobal name) := by
  induction h with
  | refl => exact absurd rfl hchanged
  | @step later hlater ih =>
      by_cases hbefore : later.machine.world.store.binding? Store.globalScope name =
          run.machine.world.store.binding? Store.globalScope name
      · rw [← hbefore] at hchanged
        have hoccurs := (hrun.of_precedes hlater).1
        exact ⟨later, hlater, .refl, hoccurs.inOrder.binding?_step hchanged⟩
      · obtain ⟨middle, hmiddle, hprecedes, hchanges⟩ := ih hbefore
        exact ⟨middle, hmiddle, .step hprecedes, hchanges⟩
  | @start later session compiled prepare source diagnostics program hlater hreached hstore hprepare
      hcompile ih =>
      have hcompiled : compiled.world.store = later.machine.world.store :=
        (Session.compiles hcompile).store.trans hstore
      have hbefore : later.machine.world.store.binding? Store.globalScope name ≠
          run.machine.world.store.binding? Store.globalScope name := by
        rw [← hcompiled]
        exact hchanged
      obtain ⟨middle, hmiddle, hprecedes, hchanges⟩ := ih hbefore
      exact ⟨middle, hmiddle, .start hprecedes hreached hstore hprepare hcompile, hchanges⟩

/-- At every moment of a session the globals are the built-in function and what has been declared
outside all blocks and functions by then.  A step that changes one is the binding step of such a
declaration, or an assignment to a name for which resolution has found no scope; and between two
moments a global only changes by such steps. -/
theorem Occurs.globals_accounted (h : run.Occurs) (name : String) :
    ((run.machine.world.store.binding? Store.globalScope name).isSome ↔
      name = Builtin.clock.name ∨ ∃ earlier : Run, earlier.Occurs ∧ earlier.DeclaresGlobal name ∧
        earlier.step.Precedes run) ∧
    (run.step.machine.world.store.binding? Store.globalScope name ≠
        run.machine.world.store.binding? Store.globalScope name →
      run.DeclaresGlobal name ∨ run.AssignsGlobal name) ∧
    ∀ later : Run, run.Precedes later →
      later.machine.world.store.binding? Store.globalScope name ≠
        run.machine.world.store.binding? Store.globalScope name →
      ∃ middle : Run, run.Precedes middle ∧ middle.step.Precedes later ∧
        (middle.DeclaresGlobal name ∨ middle.AssignsGlobal name) := by
  refine ⟨⟨h.accounted.declared name, ?_⟩, h.inOrder.binding?_step,
    fun later hlater => hlater.exists_change h⟩
  rintro (rfl | ⟨earlier, hearlier, hdeclares, hprecedes⟩)
  · exact h.accounted.builtin
  · obtain ⟨-, hgrows⟩ := hearlier.step.of_precedes hprecedes
    exact hgrows.bindings _ _ (hdeclares.isSome_binding? hearlier)

/-- A global, and a block that assigns the value of a variable of its own to it. -/
def globalAssigning : Program :=
  let outer : Token := ⟨.identifier, "a", 1⟩
  let inner : Token := ⟨.identifier, "b", 1⟩
  [.varDecl outer none,
    .block [.varDecl inner (some (.literal (.bool true))),
      .expression (.assign ⟨2, outer⟩ (.variable ⟨1, inner⟩))]]

theorem occurs_globalAssigning : (first none (fun _ => 0) globalAssigning).Occurs := by
  refine occurs_first "var a;\x7bvar b=true;a=b;\x7d" 3 ?_ ?_ rfl none fun _ => 0
  · decide +kernel
  · decide +kernel

/-- When the block assigns. -/
theorem globals_accounted_globalAssigning :
    let run := (first none (fun _ => 0) globalAssigning).runFor 14
    run.machine.world.store.binding? Store.globalScope "a" = some .nil ∧
    run.step.machine.world.store.binding? Store.globalScope "a" = some (.bool true) ∧
    (run.DeclaresGlobal "a" ∨ run.AssignsGlobal "a") :=
  ⟨rfl, rfl, (Occurs.globals_accounted (occurs_globalAssigning.runFor 14) "a").2.1
    fun hsame => by cases hsame⟩

end Run

end LoxLang
