import LoxLang.Proofs.Loop.Direct
import LoxLang.Proofs.Run.Binding
import LoxLang.Proofs.Run.Reads

/-!
# One variable for all turns

The scope that the tree of a loop opens for its initializer is around all that is done up to the end
of the loop, calls apart (`Run.Occurs.around_turns`).  So the functions and methods that are made in
the turns have this one scope in their environments.
-/

namespace LoxLang

/-! ## Environments around a machine -/

/-- Without calls, frames lead back to an environment around the one in which they get a result. -/
theorem Awaits.home_isSuffix {scene : Scene} {result : Result} {site : Site}
    {inner base : List Frame} (h : Awaits scene result site (inner ++ base))
    (hcalls : Frame.calls inner = 0) : Frame.home site.env inner <:+ site.env := by
  induction inner generalizing result site with
  | nil => exact List.suffix_rfl
  | cons frame inner ih =>
      have hrest : Frame.calls [frame] + Frame.calls inner = 0 :=
        (Frame.calls_append [frame] inner).symm.trans hcalls
      have hinner := (Nat.add_eq_zero_iff.1 hrest).2
      cases h with
      | activation _ _ _ _ _ _ _ => exact absurd (Nat.add_eq_zero_iff.1 hrest).1 Nat.one_ne_zero
      | block henv _ houter _ hframes =>
          subst houter
          rw [henv]
          exact (ih hframes hinner).trans (List.suffix_cons _ _)
      | define _ hframes =>
          have hbehind := ih hframes hinner
          exact hbehind
      | _ =>
          rename_i hframes
          exact ih hframes hinner

/-- Whether a failure is on its way out. -/
def Control.isFailure : Control → Bool
  | .failed _ => true
  | _ => false

theorem Fits.home_isSuffix {scene : Scene} {env : Env} {active : List ScopeId} {control : Control}
    {inner base : List Frame} (h : Fits scene env active control (inner ++ base))
    (hfailure : control.isFailure = false) (hcalls : Frame.calls inner = 0) :
    Frame.home env inner <:+ env := by
  cases h with
  | evaluate _ _ hframes => exact hframes.home_isSuffix hcalls
  | execute _ _ hframes => exact hframes.home_isSuffix hcalls
  | run _ _ hframes => exact hframes.home_isSuffix hcalls
  | value _ _ hframes => exact hframes.home_isSuffix hcalls
  | completed _ _ hframes => exact hframes.home_isSuffix hcalls
  | returned _ _ hframes => exact hframes.home_isSuffix hcalls
  | failed => cases hfailure

/-! ## What is made in an environment -/

/-- A function, or a class with all its methods, that has been made inside an environment. -/
inductive Value.MadeInside (around : Env) : Value → Prop
  | function {closure : Closure} : around <:+ closure.env → MadeInside around (.function closure)
  | classValue {ownClass : Class} : (∀ entry ∈ ownClass.methods, around <:+ entry.2.env) →
      MadeInside around (.classValue ownClass)

theorem World.madeInside_makeClass {world : World} {around env : Env} (h : around <:+ env)
    (name : String) (superclass : Option Class) (methods : List FunctionDecl) :
    (Value.classValue (world.makeClass env name superclass methods).2).MadeInside around := by
  refine .classValue fun entry hentry => ?_
  cases superclass with
  | none => exact World.env_of_mem_closeAll (List.mem_reverse.1 hentry) ▸ h
  | some superclass =>
      exact World.env_of_mem_closeAll (List.mem_reverse.1 hentry) ▸ h.trans (List.suffix_cons _ _)

/-- The declarations of functions and classes. -/
def Stmt.makes : Stmt → Bool
  | .function _ => true
  | .classDecl _ _ _ => true
  | _ => false

/-- A machine whose environment is inside another one, as is what a declaration makes there. -/
structure Machine.Inside (machine : Machine) (around : Env) : Prop where
  env : around <:+ machine.env
  made : ∀ {statement : Stmt} {name : String} {scope : ScopeId}, machine.Binds statement →
    statement.makes → statement.declared? = some name → machine.env.head? = some scope →
    ∃ value, machine.step.world.store.binding? scope name = some value ∧ value.MadeInside around

theorem Machine.Inside.of_env {machine : Machine} {around : Env} (h : around <:+ machine.env)
    (hsize : ∀ statement, machine.control = .execute statement →
      ∀ scope ∈ machine.env.head?, scope < machine.world.store.scopes.size) :
    machine.Inside around := by
  refine ⟨h, fun {statement name scope} hbinds hmakes hname hscope => ?_⟩
  obtain ⟨control, frames, env, depth, world⟩ := machine
  cases hbinds with
  | plain _ => cases hmakes
  | initialized _ _ => cases hmakes
  | @function declaration hcontrol =>
      have hlt := hsize _ hcontrol scope hscope
      cases hcontrol
      cases hname
      let closed := world.close env declaration false
      have hsize : scope < closed.1.store.scopes.size := hlt
      exact ⟨.function closed.2,
        (closed.1.binding?_define env declaration.name.lexeme _ hsize _).trans
        (if_pos ⟨hscope, rfl⟩), .function h⟩
  | @classDecl className methods hcontrol =>
      have hlt := hsize _ hcontrol scope hscope
      cases hcontrol
      cases hname
      exact ⟨_, (binding?_declareClass hscope hlt className none methods hlt _).trans
        (if_pos ⟨hscope, rfl⟩), World.madeInside_makeClass h _ _ _⟩
  | @subclass className clause methods superclass hcontrol hread =>
      have hlt := hsize _ hcontrol scope hscope
      cases hname
      rw [step_subclass hcontrol hread]
      exact ⟨_, (binding?_declareClass hscope hlt className _ methods hlt _).trans
        (if_pos ⟨hscope, rfl⟩), World.madeInside_makeClass h _ _ _⟩

/-! ## The work on a tree -/

/-- The moments of the work above some frames are moments of the session. -/
theorem Run.Occurs.exists_moment {run : Run} (h : run.Occurs) {base : List Frame} {moment : Machine}
    (hworks : Machine.Works base run.machine moment) :
    ∃ later : Run, later.Occurs ∧ later.machine = moment := by
  induction hworks with
  | start => exact ⟨run, h, rfl⟩
  | step _ _ ih =>
      obtain ⟨later, hlater, rfl⟩ := ih
      exact ⟨later.step, hlater.step, rfl⟩

namespace Machine

/-- The work above the frame of a block goes on until the step that leaves the block. -/
theorem LeadsBack.works_block {base : List Frame} {outer env : Env} {depth : Nat}
    {start moment : Machine} (h : start.LeadsBack (.block outer :: base) env depth)
    (hworks : Works base start moment) :
    moment.LeadsBack (.block outer :: base) env depth ∨ moment.Ended base := by
  induction hworks with
  | start => exact .inl h
  | @step moment _ hended ih =>
      rcases ih with hback | hends
      · by_cases hblock : moment.Ended (.block outer :: base)
        · obtain ⟨control, frames, env, depth, world⟩ := moment
          obtain ⟨rfl, hresult⟩ := hblock
          cases control with
          | value value => exact .inl hback
          | completed completion => exact .inr ⟨rfl, rfl⟩
          | failed failure => exact .inr ⟨rfl, rfl⟩
          | _ => cases hresult
        · exact .inl (hback.step hblock).1
      · exact absurd hends hended

end Machine

theorem Loop.tree_of_initializer {loop : Loop} (h : loop.initializer.isSome) :
    ∃ statements, loop.tree = .block statements := by
  obtain ⟨initializer, condition, increment, body, hbody⟩ := loop
  cases initializer with
  | none => cases h
  | some initializer => exact ⟨_, rfl⟩

namespace Run

/-- The scope of a loop with an initializer is around what is done in its turns, calls apart. -/
theorem Occurs.inside_loop {run : Run} (h : run.Occurs) {loop : Loop}
    (hcontrol : run.machine.control = .execute loop.tree)
    (hinitializer : loop.initializer.isSome) {moment : Machine}
    (hworks : Machine.Works run.machine.frames run.machine.step moment)
    (hended : ¬moment.Ended run.machine.frames) (hdepth : moment.depth = run.machine.depth)
    (hfailure : moment.control.isFailure = false) :
    moment.Inside (run.machine.world.store.scopes.size :: run.machine.env) := by
  obtain ⟨later, hlater, rfl⟩ := h.step.exists_moment hworks
  have hsound := hlater.inOrder.sound
  have hstarts : run.machine.step.LeadsBack (.block run.machine.env :: run.machine.frames)
      (run.machine.world.store.scopes.size :: run.machine.env) run.machine.depth := by
    obtain ⟨statements, htree⟩ := loop.tree_of_initializer hinitializer
    rw [htree] at hcontrol
    generalize run.machine = machine at hcontrol
    obtain ⟨control, frames, env, depth, world⟩ := machine
    cases hcontrol
    exact ⟨[], rfl, rfl, rfl⟩
  rcases hstarts.works_block hworks with ⟨inner, hframes, henv, hcalls⟩ | hends
  · have hfits := hsound.fits
    rw [hframes] at hfits
    have hsuffix := hfits.home_isSuffix hfailure (by omega)
    rw [henv] at hsuffix
    refine .of_env hsuffix fun statement hexecutes scope hscope => ?_
    obtain ⟨program, -, path, -, hactivates, -⟩ := hsound.of_execute hexecutes
    exact hsound.grounded.head_lt hactivates hscope
  · exact absurd hends hended

end Run

end LoxLang
