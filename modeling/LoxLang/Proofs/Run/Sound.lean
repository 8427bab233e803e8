import LoxLang.Proofs.Run.Resuming

/-!
# Sound runs

A run is sound if its scene is grounded and its machine stands at a site.  Every program that has
been accepted starts soundly, and every step of a sound run is sound again.
-/

namespace LoxLang

namespace Run

/-- What there is in the course of a run. -/
def scene (run : Run) : Scene :=
  run.machine.world.scene run.past

/-- The machine stands at a site in a grounded scene. -/
structure Sound (run : Run) : Prop where
  grounded : run.scene.Grounded
  fits : Fits run.scene run.machine.env run.active run.machine.control run.machine.frames

end Run

/-! ## Steps -/

/-- A scene with more in its past. -/
theorem Scene.Grounded.later {past : Past} {world : World} (h : (world.scene past).Grounded)
    (later : Past) (hprograms : past.programs ⊆ later.programs)
    (hexecuted : past.executed ⊆ later.executed) (hopenings : later.openings = past.openings)
    (haccepted : ∀ program ∈ later.programs, program.Accepted) :
    (world.scene past).Grows (world.scene later) ∧ (world.scene later).Grounded := by
  have hopening {scope : ScopeId} {opening : Opening}
      (hlater : later.openings[scope]? = some opening) : past.openings[scope]? = some opening :=
    hopenings ▸ hlater
  have hgrows : (world.scene past).Grows (world.scene later) := by
    refine ⟨hprograms, hexecuted, ?_, fun _ _ hsome => hsome⟩
    show past.openings <+: later.openings
    rw [hopenings]
  refine ⟨hgrows, ?_⟩
  constructor
  · exact (congrArg List.length hopenings).trans h.size
  · exact hgrows.opening h.globals
  · exact haccepted
  · intro scope name value hvalue
    exact (h.bindings scope name value hvalue).mono hgrows
  · intro object name value hvalue
    exact (h.fields object name value hvalue).mono hgrows
  · intro scope function object hbound
    exact h.instances scope function object (hopening hbound)
  · intro scope name clause methods value outer hsuperclass
    exact h.superclasses scope name clause methods value outer (hopening hsuperclass)

/-- No statements are run in the scopes that expressions make by themselves. -/
theorem Machine.runs_openedByExpression (machine : Machine) (expression : Expr) (size : Nat) :
    Opening.runs (machine.openedByExpression expression) size = [] := by
  cases expression with
  | superRef occurrence method =>
      rcases machine.world.superMethod_cases machine.env occurrence method with
        ⟨fault, -, hopened⟩ | ⟨distance, superclass, object, found, -, -, -, -, -, hopened⟩
      · rw [openedByExpression, hopened]
        rfl
      · rw [openedByExpression, hopened]
        rfl
  | _ => rfl

namespace Run.Sound

/-- What the next step executes is on record before the step is taken. -/
theorem present {run : Run} (h : run.Sound) :
    run.scene.Grows (run.machine.world.scene run.present) ∧
      (run.machine.world.scene run.present).Grounded := by
  have hexecuted : run.past.executed ⊆ run.present.executed := List.subset_append_right _ _
  exact h.grounded.later run.present (List.Subset.refl _) hexecuted rfl h.grounded.accepted

/-- The machine of a sound run steps from site to site. -/
theorem lands {run : Run} (h : run.Sound) :
    Lands run.present run.machine.world run.machine.opened run.step.active run.machine.step := by
  obtain ⟨hpresent, hgrounded⟩ := h.present
  have hfits := h.fits.mono hpresent
  obtain ⟨past, active, ⟨control, frames, env, depth, world⟩⟩ := run
  cases hfits with
  | @evaluate site expression _ hstands hlocated hframes =>
      have hruns := Machine.runs_openedByExpression ⟨.evaluate expression, frames, site.env, depth,
        world⟩ expression past.openings.length
      have hactive : (Run.mk past site.active ⟨.evaluate expression, frames, site.env, depth,
          world⟩).step.active = site.active := congrArg (· ++ site.active) hruns
      rw [hactive]
      exact lands_evaluate hgrounded hstands hlocated hframes
  | execute hstands hlocated hframes =>
      exact lands_execute hgrounded hstands hlocated List.mem_cons_self hframes
  | @run site rest _ hstands hlocated hframes =>
      cases rest with
      | nil => exact lands_completed hgrounded (by decide) hstands hframes
      | cons statement rest =>
          exact .of_leads (.refl hgrounded) (.execute hstands hlocated.first
            (.sequence hlocated.rest (hframes.exit_moved _)))
  | value hstands hvalue hframes =>
      cases frames with
      | nil => cases hframes
      | cons frame frames => exact lands_receive hgrounded hstands hvalue hframes
  | completed hstands hresult hframes =>
      cases frames with
      | nil => exact lands_completed hgrounded hresult hstands hframes
      | cons frame frames =>
          exact lands_finish hgrounded hresult (fun value hvalue => by cases hvalue)
            (fun _ => hstands) hframes
  | @returned _ _ value _ hvalue hresult hframes =>
      have hcompletion : ∀ other, Completion.returned value = .returned other →
          (world.scene past).HasValue other := by
        rintro other ⟨⟩
        exact hvalue
      cases frames with
      | nil => exact .of_leads (.refl hgrounded) (.returned hvalue hresult hframes)
      | cons frame frames =>
          exact lands_finish hgrounded hresult hcompletion (fun hnormal => by cases hnormal) hframes
  | @failed _ _ failure _ =>
      cases frames with
      | nil => exact .of_leads (.refl hgrounded) .failed
      | cons frame frames =>
          have hunwind (active : List ScopeId) : Lands past world [] active
              (Machine.unwind ⟨.failed failure, frames, env, depth, world⟩ frame) := by
            cases frame <;> exact .of_leads (.refl hgrounded) .failed
          exact hunwind _

/-- A step of a sound run is sound. -/
theorem step {run : Run} (h : run.Sound) : run.step.Sound :=
  ⟨h.lands.leads.grounded, h.lands.fits⟩

theorem grows_step {run : Run} (h : run.Sound) : run.scene.Grows run.step.scene := by
  obtain ⟨hpresent, -⟩ := h.present
  exact hpresent.trans h.lands.leads.grows

theorem runFor {run : Run} (h : run.Sound) (budget : Nat) : (run.runFor budget).Sound := by
  induction budget generalizing run with
  | zero => exact h
  | succ budget ih =>
      rw [Run.runFor]
      split
      · exact h
      · exact ih h.step

end Run.Sound

/-! ## The start of a run -/

theorem Run.sound_start {past : Past} {world : World} (h : (world.scene past).Grounded)
    {program : Program} (hprogram : program.Accepted) : (Run.start past world program).Sound := by
  let site : Site := ⟨program, [], Store.globalEnv, []⟩
  have hstands : site.Stands (Run.start past world program).scene :=
    ⟨List.mem_cons_self, .globals, .globals⟩
  have haccepted : ∀ other ∈ program :: past.programs, other.Accepted := by
    intro other hother
    rcases List.mem_cons.1 hother with rfl | hmem
    · exact hprogram
    · exact h.accepted other hmem
  obtain ⟨-, hgrounded⟩ := h.later (start past world program).past (List.subset_cons_self _ _)
    (List.Subset.refl _) rfl haccepted
  exact ⟨hgrounded, .run hstands .program (.program rfl)⟩

end LoxLang
