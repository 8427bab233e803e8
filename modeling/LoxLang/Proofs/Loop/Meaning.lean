import LoxLang.Proofs.Loop.Following
import LoxLang.Proofs.Loop.Sharing

/-!
# What the tree of a loop means

Wherever a session comes to the tree of a loop, what is done there is what the loop by itself does
(`Run.Occurs.means_loop`): the same is printed, the work ends or not and with the same result, and
the variables and fields are left with the same values.
-/

namespace LoxLang

/-- The tree of a loop is executed at a place of some program that a run has reached. -/
structure Loop.StandsAt (loop : Loop) (run : Run) (path : Path) : Prop where
  executes : run.machine.control = .execute loop.tree
  located : ∃ program ∈ run.past.programs, Located program path (.statement loop.tree)
  activates : run.scene.Activates run.machine.env path

/-- The loop by itself, so many steps behind its start, where a run has come to its tree.  What is
found in its clauses is recorded first; they stand in the scopes of the place and in the one of the
loop. -/
def Run.direct (run : Run) (loop : Loop) (path : Path) (count : Nat) : LoopRun :=
  LoopRun.after loop
    { run.machine with
      world := run.machine.world.resolved (loop.findings path.context path.scopes) } count

namespace Machine

/-- Two machines in the same state, apart from the scopes that only one of them has made: they have
the same result, and what there was before, variables and fields, has values that correspond.  From
now on they print the same. -/
structure Agrees (p : Pairing) (machine machine' : Machine) : Prop where
  corresponds : machine.Corresponds p machine'
  later : ∀ count, (step^[count] machine').world.output = (step^[count] machine).world.output

theorem Like.output_eq {p : Pairing} {machine machine' : Machine} (h : machine.Like p machine') :
    machine'.world.output = machine.world.output := by
  cases h with
  | mk haround _ => exact haround.world.output

theorem Corresponds.agrees {p : Pairing} {machine machine' : Machine}
    (h : machine.Corresponds p machine') : machine.Agrees p machine' := by
  refine ⟨h, fun count => ?_⟩
  obtain ⟨q, -, hlike⟩ := h
  obtain ⟨r, -, hlater⟩ := hlike.steps count
  exact hlater.output_eq

end Machine

/-- What is done on the tree `loop` is what the loop `direct` does by itself. -/
structure Run.MeansLoop (run : Run) (loop : Loop) (p : Pairing) (direct : Nat → LoopRun) :
    Prop where
  /-- Whatever has been printed at some moment of the work has been printed at some moment of the
  loop by itself, and the other way round. -/
  outputs : ∀ output, (∃ moment, Machine.Works run.machine.frames run.machine moment ∧
    moment.world.output = output) ↔ ∃ count, (direct count).machine.world.output = output
  /-- If the work on the tree ends then the loop by itself ends in the same way. -/
  ends : ∀ moment, Machine.Works run.machine.frames run.machine moment →
    moment.Ended run.machine.frames → ∃ count, (direct count).part = none ∧
      moment.Agrees p ((direct count).machine.above run.machine.frames)
  /-- If the loop by itself ends then the work on the tree ends. -/
  ended : ∀ count, (direct count).part = none →
    ∃ moment, Machine.Works run.machine.frames run.machine moment ∧
      moment.Ended run.machine.frames ∧
      moment.Agrees p ((direct count).machine.above run.machine.frames)
  /-- The environment around the loop is restored. -/
  restored : ∀ moment, Machine.Works run.machine.frames run.machine moment →
    moment.Ended run.machine.frames →
    moment.env = run.machine.env ∧ moment.depth = run.machine.depth
  /-- The one scope that is made for the initializer is around all that is done in the turns, calls
  apart, and around what is made there. -/
  shared : loop.initializer.isSome → ∀ moment,
    Machine.Works run.machine.frames run.machine.step moment → ¬moment.Ended run.machine.frames →
    moment.depth = run.machine.depth → moment.control.isFailure = false →
    moment.Inside (run.machine.world.store.scopes.size :: run.machine.env)

namespace Run

variable {run : Run} {loop : Loop} {ids : NodeId → NodeId}

/-- What the tree has around it corresponds to itself. -/
theorem Unused.goes (h : run.Unused ids) (hrun : run.Occurs) {path : Path}
    (hstands : loop.StandsAt run path) :
    let copy := loop.relabel (.ofIds ids)
    loop.Goes copy (run.pairing (copy.findings path.context path.scopes)) run.machine.env
      run.machine.frames := by
  intro copy
  obtain ⟨program, hprogram, hlocated⟩ := hstands.located
  have hshares := h.shares_copy hrun.inOrder loop path.context path.scopes
  refine ⟨h.like_copy hrun hprogram hstands.activates hlocated, hshares.env hstands.activates, ?_⟩
  have hfits := hrun.inOrder.sound.fits
  rw [hstands.executes] at hfits
  generalize run.machine.env = env, run.active = active at hfits
  cases hfits with
  | execute hsite _ hframes => exact hshares.frames hframes hsite.program

/-- The loop by itself starts where its tree is executed. -/
theorem Unused.reaches (h : run.Unused ids) (hrun : run.Occurs) {path : Path}
    (hstands : loop.StandsAt run path) :
    let copy := loop.relabel (.ofIds ids)
    loop.Reaches copy run.machine.env run.machine.frames
      (run.pairing (copy.findings path.context path.scopes))
      run.machine (run.direct copy path 0) := by
  intro copy
  have hshares := h.shares_copy hrun.inOrder loop path.context path.scopes
  have hstart := (h.goes hrun hstands).start (hshares.world rfl rfl) run.machine.depth
    run.machine.control run.machine.frames
  rw [← hstands.executes] at hstart
  exact hstart

/-- Wherever a session comes to the tree of a loop, what is done there is what the loop by itself
does, whose occurrences have numbers of their own. -/
theorem Occurs.means_loop (hrun : run.Occurs) (h : run.Unused ids)
    (hcontrol : run.machine.control = .execute loop.tree) :
    let copy := loop.relabel (.ofIds ids)
    (∃ path, loop.StandsAt run path) ∧ ∀ path, loop.StandsAt run path →
      run.MeansLoop loop (run.pairing (copy.findings path.context path.scopes))
        (run.direct copy path) := by
  intro copy
  constructor
  · obtain ⟨program, hprogram, path, hlocated, hactivates, -⟩ :=
      hrun.inOrder.sound.of_execute hcontrol
    exact ⟨path, hcontrol, ⟨program, hprogram, hlocated⟩, hactivates⟩
  · intro path hstands
    have hgoes := h.goes hrun hstands
    have hreaches := h.reaches hrun hstands
    have hfits (moment : Machine)
        (hworks : Machine.Works run.machine.frames run.machine moment) :
        ∃ scene active, Fits scene moment.env active moment.control moment.frames := by
      obtain ⟨later, hlater, rfl⟩ := hrun.exists_moment hworks
      exact ⟨_, _, hlater.inOrder.sound.fits⟩
    constructor
    · intro output
      constructor
      · rintro ⟨moment, hworks, rfl⟩
        obtain ⟨q, count, -, r, next, -, hpasses, hfollows⟩ :=
          hreaches.exists_count hgoes hfits hworks
        exact ⟨count, hfollows.output_eq.trans hpasses.output_eq⟩
      · rintro ⟨count, rfl⟩
        obtain ⟨q, moment, -, hworks, hfollows⟩ := hreaches.exists_works hgoes hfits count
        exact ⟨moment, hworks, hfollows.output_eq.symm⟩
    · intro moment hworks hended
      obtain ⟨q, count, hgrows, r, next, hgrows', hpasses, hfollows⟩ :=
        hreaches.exists_count hgoes hfits hworks
      cases hpasses with
      | step hnot _ _ => exact absurd hended hnot
      | refl =>
          have hcorresponds : moment.Corresponds _ _ :=
            ⟨r, hgrows.trans hgrows', hfollows.over_iff.2 hended⟩
          exact ⟨count, hfollows.over_iff.1.2 hended, hcorresponds.agrees⟩
    · intro count hpart
      obtain ⟨q, moment, hgrows, hworks, hfollows⟩ := hreaches.exists_works hgoes hfits count
      have hended := hfollows.over_iff.1.1 hpart
      have hcorresponds : moment.Corresponds _ _ := ⟨q, hgrows, hfollows.over_iff.2 hended⟩
      exact ⟨moment, hworks, hended, hcorresponds.agrees⟩
    · intro moment hworks hended
      have hstart : run.machine.LeadsBack run.machine.frames run.machine.env run.machine.depth :=
        ⟨[], rfl, rfl, rfl⟩
      exact (hstart.works hworks).ended hended
    · intro hinitializer moment hworks hended hdepth hfailure
      exact hrun.inside_loop hcontrol hinitializer hworks hended hdepth hfailure

/-- A loop with all its clauses, which takes one turn. -/
def oneTurn : Loop :=
  let name : Token := ⟨.identifier, "i", 1⟩
  { initializer := some (.varDecl name (some (.literal (.bool true))))
    condition := some (.variable ⟨0, name⟩)
    increment := some (.assign ⟨2, name⟩ (.literal (.bool false)))
    body := .print (.variable ⟨3, name⟩)
    body_declares := rfl }

theorem occurs_oneTurn : (first none (fun _ => 0) [oneTurn.tree]).Occurs := by
  refine occurs_first "for(var i=true;i;i=false)print i;" 4 ?_ ?_ rfl none fun _ => 0
  · decide +kernel
  · decide +kernel

/-- The loop by itself prints once and ends, since its tree does. -/
theorem means_oneTurn :
    let run := (first none (fun _ => 0) [oneTurn.tree]).runFor 1
    ∃ ids, run.Unused ids ∧ run.machine.control = .execute oneTurn.tree ∧
      ∃ path, oneTurn.StandsAt run path ∧
        let copy := oneTurn.relabel (.ofIds ids)
        run.MeansLoop oneTurn (run.pairing (copy.findings path.context path.scopes))
          (run.direct copy path) ∧
        ∃ count, (run.direct copy path count).part = none ∧
          (run.direct copy path count).machine.world.output.written = "true\n".toUTF8 := by
  intro run
  have hrun : run.Occurs := occurs_oneTurn.runFor 1
  obtain ⟨ids, hids⟩ := hrun.inOrder.exists_unused
  have hcontrol : run.machine.control = .execute oneTurn.tree := rfl
  obtain ⟨⟨path, hstands⟩, hmeans⟩ := hrun.means_loop hids hcontrol
  -- The work on the tree is over as soon as its frames have been left.
  have hopen : ∀ budget < 31, ¬((run.machine.runFor budget).frames.length = 1 ∧
      (run.machine.runFor budget).control.isResult) := by decide
  have hlast : (run.machine.runFor 31).frames.length = 1 ∧
      (run.machine.runFor 31).control.isResult ∧
      (run.machine.runFor 31).world.output.written = "true\n".toUTF8 := by decide
  have hworks : Machine.Works run.machine.frames run.machine (run.machine.runFor 31) :=
    Machine.Works.runFor fun budget hbudget hended =>
      hopen budget hbudget ⟨congrArg List.length hended.1, hended.2⟩
  generalize run.machine.runFor 31 = last at hlast hworks
  have hends : last.Ended run.machine.frames := by
    have hstart : run.machine.LeadsBack run.machine.frames run.machine.env run.machine.depth :=
      ⟨[], rfl, rfl, rfl⟩
    obtain ⟨inner, hframes, -, -⟩ := hstart.works hworks
    have hlength : inner.length + 1 = 1 := by
      have hcount := hlast.1
      rw [hframes, List.length_append] at hcount
      exact hcount
    obtain rfl := List.length_eq_zero_iff.1 (Nat.succ.inj hlength)
    exact ⟨hframes, hlast.2.1⟩
  obtain ⟨count, hpart, hagrees⟩ := (hmeans path hstands).ends _ hworks hends
  have houtput : (run.direct _ path count).machine.world.output = last.world.output :=
    hagrees.later 0
  exact ⟨ids, hids, hcontrol, path, hstands, hmeans path hstands, count, hpart,
    (congrArg Output.written houtput).trans hlast.2.2⟩

end Run

end LoxLang
