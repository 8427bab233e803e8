import LoxLang.Proofs.Loop.Copying
import LoxLang.Proofs.Run.Continuation

/-!
# The tree of a loop and the loop by itself

The machine that executes the tree of a loop works on one part of the loop after the other, on top
of the frames that the tree has for it (`Loop.waiting`).  Between two parts it takes some steps that
print nothing (`Machine.Passes`).  So it follows the loop by itself, moment by moment
(`Loop.Follows.step`).
-/

namespace LoxLang

/-! ## Steps between the parts -/

namespace Machine

/-- A machine comes to another one before the work above some frames has come to its end, and prints
nothing on the way. -/
inductive Passes (base : List Frame) : Machine → Machine → Prop
  | refl (machine : Machine) : Passes base machine machine
  | step {machine next : Machine} : ¬machine.Ended base →
      machine.step.world.output = machine.world.output → Passes base machine.step next →
      Passes base machine next

variable {base : List Frame}

theorem Passes.trans {first second third : Machine} (h : Passes base first second)
    (h' : Passes base second third) : Passes base first third := by
  induction h with
  | refl machine => exact h'
  | step hended houtput _ ih => exact .step hended houtput (ih h')

theorem Passes.output_eq {machine next : Machine} (h : Passes base machine next) :
    next.world.output = machine.world.output := by
  induction h with
  | refl machine => rfl
  | step _ houtput _ ih => exact ih.trans houtput

theorem Passes.works {start machine next : Machine} (h : Passes base machine next)
    (hworks : Works base start machine) : Works base start next := by
  induction h with
  | refl machine => exact hworks
  | step hended _ _ ih => exact ih (hworks.step hended)

section

variable {control : Control} {frame : Frame} {inner : List Frame} {env : Env} {depth : Nat}
  {world : World}

/-- A frame above the others is still to get the result. -/
theorem not_ended_of_frame :
    ¬Ended ⟨control, frame :: (inner ++ base), env, depth, world⟩ base := by
  intro hended
  have hlength := congrArg List.length hended.1
  simp only [List.length_cons, List.length_append] at hlength
  omega

theorem not_ended_of_running {machine : Machine} (h : machine.control.isResult = false) :
    ¬machine.Ended base :=
  fun hended => Bool.false_ne_true (h.symm.trans hended.2)

end

end Machine

/-- Whether a result goes through a frame to the one behind it. -/
def Control.leaves : Control → Frame → Bool
  | .failed _, .activation _ => false
  | .failed _, _ => true
  | .completed (.returned _), .sequence _ => true
  | .completed (.returned _), .block _ => true
  | .completed (.returned _), .loopBody _ _ => true
  | _, _ => false

theorem Machine.step_leaving {control : Control} {frame : Frame} (h : control.leaves frame)
    (frames : List Frame) (env : Env) (depth : Nat) (world : World) :
    Machine.step ⟨control, frame :: frames, env, depth, world⟩ =
      ⟨control, frames, Frame.home env [frame], depth, world⟩ := by
  cases control with
  | failed failure => cases frame <;> first | rfl | cases h
  | completed completion =>
      cases completion with
      | normal => cases h
      | returned value => cases frame <;> first | rfl | cases h
  | _ => cases h

/-- A result that goes through frames leaves them for the environment behind them. -/
theorem Machine.passes_leaving {base : List Frame} {control : Control} {depth : Nat} {world : World}
    {frames : List Frame} (env : Env) (h : ∀ frame ∈ frames, control.leaves frame) :
    Passes base ⟨control, frames ++ base, env, depth, world⟩
      ⟨control, base, Frame.home env frames, depth, world⟩ := by
  induction frames generalizing env with
  | nil => exact .refl _
  | cons frame rest ih =>
      obtain ⟨hframe, hrest⟩ := List.forall_mem_cons.1 h
      have hstep := step_leaving hframe (rest ++ base) env depth world
      have hhome : Frame.home env (frame :: rest) = Frame.home (Frame.home env [frame]) rest :=
        Frame.home_append env [frame] rest
      refine .step not_ended_of_frame (congrArg (·.world.output) hstep) ?_
      rw [hhome]
      exact hstep ▸ ih _ hrest

/-! ## What the tree does for a part -/

namespace Loop

/-- The condition of the `while` loop. -/
def guard (loop : Loop) : Expr :=
  loop.condition.getD (.literal (.bool true))

/-- The body of the `while` loop. -/
def turn (loop : Loop) : Stmt :=
  match loop.increment with
  | some increment => .block [loop.body, .expression increment]
  | none => loop.body

/-- The frames behind the `while` loop. -/
def behind (loop : Loop) (outer : Env) : List Frame :=
  match loop.initializer with
  | some _ => [.sequence [], .block outer]
  | none => []

/-- The frames behind a turn. -/
def behindTurn (loop : Loop) (outer : Env) : List Frame :=
  .loopBody loop.guard loop.turn :: loop.behind outer

/-- The frames that wait for a part, inside the scope of the loop and around it. -/
def waiting (loop : Loop) (outer inside : Env) : Part → List Frame
  | .initializer => [.sequence [.whileLoop loop.guard loop.turn], .block outer]
  | .condition => .loopTest loop.guard loop.turn :: loop.behind outer
  | .body =>
      match loop.increment with
      | some increment =>
          .sequence [.expression increment] :: .block inside :: loop.behindTurn outer
      | none => loop.behindTurn outer
  | .increment => .expression :: .sequence [] :: .block inside :: loop.behindTurn outer

/-- Where the scope of the turn is, seen from a part. -/
def idle (loop : Loop) : Part → Option Nat
  | .body => if loop.increment.isSome then some 0 else none
  | .increment => some 0
  | _ => none

/-- The environment in which the tree works on a part, that inside the loop, and the one in which
the loop by itself works on all parts. -/
structure Stands (loop : Loop) (p : Pairing) (outer : Env) (part : Part)
    (place inside inside' : Env) : Prop where
  skips_inside : Env.Skips p none inside inside'
  skips_place : Env.Skips p (loop.idle part) place inside'
  place_eq : loop.idle part = none → place = inside
  inside_eq : loop.initializer = none → inside = outer
  isSome : part = .initializer → loop.initializer.isSome

/-- The tree and the loop by itself have come to the same moment: they do the same work on the same
part, or they have ended in the same way. -/
inductive Follows (loop copy : Loop) (outer : Env) (base : List Frame) (p : Pairing) :
    Machine → LoopRun → Prop
  | part {part : Part} {place inside inside' : Env} {depth : Nat} {inner inner' : Machine} :
      loop.Stands p outer part place inside inside' → inner.Like p inner' →
      inner.LeadsBack [] place depth → inner'.LeadsBack [] inside' depth →
      Follows loop copy outer base p (inner.above (loop.waiting outer inside part ++ base))
        ⟨copy, outer, some part, inner'⟩
  | over {machine machine' : Machine} :
      machine.Ended base → machine.Like p (machine'.above base) →
      Follows loop copy outer base p machine ⟨copy, outer, none, machine'⟩

/-- What stays the same while a loop is run: its clauses correspond, and so does what is around
it. -/
structure Goes (loop copy : Loop) (p : Pairing) (outer : Env) (base : List Frame) : Prop where
  clauses : loop.Like p copy
  outer : Env.Skips p none outer outer
  frames : Frame.LikeAll p none base base

theorem Goes.mono {loop copy : Loop} {p q : Pairing} {outer : Env} {base : List Frame}
    (h : loop.Goes copy p outer base) (hgrows : p.Grows q) : loop.Goes copy q outer base where
  clauses := h.clauses.mono hgrows
  outer := h.outer.mono hgrows
  frames := h.frames.mono hgrows

/-- The tree comes to where the loop by itself is, once more scopes correspond. -/
def Reaches (loop copy : Loop) (outer : Env) (base : List Frame) (p : Pairing) (machine : Machine)
    (run : LoopRun) : Prop :=
  ∃ q next, p.Grows q ∧ Machine.Passes base machine next ∧
    loop.Follows copy outer base q next run

theorem Reaches.of_passes {loop copy : Loop} {outer : Env} {base : List Frame} {p q : Pairing}
    {machine next : Machine} {run : LoopRun} (hgrows : p.Grows q)
    (hpasses : Machine.Passes base machine next) (h : loop.Reaches copy outer base q next run) :
    loop.Reaches copy outer base p machine run := by
  obtain ⟨r, last, hgrows', hpasses', hfollows⟩ := h
  exact ⟨r, last, hgrows.trans hgrows', hpasses.trans hpasses', hfollows⟩

theorem Follows.reaches {loop copy : Loop} {outer : Env} {base : List Frame} {p : Pairing}
    {machine : Machine} {run : LoopRun} (h : loop.Follows copy outer base p machine run) :
    loop.Reaches copy outer base p machine run :=
  ⟨p, machine, .refl p, .refl machine, h⟩

end Loop

theorem Control.Like.of_isResult {p : Pairing} {idle idle' : Option Nat}
    {control control' : Control} (h : control.Like p idle control') (hresult : control.isResult) :
    control.Like p idle' control' := by
  cases h with
  | value hvalue => exact .value hvalue
  | completed hcompletion => exact .completed hcompletion
  | failed failure => exact .failed failure
  | _ => cases hresult

/-! ## Between the parts -/

namespace Loop

section

variable {loop copy : Loop} {p : Pairing} {outer : Env} {base : List Frame}
  {inside inside' : Env} {world world' : World} (depth : Nat) (hworld : world.Like p world')

include hworld

/-- The work on a part begins. -/
theorem Stands.begins {part : Part} {place : Env}
    (hstands : loop.Stands p outer part place inside inside') {control control' : Control}
    (hcontrol : control.Like p (loop.idle part) control') :
    loop.Follows copy outer base p
      ⟨control, loop.waiting outer inside part ++ base, place, depth, world⟩
      ⟨copy, outer, some part, ⟨control', [], inside', depth, world'⟩⟩ := by
  have hlike : Machine.Like p ⟨control, [], place, depth, world⟩
      ⟨control', [], inside', depth, world'⟩ :=
    .mk ⟨.nil, hstands.skips_place, rfl, hworld⟩ hcontrol
  exact .part hstands hlike ⟨[], rfl, rfl, rfl⟩ ⟨[], rfl, rfl, rfl⟩

variable (h : loop.Goes copy p outer base)

include h

/-- The loop has ended. -/
theorem Goes.over {idle : Option Nat} {control control' : Control}
    (hcontrol : control.Like p idle control') (hresult : control.isResult) :
    loop.Follows copy outer base p ⟨control, base, outer, depth, world⟩
      ⟨copy, outer, none, ⟨control', [], outer, depth, world'⟩⟩ :=
  .over ⟨rfl, hresult⟩ (.mk ⟨h.frames, h.outer, rfl, hworld⟩ (hcontrol.of_isResult hresult))

variable (hinside : Env.Skips p none inside inside')
    (houter : loop.initializer = none → inside = outer)

include houter

/-- The loop ends in the normal way. -/
theorem Goes.close (part : Option Part) (control' : Control) (inside' : Env) :
    loop.Reaches copy outer base p
      ⟨.completed .normal, loop.behind outer ++ base, inside, depth, world⟩
      (LoopRun.finish ⟨copy, outer, part, ⟨control', [], inside', depth, world'⟩⟩
        (.completed .normal)) := by
  have hover := h.over depth hworld (.completed .normal : Control.Like p none _ _) rfl
  obtain ⟨initializer, condition, increment, body, hbody⟩ := loop
  cases initializer with
  | none =>
      obtain rfl := houter rfl
      exact hover.reaches
  | some initializer =>
      exact .of_passes (.refl p) (.step Machine.not_ended_of_frame rfl
        (.step (Machine.not_ended_of_running rfl) rfl
          (.step Machine.not_ended_of_frame rfl (.refl _)))) hover.reaches

include hinside

/-- A turn begins.  If there is an increment then the tree opens a scope, which the loop by itself
does not have. -/
theorem Goes.turn (part : Option Part) (control' : Control) :
    loop.Reaches copy outer base p
      ⟨.execute loop.turn, loop.behindTurn outer ++ base, inside, depth, world⟩
      (LoopRun.turn ⟨copy, outer, part, ⟨control', [], inside', depth, world'⟩⟩) := by
  obtain ⟨initializer, condition, increment, body, hbody⟩ := loop
  have hclause := h.clauses.body
  cases increment with
  | none =>
      have hstands : Stands ⟨initializer, condition, none, body, hbody⟩ p outer .body inside inside
          inside' := ⟨hinside, hinside, fun _ => rfl, houter, nofun⟩
      exact (hstands.begins depth hworld (.execute hclause)).reaches
  | some increment =>
      have hgrows := p.grows_adding none
      have himage : (p.adding none).images[world.store.scopes.size]? = some none := by
        rw [← hworld.store.covers.length]
        exact p.image_adding none
      have hstands : Stands ⟨initializer, condition, some increment, body, hbody⟩ (p.adding none)
          outer .body (world.store.scopes.size :: inside) inside inside' :=
        ⟨hinside.mono hgrows, .idle himage (hinside.mono hgrows), nofun, houter, nofun⟩
      have hopened := hworld.withStore hgrows hworld.store.newIdle
      refine .of_passes hgrows (.step (Machine.not_ended_of_running rfl) rfl
        (.step (Machine.not_ended_of_running rfl) rfl (.refl _))) ?_
      exact (hstands.begins depth hopened (.execute (hclause.mono hgrows))).reaches

/-- The condition is tested.  What the tree has for a missing one holds. -/
theorem Goes.test (part : Option Part) (control' : Control) :
    loop.Reaches copy outer base p
      ⟨.evaluate loop.guard, .loopTest loop.guard loop.turn :: (loop.behind outer ++ base), inside,
        depth, world⟩
      (LoopRun.test ⟨copy, outer, part, ⟨control', [], inside', depth, world'⟩⟩) := by
  have hturn := h.turn depth hworld hinside houter part control'
  obtain ⟨initializer, condition, increment, body, hbody⟩ := loop
  obtain ⟨initializer', condition', increment', body', hbody'⟩ := copy
  have hclause := h.clauses.condition
  cases hclause with
  | none =>
      exact .of_passes (.refl p) (.step (Machine.not_ended_of_running rfl) rfl
        (.step Machine.not_ended_of_frame rfl (.refl _))) hturn
  | @some condition condition' hcondition =>
      have hstands : Stands ⟨initializer, some condition, increment, body, hbody⟩ p outer .condition
          inside inside inside' := ⟨hinside, hinside, fun _ => rfl, houter, nofun⟩
      exact (hstands.begins depth hworld (.evaluate hcondition)).reaches

end

/-- Behind the frames that wait for a part there is the environment around the loop. -/
theorem Stands.home_waiting {loop : Loop} {p : Pairing} {outer : Env} {part : Part}
    {place inside inside' : Env} (h : loop.Stands p outer part place inside inside') :
    Frame.home place (loop.waiting outer inside part) = outer := by
  obtain ⟨initializer, condition, increment, body, hbody⟩ := loop
  obtain ⟨-, -, hplace, houter, hsome⟩ := h
  cases part with
  | initializer => rfl
  | condition =>
      cases initializer with
      | some initializer => rfl
      | none => exact (hplace rfl).trans (houter rfl)
  | body =>
      cases initializer with
      | some initializer => cases increment <;> rfl
      | none =>
          cases increment with
          | some increment => exact houter rfl
          | none => exact (hplace rfl).trans (houter rfl)
  | increment =>
      cases initializer with
      | some initializer => rfl
      | none => exact houter rfl

theorem waiting_ne_nil (loop : Loop) (outer inside : Env) (part : Part) :
    loop.waiting outer inside part ≠ [] := by
  cases part with
  | body => cases hincrement : loop.increment <;> simp [waiting, behindTurn, hincrement]
  | _ => exact List.cons_ne_nil _ _

/-- A failure goes through all frames of the tree. -/
theorem leaves_failed (loop : Loop) (outer inside : Env) (part : Part) (failure : Failure) :
    ∀ frame ∈ loop.waiting outer inside part, (Control.failed failure).leaves frame := by
  obtain ⟨initializer, condition, increment, body, hbody⟩ := loop
  cases part <;> cases initializer <;> cases increment <;>
    simp [waiting, behindTurn, behind, Control.leaves]

/-- A `return` goes through all frames that wait for a statement. -/
theorem leaves_returned (loop : Loop) (outer inside : Env) {part : Part}
    (hpart : part = .initializer ∨ part = .body) (value : Value) :
    ∀ frame ∈ loop.waiting outer inside part,
      (Control.completed (.returned value)).leaves frame := by
  obtain ⟨initializer, condition, increment, body, hbody⟩ := loop
  rcases hpart with rfl | rfl <;> cases initializer <;> cases increment <;>
    simp [waiting, behindTurn, behind, Control.leaves]

end Loop

/-- What waits for the end of a statement gets no value. -/
theorem Fits.ne_value {scene : Scene} {env : Env} {active : List ScopeId} {control : Control}
    {frames : List Frame} (h : Fits scene env active control frames)
    (hframes : ∀ site, ¬Awaits scene .value site frames) (value : Value) :
    control ≠ .value value := by
  rintro rfl
  cases h with
  | value _ _ hawaits => exact hframes _ hawaits

/-- What waits for a value does not get the end of a statement. -/
theorem Fits.ne_completed {scene : Scene} {env : Env} {active : List ScopeId} {control : Control}
    {frames : List Frame} (h : Fits scene env active control frames)
    (hframes : ∀ result site, Awaits scene result site frames → result = .value)
    (completion : Completion) : control ≠ .completed completion := by
  rintro rfl
  cases h with
  | completed _ hresult hawaits => exact hresult (hframes _ _ hawaits)
  | returned _ hresult hawaits => exact hresult (hframes _ _ hawaits)

namespace Loop

variable {loop copy : Loop} {p : Pairing} {outer : Env} {base : List Frame}
  {place inside inside' : Env} {world world' : World} (depth : Nat)

/-- A result with which the loop ends goes through all frames of the tree. -/
theorem Goes.exit (h : loop.Goes copy p outer base) {part : Part}
    (hstands : loop.Stands p outer part place inside inside') (hworld : world.Like p world')
    {idle : Option Nat} {control control' : Control} (hcontrol : control.Like p idle control')
    (hresult : control.isResult)
    (hleaves : ∀ frame ∈ loop.waiting outer inside part, control.leaves frame) :
    loop.Reaches copy outer base p
      (Machine.step ⟨control, loop.waiting outer inside part ++ base, place, depth, world⟩)
      (LoopRun.finish ⟨copy, outer, some part, ⟨control', [], inside', depth, world'⟩⟩
        control') := by
  have hover := h.over depth hworld hcontrol hresult
  have hhome := hstands.home_waiting
  have hnonempty := loop.waiting_ne_nil outer inside part
  revert hleaves hhome
  generalize loop.waiting outer inside part = frames at hnonempty
  cases frames with
  | nil => exact absurd rfl hnonempty
  | cons frame rest =>
      intro hleaves hhome
      obtain ⟨hframe, hrest⟩ := List.forall_mem_cons.1 hleaves
      have hstep := Machine.step_leaving hframe (rest ++ base) place depth world
      have hpasses : Machine.Passes base
          ⟨control, rest ++ base, Frame.home place [frame], depth, world⟩ _ :=
        Machine.passes_leaving _ hrest
      have hends : Frame.home (Frame.home place [frame]) rest = outer :=
        (Frame.home_append place [frame] rest).symm.trans hhome
      rw [hends] at hpasses
      exact hstep ▸ .of_passes (.refl p) hpasses hover.reaches

/-- What waits for the end of a statement. -/
theorem not_awaits_value {scene : Scene} {site : Site} {part : Part}
    (hpart : part = .initializer ∨ part = .body) :
    ¬Awaits scene .value site (loop.waiting outer inside part ++ base) := by
  obtain ⟨initializer, condition, increment, body, hbody⟩ := loop
  rcases hpart with rfl | rfl
  · exact nofun
  · cases increment <;> exact nofun

/-- What waits for a value. -/
theorem eq_value_of_awaits {scene : Scene} {result : Result} {site : Site} {part : Part}
    (hpart : part = .condition ∨ part = .increment)
    (h : Awaits scene result site (loop.waiting outer inside part ++ base)) : result = .value := by
  rcases hpart with rfl | rfl <;> cases h <;> rfl

/-- A turn has come to its end.  In the tree the increment is evaluated in the scope of the turn. -/
theorem Goes.advance (h : loop.Goes copy p outer base)
    (hstands : loop.Stands p outer .body place inside inside') (hworld : world.Like p world') :
    loop.Reaches copy outer base p
      (Machine.step
        ⟨.completed .normal, loop.waiting outer inside .body ++ base, place, depth, world⟩)
      (LoopRun.advance
        ⟨copy, outer, some .body, ⟨.completed .normal, [], inside', depth, world'⟩⟩) := by
  obtain ⟨hinside, hskips, hplace, houter, -⟩ := id hstands
  have htest := h.test depth hworld hinside houter (some .body) (.completed .normal)
  obtain ⟨initializer, condition, increment, body, hbody⟩ := loop
  obtain ⟨initializer', condition', increment', body', hbody'⟩ := copy
  have hclause := h.clauses.increment
  cases hclause with
  | none =>
      obtain rfl := hplace rfl
      exact htest
  | @some increment increment' hincrement =>
      have hstands' :
          Stands ⟨initializer, condition, some increment, body, hbody⟩ p outer .increment
          place inside inside' := ⟨hinside, hskips, nofun, houter, nofun⟩
      exact .of_passes (.refl p) (.step (Machine.not_ended_of_running rfl) rfl
        (.step (Machine.not_ended_of_running rfl) rfl (.refl _)))
        (hstands'.begins depth hworld (.evaluate hincrement)).reaches

/-- The result of a part is handed to the tree, which goes on as the loop by itself does. -/
theorem Goes.next (h : loop.Goes copy p outer base) {part : Part}
    (hstands : loop.Stands p outer part place inside inside') (hworld : world.Like p world')
    {idle : Option Nat} {control control' : Control} (hcontrol : control.Like p idle control')
    (hresult : control.isResult) {scene : Scene} {active : List ScopeId}
    (hfits : Fits scene place active control (loop.waiting outer inside part ++ base)) :
    loop.Reaches copy outer base p
      (Machine.step ⟨control, loop.waiting outer inside part ++ base, place, depth, world⟩)
      (LoopRun.next ⟨copy, outer, some part, ⟨control', [], inside', depth, world'⟩⟩ part) := by
  have hsame := hcontrol
  obtain ⟨hinside, -, hplace, houter, hsome⟩ := id hstands
  have hexit := h.exit depth hstands hworld hcontrol hresult
  have htest (part : Option Part) (control' : Control) :=
    h.test depth hworld hinside houter part control'
  cases hcontrol with
  | failed failure =>
      have hfailed := hexit (loop.leaves_failed outer inside part failure)
      cases part <;> exact hfailed
  | @value value value' hvalue =>
      cases part with
      | initializer =>
          exact absurd rfl (hfits.ne_value (fun _ => not_awaits_value (.inl rfl)) value)
      | body => exact absurd rfl (hfits.ne_value (fun _ => not_awaits_value (.inr rfl)) value)
      | condition =>
          obtain rfl := hplace rfl
          have hturn := h.turn depth hworld hinside houter (some .condition) (.value value')
          have hclose := h.close depth hworld houter (some .condition) (.value value') inside'
          have hnext : LoopRun.next ⟨copy, outer, some .condition,
              ⟨.value value', [], inside', depth, world'⟩⟩ .condition = _ :=
            if_congr (by rw [hvalue.isTruthy_eq]) rfl rfl
          rw [hnext]
          show Reaches _ _ _ _ _
            (Machine.receive ⟨.value value, loop.behind outer ++ base, place, depth, world⟩ value
              (.loopTest loop.guard loop.turn)) _
          rw [Machine.receive]
          split
          · exact hturn
          · exact hclose
      | increment =>
          exact .of_passes (.refl p) (.step Machine.not_ended_of_frame rfl
            (.step (Machine.not_ended_of_running rfl) rfl (.step Machine.not_ended_of_frame rfl
              (.step Machine.not_ended_of_frame rfl (.refl _)))))
            (htest (some .increment) (.value value'))
  | completed hcompletion =>
      cases part with
      | condition =>
          exact absurd rfl (hfits.ne_completed (fun _ _ => eq_value_of_awaits (.inl rfl)) _)
      | increment =>
          exact absurd rfl (hfits.ne_completed (fun _ _ => eq_value_of_awaits (.inr rfl)) _)
      | initializer =>
          cases hcompletion with
          | returned hvalue => exact hexit (loop.leaves_returned outer inside (.inl rfl) _)
          | normal =>
              obtain rfl := hplace rfl
              obtain ⟨initializer, condition, increment, body, hbody⟩ := loop
              cases initializer with
              | none => cases hsome rfl
              | some initializer =>
                  exact .of_passes (.refl p) (.step (Machine.not_ended_of_running rfl) rfl
                    (.step (Machine.not_ended_of_running rfl) rfl (.refl _)))
                    (htest (some .initializer) (.completed .normal))
      | body =>
          cases hcompletion with
          | returned hvalue => exact hexit (loop.leaves_returned outer inside (.inr rfl) _)
          | normal => exact h.advance depth hstands hworld
  | _ => cases hresult

end Loop

/-! ## Steps -/

theorem Frame.LikeAll.eq_nil_iff {p : Pairing} {idle : Option Nat} {frames frames' : List Frame}
    (h : Frame.LikeAll p idle frames frames') : frames = [] ↔ frames' = [] := by
  cases h <;> simp

theorem Machine.isOver_iff {machine : Machine} : machine.isOver ↔ machine.Ended [] := by
  rw [isOver, Bool.and_eq_true, List.isEmpty_iff]
  rfl

theorem Control.Like.isResult_eq {p : Pairing} {idle : Option Nat} {control control' : Control}
    (h : control.Like p idle control') : control'.isResult = control.isResult := by
  cases h <;> rfl

/-- Machines that correspond come to the end of their work together. -/
theorem Machine.Like.ended_iff {p : Pairing} {machine machine' : Machine}
    (h : machine.Like p machine') :
    machine.Ended [] ↔ machine'.Ended [] := by
  cases h with
  | mk haround hcontrol =>
      rw [Machine.Ended, Machine.Ended, haround.frames.eq_nil_iff, hcontrol.isResult_eq]

/-- A machine that has ended is where it leads back to. -/
theorem Machine.LeadsBack.eq_of_ended {env : Env} {depth : Nat} {machine : Machine}
    (h : machine.LeadsBack [] env depth) (hended : machine.Ended []) :
    machine = ⟨machine.control, [], env, depth, machine.world⟩ := by
  obtain ⟨henv, hdepth⟩ := h.ended hended
  obtain ⟨control, frames, inside, calls, world⟩ := machine
  obtain rfl : frames = [] := hended.1
  obtain rfl : inside = env := henv
  obtain rfl : calls = depth := hdepth
  rfl

namespace Loop

variable {loop copy : Loop} {p : Pairing} {outer : Env} {base : List Frame} {machine : Machine}
  {run : LoopRun}

theorem Stands.mono {part : Part} {place inside inside' : Env} {q : Pairing}
    (h : loop.Stands p outer part place inside inside') (hgrows : p.Grows q) :
    loop.Stands q outer part place inside inside' :=
  ⟨h.skips_inside.mono hgrows, h.skips_place.mono hgrows, h.place_eq, h.inside_eq, h.isSome⟩

/-- While there is work on a part, the tree of the loop is not done. -/
theorem not_ended_above {outer inside : Env} {part : Part} {inner : Machine} :
    ¬(inner.above (loop.waiting outer inside part ++ base)).Ended base := by
  obtain ⟨frame, rest, hwaiting⟩ :=
    List.exists_cons_of_ne_nil (loop.waiting_ne_nil outer inside part)
  obtain ⟨control, frames, env, depth, world⟩ := inner
  intro hended
  have hlength := congrArg List.length hended.1
  simp only [Machine.above, hwaiting, List.length_append, List.length_cons] at hlength
  omega

/-- As long as the loop has not ended, the next step of the loop by itself is followed too. -/
theorem Follows.step (h : loop.Follows copy outer base p machine run)
    (hgoes : loop.Goes copy p outer base) (hpart : run.part ≠ none) {scene : Scene}
    {active : List ScopeId}
    (hfits : Fits scene machine.env active machine.control machine.frames) :
    ¬machine.Ended base ∧ loop.Reaches copy outer base p machine.step run.step := by
  cases h with
  | «over» _ _ => exact absurd rfl hpart
  | @part part place inside inside' depth inner inner' hstands hlike hback hback' =>
      refine ⟨not_ended_above, ?_⟩
      have hover : inner'.isOver ↔ inner.Ended [] := Machine.isOver_iff.trans hlike.ended_iff.symm
      by_cases hended : inner.Ended []
      · -- The part has come to its end, and its result is handed on.
        have hstep : LoopRun.step ⟨copy, outer, some part, inner'⟩ =
            LoopRun.next ⟨copy, outer, some part, inner'⟩ part := if_pos (hover.2 hended)
        rw [hstep, hback'.eq_of_ended (hlike.ended_iff.1 hended)]
        rw [hback.eq_of_ended hended] at hfits ⊢
        cases hlike with
        | mk haround hcontrol =>
            exact hgoes.next depth hstands haround.world hcontrol hended.2 hfits
      · have hstep : LoopRun.step ⟨copy, outer, some part, inner'⟩ =
            ⟨copy, outer, some part, inner'.step⟩ := if_neg fun hisOver => hended (hover.1 hisOver)
        have hended' : ¬inner'.Ended [] := fun hinner' => hended (hlike.ended_iff.2 hinner')
        obtain ⟨q, hgrows, hnext⟩ := hlike.step
        rw [hstep, Machine.step_above _ hended]
        exact ⟨q, _, hgrows, .refl _,
          .part (hstands.mono hgrows) hnext (hback.step hended).1 (hback'.step hended').1⟩

/-- The loop by itself starts when its tree is executed, in a state that corresponds. -/
theorem Goes.start (hgoes : loop.Goes copy p outer base) {world world' : World}
    (hworld : world.Like p world') (depth : Nat) (control' : Control) (frames' : List Frame) :
    loop.Reaches copy outer base p ⟨.execute loop.tree, base, outer, depth, world⟩
      (LoopRun.start copy ⟨control', frames', outer, depth, world'⟩) := by
  have htest := hgoes.test depth hworld hgoes.outer
  obtain ⟨initializer, condition, increment, body, hbody⟩ := loop
  obtain ⟨initializer', condition', increment', body', hbody'⟩ := copy
  have hclause := hgoes.clauses.initializer
  cases hclause with
  | none =>
      exact .of_passes (.refl p) (.step (Machine.not_ended_of_running rfl) rfl (.refl _))
        (htest (fun _ => rfl) none control')
  | @some initializer initializer' hinitializer =>
      have hgrows := p.grows_adding (some world'.store.scopes.size)
      have himage := hworld.store.image_newScope [] []
      have hopened := hworld.withStore hgrows (hworld.store.newScope (Bindings.like_nil p))
      have hinside := Env.Skips.inner himage (hgoes.outer.mono hgrows)
      have hstands :
          Stands ⟨some initializer, condition, increment, body, hbody⟩ _ outer .initializer
          (world.store.scopes.size :: outer) (world.store.scopes.size :: outer)
          (world'.store.scopes.size :: outer) :=
            ⟨hinside, hinside, fun _ => rfl, nofun, fun _ => rfl⟩
      refine .of_passes hgrows (.step (Machine.not_ended_of_running rfl) rfl
        (.step (Machine.not_ended_of_running rfl) rfl (.refl _))) ?_
      exact (hstands.begins depth hopened (.execute (hinitializer.mono hgrows))).reaches

/-! ## Whole runs -/

/-- The tree and the loop by itself show the same output at the moments at which they are
together. -/
theorem Follows.output_eq (h : loop.Follows copy outer base p machine run) :
    run.machine.world.output = machine.world.output := by
  cases h with
  | part _ hlike _ _ =>
      cases hlike with
      | mk haround _ => exact haround.world.output
  | «over» _ hlike =>
      cases hlike with
      | mk haround _ => exact haround.world.output

/-- They end together, and in the same way. -/
theorem Follows.over_iff (h : loop.Follows copy outer base p machine run) :
    (run.part = none ↔ machine.Ended base) ∧
      (machine.Ended base → machine.Like p (run.machine.above base)) := by
  cases h with
  | part _ _ _ _ => exact ⟨⟨nofun, fun hended => absurd hended not_ended_above⟩,
      fun hended => absurd hended not_ended_above⟩
  | «over» hended hlike => exact ⟨⟨fun _ => hended, fun _ => rfl⟩, fun _ => hlike⟩

/-- Every step of the loop by itself is followed by the tree. -/
theorem Reaches.exists_works {start : Machine} (h : loop.Reaches copy outer base p start run)
    (hgoes : loop.Goes copy p outer base)
    (hfits : ∀ moment, Machine.Works base start moment →
      ∃ scene active, Fits scene moment.env active moment.control moment.frames) (count : Nat) :
    ∃ q moment, p.Grows q ∧ Machine.Works base start moment ∧
      loop.Follows copy outer base q moment (LoopRun.step^[count] run) := by
  induction count with
  | zero =>
      obtain ⟨q, next, hgrows, hpasses, hfollows⟩ := h
      exact ⟨q, next, hgrows, hpasses.works .start, hfollows⟩
  | succ count ih =>
      obtain ⟨q, moment, hgrows, hworks, hfollows⟩ := ih
      rw [Function.iterate_succ_apply']
      by_cases hpart : (LoopRun.step^[count] run).part = none
      · rw [LoopRun.step_of_part_eq_none hpart]
        exact ⟨q, moment, hgrows, hworks, hfollows⟩
      · obtain ⟨scene, active, hfit⟩ := hfits moment hworks
        obtain ⟨hended, r, next, hgrows', hpasses, hnext⟩ :=
          hfollows.step (hgoes.mono hgrows) hpart hfit
        exact ⟨r, next, hgrows.trans hgrows', hpasses.works (hworks.step hended), hnext⟩

/-- From every moment of the work on the tree it comes, without printing anything, to where the loop
by itself is behind some steps. -/
theorem Reaches.exists_count {start moment : Machine}
    (h : loop.Reaches copy outer base p start run) (hgoes : loop.Goes copy p outer base)
    (hfits : ∀ moment, Machine.Works base start moment →
      ∃ scene active, Fits scene moment.env active moment.control moment.frames)
    (hworks : Machine.Works base start moment) :
    ∃ q count, p.Grows q ∧ loop.Reaches copy outer base q moment (LoopRun.step^[count] run) := by
  induction hworks with
  | start => exact ⟨p, 0, .refl p, h⟩
  | @step moment hworks hended ih =>
      obtain ⟨q, count, hgrows, r, next, hgrows', hpasses, hfollows⟩ := ih
      cases hpasses with
      | step _ _ hrest => exact ⟨q, count, hgrows, r, next, hgrows', hrest, hfollows⟩
      | refl =>
          have hpart : (LoopRun.step^[count] run).part ≠ none := fun hpart =>
            hended (hfollows.over_iff.1.1 hpart)
          obtain ⟨scene, active, hfit⟩ := hfits moment hworks
          refine ⟨r, count + 1, hgrows.trans hgrows', ?_⟩
          rw [Function.iterate_succ_apply']
          exact (hfollows.step (hgoes.mono (hgrows.trans hgrows')) hpart hfit).2

end Loop

end LoxLang
