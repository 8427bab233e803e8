import LoxLang.Proofs.Run.Entering

/-!
# Steps back to frames

A machine hands the value of an expression or the end of a statement to its innermost frame.  As in
the steps into parts, there is one lemma for each function of the machine.
-/

namespace LoxLang

theorem Path.after_of_declared?_eq_none {path : Path} {statement : Stmt}
    (h : statement.declared? = none) : path.after statement = path := by
  rw [Path.after, h]

section

variable {scene : Scene} {value : Value}

/-- Operators make numbers, strings and truth values only. -/
theorem Scene.hasValue_of_unary {operator : Kind} {operand : Value}
    (h : operand.unary operator = .ok value) : scene.HasValue value := by
  unfold Value.unary at h
  split at h
  · cases h
    trivial
  · split at h
    · cases h
      trivial
    · cases h
  · cases h

theorem Scene.hasValue_of_binary {operator : Kind} {left right : Value}
    (h : left.binary operator right = .ok value) : scene.HasValue value := by
  unfold Value.binary at h
  split at h
  · cases h
    trivial
  · cases h
    trivial
  · unfold Value.add at h
    split at h <;> cases h <;> trivial
  · split at h
    · unfold Value.arithmetic at h
      split at h <;> cases h <;> trivial
    · cases h

theorem eq_ok_of_mapError {result : Except RuntimeCause Value}
    {change : RuntimeCause → RuntimeFault} (h : result.mapError change = .ok value) :
    result = .ok value := by
  cases result with
  | ok found =>
      cases h
      rfl
  | error cause => cases h

end

/-- No statements are run in the scope of a bound method. -/
theorem World.runs_openedByProperty (world : World) (object : Instance) (name : Token)
    (size : Nat) : Opening.runs (world.openedByProperty object name) size = [] := by
  rw [World.openedByProperty]
  split
  · rfl
  · split <;> rfl

section

variable {past : Past} {world : World} {site : Site} {frames : List Frame} {depth : Nat}
  {control : Control} (h : (world.scene past).Grounded)

include h

theorem lands_assign {target : Occurrence} {value : Value} (hname : target.name.Names Token.Genuine)
    (hstands : site.Stands (world.scene past)) (hvalue : (world.scene past).HasValue value)
    (hframes : Awaits (world.scene past) .value site frames) :
    Lands past world [] site.active
      (Machine.receive ⟨control, frames, site.env, depth, world⟩ value (.assign target)) := by
  unfold Machine.receive
  dsimp only
  cases world.target site.env target with
  | error fault => exact .of_leads (.refl h) .failed
  | ok scope =>
      have hgrows := (world.scene past).grows_define scope target.name.lexeme value
      have hleads : (world.scene past).Leads [] (world.set scope target.name.lexeme value).store :=
        h.define scope hname (hvalue.mono hgrows)
      exact .of_leads hleads (.value (hstands.mono hgrows) (hvalue.mono hgrows)
        (hframes.mono hgrows))

/-- A branch declares nothing, so the place behind it is the place behind the whole statement. -/
theorem lands_branch {statement branch : Stmt} (hstands : site.Stands (world.scene past))
    (hlocated : Located site.program site.path (.statement statement))
    (hbranch : branch ∈ statement.branches)
    (hframes : Awaits (world.scene past) .ending site frames) :
    Lands past world [] site.active ⟨.execute branch, frames, site.env, depth, world⟩ := by
  have hformed : statement.Formed Token.Genuine :=
    hlocated.formed (h.accepted _ hstands.program).formed
  have hafter : site.path.after branch = site.path :=
    Path.after_of_declared?_eq_none (hformed.declared?_branch hbranch)
  have hbehind :
      Awaits (world.scene past) .ending (site.moved (site.path.after branch)) frames := by
    rw [hafter]
    exact hframes
  exact .of_leads (.refl h) (.execute hstands (hlocated.branch hbranch) hbehind)

theorem lands_print {value : Value} (hstands : site.Stands (world.scene past))
    (hframes : Awaits (world.scene past) .ending site frames) :
    Lands past world [] site.active
      (Machine.receive ⟨control, frames, site.env, depth, world⟩ value .print) := by
  have hstore : (world.print value).1.store = world.store := rfl
  unfold Machine.receive
  dsimp only
  generalize world.print value = printed at hstore
  obtain ⟨printed, fits⟩ := printed
  have hleads : (world.scene past).Leads [] printed.store := by
    rw [hstore]
    exact .refl h
  have hscene : printed.scene past = world.scene past := by
    rw [World.scene, hstore, World.scene]
  cases fits with
  | false => exact .of_leads hleads .failed
  | true =>
      refine .of_leads hleads ?_
      show Fits (printed.scene past) _ _ _ _
      rw [hscene]
      exact .completed hstands (by decide) hframes

/-- A value is handed to the frame that waits for it. -/
theorem lands_receive {value : Value} {frame : Frame} (hstands : site.Stands (world.scene past))
    (hvalue : (world.scene past).HasValue value)
    (hframes : Awaits (world.scene past) .value site (frame :: frames)) :
    let machine : Machine := ⟨control, frames, site.env, depth, world⟩
    Lands past world (machine.openedByValue value frame)
      (Opening.runs (machine.openedByValue value frame) past.openings.length ++ site.active)
      (machine.receive value frame) := by
  intro machine
  have hgrows := (Scene.Leads.refl h).grows
  cases hframes with
  | unary _ hframes =>
      exact lands_settle (.refl h) hstands
        (fun value hresult => Scene.hasValue_of_unary (eq_ok_of_mapError hresult)) hframes
  | binaryLeft hlocated hframes =>
      exact lands_evaluating h hstands
        (hlocated.operand (List.mem_cons_of_mem _ List.mem_cons_self))
        (.binaryRight hlocated hvalue hframes)
  | binaryRight _ _ hframes =>
      exact lands_settle (.refl h) hstands
        (fun value hresult => Scene.hasValue_of_binary (eq_ok_of_mapError hresult)) hframes
  | @logical _ operator right _ hright hframes =>
      show Lands past world [] site.active (machine.receive value (.logical operator right))
      unfold Machine.receive
      dsimp only
      split
      · exact lands_value h hstands hvalue hframes
      · exact .of_leads (.refl h) (.evaluate hstands hright hframes)
  | @assign _ target expression _ hlocated hframes =>
      have hformed : Expr.Formed Token.Genuine (.assign target expression) :=
        hlocated.formed (h.accepted _ hstands.program).formed
      exact lands_assign h hformed.spells hstands hvalue hframes
  | callee harguments hframes =>
      exact lands_nextArgument h hvalue (fun _ hdone => by cases hdone) harguments _ hstands hframes
  | argument hcallee hdone hrest hframes =>
      refine lands_nextArgument h hcallee ?_ hrest _ hstands hframes
      intro other hother
      rcases List.mem_cons.1 hother with rfl | hmem
      · exact hvalue
      · exact hdone other hmem
  | @get _ name _ hframes =>
      cases value with
      | object object =>
          obtain ⟨hleads, hproperty⟩ := h.property hvalue name
          show Lands past world (world.openedByProperty object name)
            (Opening.runs (world.openedByProperty object name) _ ++ site.active) _
          rw [World.runs_openedByProperty]
          exact lands_settle hleads hstands hproperty hframes
      | _ => exact lands_fail h _ _ _
  | @setObject _ name expression _ hlocated hframes =>
      cases value with
      | object object => exact lands_evaluating h hstands hlocated (.setValue hvalue hframes)
      | _ => exact lands_fail h _ _ _
  | @setValue _ name object _ _ hframes =>
      have hleads := h.setField object.identity name.lexeme hvalue
      have hgrows := hleads.grows
      rw [Scene.after_nil] at hgrows
      exact .of_leads hleads (.value (hstands.mono hgrows) (hvalue.mono hgrows)
        (hframes.mono hgrows))
  | expression hframes => exact lands_completed h (by decide) hstands hframes
  | print hframes => exact lands_print h hstands hframes
  | @define _ name initializer _ hlocated hframes =>
      have hformed : Stmt.Formed Token.Genuine (.varDecl name (some initializer)) :=
        hlocated.formed (h.accepted _ hstands.program).formed
      have hgrows := (h.activates_defineIn hstands.activates hformed.spells value).1
      exact lands_define h hformed.spells hstands (hvalue.mono hgrows) hframes
  | @choice _ condition thenBranch elseBranch _ hlocated hframes =>
      show Lands past world [] site.active (machine.receive value (.choice thenBranch elseBranch))
      unfold Machine.receive
      dsimp only
      split
      · exact lands_branch h hstands hlocated List.mem_cons_self hframes
      · cases elseBranch with
        | none => exact lands_completed h (by decide) hstands hframes
        | some elseBranch =>
            exact lands_branch h hstands hlocated
              (List.mem_cons_of_mem _ List.mem_cons_self) hframes
  | @loopTest _ condition body _ hlocated hframes =>
      show Lands past world [] site.active (machine.receive value (.loopTest condition body))
      unfold Machine.receive
      dsimp only
      split
      · exact lands_branch h hstands hlocated List.mem_cons_self (.loopBody hlocated hframes)
      · exact lands_completed h (by decide) hstands hframes
  | returning hframes =>
      exact .of_leads (.refl h) (.returned hvalue (by decide) hframes)

/-! ## Ends -/

/-- A call that ends goes back to the site from which it was made. -/
theorem lands_leave {activation : Activation} {env : Env} {completion : Completion}
    (henv : site.env = activation.caller)
    (hmade : ∀ object, activation.made = some object →
      (world.scene past).HasClass object.ownClass)
    (hcompletion : ∀ value, completion = .returned value → (world.scene past).HasValue value)
    (hstands : site.Stands (world.scene past))
    (hframes : Awaits (world.scene past) .value site frames) :
    Lands past world [] site.active
      (Machine.leave ⟨control, frames, env, depth, world⟩ activation completion) := by
  unfold Machine.leave
  dsimp only
  rw [← henv]
  split
  · cases hbound : world.store.getAt? activation.callee.env 0 thisName with
    | none => exact lands_fail h _ _ _
    | some bound =>
        cases hobject : activation.made with
        | none => exact lands_value h hstands (h.hasValue_of_getAt? hbound) hframes
        | some object =>
            have hvalue : (world.scene past).HasValue (.object object) := hmade object hobject
            exact lands_value h hstands hvalue hframes
  · cases completion with
    | normal =>
        have hnil : (world.scene past).HasValue .nil := trivial
        exact lands_value h hstands hnil hframes
    | returned value => exact lands_value h hstands (hcompletion value rfl) hframes

/-- A completion that has come to a site: at the place where it is awaited, if it is the normal
one. -/
theorem lands_completion {result : Result} {completion : Completion} (hresult : result ≠ .value)
    (hcompletion : ∀ value, completion = .returned value → (world.scene past).HasValue value)
    (hstands : completion = .normal → site.Stands (world.scene past))
    (hframes : Awaits (world.scene past) result site frames) :
    Lands past world [] site.active
      ⟨.completed completion, frames, site.env, depth, world⟩ := by
  cases completion with
  | normal => exact lands_completed h hresult (hstands rfl) hframes
  | returned value =>
      exact .of_leads (.refl h) (.returned (hcompletion value rfl) hresult hframes)

/-- The end of a statement is handed to the frame that waits for it. -/
theorem lands_finish {result : Result} {completion : Completion} {frame : Frame}
    (hresult : result ≠ .value)
    (hcompletion : ∀ value, completion = .returned value → (world.scene past).HasValue value)
    (hstands : completion = .normal → site.Stands (world.scene past))
    (hframes : Awaits (world.scene past) result site (frame :: frames)) :
    let machine : Machine := ⟨.completed completion, frame :: frames, site.env, depth, world⟩
    Lands past world [] (if machine.ends then site.active.tail else site.active) machine.step := by
  intro machine
  have hending : Result.ending ≠ .value := by decide
  cases hframes with
  | @loopBody _ condition body _ hlocated hframes =>
      cases completion with
      | normal =>
          exact lands_evaluating h (hstands rfl) (hlocated.expression List.mem_cons_self)
            (.loopTest hlocated hframes)
      | returned value => exact lands_completion h hending hcompletion hstands hframes
  | @sequence _ rest _ hlocated hframes =>
      cases completion with
      | normal => exact .of_leads (.refl h) (.run (hstands rfl) hlocated hframes)
      | returned value => exact lands_completion h (by decide) hcompletion hstands hframes
  | @block _ outer scope env _ henv hactive houter hstands' hframes =>
      have htail : site.active.tail = outer.active := by rw [hactive, List.tail_cons]
      subst houter
      show Lands past world [] site.active.tail
        ⟨.completed completion, frames, outer.env, depth, world⟩
      rw [htail]
      exact lands_completion h hending hcompletion (fun _ => hstands') hframes
  | @activation _ outer scope activation _ henv hactive houter hcallee hmade hstands' hframes =>
      have htail : site.active.tail = outer.active := by rw [hactive, List.tail_cons]
      show Lands past world [] site.active.tail (Machine.leave
        ⟨.completed completion, frames, site.env, depth, world⟩ activation completion)
      rw [htail]
      exact lands_leave h houter hmade hcompletion hstands' hframes
  | _ => exact absurd rfl hresult

end

end LoxLang
