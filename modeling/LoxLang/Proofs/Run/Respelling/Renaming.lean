import LoxLang.Proofs.Run.Globals
import LoxLang.Proofs.Run.Respelling.Machine
import LoxLang.Proofs.Scope.LocalRenaming

/-!
# Runs of renamed programs

A scope that is made for a construct that declares the new name of a local variable has that name
where it had the old one; all other scopes are as they were.  At every moment of a run the names
that are used are spelled so, and so the run of the renamed program is the one of the program that
it was, up to the names in these scopes.
-/

namespace LoxLang

/-- The names that are declared in a scope. -/
def Opening.declarations : Opening → List String
  | block body _ => body.filterMap Stmt.declared?
  | call callee =>
      callee.declaration.params.map Token.lexeme ++
        callee.declaration.body.filterMap Stmt.declared?
  | _ => []

/-! ## Scopes of constructs -/

namespace Scene

variable {scene : Scene} {env : Env} {path : Path}

/-- The constructs around a place have scopes in which the same names are declared. -/
theorem Activates.exists_opening (h : scene.Activates env path) {distance : Nat}
    {enclosure : Enclosure} (hpath : path[distance]? = some enclosure) :
    ∃ scope opening, env[distance]? = some scope ∧ scene.openings[scope]? = some opening ∧
      opening.declarations = enclosure.construct.declarations := by
  induction h generalizing distance with
  | globals => cases hpath
  | block hopening _ _ ih =>
      cases distance with
      | zero =>
          cases hpath
          exact ⟨_, _, rfl, hopening, rfl⟩
      | succ distance => exact ih hpath
  | function hopening _ _ _ ih =>
      cases distance with
      | zero =>
          cases hpath
          exact ⟨_, _, rfl, hopening, rfl⟩
      | succ distance => exact ih hpath
  | method hopening hbound _ _ hclass _ _ _ ih =>
      match distance with
      | 0 =>
          cases hpath
          exact ⟨_, _, rfl, hopening, rfl⟩
      | 1 =>
          cases hpath
          exact ⟨_, _, rfl, hbound, rfl⟩
      | distance + 2 =>
          cases hclass with
          | plain => exact ih hpath
          | derived hsuperclass =>
              cases distance with
              | zero =>
                  cases hpath
                  exact ⟨_, _, rfl, hsuperclass, rfl⟩
              | succ distance => exact ih hpath

/-- A function that has been made is one of a program. -/
theorem HasFunction.exists_construct {callee : Closure} (h : scene.HasFunction callee) :
    ∃ program ∈ scene.programs, ∃ (outer : Path) (construct : Construct),
      Located program (construct.opened :: outer) (.statements callee.declaration.body) ∧
      (Opening.call callee).declarations = construct.declarations := by
  cases h with
  | function hprogram hlocated _ _ _ =>
      exact ⟨_, hprogram, _, .function callee.declaration, hlocated.function, rfl⟩
  | bound _ _ hmethod =>
      cases hmethod with
      | mk hclass hmem _ _ =>
          obtain ⟨program, hprogram, path, hlocated, -, -⟩ := hclass
          exact ⟨program, hprogram, _, .method callee.declaration, hlocated.method hmem, rfl⟩

end Scene

/-! ## Scopes of calls -/

namespace Machine

variable {machine : Machine} {callee : Closure} {index : Nat}

theorem exists_activation_of_call {paren : Token} {called : Value} {arguments : List Value}
    (h : (machine.openedByCall called arguments)[index]? = some (.call callee)) :
    ∃ activation frames statements, activation.callee = callee ∧
      (machine.call paren called arguments).control = .run statements ∧
      (machine.call paren called arguments).frames = .activation activation :: frames := by
  unfold openedByCall at h
  unfold call
  cases hobstacle : callObstacle? called arguments machine.depth with
  | some cause =>
      rw [hobstacle] at h
      cases h
  | none =>
      rw [hobstacle] at h
      cases called with
      | function closure =>
          cases index with
          | zero =>
              cases h
              exact ⟨_, _, _, rfl, rfl, rfl⟩
          | succ index => cases h
      | classValue ownClass =>
          cases hinitializer : ownClass.initializer? with
          | none => simp [hinitializer] at h
          | some method =>
              simp only [hinitializer] at h ⊢
              match index with
              | 0 => cases h
              | 1 =>
                  cases h
                  exact ⟨_, _, _, rfl, rfl, rfl⟩
              | index + 2 => cases h
      | _ => cases h

theorem exists_activation_of_next (machine : Machine) {paren : Token} {called : Value}
    {done : List Value} {rest : List Expr}
    (h : (machine.openedByNext called done rest)[index]? = some (.call callee)) :
    ∃ activation frames statements, activation.callee = callee ∧
      (machine.nextArgument paren called done rest).control = .run statements ∧
      (machine.nextArgument paren called done rest).frames = .activation activation :: frames := by
  cases rest with
  | nil => exact exists_activation_of_call h
  | cons argument rest => cases h

/-- The step that makes the scope of a call is the one into it. -/
theorem exists_activation_of_opened (h : machine.opened[index]? = some (.call callee)) :
    ∃ activation frames statements, activation.callee = callee ∧
      machine.step.control = .run statements ∧
      machine.step.frames = .activation activation :: frames := by
  obtain ⟨control, frames, env, depth, world⟩ := machine
  have hmem := List.mem_of_getElem? h
  cases control with
  | evaluate expression =>
      cases expression with
      | superRef occurrence method =>
          rcases world.superMethod_cases env occurrence method with
            ⟨fault, -, hopened⟩ | ⟨distance, superclass, object, found, -, -, -, -, -, hopened⟩
          · have hmem' : Opening.call callee ∈ world.openedBySuper env occurrence method := hmem
            rw [hopened] at hmem'
            cases hmem'
          · have hmem' : Opening.call callee ∈ world.openedBySuper env occurrence method := hmem
            rw [hopened] at hmem'
            cases List.mem_singleton.1 hmem'
      | _ => cases hmem
  | execute statement =>
      have hmem' : Opening.call callee ∈
          openedByStatement ⟨.execute statement, frames, env, depth, world⟩ statement := hmem
      unfold openedByStatement at hmem'
      split at hmem'
      · cases List.mem_singleton.1 hmem'
      · split at hmem'
        · cases List.mem_singleton.1 hmem'
        · cases hmem'
      · cases hmem'
  | value value =>
      cases frames with
      | nil => cases hmem
      | cons frame frames =>
          let popped : Machine := ⟨.value value, frames, env, depth, world⟩
          cases frame with
          | callee paren arguments => exact exists_activation_of_next popped h
          | argument paren called done rest => exact exists_activation_of_next popped h
          | get name =>
              cases value with
              | object object =>
                  have hmem' : Opening.call callee ∈ world.openedByProperty object name := hmem
                  unfold World.openedByProperty at hmem'
                  split at hmem'
                  · cases hmem'
                  · split at hmem'
                    · cases List.mem_singleton.1 hmem'
                    · cases hmem'
              | _ => cases hmem
          | _ => cases hmem
  | _ => cases hmem

end Machine

/-- The function of a call that the next step makes a scope for has been made by a program. -/
theorem Run.Sound.hasFunction_of_opened {run : Run} (h : run.Sound) {index : Nat} {callee : Closure}
    (hopened : run.machine.opened[index]? = some (.call callee)) :
    run.step.scene.HasFunction callee := by
  obtain ⟨activation, frames, statements, rfl, hcontrol, hframes⟩ :=
    Machine.exists_activation_of_opened hopened
  have hfits := h.step.fits
  rw [show run.step.machine.control = _ from hcontrol,
    show run.step.machine.frames = _ from hframes] at hfits
  generalize run.step.machine.env = env, run.step.active = active at hfits
  cases hfits with
  | run _ _ hawaits =>
      cases hawaits with
      | activation _ _ _ hcallee _ _ _ => exact hcallee

/-! ## Names in scopes -/

namespace Renaming

variable {r : Renaming} {openings : List Opening}

/-- The name that a variable of the renamed program had in a scope. -/
def nameIn (r : Renaming) (openings : List Opening) (scope : ScopeId) (name : String) : String :=
  match openings[scope]? with
  | some opening =>
      if r.new ∈ opening.declarations then Equiv.swap r.old r.new name else name
  | none => name

theorem nameIn_eq_self {scope : ScopeId} {name : String} (hold : name ≠ r.old)
    (hnew : name ≠ r.new) : r.nameIn openings scope name = name := by
  unfold nameIn
  split
  · split
    · exact Equiv.swap_apply_of_ne_of_ne hold hnew
    · rfl
  · rfl

theorem nameIn_of_globals {scope : ScopeId} (h : openings[scope]? = some .globals)
    (name : String) : r.nameIn openings scope name = name := by
  rw [nameIn, h]
  exact if_neg List.not_mem_nil

/-- How the names of the renamed program were spelled. -/
def spelling (r : Renaming) (hr : r.Proper) (openings : List Opening)
    (hglobals : openings[Store.globalScope]? = some .globals) : Spelling where
  code := r.spell
  nameIn := r.nameIn openings
  injective scope := by
    intro first second h
    unfold nameIn at h
    split at h
    · split at h
      · exact (Equiv.swap r.old r.new).injective h
      · exact h
    · exact h
  globals name := nameIn_of_globals hglobals name
  this _ := nameIn_eq_self (hr.old_ne .thisKw).symm (hr.new_ne .thisKw).symm
  super _ := nameIn_eq_self (hr.old_ne .superKw).symm (hr.new_ne .superKw).symm

variable {hr : r.Proper} {hglobals : openings[Store.globalScope]? = some .globals}

/-- A name that is declared in a scope is spelled in programs as it is there, unless both names are
declared in it. -/
theorem matches_of_mem {scope : ScopeId} {opening : Opening}
    (hopening : openings[scope]? = some opening)
    (hdistinct : r.new ∈ opening.declarations → r.old ∉ opening.declarations) {name : String}
    (hname : name ∈ opening.declarations) :
    (r.spelling hr openings hglobals).Matches scope name := by
  show r.spell name = r.nameIn openings scope name
  rw [nameIn, hopening]
  dsimp only
  by_cases hnew : name = r.new
  · subst hnew
    rw [if_pos hname, r.spell_new, Equiv.swap_apply_right]
  · rw [r.spell_of_ne hnew]
    split
    · next hmarked =>
        have hold : name ≠ r.old := fun heq => hdistinct hmarked (heq ▸ hname)
        exact (Equiv.swap_apply_of_ne_of_ne hold hnew).symm
    · rfl

end Renaming

/-! ## Runs of the renamed program -/

/-- A run of the renamed program, which is the only program of its past. -/
structure Run.Renamed (run : Run) (r : Renaming) (program renamed : Program) : Prop where
  renames : program.RenamesLocal r renamed
  inOrder : run.InOrder
  programs : run.past.programs = [renamed]

namespace Run.Renamed

variable {run : Run} {r : Renaming} {program renamed : Program}

theorem step (h : run.Renamed r program renamed) : run.step.Renamed r program renamed :=
  ⟨h.renames, h.inOrder.step, h.programs⟩

variable {openings : List Opening} {hr : r.Proper}
  {hglobals : openings[Store.globalScope]? = some .globals} (h : run.Renamed r program renamed)
  (hopenings : run.step.past.openings <+: openings)

include h in
theorem eq_renamed {found : Program} (hprogram : found ∈ run.past.programs) : found = renamed := by
  rw [h.programs] at hprogram
  exact List.mem_singleton.1 hprogram

include hopenings in
theorem getElem?_openings {scope : ScopeId} {opening : Opening}
    (hopening : run.step.past.openings[scope]? = some opening) :
    openings[scope]? = some opening := by
  obtain ⟨hlt, rfl⟩ := List.getElem?_eq_some_iff.1 hopening
  exact List.prefix_iff_getElem?.1 hopenings scope hlt

include h hopenings

/-- A name that a construct around the place of the run declares is spelled as in the scope of the
construct. -/
theorem exists_matches {path : Path} {part : Part} (hlocated : Located renamed path part)
    (hactivates : run.scene.Activates run.machine.env path) {distance : Nat} {name : String}
    (hdeclares : path.DeclaresAt distance name) :
    ∃ scope, run.machine.env[distance]? = some scope ∧
      (r.spelling hr openings hglobals).Matches scope name := by
  obtain ⟨enclosure, hpath, hname⟩ := hdeclares
  obtain ⟨scope, opening, hscope, hopening, hdeclarations⟩ := hactivates.exists_opening hpath
  have hmem : enclosure.construct ∈ path.constructs :=
    List.mem_map_of_mem (List.mem_of_getElem? hpath)
  have hlater : openings[scope]? = some opening := by
    refine getElem?_openings hopenings ?_
    have hlt := (List.getElem?_eq_some_iff.1 hopening).1
    exact (List.getElem?_append_left hlt).trans hopening
  refine ⟨scope, hscope, Renaming.matches_of_mem hlater ?_ ?_⟩
  · rw [hdeclarations]
    exact h.renames.distinct hlocated hmem
  · rw [hdeclarations]
    exact hname

/-- An occurrence that is read. -/
theorem reads {occurrence : Occurrence} (hreading : run.machine.reading? = some occurrence) :
    (r.spelling hr openings hglobals).Reads run.machine.world run.machine.env occurrence := by
  obtain ⟨found, hprogram, path, hreads, hactivates, -⟩ := h.inOrder.sound.of_reading hreading
  obtain rfl := h.eq_renamed hprogram
  have haccepted := h.renames.accepted_renamed
  have hfinding := haccepted.reads_mem_findings hreads
  obtain ⟨nextId, hpast⟩ := h.inOrder.recorded
  have hrecorded := hpast.recorded _ hprogram occurrence _ hfinding
  obtain ⟨part, hlocated⟩ : ∃ part, Located found path part := by
    cases hreads with
    | «variable» hplace => exact ⟨_, hplace⟩
    | superclass hplace => exact ⟨_, hplace⟩
  constructor
  · intro distance hdistance
    have hname := (hreads.names haccepted.formed).ne
    have hfound := hrecorded.symm.trans hdistance
    obtain ⟨scope, hscope, hmatches⟩ := h.exists_matches hopenings hlocated hactivates
      ((hlocated.declares haccepted.formed).of_distance? hname hfound)
    obtain ⟨enclosure, hbinds⟩ := Path.binds_of_distance? hfound
    obtain ⟨scope', hscope', -, hbinding⟩ :=
      hactivates.exists_scope hname hbinds.found hbinds.declared
    cases hscope.symm.trans hscope'
    exact ⟨scope, hscope, hmatches, hbinding⟩
  · intro hnone
    refine r.spell_of_ne fun hnew => ?_
    have hsome := h.renames.isSome_distance hfinding hnew
    rw [← hrecorded, hnone] at hsome
    cases hsome

/-- An occurrence that is assigned to. -/
theorem targets {target : Occurrence} {value : Value} {frames : List Frame}
    (hcontrol : run.machine.control = .value value)
    (hframes : run.machine.frames = .assign target :: frames) :
    (r.spelling hr openings hglobals).Targets run.machine.world run.machine.env target := by
  obtain ⟨site, hstands, -, hawaits, henv, -⟩ := h.inOrder.sound.of_value hcontrol
  rw [hframes] at hawaits
  cases hawaits with
  | assign hlocated _ =>
      have hactivates := hstands.activates
      rw [← henv] at hactivates
      have hsame := h.eq_renamed hstands.program
      rw [hsame] at hlocated
      obtain ⟨distance, hfinding, hdeclares⟩ :=
        Program.exists_declaresAt_of_assign h.renames.formed_renamed hlocated
      obtain ⟨nextId, hpast⟩ := h.inOrder.recorded
      have hrecorded := hpast.recorded _ (hsame ▸ hstands.program) target distance hfinding
      constructor
      · intro d hd
        exact h.exists_matches hopenings hlocated hactivates (hdeclares d (hrecorded.symm.trans hd))
      · intro hnone
        refine r.spell_of_ne fun hnew => ?_
        have hsome := h.renames.isSome_distance hfinding hnew
        rw [← hrecorded, hnone] at hsome
        cases hsome

/-- A name that is bound by a declaration. -/
theorem binds {statement : Stmt} {name : String} {scope : ScopeId}
    (hbinds : run.machine.Binds statement) (hname : statement.declared? = some name)
    (hscope : run.machine.env.head? = some scope) :
    (statement.respell r.spell).declared? =
      some ((r.spelling hr openings hglobals).nameIn scope name) := by
  have hexecutes (hcontrol : run.machine.control = .execute statement) :
      (statement.respell r.spell).declared? = some (r.spell name) := by
    obtain ⟨found, hprogram, path, hlocated, -⟩ := h.inOrder.sound.of_execute hcontrol
    obtain rfl := h.eq_renamed hprogram
    rw [h.renames.declared?_respell hlocated, hname, Option.map_some]
  have hspelled : (statement.respell r.spell).declared? = some (r.spell name) := by
    cases hbinds with
    | initialized _ _ =>
        cases hname
        rfl
    | plain hcontrol => exact hexecutes hcontrol
    | function hcontrol => exact hexecutes hcontrol
    | classDecl hcontrol => exact hexecutes hcontrol
    | subclass hcontrol _ => exact hexecutes hcontrol
  obtain ⟨found, hprogram, path, declaration, hlocated, hdeclared, -, hactivates, -⟩ :=
    h.inOrder.of_binds hbinds
  obtain rfl := h.eq_renamed hprogram
  rw [hname] at hdeclared
  rw [hspelled]
  cases path with
  | nil =>
      have hnew : name ≠ r.new := by
        rintro rfl
        exact h.renames.declared?_ne_of_global hlocated hdeclared
      rw [hactivates.eq_globalEnv] at hscope
      cases hscope
      exact congrArg some
        ((r.spell_of_ne hnew).trans (Renaming.nameIn_of_globals hglobals name).symm)
  | cons enclosure outer =>
      obtain ⟨rest, hstatements⟩ :=
        hlocated.statements_of_declared h.renames.formed_renamed (by simp [hdeclared])
      have hdeclares : Path.DeclaresAt (enclosure :: outer) 0 name :=
        ⟨enclosure, rfl, hstatements.mem_declarations hdeclared⟩
      obtain ⟨found, hfound, hmatches⟩ := h.exists_matches hopenings hlocated hactivates hdeclares
      rw [← List.head?_eq_getElem?, hscope] at hfound
      cases hfound
      exact congrArg some hmatches

/-- The parameters of a call. -/
theorem calls {index : Nat} {callee : Closure}
    (hopened : run.machine.opened[index]? = some (.call callee)) :
    ∀ param ∈ callee.declaration.params, (r.spelling hr openings hglobals).Matches
      (run.machine.world.store.scopes.size + index) param.lexeme := by
  intro param hparam
  obtain ⟨found, hprogram, outer, construct, hlocated, hdeclarations⟩ :=
    (h.inOrder.sound.hasFunction_of_opened hopened).exists_construct
  obtain rfl := h.step.eq_renamed hprogram
  have hopening : openings[run.machine.world.store.scopes.size + index]? = some (.call callee) := by
    have hsize : run.past.openings.length = run.machine.world.store.scopes.size :=
      h.inOrder.sound.grounded.size
    refine getElem?_openings hopenings ?_
    show (run.past.openings ++ run.machine.opened)[_]? = _
    rw [← hsize, List.getElem?_append_right (Nat.le_add_right _ _), Nat.add_sub_cancel_left]
    exact hopened
  refine Renaming.matches_of_mem hopening ?_ ?_
  · rw [hdeclarations]
    exact h.renames.distinct hlocated List.mem_cons_self
  · exact List.mem_append_left _ (List.mem_map_of_mem hparam)

/-- The names that the next step uses are spelled as in the scopes in which it uses them. -/
theorem suits : run.machine.Suits (r.spelling hr openings hglobals) where
  reads _ hreading := h.reads hopenings hreading
  targets _ _ _ hcontrol hframes := h.targets hopenings hcontrol hframes
  thisRef occurrence hcontrol := by
    obtain ⟨found, hprogram, path, hlocated, -⟩ := h.inOrder.sound.of_evaluate hcontrol
    exact (h.inOrder.sound.grounded.accepted found hprogram).lexeme_thisRef hlocated
  superRef occurrence method hcontrol := by
    obtain ⟨found, hprogram, path, hlocated, -⟩ := h.inOrder.sound.of_evaluate hcontrol
    exact (h.inOrder.sound.grounded.accepted found hprogram).lexeme_superRef hlocated
  binds _ _ _ hbinds hname hscope := h.binds hopenings hbinds hname hscope
  hasScope statement hcontrol := by
    obtain ⟨found, -, path, -, hactivates, -⟩ := h.inOrder.sound.of_execute hcontrol
    obtain ⟨scope, hhead⟩ := hactivates.exists_head
    exact ⟨scope, hhead, h.inOrder.sound.grounded.head_lt hactivates hhead⟩
  calls _ _ hopened := h.calls hopenings hopened

omit h hopenings in
/-- The record of the scopes is only added to. -/
theorem openings_runFor (run : Run) (budget : Nat) :
    run.past.openings <+: (run.runFor budget).past.openings := by
  induction budget generalizing run with
  | zero => exact List.prefix_rfl
  | succ budget ih =>
      rw [Run.runFor]
      split
      · exact List.prefix_rfl
      · exact (List.prefix_append _ _).trans (ih run.step)

omit hopenings in
/-- A run of the renamed program goes the way that it went in the old spelling. -/
theorem runFor_respell (budget : Nat)
    (hopenings : (run.runFor budget).past.openings <+: openings) :
    (run.machine.respell (r.spelling hr openings hglobals)).runFor budget =
      (run.machine.runFor budget).respell (r.spelling hr openings hglobals) := by
  induction budget generalizing run with
  | zero => rfl
  | succ budget ih =>
      rw [Machine.runFor, Machine.runFor, Machine.outcome?_respell]
      rw [Run.runFor] at hopenings
      cases houtcome : run.machine.outcome? with
      | some outcome => rfl
      | none =>
          rw [houtcome] at hopenings
          have hstep := (openings_runFor run.step budget).trans hopenings
          rw [Option.map_none, (h.suits hstep).step_respell]
          exact ih h.step hopenings

end Run.Renamed

end LoxLang
