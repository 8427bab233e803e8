import LoxLang.Proofs.Run.Inheriting
import LoxLang.Proofs.Store.Links

/-!
# Scopes and classes are well-founded

Whatever a program does, resolved or not, each scope is linked to one that was there before, and
each class to a superclass that was there before, and these links stay what they are.  So all
environments lead to the globals, and all searches for variables and methods come to an end
(`Run.Arises.heap_well_founded`).

A scope is linked to the first one of the environment for which it was made (`Past.links`).  A class
has its superclass in itself; what has to be shown is that a class with the same identity is the
same class, at any moment.  To this end the classes that have been made are collected along a run
(`Machine.Rooted`).
-/

namespace LoxLang

/-- The links of scopes that have been made, each to the first scope of its environment. -/
def Links.ofOpenings (opened : List Opening) : Links :=
  opened.map fun opening => opening.outer.head?

/-- The links of all scopes that there are. -/
def Past.links (past : Past) : Links :=
  .ofOpenings past.openings

namespace Value

/-- The classes that a value has, together with those above them. -/
def lineage : Value → List Class
  | classValue ownClass => ownClass.lineage
  | object value => value.ownClass.lineage
  | _ => []

/-- The functions that a value has: itself, or the methods of its classes. -/
def closures : Value → List Closure
  | function closure => [closure]
  | value => value.lineage.flatMap fun ownClass => ownClass.methods.map Prod.snd

end Value

namespace Run

/-- The later moments: behind a step, or at the start of a program that is run next. -/
inductive LeadsTo (run : Run) : Run → Prop
  | refl : LeadsTo run run
  | step {later : Run} : LeadsTo run later → LeadsTo run later.step
  | next {later : Run} {world : World} {program : Program} : LeadsTo run later →
      world.store = later.machine.world.store → program.Written →
      LeadsTo run (.start later.past world program)

/-- The later moments of sessions are among these. -/
theorem Precedes.leadsTo {run later : Run} (h : run.Precedes later) : run.LeadsTo later := by
  induction h with
  | refl => exact .refl
  | step _ ih => exact ih.step
  | start _ _ hstore hprepare hcompile ih =>
      refine ih.next ((Session.compiles hcompile).store.trans hstore) ?_
      exact Session.written_of_compile hcompile hprepare

theorem Arises.of_leadsTo {run later : Run} (h : run.Arises) (hlater : run.LeadsTo later) :
    later.Arises := by
  induction hlater with
  | refl => exact h
  | step _ ih => exact ih.step
  | next _ hstore hprogram ih => exact .next ih hstore hprogram

theorem LeadsTo.openings {run later : Run} (h : run.LeadsTo later) :
    run.past.openings <+: later.past.openings := by
  induction h with
  | refl => exact List.prefix_rfl
  | @step later _ ih => exact ih.trans later.extends_step.openings
  | next _ _ _ ih => exact ih

end Run

/-! ## Classes that have been made -/

/-- Classes with different identities, all of which have been given, with methods from environments
that there are.  Superclasses are older. -/
structure Lineages (links : Links) (identities : Nat) (classes : List Class) : Prop where
  given : ∀ ownClass ∈ classes, ownClass.identity < identities
  unique : ∀ ownClass ∈ classes, ∀ other ∈ classes, ownClass.identity = other.identity →
    ownClass = other
  above : ∀ ownClass ∈ classes, ∀ above, ownClass.superclass = some above →
    above ∈ classes ∧ above.identity < ownClass.identity
  methods : ∀ ownClass ∈ classes, ∀ entry ∈ ownClass.methods, links.Ascends entry.2.env

/-- The environment of a function leads to the globals, and classes are among those given. -/
def Value.Rooted (links : Links) (classes : List Class) : Value → Prop
  | function closure => links.Ascends closure.env
  | classValue ownClass => ownClass ∈ classes
  | object value => value.ownClass ∈ classes
  | _ => True

namespace Lineages

variable {links links' : Links} {identities more : Nat} {classes : List Class}

theorem mono (h : Lineages links identities classes) (hlinks : links.Founded)
    (hgrown : links <+: links') (hle : identities ≤ more) : Lineages links' more classes where
  given ownClass hmem := Nat.lt_of_lt_of_le (h.given ownClass hmem) hle
  unique := h.unique
  above := h.above
  methods ownClass hmem entry hentry := (h.methods ownClass hmem entry hentry).mono hlinks hgrown

/-- A new class is different from all others. -/
theorem cons (h : Lineages links identities classes) {made : Class}
    (hidentity : identities ≤ made.identity) (hgiven : made.identity < more)
    (habove : ∀ above, made.superclass = some above → above ∈ classes)
    (hmethods : ∀ entry ∈ made.methods, links.Ascends entry.2.env) :
    Lineages links more (made :: classes) := by
  have hne {other : Class} (hother : other ∈ classes) : other.identity < made.identity :=
    Nat.lt_of_lt_of_le (h.given other hother) hidentity
  constructor
  · exact List.forall_mem_cons.2 ⟨hgiven, fun other hother => Nat.lt_trans (hne hother) hgiven⟩
  · intro ownClass hown other hother hsame
    rcases List.mem_cons.1 hown with hmade | hbefore
    · rcases List.mem_cons.1 hother with hmade' | hbefore'
      · exact hmade.trans hmade'.symm
      · exact absurd (hmade ▸ hsame) (Nat.ne_of_gt (hne hbefore'))
    · rcases List.mem_cons.1 hother with hmade' | hbefore'
      · exact absurd (hmade' ▸ hsame) (Nat.ne_of_lt (hne hbefore))
      · exact h.unique ownClass hbefore other hbefore' hsame
  · intro ownClass hown above hsuperclass
    rcases List.mem_cons.1 hown with rfl | hown
    · have hmem := habove above hsuperclass
      exact ⟨List.mem_cons_of_mem _ hmem, hne hmem⟩
    · obtain ⟨hmem, hlt⟩ := h.above ownClass hown above hsuperclass
      exact ⟨List.mem_cons_of_mem _ hmem, hlt⟩
  · exact List.forall_mem_cons.2 ⟨hmethods, h.methods⟩

theorem mem_of_mem_lineage (h : Lineages links identities classes) {ownClass other : Class}
    (hown : ownClass ∈ classes) (hother : other ∈ ownClass.lineage) : other ∈ classes :=
  ownClass.forall_lineage (fun inner above hinner habove => (h.above inner hinner above habove).1)
    hown other hother

/-- Methods are found in environments that lead to the globals. -/
theorem ascends_of_findMethod? (h : Lineages links identities classes) {ownClass : Class}
    (hown : ownClass ∈ classes) {name : String} {method : Closure}
    (hfound : ownClass.findMethod? name = some method) : links.Ascends method.env := by
  rw [Class.findMethod?_eq] at hfound
  obtain ⟨holder, hholder, hlookup⟩ := List.exists_of_findSome?_eq_some hfound
  exact h.methods holder (h.mem_of_mem_lineage hown hholder) _ (Scene.mem_of_lookup hlookup)

theorem mem_of_mem_value (h : Lineages links identities classes) {value : Value}
    (hvalue : value.Rooted links classes) {ownClass : Class} (hown : ownClass ∈ value.lineage) :
    ownClass ∈ classes := by
  cases value with
  | classValue _ => exact h.mem_of_mem_lineage hvalue hown
  | object _ => exact h.mem_of_mem_lineage hvalue hown
  | _ => cases hown

theorem ascends_of_mem_closures (h : Lineages links identities classes) {value : Value}
    (hvalue : value.Rooted links classes) {function : Closure}
    (hfunction : function ∈ value.closures) : links.Ascends function.env := by
  have hmethods (hmem : function ∈ value.lineage.flatMap fun ownClass =>
      ownClass.methods.map Prod.snd) : links.Ascends function.env := by
    obtain ⟨ownClass, hown, hmethod⟩ := List.mem_flatMap.1 hmem
    obtain ⟨entry, hentry, rfl⟩ := List.mem_map.1 hmethod
    exact h.methods ownClass (h.mem_of_mem_value hvalue hown) entry hentry
  cases value with
  | function _ =>
      obtain rfl := List.mem_singleton.1 hfunction
      exact hvalue
  | classValue _ => exact hmethods hfunction
  | object _ => exact hmethods hfunction
  | _ => cases hfunction

theorem older (h : Lineages links identities classes) {ownClass : Class}
    (hown : ownClass ∈ classes) : ∀ other ∈ ownClass.lineage, ∀ above,
      other.superclass = some above → above.identity < other.identity :=
  fun other hother above habove =>
    (h.above other (h.mem_of_mem_lineage hown hother) above habove).2

/-- No class is above itself. -/
theorem pairwise (h : Lineages links identities classes) {ownClass : Class}
    (hown : ownClass ∈ classes) :
    ownClass.lineage.Pairwise fun lower upper => upper.identity < lower.identity :=
  ownClass.trail_lineage.pairwise Class.identity (h.older hown)

/-- The search for a method comes to an end. -/
theorem climb_eq (h : Lineages links identities classes) {ownClass : Class}
    (hown : ownClass ∈ classes) (name : String) {budget : Nat}
    (hbudget : ownClass.identity < budget) :
    climb Class.superclass (fun holder => holder.methods.lookup name) budget ownClass =
      some (ownClass.findMethod? name) := by
  have htrail := ownClass.trail_lineage
  have holder := h.older hown
  rw [Class.findMethod?_eq]
  obtain ⟨rest, hrest⟩ := ownClass.lineage_eq_cons
  rw [hrest] at htrail holder ⊢
  exact htrail.climb_eq Class.identity holder _ hbudget

end Lineages

theorem Value.Rooted.mono {links links' : Links} {classes classes' : List Class} {value : Value}
    (h : value.Rooted links classes) (hlinks : links.Founded) (hgrown : links <+: links')
    (hclasses : classes ⊆ classes') : value.Rooted links' classes' := by
  cases value with
  | function closure => exact Links.Ascends.mono h hlinks hgrown
  | classValue ownClass => exact hclasses h
  | object value => exact hclasses h
  | _ => trivial

theorem Value.rooted_of_isPlain {links : Links} {classes : List Class} {value : Value}
    (h : value.IsPlain) : value.Rooted links classes := by
  cases value with
  | function _ => exact h.elim
  | classValue _ => exact h.elim
  | object _ => exact h.elim
  | _ => trivial

/-- Values with two properties. -/
theorem Machine.Everywhere.and {P Q : Value → Prop} {machine : Machine} (h : machine.Everywhere P)
    (h' : machine.Everywhere Q) : machine.Everywhere fun value => P value ∧ Q value where
  world := ⟨fun hvalue => ⟨h.world.bindings hvalue, h'.world.bindings hvalue⟩,
    fun hvalue => ⟨h.world.fields hvalue, h'.world.fields hvalue⟩⟩
  control := by
    have hcontrol := h.control
    have hcontrol' := h'.control
    generalize machine.control = control at hcontrol hcontrol' ⊢
    cases control with
    | value _ => exact ⟨hcontrol, hcontrol'⟩
    | completed completion =>
        cases completion with
        | normal => trivial
        | returned _ => exact ⟨hcontrol, hcontrol'⟩
    | _ => trivial
  frames frame hmem := by
    have hframe := h.frames frame hmem
    have hframe' := h'.frames frame hmem
    cases frame with
    | binaryRight _ _ => exact ⟨hframe, hframe'⟩
    | argument _ _ _ _ =>
        exact ⟨⟨hframe.1, hframe'.1⟩,
          fun value hvalue => ⟨hframe.2 value hvalue, hframe'.2 value hvalue⟩⟩
    | setValue _ _ => exact ⟨hframe, hframe'⟩
    | activation _ =>
        exact ⟨⟨hframe.1, hframe'.1⟩,
          fun object hobject => ⟨hframe.2 object hobject, hframe'.2 object hobject⟩⟩
    | _ => trivial

/-! ## Scopes that are made -/

namespace Links

/-- Scopes are made one after the other, each in an environment that there is by then. -/
def Supports (links : Links) : List Opening → Prop
  | [] => True
  | opening :: rest =>
      links.Ascends opening.outer ∧ Supports (links ++ [opening.outer.head?]) rest

theorem Supports.extend {links : Links} {opened : List Opening} (h : links.Supports opened)
    (hlinks : links.Founded) :
    (links ++ ofOpenings opened).Founded ∧
      ∀ index opening, opened[index]? = some opening →
        (links ++ ofOpenings opened).Ascends ((links.length + index) :: opening.outer) := by
  induction opened generalizing links with
  | nil =>
      rw [ofOpenings, List.map_nil, List.append_nil]
      exact ⟨hlinks, fun index opening hopening => by cases hopening⟩
  | cons first rest ih =>
      obtain ⟨hfirst, hrest⟩ := h
      have hconcat := hlinks.concat hfirst
      obtain ⟨hfounded, hothers⟩ := ih hrest hconcat
      rw [List.append_assoc, List.singleton_append] at hfounded hothers
      refine ⟨hfounded, fun index opening hopening => ?_⟩
      cases index with
      | zero =>
          obtain rfl : first = opening := Option.some.inj hopening
          refine (hfirst.mono hlinks (List.prefix_append _ _)).inside ?_
          rw [Nat.add_zero, List.getElem?_append_right (Nat.le_refl _), Nat.sub_self]
          rfl
      | succ index =>
          have hlater := hothers index opening hopening
          rwa [List.length_append, List.length_singleton, Nat.add_assoc, Nat.add_comm 1] at hlater

end Links

/-- What a machine holds leads to the globals and to the classes that have been made. -/
structure Machine.Rooted (machine : Machine) (links : Links) (classes : List Class) : Prop where
  size : links.length = machine.world.store.scopes.size
  founded : links.Founded
  lineages : Lineages links machine.world.store.identities classes
  envs : ∀ env ∈ machine.envs, links.Ascends env
  values : machine.Everywhere (Value.Rooted links classes)

namespace Machine

section

variable {links : Links} {classes : List Class}

theorem supports_call {machine : Machine} (hsize : links.length = machine.world.store.scopes.size)
    (hlinks : links.Founded) {identities : Nat} (hlineages : Lineages links identities classes)
    {callee : Value} (hcallee : callee.Rooted links classes) (arguments : List Value) :
    links.Supports (machine.openedByCall callee arguments) := by
  unfold openedByCall
  split
  · trivial
  · split
    · exact ⟨hcallee, trivial⟩
    · split
      · trivial
      · next ownClass _ method hfound =>
          have hmethod := hlineages.ascends_of_findMethod? hcallee hfound
          -- The body runs inside the scope of the bound method, which is made just before.
          refine ⟨hmethod, ?_, trivial⟩
          refine (hmethod.mono hlinks (List.prefix_append _ _)).inside ?_
          show (links ++ [method.env.head?])[machine.world.store.scopes.size]? = _
          rw [← hsize, List.getElem?_concat_length]
    · trivial

theorem supports_next {machine : Machine} (hsize : links.length = machine.world.store.scopes.size)
    (hlinks : links.Founded) {identities : Nat} (hlineages : Lineages links identities classes)
    {callee : Value} (hcallee : callee.Rooted links classes) (done : List Value)
    (rest : List Expr) : links.Supports (machine.openedByNext callee done rest) := by
  cases rest with
  | nil => exact supports_call hsize hlinks hlineages hcallee done.reverse
  | cons argument rest => trivial

/-- The scopes that a step makes are made in environments that there are. -/
theorem Rooted.supports_step {machine : Machine} (h : machine.Rooted links classes) :
    links.Supports machine.opened := by
  obtain ⟨hsize, hlinks, hlineages, henvs, hvalues⟩ := h
  have hhere := henvs machine.env List.mem_cons_self
  obtain ⟨control, frames, env, depth, world⟩ := machine
  cases control with
  | evaluate expression =>
      cases expression with
      | superRef occurrence method =>
          show links.Supports (world.openedBySuper env occurrence method)
          rcases world.superMethod_cases env occurrence method with ⟨fault, -, hnone⟩ |
            ⟨distance, superclass, object, found, -, hclass, -, hfound, -, hsome⟩
          · rw [hnone]
            trivial
          · rw [hsome]
            have hsuperclass : superclass ∈ classes := hvalues.world.getAt? hclass
            exact ⟨hlineages.ascends_of_findMethod? hsuperclass hfound, trivial⟩
      | _ => trivial
  | execute statement =>
      cases statement with
      | block body => exact ⟨hhere, trivial⟩
      | classDecl name superclass methods =>
          cases superclass with
          | none => trivial
          | some clause =>
              dsimp only [opened, openedByStatement]
              split
              · exact ⟨hhere, trivial⟩
              · trivial
      | _ => trivial
  | value value =>
      cases frames with
      | nil => trivial
      | cons frame frames =>
          have hvalue := hvalues.control
          have hframe := hvalues.frames frame List.mem_cons_self
          cases frame with
          | callee paren arguments => exact supports_next hsize hlinks hlineages hvalue [] arguments
          | argument paren callee done rest =>
              exact supports_next hsize hlinks hlineages hframe.1 (value :: done) rest
          | get name =>
              cases value with
              | object object =>
                  dsimp only [opened, openedByValue, World.openedByProperty]
                  split
                  · trivial
                  · split
                    · next method hfound =>
                        exact ⟨hlineages.ascends_of_findMethod? hvalue hfound, trivial⟩
                    · trivial
              | _ => trivial
          | _ => trivial
  | _ => trivial

end

end Machine

/-! ## Classes that are made -/

namespace Machine

variable {machine : Machine}

/-- A step makes at most one class. -/
theorem Makes.class_unique {made other : Class} (h : machine.Makes (.classValue made))
    (h' : machine.Makes (.classValue other)) : made = other := by
  cases h with
  | plainClass hcontrol =>
      cases h' with
      | plainClass hcontrol' =>
          cases hcontrol.symm.trans hcontrol'
          rfl
      | subclass hcontrol' _ => cases hcontrol.symm.trans hcontrol'
  | subclass hcontrol hread =>
      cases h' with
      | plainClass hcontrol' => cases hcontrol.symm.trans hcontrol'
      | subclass hcontrol' hread' =>
          cases hcontrol.symm.trans hcontrol'
          cases hread.symm.trans hread'
          rfl

/-- A class that is made has the latest identity, and its methods and its superclass come from what
there is. -/
theorem Rooted.made {links : Links} {classes : List Class} (h : machine.Rooted links classes)
    {made : Class} (hmakes : machine.Makes (.classValue made)) :
    machine.world.store.identities ≤ made.identity ∧
      machine.step.world.store.identities = made.identity + 1 ∧
      (∀ above, made.superclass = some above → above ∈ classes) ∧
      ∀ entry ∈ made.methods,
        (links ++ Links.ofOpenings machine.opened).Ascends entry.2.env := by
  have hextended := h.supports_step.extend h.founded
  have hhere := h.envs machine.env List.mem_cons_self
  cases hmakes with
  | @plainClass name methods hcontrol =>
      let named := machine.world.define machine.env name.lexeme .nil
      have hdefined : named.store.identities = machine.world.store.identities :=
        World.identities_define _ _ _ _
      refine ⟨?_, ?_, ?_, fun entry hentry => ?_⟩
      · exact hdefined ▸ (named.identity_makeClass machine.env name.lexeme none methods).1
      · rw [step_of_execute hcontrol]
        exact machine.identities_declareClass name none methods
      · rintro above ⟨⟩
      · rw [World.env_of_mem_closeAll (List.mem_reverse.1 hentry)]
        exact hhere.mono h.founded (List.prefix_append _ _)
  | @subclass name clause superclass methods hcontrol hread =>
      let named := machine.world.define machine.env name.lexeme .nil
      have hdefined : named.store.identities = machine.world.store.identities :=
        World.identities_define _ _ _ _
      refine ⟨?_, ?_, ?_, fun entry hentry => ?_⟩
      · exact hdefined ▸
          (named.identity_makeClass machine.env name.lexeme (some superclass) methods).1
      · rw [step_subclass hcontrol hread]
        exact machine.identities_declareClass name (some superclass) methods
      · rintro above ⟨⟩
        have hsuperclass : superclass ∈ classes := h.values.world.read hread
        exact hsuperclass
      · rw [World.env_of_mem_closeAll (List.mem_reverse.1 hentry)]
        have hopened : machine.opened[0]? =
            some (.superclass name clause methods superclass machine.env) := by
          obtain ⟨control, frames, env, depth, world⟩ := machine
          obtain rfl : control = .execute (.classDecl name (some clause) methods) := hcontrol
          dsimp only [opened, openedByStatement]
          rw [hread]
          rfl
        have hscope := hextended.2 0 _ hopened
        rw [Nat.add_zero, h.size, ← World.size_define machine.world machine.env name.lexeme .nil]
          at hscope
        exact hscope

end Machine

/-! ## Runs -/

namespace Run

theorem links_step (run : Run) :
    run.step.past.links = run.past.links ++ Links.ofOpenings run.machine.opened :=
  List.map_append

/-- The classes that have been made behind a step. -/
theorem exists_classes_step {run : Run} {classes : List Class}
    (h : run.machine.Rooted run.past.links classes) :
    ∃ classes', classes ⊆ classes' ∧
      Lineages run.step.past.links run.step.machine.world.store.identities classes' ∧
      ∀ made, run.machine.Makes (.classValue made) → made ∈ classes' := by
  have hbefore := h.lineages.mono h.founded
    (List.prefix_append _ (Links.ofOpenings run.machine.opened)) (Nat.le_refl _)
  rw [← run.links_step] at hbefore
  by_cases hmakes : ∃ made, run.machine.Makes (.classValue made)
  · obtain ⟨made, hmade⟩ := hmakes
    obtain ⟨hidentity, hlatest, habove, hmethods⟩ := h.made hmade
    rw [← run.links_step] at hmethods
    refine ⟨made :: classes, List.subset_cons_self _ _, ?_, ?_⟩
    · exact hbefore.cons hidentity (Nat.lt_of_lt_of_eq (Nat.lt_succ_self _) hlatest.symm) habove
        hmethods
    · intro other hother
      rw [hother.class_unique hmade]
      exact List.mem_cons_self
  · have hle : run.machine.world.store.identities ≤ run.step.machine.world.store.identities :=
      run.machine.inherits_step.identities
    refine ⟨classes, List.Subset.refl _, ?_, fun made hmade => absurd ⟨made, hmade⟩ hmakes⟩
    exact hbefore.mono (run.links_step ▸ (h.supports_step.extend h.founded).1) List.prefix_rfl hle

/-- One step keeps what a machine holds connected with the globals and with the classes that have
been made, of which there may be one more. -/
theorem Traced.rooted_step {run : Run} (h : run.Traced) {classes : List Class}
    (hrooted : run.machine.Rooted run.past.links classes) :
    ∃ classes', classes ⊆ classes' ∧ run.step.machine.Rooted run.step.past.links classes' := by
  obtain ⟨classes', hclasses, hlineages, hmade⟩ := exists_classes_step hrooted
  obtain ⟨hfounded, hopened⟩ := hrooted.supports_step.extend hrooted.founded
  have hgrown : run.past.links <+: run.step.past.links := run.links_step ▸ List.prefix_append _ _
  rw [← run.links_step] at hfounded hopened
  have hopens := h.opens_step
  let P (value : Value) : Prop :=
    run.step.past.Declares value ∧ value.Rooted run.step.past.links classes'
  have hvalues : run.machine.Everywhere (Value.Rooted run.step.past.links classes') :=
    hrooted.values.mono fun value hvalue => hvalue.mono hrooted.founded hgrown hclasses
  have hmakes : ∀ value, run.machine.Makes value →
      value.Rooted run.step.past.links classes' := by
    intro value hmakes
    cases hmakes with
    | function _ => exact (hrooted.envs _ List.mem_cons_self).mono hrooted.founded hgrown
    | plainClass hcontrol => exact hmade _ (.plainClass hcontrol)
    | subclass hcontrol hread => exact hmade _ (.subclass hcontrol hread)
    | object hcalling _ =>
        have hclass := (hvalues.of_calling? hcalling).1
        exact hclass
    | @bound function object hbound =>
        obtain ⟨index, hindex⟩ := List.getElem?_of_mem hbound
        obtain ⟨outer, henv⟩ := List.head?_eq_some_iff.1 (hopens.bound hindex).1
        have hascends := hopened index _ hindex
        rw [hrooted.size] at hascends
        show run.step.past.links.Ascends function.env
        rw [henv]
        rw [show (Opening.bound function object).outer = outer from congrArg List.tail henv]
          at hascends
        exact hascends
  have hadmissible : Value.Admissible P :=
    Past.admissible h.executed_step
      (fun value hplain => ⟨Past.declares_of_isPlain hplain, Value.rooted_of_isPlain hplain⟩)
      fun value hvalue => hvalue.1
  have hdeclares : run.machine.Everywhere run.step.past.Declares :=
    h.values.mono fun value hvalue => hvalue.declares.mono run.extends_step
  have hcomes := Machine.comes_step hadmissible (hdeclares.and hvalues) h.formed
    fun value hvalue => ⟨h.declares_makes hvalue, hmakes value hvalue⟩
  refine ⟨classes', hclasses, ?_, hfounded, hlineages, ?_,
    hcomes.everywhere.mono fun value hvalue => hvalue.2⟩
  · show run.step.past.links.length = run.machine.step.world.store.scopes.size
    rw [hopens.scopes, run.links_step, List.length_append, hrooted.size, Links.ofOpenings,
      List.length_map]
  · intro env henv
    rcases run.machine.inherits_step.envs env henv with hbefore | ⟨index, opening, hindex, rfl⟩
    · exact (hrooted.envs env hbefore).mono hrooted.founded hgrown
    · rw [← hrooted.size]
      exact hopened index opening hindex

/-- In the beginning there are the globals and no classes. -/
theorem rooted_first {world : World} (hstore : world.store = .initial) (program : Program) :
    (start .initial world program).machine.Rooted (start .initial world program).past.links [] := by
  have hlink {scope : ScopeId} {link : Option ScopeId} :
      (Past.initial.links)[scope]? = some link ↔ scope = Store.globalScope ∧ link = none := by
    show ([none] : Links)[scope]? = some link ↔ _
    constructor
    · intro hscope
      cases scope with
      | zero => exact ⟨rfl, (Option.some.inj hscope).symm⟩
      | succ scope => cases hscope
    · rintro ⟨rfl, rfl⟩
      rfl
  have hfounded : Links.Founded (start .initial world program).past.links := by
    constructor
    · intro scope outer hscope
      cases (hlink.1 hscope).2
    · exact fun {scope} => hlink.trans (and_iff_left rfl)
  refine ⟨?_, hfounded, ?_, ?_, ?_⟩
  · show 1 = world.store.scopes.size
    rw [hstore]
    rfl
  · constructor
    · exact fun ownClass hmem => by cases hmem
    · exact fun ownClass hmem => by cases hmem
    · exact fun ownClass hmem => by cases hmem
    · exact fun ownClass hmem => by cases hmem
  · intro env henv
    obtain rfl : env = Store.globalEnv := List.mem_singleton.1 henv
    exact hfounded.ascends_globalEnv
  · refine ⟨⟨?_, ?_⟩, trivial, fun frame hframe => by cases hframe⟩
    · intro scope name value hvalue
      obtain rfl := Store.eq_builtin_of_binding?_initial (hstore ▸ hvalue)
      trivial
    · intro object name value hvalue
      change world.store.field? object name = some value at hvalue
      rw [hstore] at hvalue
      cases hvalue

/-- A program that is started finds what was left. -/
theorem rooted_next {run : Run} {classes : List Class}
    (h : run.machine.Rooted run.past.links classes) {world : World}
    (hstore : world.store = run.machine.world.store) (program : Program) :
    (start run.past world program).machine.Rooted run.past.links classes where
  size := h.size.trans (congrArg (fun store => store.scopes.size) hstore.symm)
  founded := h.founded
  lineages := by
    show Lineages _ world.store.identities _
    rw [hstore]
    exact h.lineages
  envs env henv := by
    obtain rfl : env = Store.globalEnv := List.mem_singleton.1 henv
    exact h.founded.ascends_globalEnv
  values := ⟨h.values.world.of_store (congrArg Store.scopes hstore) (congrArg Store.objects hstore),
    trivial, fun frame hframe => by cases hframe⟩

theorem LeadsTo.rooted {run later : Run} (h : run.LeadsTo later) (hrun : run.Arises)
    {classes : List Class} (hrooted : run.machine.Rooted run.past.links classes) :
    ∃ classes', classes ⊆ classes' ∧ later.machine.Rooted later.past.links classes' := by
  induction h with
  | refl => exact ⟨classes, List.Subset.refl _, hrooted⟩
  | step hlater ih =>
      obtain ⟨between, hbetween, hrooted'⟩ := ih
      obtain ⟨classes', hclasses, hstep⟩ :=
        (hrun.of_leadsTo hlater).traced.rooted_step hrooted'
      exact ⟨classes', List.Subset.trans hbetween hclasses, hstep⟩
  | next _ hstore _ ih =>
      obtain ⟨classes', hclasses, hrooted'⟩ := ih
      exact ⟨classes', hclasses, rooted_next hrooted' hstore _⟩

theorem Arises.rooted {run : Run} (h : run.Arises) :
    ∃ classes, run.machine.Rooted run.past.links classes := by
  induction h with
  | first hstore _ => exact ⟨[], rooted_first hstore _⟩
  | step hrun ih =>
      obtain ⟨classes, hrooted⟩ := ih
      obtain ⟨classes', -, hstep⟩ := hrun.traced.rooted_step hrooted
      exact ⟨classes', hstep⟩
  | next _ hstore _ ih =>
      obtain ⟨classes, hrooted⟩ := ih
      exact ⟨classes, rooted_next hrooted hstore _⟩

/-- Scopes and classes are well-founded.

Each scope but that of the globals is linked to an older one.  All environments, those in which the
machine is or to which it goes back and those of functions and methods, lead along the links to the
globals.  The superclass of a class is older than the class.  At all later moments the scopes have
the same links, and what has the identity of a class is that class.

So no scope is around itself and no class above itself, and the searches for variables and methods,
which only know about the links, come to an end when they have gone through all that is older, and
have found what is found in the whole environment and by the recursion over the superclasses. -/
theorem Arises.heap_well_founded {run : Run} (h : run.Arises) :
    let links := run.past.links
    let store := run.machine.world.store
    (links.length = store.scopes.size ∧ links.Founded) ∧
    (∀ env ∈ Store.globalEnv :: run.machine.envs, links.Ascends env) ∧
    (run.machine.Everywhere fun value =>
      (∀ function ∈ value.closures, links.Ascends function.env) ∧
      ∀ ownClass ∈ value.lineage, ownClass.identity < store.identities ∧
        ∀ above, ownClass.superclass = some above → above.identity < ownClass.identity) ∧
    (∀ later, run.LeadsTo later →
      links <+: later.past.links ∧
      (∀ scope outer outer', links.Ascends (scope :: outer) →
        later.past.links.Ascends (scope :: outer') → outer = outer') ∧
      run.machine.Everywhere fun value => later.machine.Everywhere fun value' =>
        ∀ ownClass ∈ value.lineage, ∀ other ∈ value'.lineage,
          ownClass.identity = other.identity → ownClass = other) ∧
    (∀ scope outer, links.Ascends (scope :: outer) →
      ((scope :: outer).Pairwise fun inner around => around < inner) ∧
      (∀ distance, links.ancestor? scope distance = (scope :: outer)[distance]?) ∧
      ∀ budget > scope, ∀ name,
        climb links.next (fun inner => store.binding? inner name) budget scope =
          some (store.get? (scope :: outer) name) ∧
        climb links.next (Option.guard fun inner => (store.binding? inner name).isSome) budget
          scope = some (store.owner? (scope :: outer) name)) ∧
    run.machine.Everywhere fun value => ∀ ownClass ∈ value.lineage,
      (ownClass.lineage.Pairwise fun lower upper => upper.identity < lower.identity) ∧
      ∀ budget > ownClass.identity, ∀ name,
        climb Class.superclass (fun holder => holder.methods.lookup name) budget ownClass =
          some (ownClass.findMethod? name) := by
  intro links store
  obtain ⟨classes, hrooted⟩ := h.rooted
  have hlineages := hrooted.lineages
  refine ⟨⟨hrooted.size, hrooted.founded⟩, ?_, ?_, ?_, ?_, ?_⟩
  · exact List.forall_mem_cons.2 ⟨hrooted.founded.ascends_globalEnv, hrooted.envs⟩
  · refine hrooted.values.mono fun value hvalue => ⟨?_, ?_⟩
    · exact fun function hfunction => hlineages.ascends_of_mem_closures hvalue hfunction
    · intro ownClass hown
      have hmem := hlineages.mem_of_mem_value hvalue hown
      exact ⟨hlineages.given ownClass hmem,
        fun above habove => (hlineages.above ownClass hmem above habove).2⟩
  · intro later hlater
    have hgrown : links <+: later.past.links := hlater.openings.map _
    refine ⟨hgrown, ?_, ?_⟩
    · intro scope outer outer' houter houter'
      exact (houter.mono hrooted.founded hgrown).trail.unique houter'.trail
    · obtain ⟨classes', hclasses, hrooted'⟩ := hlater.rooted h hrooted
      refine hrooted.values.mono fun value hvalue => hrooted'.values.mono fun value' hvalue' => ?_
      intro ownClass hown other hother
      exact hrooted'.lineages.unique ownClass (hclasses (hlineages.mem_of_mem_value hvalue hown))
        other (hrooted'.lineages.mem_of_mem_value hvalue' hother)
  · intro scope outer houter
    refine ⟨houter.pairwise hrooted.founded, houter.ancestor?_eq, fun budget hbudget name => ?_⟩
    refine ⟨houter.climb_eq hrooted.founded _ hbudget, ?_⟩
    rw [houter.climb_eq hrooted.founded _ hbudget, List.findSome?_guard]
    rfl
  · refine hrooted.values.mono fun value hvalue ownClass hown => ?_
    have hmem := hlineages.mem_of_mem_value hvalue hown
    refine ⟨hlineages.pairwise hmem, fun budget hbudget name => ?_⟩
    exact hlineages.climb_eq hmem name hbudget

/-- An instance that is one of its own fields.  Its class has a superclass, and one of its methods
is called in the end. -/
def cyclic : Program :=
  let instanceName : Token := ⟨.identifier, "b", 1⟩
  let method : Token := ⟨.identifier, "f", 1⟩
  let paren : Token := ⟨.symbol .rightParen, ")", 1⟩
  [.classDecl ⟨.identifier, "A", 1⟩ none [],
    .classDecl ⟨.identifier, "B", 1⟩ (some ⟨0, ⟨.identifier, "A", 1⟩⟩)
      [.mk method [] [.returnValue ⟨.keyword .returnKw, "return", 1⟩
        (some (.thisRef ⟨1, ⟨.keyword .thisKw, "this", 1⟩⟩))]],
    .varDecl instanceName (some (.call (.variable ⟨2, ⟨.identifier, "B", 1⟩⟩) paren [])),
    .expression (.set (.variable ⟨3, instanceName⟩) instanceName (.variable ⟨4, instanceName⟩)),
    .expression (.call (.get (.variable ⟨5, instanceName⟩) method) paren [])]

/-- The source text of the program. -/
def cyclicText : String :=
  "class A\x7b\x7dclass B<A\x7bf()\x7breturn this;\x7d\x7dvar b=B();b.b=b;b.f();"

theorem written_cyclic : cyclic.Written := by
  have hparse : Program.parse (TokenStream.ofSource cyclicText).tokens
      (TokenStream.ofSource cyclicText).endLine 0 = ⟨.ok cyclic, 6⟩ := by decide +kernel
  have hwritten : (id cyclic).Written := .mk .script hparse
  exact hwritten

/-- When the method is called. -/
theorem heap_well_founded_cyclic :
    let run := (start .initial (.initial none fun _ => 0) cyclic).runFor 29
    let store := run.machine.world.store
    run.Arises ∧
    (∃ object : Instance, store.field? object.identity "b" = some (.object object)) ∧
    run.machine.env = [3, 2, 1, 0] ∧ run.past.links.Ascends [3, 2, 1, 0] ∧
    ∃ value, climb run.past.links.next (fun scope => store.binding? scope "A") 4 3 =
      some (some value) := by
  intro run store
  have hstart : (start .initial (.initial none fun _ => 0) cyclic).Arises :=
    .first rfl written_cyclic
  have hrun : run.Arises := hstart.runFor 29
  obtain ⟨-, henvs, -, -, hsearches, -⟩ := Arises.heap_well_founded hrun
  have henv : run.machine.env = [3, 2, 1, 0] := rfl
  have hascends : run.past.links.Ascends [3, 2, 1, 0] :=
    henv ▸ henvs run.machine.env (List.mem_cons_of_mem _ List.mem_cons_self)
  obtain ⟨object, hobject⟩ : ∃ object : Instance,
      store.field? object.identity "b" = some (.object object) := ⟨⟨0, _⟩, rfl⟩
  obtain ⟨value, hvalue⟩ : ∃ value, store.get? [3, 2, 1, 0] "A" = some value := ⟨_, rfl⟩
  refine ⟨hrun, ⟨object, hobject⟩, henv, hascends, value, ?_⟩
  rw [((hsearches 3 [2, 1, 0] hascends).2.2 4 (by decide) "A").1]
  exact congrArg some hvalue

end Run

end LoxLang
