import LoxLang.Proofs.Run.Scene

/-!
# Operations on the world

Functions, instances, bound methods and classes are made from grounded scenes, and lead to grounded
scenes that have what was made.
-/

namespace LoxLang

/-- What there is in a world. -/
def World.scene (past : Past) (world : World) : Scene where
  programs := past.programs
  executed := past.executed
  openings := past.openings
  store := world.store

/-- A method of the superclass is found and bound, or nothing happens to the world. -/
theorem World.superMethod_cases (world : World) (env : Env) (occurrence : Occurrence)
    (name : Token) :
    (∃ fault, world.superMethod env occurrence name = (world, .error fault) ∧
      world.openedBySuper env occurrence name = []) ∨
    ∃ distance superclass object method,
      world.distances[occurrence.id]? = some distance ∧
      world.store.getAt? env distance occurrence.name.lexeme = some (.classValue superclass) ∧
      world.store.getAt? env (distance - 1) thisName = some (.object object) ∧
      superclass.findMethod? name.lexeme = some method ∧
      world.superMethod env occurrence name =
        ((world.bind method object).1, .ok (.function (world.bind method object).2)) ∧
      world.openedBySuper env occurrence name = [.bound (world.bind method object).2 object] := by
  rw [World.superMethod, World.openedBySuper]
  cases world.distances[occurrence.id]? with
  | none => exact .inl ⟨_, rfl, rfl⟩
  | some distance =>
      dsimp only
      cases hclass : world.store.getAt? env distance occurrence.name.lexeme with
      | none => exact .inl ⟨_, rfl, rfl⟩
      | some found =>
          cases hobject : world.store.getAt? env (distance - 1) thisName with
          | none => cases found <;> exact .inl ⟨_, rfl, rfl⟩
          | some bound =>
              cases found with
              | classValue superclass =>
                  cases bound with
                  | object object =>
                      dsimp only
                      cases hmethod : superclass.findMethod? name.lexeme with
                      | none => exact .inl ⟨_, rfl, rfl⟩
                      | some method =>
                          exact .inr ⟨distance, superclass, object, method, rfl, hclass, hobject,
                            hmethod, rfl, rfl⟩
                  | _ => exact .inl ⟨_, rfl, rfl⟩
              | _ => cases bound <;> exact .inl ⟨_, rfl, rfl⟩

namespace Scene

namespace Leads

variable {past : Past} {world world' : World}

theorem scene_grounded (h : (world.scene past).Leads [] world'.store) :
    (world'.scene past).Grounded := by
  have hgrounded := h.grounded
  rwa [after_nil] at hgrounded

theorem scene_grows (h : (world.scene past).Leads [] world'.store) :
    (world.scene past).Grows (world'.scene past) := by
  have hgrows := h.grows
  rwa [after_nil] at hgrows

/-- A change of the store, and then more. -/
theorem andThen {opened : List Opening} {store : Store}
    (h : (world.scene past).Leads [] world'.store)
    (h' : (world'.scene past).Leads opened store) : (world.scene past).Leads opened store :=
  ⟨h'.grounded, h.scene_grows.trans h'.grows⟩

end Leads

namespace Grounded

variable {past : Past} {world : World} (h : (world.scene past).Grounded)

include h

theorem close (env : Env) (declaration : FunctionDecl) (isInitializer : Bool) :
    (world.scene past).Leads [] (world.close env declaration isInitializer).1.store :=
  h.newIdentity

/-- Binding a method makes a scope that is on record with the function and the instance. -/
theorem bind {method : Closure} {object : Instance} (hmethod : (world.scene past).HasMethod method)
    (hobject : (world.scene past).HasClass object.ownClass) :
    (world.scene past).Leads [.bound (world.bind method object).2 object]
      (world.bind method object).1.store ∧
    ((world.scene past).after [.bound (world.bind method object).2 object]
      (world.bind method object).1.store).HasFunction (world.bind method object).2 := by
  have hscope : (world.scene past).Leads [.bound (world.bind method object).2 object]
      (world.store.newScope [(thisName, .object object)]).1 := by
    refine h.newScope ?_ ?_ ?_
    · intro name value hvalue
      have hmem : (name, value) ∈ [(thisName, Value.object object)] := mem_of_lookup hvalue
      cases List.mem_singleton.1 hmem
      exact hobject
    · rintro function bound heq
      cases heq
      rfl
    · rintro name clause methods value outer heq
      cases heq
  have hleads := hscope.trans hscope.grounded.newIdentity
  refine ⟨hleads, ?_⟩
  have hopening := h.opening_newScope (.bound (world.bind method object).2 object)
    (world.bind method object).1.store [(thisName, .object object)]
  refine .bound hopening rfl ?_
  have hmethod' := hmethod.mono hleads.grows
  cases hmethod' with
  | mk hclass hdeclaration hinitializer henv => exact .mk hclass hdeclaration hinitializer henv

/-- Looking up a property of an instance makes a scope if it is a method. -/
theorem property {object : Instance} (hobject : (world.scene past).HasClass object.ownClass)
    (name : Token) :
    (world.scene past).Leads (world.openedByProperty object name)
      (world.property object name).1.store ∧
    ∀ value, (world.property object name).2 = .ok value →
      ((world.scene past).after (world.openedByProperty object name)
        (world.property object name).1.store).HasValue value := by
  rw [World.property, World.openedByProperty]
  cases hfield : world.store.field? object.identity name.lexeme with
  | some value =>
      have hleads : (world.scene past).Leads [] world.store := .refl h
      refine ⟨hleads, ?_⟩
      rintro found ⟨⟩
      exact (h.fields object.identity name.lexeme value hfield).mono hleads.grows
  | none =>
      cases hfound : object.ownClass.findMethod? name.lexeme with
      | none => exact ⟨.refl h, fun value hvalue => by cases hvalue⟩
      | some method =>
          obtain ⟨hleads, hfunction⟩ := h.bind (hobject.of_findMethod? hfound) hobject
          refine ⟨hleads, ?_⟩
          rintro found ⟨⟩
          exact hfunction

theorem hasValue_of_getAt? {env : Env} {distance : Nat} {name : String} {value : Value}
    (hvalue : world.store.getAt? env distance name = some value) :
    (world.scene past).HasValue value := by
  obtain ⟨scope, hbinding⟩ := Store.exists_binding?_of_getAt? hvalue
  exact h.bindings scope name value hbinding

/-- Looking up a method of the superclass makes a scope if there is one. -/
theorem superMethod (env : Env) (occurrence : Occurrence) (name : Token) :
    (world.scene past).Leads (world.openedBySuper env occurrence name)
      (world.superMethod env occurrence name).1.store ∧
    ∀ value, (world.superMethod env occurrence name).2 = .ok value →
      ((world.scene past).after (world.openedBySuper env occurrence name)
        (world.superMethod env occurrence name).1.store).HasValue value := by
  rcases world.superMethod_cases env occurrence name with ⟨fault, hresult, hopened⟩ |
    ⟨distance, superclass, object, method, -, hclass, hobject, hfound, hresult, hopened⟩
  · rw [hresult, hopened]
    exact ⟨.refl h, fun value hvalue => by cases hvalue⟩
  · rw [hresult, hopened]
    have hclass' : (world.scene past).HasClass superclass := h.hasValue_of_getAt? hclass
    have hobject' : (world.scene past).HasClass object.ownClass := h.hasValue_of_getAt? hobject
    obtain ⟨hleads, hfunction⟩ := h.bind (hclass'.of_findMethod? hfound) hobject'
    refine ⟨hleads, ?_⟩
    rintro value ⟨⟩
    exact hfunction

/-! ### Class declarations -/

theorem closeAll {env : Env} {methods : List FunctionDecl}
    (hmethods : ∀ declaration ∈ methods, ∀ identity,
      (world.scene past).HasMethod ⟨identity, declaration, env, declaration.isInitializer⟩) :
    (world.scene past).Leads [] (world.closeAll env methods).1.store ∧
    ∀ entry ∈ (world.closeAll env methods).2,
      ((world.closeAll env methods).1.scene past).HasMethod entry.2 := by
  induction methods generalizing world with
  | nil => exact ⟨.refl h, fun entry hentry => by cases hentry⟩
  | cons method rest ih =>
      let closed := world.close env method method.isInitializer
      have hclose : (world.scene past).Leads [] closed.1.store := h.close _ _ _
      have hrest : ∀ declaration ∈ rest, ∀ identity,
          (closed.1.scene past).HasMethod ⟨identity, declaration, env, declaration.isInitializer⟩ :=
        fun declaration hmem identity =>
          (hmethods declaration (List.mem_cons_of_mem _ hmem) identity).mono hclose.scene_grows
      obtain ⟨hleads, hentries⟩ := ih hclose.scene_grounded hrest
      refine ⟨hclose.andThen hleads, fun entry hentry => ?_⟩
      rcases List.mem_cons.1 hentry with rfl | hmem
      · exact (hmethods method List.mem_cons_self _).mono (hclose.andThen hleads).scene_grows
      · exact hentries entry hmem

/-- A class gets an identity when its methods have been made. -/
theorem newClass {env outer : Env} {name : Token} {clause : Option Occurrence}
    {methods : List FunctionDecl} {superclass : Option Class}
    (hdeclares : (world.scene past).DeclaresClass env name clause methods)
    (henv : (world.scene past).MethodEnv env name methods clause outer)
    (hsuperclass : ∀ above, superclass = some above → (world.scene past).HasClass above) :
    (world.scene past).Leads [] (world.closeAll outer methods).1.store.newIdentity.1 ∧
    ((world.scene past).after [] (world.closeAll outer methods).1.store.newIdentity.1).HasClass
      ⟨(world.closeAll outer methods).1.store.newIdentity.2, name.lexeme, superclass,
        (world.closeAll outer methods).2.reverse⟩ := by
  have hmethods (declaration : FunctionDecl) (hmem : declaration ∈ methods) (identity : Nat) :
      (world.scene past).HasMethod ⟨identity, declaration, outer, declaration.isInitializer⟩ :=
    .mk hdeclares hmem rfl henv
  obtain ⟨hclosed, hentries⟩ := h.closeAll hmethods
  have hidentity := hclosed.scene_grounded.newIdentity
  have hleads := hclosed.andThen hidentity
  refine ⟨hleads, .mk ?_ ?_⟩
  · intro entry hentry
    exact (hentries entry (List.mem_reverse.1 hentry)).mono hidentity.grows
  · intro above habove
    exact (hsuperclass above habove).mono hleads.grows

/-- A class without a superclass. -/
theorem makeClass {env : Env} {name : Token} {methods : List FunctionDecl}
    (hdeclares : (world.scene past).DeclaresClass env name none methods) :
    (world.scene past).Leads [] (world.makeClass env name.lexeme none methods).1.store ∧
    ((world.scene past).after [] (world.makeClass env name.lexeme none methods).1.store).HasClass
      (world.makeClass env name.lexeme none methods).2 :=
  h.newClass hdeclares .plain fun above habove => by cases habove

/-- A class with a superclass makes a scope that is on record with the superclass. -/
theorem makeSubclass {env : Env} {name : Token} {clause : Occurrence} {methods : List FunctionDecl}
    {superclass : Class}
    (hdeclares : (world.scene past).DeclaresClass env name (some clause) methods)
    (hsuperclass : (world.scene past).HasClass superclass) :
    (world.scene past).Leads [.superclass name clause methods superclass env]
      (world.makeClass env name.lexeme (some superclass) methods).1.store ∧
    ((world.scene past).after [.superclass name clause methods superclass env]
      (world.makeClass env name.lexeme (some superclass) methods).1.store).HasClass
        (world.makeClass env name.lexeme (some superclass) methods).2 := by
  have hscope : (world.scene past).Leads [.superclass name clause methods superclass env]
      (world.store.newScope [(superName, .classValue superclass)]).1 := by
    refine h.newScope ?_ ?_ ?_
    · intro key value hvalue
      have hmem : (key, value) ∈ [(superName, Value.classValue superclass)] := mem_of_lookup hvalue
      cases List.mem_singleton.1 hmem
      exact hsuperclass
    · rintro function object ⟨⟩
    · rintro name clause methods value outer ⟨⟩
      rfl
  have hopening := h.opening_newScope (.superclass name clause methods superclass env)
    (world.store.newScope [(superName, .classValue superclass)]).1
    [(superName, .classValue superclass)]
  let inside : World := world.withStore
    (world.store.newScope [(superName, .classValue superclass)]).1
  let later : Past :=
    { past with openings := past.openings ++ [.superclass name clause methods superclass env] }
  have hgrounded : (inside.scene later).Grounded := hscope.grounded
  have habove : ∀ above, some superclass = some above → (inside.scene later).HasClass above := by
    rintro above ⟨⟩
    exact hsuperclass.mono hscope.grows
  obtain ⟨hleads, hclass⟩ := hgrounded.newClass (hdeclares.mono hscope.grows) (.derived hopening)
    habove
  refine ⟨hscope.trans hleads, ?_⟩
  have heq := (world.scene past).after_after [.superclass name clause methods superclass env] []
    (world.store.newScope [(superName, .classValue superclass)]).1
    (world.makeClass env name.lexeme (some superclass) methods).1.store
  exact heq ▸ hclass

end Grounded

end Scene

end LoxLang
