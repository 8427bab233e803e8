import LoxLang.Proofs.Run.Activation

/-!
# Scenes that hold together

All values in a grounded scene have been made by programs of the session, and the scopes that were
made for bound methods and for superclasses still hold what they were made with.  The operations on
the world lead from one grounded scene to another.
-/

namespace LoxLang

namespace Scene

/-- What is true of every scene that a session comes to. -/
structure Grounded (scene : Scene) : Prop where
  /-- It is on record for each scope what it was made for. -/
  size : scene.openings.length = scene.store.scopes.size
  globals : scene.openings[Store.globalScope]? = some .globals
  accepted : ∀ program ∈ scene.programs, program.Accepted
  bindings : ∀ scope name value, scene.store.binding? scope name = some value →
    scene.HasValue value
  fields : ∀ object name value, scene.store.field? object name = some value →
    scene.HasValue value
  /-- The word `this` means the instance to which the method was bound. -/
  instances : ∀ scope function object,
    scene.openings[scope]? = some (.bound function object) →
    scene.store.binding? scope thisName = some (.object object)
  /-- The word `super` means the class that the superclass clause evaluated to. -/
  superclasses : ∀ scope name clause methods value outer,
    scene.openings[scope]? = some (.superclass name clause methods value outer) →
    scene.store.binding? scope superName = some (.classValue value)

/-- The scene in which more scopes have been made and the variables and fields are others. -/
def after (scene : Scene) (opened : List Opening) (store : Store) : Scene where
  programs := scene.programs
  executed := scene.executed
  openings := scene.openings ++ opened
  store := store

/-- More scopes and other variables and fields lead to a grounded scene. -/
structure Leads (scene : Scene) (opened : List Opening) (store : Store) : Prop where
  grounded : (scene.after opened store).Grounded
  grows : scene.Grows (scene.after opened store)

theorem after_nil (scene : Scene) (store : Store) :
    scene.after [] store = { scene with store := store } := by
  rw [after, List.append_nil]

theorem after_after (scene : Scene) (opened opened' : List Opening) (store store' : Store) :
    (scene.after opened store).after opened' store' = scene.after (opened ++ opened') store' := by
  rw [after, after, after, List.append_assoc]

namespace Leads

variable {scene : Scene} {opened opened' : List Opening} {store store' : Store}

theorem refl (h : scene.Grounded) : scene.Leads [] scene.store := by
  have heq : scene.after [] scene.store = scene := scene.after_nil scene.store
  exact ⟨heq.symm ▸ h, heq.symm ▸ Grows.refl scene⟩

theorem trans (h : scene.Leads opened store)
    (h' : (scene.after opened store).Leads opened' store') :
    scene.Leads (opened ++ opened') store' := by
  have heq := scene.after_after opened opened' store store'
  exact ⟨heq ▸ h'.grounded, heq ▸ h.grows.trans h'.grows⟩

end Leads

/-! ## Changing the store -/

theorem eq_or_lt_of_getElem?_concat {openings : List Opening} {opening found : Opening}
    {scope : ScopeId} (h : (openings ++ [opening])[scope]? = some found) :
    scope = openings.length ∧ opening = found ∨
      scope < openings.length ∧ openings[scope]? = some found := by
  rcases Nat.lt_trichotomy scope openings.length with hlt | rfl | hgt
  · rw [List.getElem?_append_left hlt] at h
    exact .inr ⟨hlt, h⟩
  · rw [List.getElem?_concat_length] at h
    exact .inl ⟨rfl, Option.some.inj h⟩
  · have hlength : (openings ++ [opening]).length ≤ scope := by
      rw [List.length_append, List.length_singleton]
      exact hgt
    rw [List.getElem?_eq_none hlength] at h
    cases h

theorem grows_define (scene : Scene) (scope : ScopeId) (name : String) (value : Value) :
    scene.Grows { scene with store := scene.store.define scope name value } := by
  refine ⟨List.Subset.refl _, List.Subset.refl _, List.prefix_rfl, fun other key hsome => ?_⟩
  rw [Store.binding?_define]
  split
  · rfl
  · exact hsome

namespace Grounded

variable {scene : Scene} (h : scene.Grounded)

include h

/-- A change of the store that leaves the variables as they are. -/
theorem leads_of_scopes {store : Store} (hscopes : store.scopes = scene.store.scopes)
    (hfields : ∀ object name value, store.field? object name = some value →
      scene.HasValue value) : scene.Leads [] store := by
  have hbinding (scope : ScopeId) (name : String) :
      store.binding? scope name = scene.store.binding? scope name := by
    rw [Store.binding?, hscopes, Store.binding?]
  have hgrows : scene.Grows { scene with store := store } := by
    refine ⟨List.Subset.refl _, List.Subset.refl _, List.prefix_rfl, fun scope name hsome => ?_⟩
    rwa [hbinding]
  constructor
  · rw [after_nil]
    constructor
    · exact h.size.trans (congrArg Array.size hscopes).symm
    · exact h.globals
    · exact h.accepted
    · intro scope name value hvalue
      rw [hbinding] at hvalue
      exact (h.bindings scope name value hvalue).mono hgrows
    · intro object name value hvalue
      exact (hfields object name value hvalue).mono hgrows
    · intro scope function object hopening
      rw [hbinding]
      exact h.instances scope function object hopening
    · intro scope name clause methods value outer hopening
      rw [hbinding]
      exact h.superclasses scope name clause methods value outer hopening
  · rw [after_nil]
    exact hgrows

theorem newIdentity : scene.Leads [] scene.store.newIdentity.1 :=
  h.leads_of_scopes rfl h.fields

theorem newObject : scene.Leads [] scene.store.newObject.1 := by
  refine h.leads_of_scopes rfl fun object name value hvalue => ?_
  rw [Store.field?_newObject] at hvalue
  exact h.fields object name value hvalue

theorem setField (object : Nat) (name : String) {value : Value} (hvalue : scene.HasValue value) :
    scene.Leads [] (scene.store.setField object name value) := by
  refine h.leads_of_scopes rfl fun other key found hfound => ?_
  rw [Store.field?_setField] at hfound
  split at hfound
  · cases hfound
    exact hvalue
  · exact h.fields other key found hfound

/-- The words that classes bind are never given another value.  A value may refer to the variable
that gets it, as a function does. -/
theorem define (scope : ScopeId) {name : Token} (hname : name.Names Token.Genuine) {value : Value}
    (hvalue : HasValue { scene with store := scene.store.define scope name.lexeme value } value) :
    scene.Leads [] (scene.store.define scope name.lexeme value) := by
  have hother (other : ScopeId) (word : String) (hword : name.lexeme ≠ word) :
      (scene.store.define scope name.lexeme value).binding? other word =
        scene.store.binding? other word := by
    rw [Store.binding?_define, if_neg fun heq => hword heq.2.2.symm]
  have hgrows := scene.grows_define scope name.lexeme value
  constructor
  · rw [after_nil]
    constructor
    · exact h.size.trans (Store.size_define _ _ _ _).symm
    · exact h.globals
    · exact h.accepted
    · intro other key found hfound
      rw [Store.binding?_define] at hfound
      split at hfound
      · cases hfound
        exact hvalue
      · exact (h.bindings other key found hfound).mono hgrows
    · intro object key found hfound
      exact (h.fields object key found hfound).mono hgrows
    · intro other function object hopening
      rw [hother other thisName hname.ne.1]
      exact h.instances other function object hopening
    · intro other className clause methods found outer hopening
      rw [hother other superName hname.ne.2]
      exact h.superclasses other className clause methods found outer hopening
  · rw [after_nil]
    exact hgrows

/-- The innermost scope of an environment is on record. -/
theorem head_lt {env : Env} {path : Path} (henv : scene.Activates env path) {scope : ScopeId}
    (hscope : scope ∈ env.head?) : scope < scene.store.scopes.size := by
  rw [← h.size]
  cases henv with
  | globals =>
      cases hscope
      exact (List.getElem?_eq_some_iff.1 h.globals).1
  | block hopening _ _ =>
      cases hscope
      exact (List.getElem?_eq_some_iff.1 hopening).1
  | function hopening _ _ _ =>
      cases hscope
      exact (List.getElem?_eq_some_iff.1 hopening).1
  | method hopening _ _ _ _ _ _ _ =>
      cases hscope
      exact (List.getElem?_eq_some_iff.1 hopening).1

/-- A declaration binds its name in the innermost scope, and so it is bound behind it. -/
theorem activates_defineIn {env : Env} {path : Path} (henv : scene.Activates env path)
    {name : Token} (hname : name.Names Token.Genuine) (value : Value) :
    scene.Grows { scene with store := scene.store.defineIn env name.lexeme value } ∧
    Activates { scene with store := scene.store.defineIn env name.lexeme value } env
      (path.enter name.lexeme) := by
  cases env with
  | nil => cases henv
  | cons scope outer =>
      have hgrows := scene.grows_define scope name.lexeme value
      refine ⟨hgrows, (henv.mono hgrows).enter hname ?_⟩
      rintro found ⟨⟩
      rw [Store.binding?_define, if_pos ⟨h.head_lt henv rfl, rfl, rfl⟩]
      rfl

theorem defineIn {env : Env} {path : Path} (henv : scene.Activates env path) {name : Token}
    (hname : name.Names Token.Genuine) {value : Value}
    (hvalue : HasValue { scene with store := scene.store.defineIn env name.lexeme value } value) :
    scene.Leads [] (scene.store.defineIn env name.lexeme value) := by
  cases env with
  | nil => cases henv
  | cons scope outer => exact h.define scope hname hvalue

/-- Only scopes on record have variables. -/
theorem lt_of_isSome {scope : ScopeId} {name : String}
    (hsome : (scene.store.binding? scope name).isSome) : scope < scene.openings.length := by
  rw [h.size]
  by_contra hge
  rw [Store.binding?, Array.getElem?_eq_none (Nat.le_of_not_lt hge)] at hsome
  cases hsome

theorem binding?_newScope (bindings : Bindings) (scope : ScopeId) (name : String) :
    (scene.store.newScope bindings).1.binding? scope name =
      if scope = scene.openings.length then bindings.get? name
      else scene.store.binding? scope name := by
  have hnew : (scene.store.newScope bindings).2 = scene.openings.length := h.size.symm
  rw [Store.binding?_newScope, hnew]

theorem grows_newScope (opening : Opening) (bindings : Bindings) :
    scene.Grows (scene.after [opening] (scene.store.newScope bindings).1) := by
  refine ⟨List.Subset.refl _, List.Subset.refl _, List.prefix_append _ _, ?_⟩
  intro scope name hsome
  rw [after, h.binding?_newScope, if_neg (Nat.ne_of_lt (h.lt_of_isSome hsome))]
  exact hsome

/-- A new scope with variables of its own. -/
theorem newScope {opening : Opening} {bindings : Bindings}
    (hvalues : ∀ name value, bindings.get? name = some value → scene.HasValue value)
    (hinstance : ∀ function object, opening = .bound function object →
      bindings.get? thisName = some (.object object))
    (hsuperclass : ∀ name clause methods value outer,
      opening = .superclass name clause methods value outer →
      bindings.get? superName = some (.classValue value)) :
    scene.Leads [opening] (scene.store.newScope bindings).1 := by
  have hgrows := h.grows_newScope opening bindings
  refine ⟨?_, hgrows⟩
  constructor
  · show (scene.openings ++ [opening]).length = (scene.store.scopes.push bindings).size
    rw [List.length_append, List.length_singleton, Array.size_push, h.size]
  · exact hgrows.opening h.globals
  · exact h.accepted
  · intro scope name value hvalue
    rw [after, h.binding?_newScope] at hvalue
    split at hvalue
    · exact (hvalues name value hvalue).mono hgrows
    · exact (h.bindings scope name value hvalue).mono hgrows
  · intro object name value hvalue
    exact (h.fields object name value hvalue).mono hgrows
  · intro scope function object hopening
    rw [after, h.binding?_newScope]
    rcases eq_or_lt_of_getElem?_concat hopening with ⟨rfl, heq⟩ | ⟨hlt, hold⟩
    · rw [if_pos rfl]
      exact hinstance function object heq
    · rw [if_neg (Nat.ne_of_lt hlt)]
      exact h.instances scope function object hold
  · intro scope name clause methods value outer hopening
    rw [after, h.binding?_newScope]
    rcases eq_or_lt_of_getElem?_concat hopening with ⟨rfl, heq⟩ | ⟨hlt, hold⟩
    · rw [if_pos rfl]
      exact hsuperclass name clause methods value outer heq
    · rw [if_neg (Nat.ne_of_lt hlt)]
      exact h.superclasses scope name clause methods value outer hold

/-- The record of a new scope. -/
theorem opening_newScope (opening : Opening) (store : Store) (bindings : Bindings) :
    (scene.after [opening] store).openings[(scene.store.newScope bindings).2]? = some opening := by
  have hnew : (scene.store.newScope bindings).2 = scene.openings.length := h.size.symm
  rw [hnew]
  exact List.getElem?_concat_length

end Grounded

end Scene

end LoxLang
