import LoxLang.Proofs.Run.History
import LoxLang.Proofs.Scope.Distances

/-!
# Environments and places

At a place in a program an environment has one scope for each construct around it: that of the block
run or call in which the place is reached, of the instance to which the method was bound, or of the
superclass that the class declaration found.  `Scene.Activates` says so, and what a function, class
or instance is that has been made at some place.  All of this stays true when more scopes are made
and more names are bound.
-/

namespace LoxLang

/-- The innermost scopes of an environment, up to that of the innermost call around the place, are
those of the block runs and calls that are under way. -/
inductive Current : Env → List ScopeId → Path → Prop
  | globals : Current Store.globalEnv [] []
  | block {scope : ScopeId} {outer : Env} {active : List ScopeId} {body : List Stmt}
      {declared : List String} {path : Path} :
      Current outer active path →
      Current (scope :: outer) (scope :: active) (⟨.block body, declared⟩ :: path)
  | call {scope : ScopeId} {outer : Env} {active : List ScopeId} {construct : Construct}
      {declared : List String} {path : Path} :
      construct.isFunction →
      Current (scope :: outer) (scope :: active) (⟨construct, declared⟩ :: path)

theorem Current.enter {env : Env} {active : List ScopeId} {path : Path}
    (h : Current env active path) (name : String) : Current env active (path.enter name) := by
  cases h with
  | globals => exact .globals
  | block houter => exact .block houter
  | call hfunction => exact .call hfunction

/-- As long as no call is in between, the scope of a construct is that of its run under way. -/
theorem Current.getElem? {env : Env} {active : List ScopeId} {path : Path}
    (h : Current env active path) {distance : Nat} {enclosure : Enclosure}
    (hpath : path[distance]? = some enclosure)
    (hlocal : ∀ inner ∈ path.take distance, ¬inner.construct.isFunction) :
    env[distance]? = active[distance]? := by
  induction h generalizing distance with
  | globals => cases hpath
  | block _ ih =>
      cases distance with
      | zero => rfl
      | succ distance =>
          exact ih hpath fun inner hinner => hlocal inner (List.mem_cons_of_mem _ hinner)
  | call hfunction =>
      cases distance with
      | zero => rfl
      | succ distance => exact absurd hfunction (hlocal _ List.mem_cons_self)

/-- What there is at some moment of a session. -/
structure Scene extends Past where
  store : Store

namespace Scene

/-- What there is later. -/
structure Grows (old new : Scene) : Prop where
  programs : old.programs ⊆ new.programs
  executed : old.executed ⊆ new.executed
  openings : old.openings <+: new.openings
  bindings : ∀ scope name, (old.store.binding? scope name).isSome →
    (new.store.binding? scope name).isSome

namespace Grows

variable {first second third : Scene}

theorem refl (scene : Scene) : scene.Grows scene :=
  ⟨List.Subset.refl _, List.Subset.refl _, List.prefix_rfl, fun _ _ h => h⟩

theorem trans (h : first.Grows second) (h' : second.Grows third) : first.Grows third where
  programs := List.Subset.trans h.programs h'.programs
  executed := List.Subset.trans h.executed h'.executed
  openings := h.openings.trans h'.openings
  bindings scope name hbinding := h'.bindings scope name (h.bindings scope name hbinding)

theorem opening (h : first.Grows second) {scope : ScopeId} {opening : Opening}
    (hopening : first.openings[scope]? = some opening) :
    second.openings[scope]? = some opening := by
  obtain ⟨later, hlater⟩ := h.openings
  have hlt : scope < first.openings.length := (List.getElem?_eq_some_iff.1 hopening).1
  rw [← hlater, List.getElem?_append_left hlt, hopening]

end Grows

/-! ## Environments -/

/-- A statement was executed at a place, under the block runs and calls to which the innermost
scopes of the environment belong. -/
def Executes (scene : Scene) (env : Env) (path : Path) (statement : Stmt) : Prop :=
  ∃ active, ⟨statement, env, active⟩ ∈ scene.executed ∧ Current env active path

/-- A scope has variables for the given names, none of which is a word that classes bind. -/
def Keeps (scene : Scene) (scope : ScopeId) (names : List String) : Prop :=
  ∀ name ∈ names, name ≠ thisName ∧ name ≠ superName ∧ (scene.store.binding? scope name).isSome

/-- The environment in which the methods of a class are made, if the class is declared in `env`. -/
inductive MethodEnv (scene : Scene) (env : Env) (name : Token) (methods : List FunctionDecl) :
    Option Occurrence → Env → Prop
  | plain : MethodEnv scene env name methods none env
  | derived {scope : ScopeId} {clause : Occurrence} {value : Class} :
      scene.openings[scope]? = some (.superclass name clause methods value env) →
      MethodEnv scene env name methods (some clause) (scope :: env)

/-- An environment is one in which a place is reached.  Inside a function or a method it is the one
in which the declaration was executed, with the scopes of the call, and of the class, added. -/
inductive Activates (scene : Scene) : Env → Path → Prop
  | globals : Activates scene Store.globalEnv []
  | block {scope : ScopeId} {outer : Env} {body : List Stmt} {declared : List String}
      {path : Path} :
      scene.openings[scope]? = some (.block body outer) → Activates scene outer path →
      scene.Keeps scope declared →
      Activates scene (scope :: outer) (⟨.block body, declared⟩ :: path)
  | function {scope : ScopeId} {callee : Closure} {declared : List String} {path : Path} :
      scene.openings[scope]? = some (.call callee) →
      scene.Executes callee.env path (.function callee.declaration) →
      Activates scene callee.env path → scene.Keeps scope declared →
      Activates scene (scope :: callee.env) (⟨.function callee.declaration, declared⟩ :: path)
  /-- The callee was made of a method when that was bound to an instance. -/
  | method {scope bound : ScopeId} {callee : Closure} {object : Instance} {outer env : Env}
      {name : Token} {superclass : Option Occurrence} {methods : List FunctionDecl}
      {declared : List String} {path : Path} :
      scene.openings[scope]? = some (.call callee) →
      scene.openings[bound]? = some (.bound callee object) → callee.env = bound :: outer →
      callee.declaration ∈ methods → scene.MethodEnv env name methods superclass outer →
      scene.Executes env (path.enter name.lexeme) (.classDecl name superclass methods) →
      Activates scene env (path.enter name.lexeme) → scene.Keeps scope declared →
      Activates scene (scope :: bound :: outer)
        (⟨.method callee.declaration, declared⟩ :: path.inClass name superclass methods)

theorem Executes.mono {old new : Scene} {env : Env} {path : Path} {statement : Stmt}
    (h : old.Executes env path statement) (hgrows : old.Grows new) :
    new.Executes env path statement := by
  obtain ⟨active, hmem, hcurrent⟩ := h
  exact ⟨active, hgrows.executed hmem, hcurrent⟩

theorem Keeps.mono {old new : Scene} {scope : ScopeId} {names : List String}
    (h : old.Keeps scope names) (hgrows : old.Grows new) : new.Keeps scope names := by
  intro name hname
  obtain ⟨hthis, hsuper, hbinding⟩ := h name hname
  exact ⟨hthis, hsuper, hgrows.bindings scope name hbinding⟩

theorem Keeps.cons {scene : Scene} {scope : ScopeId} {name : Token} {names : List String}
    (h : scene.Keeps scope names) (hname : name.Names Token.Genuine)
    (hbinding : (scene.store.binding? scope name.lexeme).isSome) :
    scene.Keeps scope (name.lexeme :: names) := by
  intro other hother
  rcases List.mem_cons.1 hother with rfl | hmem
  · exact ⟨hname.ne.1, hname.ne.2, hbinding⟩
  · exact h other hmem

theorem MethodEnv.mono {old new : Scene} {env outer : Env} {name : Token}
    {methods : List FunctionDecl} {superclass : Option Occurrence}
    (h : old.MethodEnv env name methods superclass outer) (hgrows : old.Grows new) :
    new.MethodEnv env name methods superclass outer := by
  cases h with
  | plain => exact .plain
  | derived hopening => exact .derived (hgrows.opening hopening)

namespace Activates

variable {scene old new : Scene} {env : Env} {path : Path}

theorem mono (h : old.Activates env path) (hgrows : old.Grows new) : new.Activates env path := by
  induction h with
  | globals => exact .globals
  | block hopening _ hkeeps ih => exact .block (hgrows.opening hopening) ih (hkeeps.mono hgrows)
  | function hopening hexecutes _ hkeeps ih =>
      exact .function (hgrows.opening hopening) (hexecutes.mono hgrows) ih (hkeeps.mono hgrows)
  | method hopening hbound henv hmethod hclass hexecutes _ hkeeps ih =>
      exact .method (hgrows.opening hopening) (hgrows.opening hbound) henv hmethod
        (hclass.mono hgrows) (hexecutes.mono hgrows) ih (hkeeps.mono hgrows)

/-- Behind a declaration, if its name has been bound in the innermost scope. -/
theorem enter {name : Token} (h : scene.Activates env path) (hname : name.Names Token.Genuine)
    (hbinding : ∀ scope ∈ env.head?, (scene.store.binding? scope name.lexeme).isSome) :
    scene.Activates env (path.enter name.lexeme) := by
  cases h with
  | globals => exact .globals
  | block hopening houter hkeeps =>
      exact .block hopening houter (hkeeps.cons hname (hbinding _ rfl))
  | function hopening hexecutes houter hkeeps =>
      exact .function hopening hexecutes houter (hkeeps.cons hname (hbinding _ rfl))
  | method hopening hbound henv hmethod hclass hexecutes houter hkeeps =>
      exact .method hopening hbound henv hmethod hclass hexecutes houter
        (hkeeps.cons hname (hbinding _ rfl))

theorem exists_head (h : scene.Activates env path) : ∃ scope, env.head? = some scope := by
  cases h <;> exact ⟨_, rfl⟩

/-- The constructs around a place have scopes of their own. -/
theorem exists_scope_of_lt (h : scene.Activates env path) {distance : Nat}
    (hlt : distance < path.length) : ∃ scope opening, env[distance]? = some scope ∧
      scene.openings[scope]? = some opening ∧ opening ≠ .globals := by
  induction h generalizing distance with
  | globals => exact absurd hlt (Nat.not_lt_zero _)
  | block hopening _ _ ih =>
      cases distance with
      | zero => exact ⟨_, _, rfl, hopening, nofun⟩
      | succ distance => exact ih (Nat.lt_of_succ_lt_succ hlt)
  | function hopening _ _ _ ih =>
      cases distance with
      | zero => exact ⟨_, _, rfl, hopening, nofun⟩
      | succ distance => exact ih (Nat.lt_of_succ_lt_succ hlt)
  | method hopening hbound _ _ hclass _ _ _ ih =>
      match distance with
      | 0 => exact ⟨_, _, rfl, hopening, nofun⟩
      | 1 => exact ⟨_, _, rfl, hbound, nofun⟩
      | distance + 2 =>
          have hlt' := Nat.lt_of_succ_lt_succ (Nat.lt_of_succ_lt_succ hlt)
          cases hclass with
          | plain => exact ih hlt'
          | derived hsuperclass =>
              cases distance with
              | zero => exact ⟨_, _, rfl, hsuperclass, nofun⟩
              | succ distance => exact ih (Nat.lt_of_succ_lt_succ hlt')

end Activates

/-! ## Values -/

/-- A class declaration of some program was executed in an environment, and its name is bound. -/
def DeclaresClass (scene : Scene) (env : Env) (name : Token) (superclass : Option Occurrence)
    (methods : List FunctionDecl) : Prop :=
  ∃ program ∈ scene.programs, ∃ path,
    Located program path (.statement (.classDecl name superclass methods)) ∧
      scene.Executes env (path.enter name.lexeme) (.classDecl name superclass methods) ∧
      scene.Activates env (path.enter name.lexeme)

/-- A method as its class has it, bound to no instance. -/
inductive HasMethod (scene : Scene) (method : Closure) : Prop
  | mk {name : Token} {superclass : Option Occurrence} {methods : List FunctionDecl} {env : Env} :
      scene.DeclaresClass env name superclass methods → method.declaration ∈ methods →
      method.isInitializer = method.declaration.isInitializer →
      scene.MethodEnv env name methods superclass method.env → HasMethod scene method

/-- A function that can be called: one made by a declaration, or a method bound to an instance. -/
inductive HasFunction (scene : Scene) (closure : Closure) : Prop
  | function {program : Program} {path : Path} :
      program ∈ scene.programs →
      Located program path (.statement (.function closure.declaration)) →
      closure.isInitializer = false →
      scene.Executes closure.env (path.enter closure.declaration.name.lexeme)
        (.function closure.declaration) →
      scene.Activates closure.env (path.enter closure.declaration.name.lexeme) →
      HasFunction scene closure
  | bound {scope : ScopeId} {object : Instance} {outer : Env} :
      scene.openings[scope]? = some (.bound closure object) → closure.env = scope :: outer →
      scene.HasMethod { closure with env := outer } → HasFunction scene closure

/-- A class whose methods, and those of the classes above it, have been made by declarations. -/
inductive HasClass (scene : Scene) : Class → Prop
  | mk {ownClass : Class} :
      (∀ entry ∈ ownClass.methods, scene.HasMethod entry.2) →
      (∀ superclass, ownClass.superclass = some superclass → HasClass scene superclass) →
      HasClass scene ownClass

/-- A value all of whose parts have been made by the programs of the session. -/
def HasValue (scene : Scene) : Value → Prop
  | .function closure => scene.HasFunction closure
  | .classValue value => scene.HasClass value
  | .object object => scene.HasClass object.ownClass
  | _ => True

section

variable {scene old new : Scene}

theorem DeclaresClass.mono {env : Env} {name : Token} {superclass : Option Occurrence}
    {methods : List FunctionDecl} (h : old.DeclaresClass env name superclass methods)
    (hgrows : old.Grows new) : new.DeclaresClass env name superclass methods := by
  obtain ⟨program, hprogram, path, hlocated, hexecutes, henv⟩ := h
  exact ⟨program, hgrows.programs hprogram, path, hlocated, hexecutes.mono hgrows,
    henv.mono hgrows⟩

theorem HasMethod.mono {method : Closure} (h : old.HasMethod method) (hgrows : old.Grows new) :
    new.HasMethod method := by
  cases h with
  | mk hclass hmethod hinitializer henv =>
      exact .mk (hclass.mono hgrows) hmethod hinitializer (henv.mono hgrows)

theorem HasFunction.mono {closure : Closure} (h : old.HasFunction closure)
    (hgrows : old.Grows new) : new.HasFunction closure := by
  cases h with
  | function hprogram hlocated hinitializer hexecutes henv =>
      exact .function (hgrows.programs hprogram) hlocated hinitializer (hexecutes.mono hgrows)
        (henv.mono hgrows)
  | bound hopening henv hmethod => exact .bound (hgrows.opening hopening) henv (hmethod.mono hgrows)

theorem HasClass.mono {ownClass : Class} (h : old.HasClass ownClass) (hgrows : old.Grows new) :
    new.HasClass ownClass := by
  induction h with
  | mk hmethods _ ih => exact .mk (fun entry hentry => (hmethods entry hentry).mono hgrows) ih

theorem HasValue.mono {value : Value} (h : old.HasValue value) (hgrows : old.Grows new) :
    new.HasValue value := by
  cases value with
  | function closure => exact HasFunction.mono h hgrows
  | classValue value => exact HasClass.mono h hgrows
  | object object => exact HasClass.mono h hgrows
  | _ => trivial

theorem mem_of_lookup {α : Type} {entries : List (String × α)} {name : String} {a : α}
    (h : entries.lookup name = some a) : (name, a) ∈ entries := by
  induction entries with
  | nil => cases h
  | cons entry rest ih =>
      obtain ⟨key, found⟩ := entry
      rw [List.lookup_cons] at h
      by_cases hname : name = key
      · subst hname
        rw [beq_self_eq_true] at h
        cases h
        exact List.mem_cons_self
      · rw [beq_eq_false_iff_ne.2 hname] at h
        exact List.mem_cons_of_mem _ (ih h)

/-- Methods are found in the class or in one above it. -/
theorem HasClass.of_findMethod? {ownClass : Class} {name : String} {method : Closure}
    (h : scene.HasClass ownClass) (hfound : ownClass.findMethod? name = some method) :
    scene.HasMethod method := by
  induction h with
  | @mk ownClass hmethods _ ih =>
      rcases Class.findMethod?_eq_some_iff.1 hfound with hlookup | ⟨-, above, habove, hinherited⟩
      · exact hmethods (name, method) (mem_of_lookup hlookup)
      · exact ih above habove hinherited

end

end Scene

/-- At first the only variable is the global that holds the built-in function. -/
theorem Store.eq_builtin_of_binding?_initial {scope : ScopeId} {name : String} {value : Value}
    (h : initial.binding? scope name = some value) : value = .builtin .clock := by
  obtain ⟨bindings, hscope, hlookup⟩ := Option.bind_eq_some_iff.1 h
  have hmem : bindings ∈ initial.scopes := Array.mem_of_getElem? hscope
  obtain rfl : bindings = [(Builtin.clock.name, Value.builtin .clock)] := by
    simpa [initial] using hmem
  exact congrArg Prod.snd (List.mem_singleton.1 (Scene.mem_of_lookup hlookup))

end LoxLang
