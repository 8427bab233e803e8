import LoxLang.Value.Operation

/-!
# The store

The variables of all scopes and the fields of all instances that a program has made so far.  The
store only grows: a scope or instance keeps its number for good, and which scope encloses which is
fixed in the environments that name them.
-/

namespace LoxLang

/-- Names with their values; no name occurs twice. -/
abbrev Bindings := List (String × Value)

namespace Bindings

/-- The value of a name. -/
def get? (bindings : Bindings) (name : String) : Option Value :=
  bindings.lookup name

/-- Gives a name a value, whether it had one or not. -/
def set : Bindings → String → Value → Bindings
  | [], name, value => [(name, value)]
  | (key, old) :: rest, name, value =>
      if key = name then (name, value) :: rest else (key, old) :: set rest name value

theorem get?_set (bindings : Bindings) (name other : String) (value : Value) :
    (bindings.set name value).get? other =
      if other = name then some value else bindings.get? other := by
  induction bindings with
  | nil =>
      by_cases h : other = name
      · simp [set, get?, h]
      · simp [set, get?, List.lookup_cons, h, beq_eq_false_iff_ne.2 h]
  | cons entry rest ih =>
      obtain ⟨key, old⟩ := entry
      simp only [get?] at ih ⊢
      by_cases hkey : key = name
      · subst hkey
        by_cases h : other = key
        · simp [set, h]
        · simp [set, List.lookup_cons, h, beq_eq_false_iff_ne.2 h]
      · by_cases h : other = key
        · subst h
          simp [set, hkey]
        · simp [set, List.lookup_cons, hkey, beq_eq_false_iff_ne.2 h, ih]

/-- Names with values of their own, one after the other. -/
def ofList (entries : List (String × Value)) : Bindings :=
  entries.foldl (fun bindings entry => bindings.set entry.1 entry.2) []

theorem mem_of_get?_foldl {entries : List (String × Value)} {bindings : Bindings} {name : String}
    {value : Value}
    (h : (entries.foldl (fun bindings entry => bindings.set entry.1 entry.2) bindings).get? name =
      some value) :
    (name, value) ∈ entries ∨ bindings.get? name = some value := by
  induction entries generalizing bindings with
  | nil => exact .inr h
  | cons entry rest ih =>
      rcases ih h with hmem | hget
      · exact .inl (List.mem_cons_of_mem _ hmem)
      · rw [get?_set] at hget
        split at hget
        · next hname =>
            cases hget
            exact .inl (hname ▸ List.mem_cons_self)
        · exact .inr hget

/-- The values of names are among those that were given. -/
theorem mem_of_get?_ofList {entries : List (String × Value)} {name : String} {value : Value}
    (h : (ofList entries).get? name = some value) : (name, value) ∈ entries := by
  rcases mem_of_get?_foldl h with hmem | hnil
  · exact hmem
  · cases hnil

theorem isSome_get?_foldl {entries : List (String × Value)} {bindings : Bindings} {name : String}
    (h : name ∈ entries.map Prod.fst ∨ (bindings.get? name).isSome) :
    ((entries.foldl (fun bindings entry => bindings.set entry.1 entry.2) bindings).get?
      name).isSome := by
  induction entries generalizing bindings with
  | nil => simpa using h
  | cons entry rest ih =>
      refine ih ?_
      rw [get?_set]
      by_cases hname : name = entry.1
      · exact .inr (by rw [if_pos hname]; rfl)
      · rw [if_neg hname]
        simpa [hname] using h

/-- All names have got values. -/
theorem isSome_get?_ofList {entries : List (String × Value)} {name : String}
    (h : name ∈ entries.map Prod.fst) : ((ofList entries).get? name).isSome :=
  isSome_get?_foldl (.inl h)

end Bindings

/-- The variables and fields that there are. -/
structure Store where
  /-- The variables of each scope. -/
  scopes : Array Bindings
  /-- The fields of each instance. -/
  objects : Array Bindings
  /-- How many functions and classes there have been. -/
  identities : Nat

namespace Store

/-- The scope of the globals. -/
def globalScope : ScopeId := 0

/-- The environment of code that stands in no block and no function. -/
def globalEnv : Env := [globalScope]

/-- The store in which a program starts: its globals are the built-in functions. -/
def initial : Store where
  scopes := #[[(Builtin.clock.name, .builtin .clock)]]
  objects := #[]
  identities := 0

/-- Makes a scope with some variables. -/
def newScope (store : Store) (bindings : Bindings) : Store × ScopeId :=
  let scope := store.scopes.size
  ({ store with scopes := store.scopes.push bindings }, scope)

/-- Makes an instance without fields. -/
def newObject (store : Store) : Store × Nat :=
  let object := store.objects.size
  ({ store with objects := store.objects.push [] }, object)

/-- Makes an identity for a function or a class. -/
def newIdentity (store : Store) : Store × Nat :=
  let identity := store.identities
  ({ store with identities := identity + 1 }, identity)

/-- The value of a variable of one scope. -/
def binding? (store : Store) (scope : ScopeId) (name : String) : Option Value :=
  store.scopes[scope]?.bind (·.get? name)

/-- Gives a variable of one scope a value, whether it had one or not. -/
def define (store : Store) (scope : ScopeId) (name : String) (value : Value) : Store :=
  { store with scopes := store.scopes.modify scope (·.set name value) }

/-- The value of a field. -/
def field? (store : Store) (object : Nat) (name : String) : Option Value :=
  store.objects[object]?.bind (·.get? name)

/-- Gives a field a value, whether it had one or not. -/
def setField (store : Store) (object : Nat) (name : String) (value : Value) : Store :=
  { store with objects := store.objects.modify object (·.set name value) }

/-- Gives a variable of the innermost scope of an environment a value. -/
def defineIn (store : Store) (env : Env) (name : String) (value : Value) : Store :=
  match env with
  | [] => store
  | scope :: _ => store.define scope name value

/-- The scope nearest to the inside of an environment that has a variable of a given name. -/
def owner? (store : Store) (env : Env) (name : String) : Option ScopeId :=
  env.find? fun scope => (store.binding? scope name).isSome

/-- The value of a variable in the nearest scope that has it. -/
def get? (store : Store) (env : Env) (name : String) : Option Value :=
  env.findSome? fun scope => store.binding? scope name

/-- The value of a variable of exactly the scope that is `distance` scopes out. -/
def getAt? (store : Store) (env : Env) (distance : Nat) (name : String) : Option Value :=
  env[distance]?.bind fun scope => store.binding? scope name

/-- The value that a name has in an environment. -/
def read (store : Store) (env : Env) (name : Token) : Except RuntimeFault Value :=
  match store.get? env name.lexeme with
  | some value => .ok value
  | none => .error name.undefined

/-- The value that a name has in the scope that is `distance` scopes out. -/
def readAt (store : Store) (env : Env) (distance : Nat) (name : Token) :
    Except RuntimeFault Value :=
  match store.getAt? env distance name.lexeme with
  | some value => .ok value
  | none => .error name.undefined

/-- The scope in which an assignment to a name overwrites a variable. -/
def owner (store : Store) (env : Env) (name : Token) : Except RuntimeFault ScopeId :=
  match store.owner? env name.lexeme with
  | some scope => .ok scope
  | none => .error name.undefined

/-- The scope that is `distance` scopes out, in which an assignment to a name sets a variable
whether there is one or not. -/
def ownerAt (env : Env) (distance : Nat) (name : Token) : Except RuntimeFault ScopeId :=
  match env[distance]? with
  | some scope => .ok scope
  | none => .error name.undefined

/-- Assigns to a name that an environment has. -/
def write (store : Store) (env : Env) (name : Token) (value : Value) :
    Except RuntimeFault Store :=
  (store.owner env name).map fun scope => store.define scope name.lexeme value

/-- Assigns to a name in the scope that is `distance` scopes out. -/
def writeAt (store : Store) (env : Env) (distance : Nat) (name : Token) (value : Value) :
    Except RuntimeFault Store :=
  (ownerAt env distance name).map fun scope => store.define scope name.lexeme value

/-! ### What the operations do to the variables -/

/-- A new scope has the variables that it was made with, and no other scope changes. -/
theorem binding?_newScope (store : Store) (bindings : Bindings) (scope : ScopeId) (name : String) :
    (store.newScope bindings).1.binding? scope name =
      if scope = (store.newScope bindings).2 then bindings.get? name
      else store.binding? scope name := by
  by_cases h : scope = store.scopes.size
  · subst h
    simp [newScope, binding?]
  · simp [newScope, binding?, Array.getElem?_push, h]

/-- Giving a variable of a scope a value changes that variable and nothing else. -/
theorem binding?_define (store : Store) (scope other : ScopeId) (name key : String)
    (value : Value) :
    (store.define scope name value).binding? other key =
      if scope < store.scopes.size ∧ other = scope ∧ key = name then some value
      else store.binding? other key := by
  by_cases hscope : other = scope
  · subst hscope
    by_cases hlt : other < store.scopes.size
    · simp [define, binding?, hlt, Array.getElem_modify, Bindings.get?_set]
    · simp [define, binding?, hlt]
  · simp [define, binding?, Array.getElem?_modify, hscope, Ne.symm hscope]

theorem size_define (store : Store) (scope : ScopeId) (name : String) (value : Value) :
    (store.define scope name value).scopes.size = store.scopes.size :=
  Array.size_modify

/-- Giving a field of an instance a value changes that field and nothing else. -/
theorem field?_setField (store : Store) (object other : Nat) (name key : String)
    (value : Value) :
    (store.setField object name value).field? other key =
      if object < store.objects.size ∧ other = object ∧ key = name then some value
      else store.field? other key := by
  by_cases hobject : other = object
  · subst hobject
    by_cases hlt : other < store.objects.size
    · simp [setField, field?, hlt, Array.getElem_modify, Bindings.get?_set]
    · simp [setField, field?, hlt]
  · simp [setField, field?, Array.getElem?_modify, hobject, Ne.symm hobject]

/-- A new instance has no fields. -/
theorem field?_newObject (store : Store) (object : Nat) (name : String) :
    store.newObject.1.field? object name = store.field? object name := by
  by_cases h : object = store.objects.size
  · subst h
    simp [newObject, field?, Bindings.get?]
  · simp [newObject, field?, Array.getElem?_push, h]

/-- A value that is found at a distance is that of a variable. -/
theorem exists_binding?_of_getAt? {store : Store} {env : Env} {distance : Nat} {name : String}
    {value : Value} (h : store.getAt? env distance name = some value) :
    ∃ scope, store.binding? scope name = some value := by
  obtain ⟨scope, -, hbinding⟩ := Option.bind_eq_some_iff.1 h
  exact ⟨scope, hbinding⟩

end Store

end LoxLang
