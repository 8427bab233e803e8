import LoxLang.Proofs.Run.Recasting
import LoxLang.Proofs.Scope.Relabeling

/-!
# Relabelled worlds

Functions keep their declarations, so the values in a world hold labels of programs that have run
there.  No operation looks at them: with other labels, and with the distances recorded under the new
numbers, it does the same and what it makes has the new labels.  The other declarations are a case
of a `Recasting`, and faults get other lines besides.
-/

namespace LoxLang

/-! ## Values -/

/-- A fault of a running program on another line. -/
def RuntimeFault.mapLine (lines : Nat → Nat) (fault : RuntimeFault) : RuntimeFault :=
  { fault with line := lines fault.line }

/-- A function whose declaration has other labels. -/
def Closure.relabel (r : Relabeling) (closure : Closure) : Closure :=
  { closure with declaration := closure.declaration.relabel r }

/-- A class whose methods and superclass have other labels. -/
def Class.relabel (r : Relabeling) : Class → Class
  | ⟨identity, name, none, methods⟩ =>
      ⟨identity, name, none, methods.map (Prod.map id (Closure.relabel r))⟩
  | ⟨identity, name, some superclass, methods⟩ =>
      ⟨identity, name, some (superclass.relabel r), methods.map (Prod.map id (Closure.relabel r))⟩

/-- An instance whose class has other labels. -/
def Instance.relabel (r : Relabeling) (object : Instance) : Instance :=
  { object with ownClass := object.ownClass.relabel r }

/-- A value with other labels. -/
def Value.relabel (r : Relabeling) : Value → Value
  | function closure => function (closure.relabel r)
  | classValue ownClass => classValue (ownClass.relabel r)
  | object made => object (made.relabel r)
  | value => value

/-- A value with other labels, or a fault on another line. -/
def Relabeling.result (r : Relabeling) : Except RuntimeFault Value → Except RuntimeFault Value
  | .ok value => .ok (value.relabel r)
  | .error fault => .error (fault.mapLine r.lines)

section

variable (r : Relabeling)

theorem FunctionDecl.params_relabel (declaration : FunctionDecl) :
    (declaration.relabel r).params = declaration.params.map r.token := by
  cases declaration
  rfl

theorem FunctionDecl.body_relabel (declaration : FunctionDecl) :
    (declaration.relabel r).body = Stmt.relabelAll r declaration.body := by
  cases declaration
  rfl

/-- Functions get declarations with other labels, and all names stay. -/
def Relabeling.recasting : Recasting where
  declaration := FunctionDecl.relabel r
  nameIn _ := id
  name_declaration function := by rw [function.name_relabel, r.lexeme_token]
  length_params function := by rw [function.params_relabel, List.length_map]
  injective _ := Function.injective_id
  this _ := rfl
  super _ := rfl

theorem Class.relabel_eq_recast : (ownClass : Class) →
    ownClass.relabel r = ownClass.recast r.recasting
  | ⟨_, _, none, _⟩ => rfl
  | ⟨_, _, some superclass, _⟩ => by
      rw [relabel, recast, superclass.relabel_eq_recast]
      rfl

theorem Instance.relabel_eq_recast (object : Instance) :
    object.relabel r = object.recast r.recasting := by
  rw [relabel, recast, Class.relabel_eq_recast]

theorem Value.relabel_eq_recast (value : Value) :
    value.relabel r = value.recast r.recasting := by
  cases value with
  | classValue ownClass => exact congrArg classValue (ownClass.relabel_eq_recast r)
  | object made => exact congrArg object (made.relabel_eq_recast r)
  | _ => rfl

theorem Value.relabel_eq : Value.relabel r = Value.recast r.recasting :=
  funext (Value.relabel_eq_recast r)

theorem Class.relabel_eq : Class.relabel r = Class.recast r.recasting :=
  funext (Class.relabel_eq_recast r)

theorem Class.findMethod?_relabel (name : String) (ownClass : Class) :
    (ownClass.relabel r).findMethod? name =
      (ownClass.findMethod? name).map (Closure.relabel r) := by
  rw [relabel_eq_recast]
  exact ownClass.findMethod?_recast r.recasting name

theorem Class.initializer?_relabel (ownClass : Class) :
    (ownClass.relabel r).initializer? = ownClass.initializer?.map (Closure.relabel r) :=
  ownClass.findMethod?_relabel r _

/-- A fault of an operator is put on another line. -/
theorem Relabeling.result_mapError (operator : Token) (result : Except RuntimeCause Value) :
    (result.map (Value.recast r.recasting)).mapError (r.token operator).fault =
      r.result (result.mapError operator.fault) := by
  cases result with
  | ok value => exact congrArg Except.ok (value.relabel_eq_recast r).symm
  | error cause => rfl

namespace Value

theorem arity?_relabel (value : Value) : (value.relabel r).arity? = value.arity? := by
  rw [relabel_eq_recast, arity?_recast]

theorem isTruthy_relabel (value : Value) : (value.relabel r).isTruthy = value.isTruthy := by
  rw [relabel_eq_recast, isTruthy_recast]

theorem decides_relabel (operator : Kind) (value : Value) :
    (value.relabel r).decides operator = value.decides operator := by
  rw [relabel_eq_recast, decides_recast]

theorem relabel_ofLiteral (value : Literal) : (ofLiteral value).relabel r = ofLiteral value := by
  rw [relabel_eq_recast, recast_ofLiteral]

theorem unary_relabel (operator : Token) (operand : Value) :
    ((operand.relabel r).unary (r.token operator).kind).mapError (r.token operator).fault =
      r.result ((operand.unary operator.kind).mapError operator.fault) := by
  rw [relabel_eq_recast, r.kind_token, unary_recast, r.result_mapError]

theorem binary_relabel (operator : Token) (left right : Value) :
    ((left.relabel r).binary (r.token operator).kind (right.relabel r)).mapError
        (r.token operator).fault =
      r.result ((left.binary operator.kind right).mapError operator.fault) := by
  rw [relabel_eq_recast, relabel_eq_recast, r.kind_token, binary_recast, r.result_mapError]

end Value

/-! ## The store -/

/-- Variables or fields whose values have other labels. -/
def Bindings.relabel (bindings : Bindings) : Bindings :=
  bindings.map (Prod.map id (Value.relabel r))

theorem Bindings.relabel_eq : Bindings.relabel r = Bindings.recast r.recasting id := by
  funext bindings
  rw [relabel, recast, Value.relabel_eq]

theorem Bindings.ofList_relabel (entries : List (String × Value)) :
    ofList (Bindings.relabel r entries) = (ofList entries).relabel r := by
  rw [relabel_eq]
  exact ofList_recast Function.injective_id entries

namespace Store

/-- A store whose values have other labels. -/
def relabel (store : Store) : Store where
  scopes := store.scopes.map (Bindings.relabel r)
  objects := store.objects.map (Bindings.relabel r)
  identities := store.identities

theorem relabel_eq_recast (store : Store) : store.relabel r = store.recast r.recasting := by
  have hscopes : store.scopes.map (Bindings.recast r.recasting id) =
      store.scopes.mapIdx fun _ bindings => bindings.recast r.recasting id := by
    apply Array.ext
    · simp
    · simp
  rw [relabel, Bindings.relabel_eq, hscopes]
  rfl

theorem relabel_initial : initial.relabel r = initial := by
  simp [initial, relabel, Bindings.relabel, Value.relabel]

theorem newScope_relabel (store : Store) (bindings : Bindings) :
    (store.relabel r).newScope (bindings.relabel r) =
      ((store.newScope bindings).1.relabel r, (store.newScope bindings).2) := by
  simp only [relabel_eq_recast, Bindings.relabel_eq]
  exact store.newScope_recast r.recasting bindings

theorem setField_relabel (store : Store) (object : Nat) (name : String) (value : Value) :
    (store.relabel r).setField object name (value.relabel r) =
      (store.setField object name value).relabel r := by
  simp only [relabel_eq_recast, Value.relabel_eq]
  exact store.setField_recast r.recasting object name value

theorem binding?_relabel (store : Store) (scope : ScopeId) (name : String) :
    (store.relabel r).binding? scope name = (store.binding? scope name).map (Value.relabel r) := by
  rw [relabel_eq_recast, Value.relabel_eq]
  exact store.binding?_recast r.recasting scope name

theorem field?_relabel (store : Store) (object : Nat) (name : String) :
    (store.relabel r).field? object name = (store.field? object name).map (Value.relabel r) := by
  rw [relabel_eq_recast, Value.relabel_eq]
  exact store.field?_recast r.recasting object name

theorem owner?_relabel (store : Store) (env : Env) (name : String) :
    (store.relabel r).owner? env name = store.owner? env name := by
  simp only [owner?, binding?_relabel, Option.isSome_map]

theorem get?_relabel (store : Store) (env : Env) (name : String) :
    (store.relabel r).get? env name = (store.get? env name).map (Value.relabel r) := by
  simp only [get?, binding?_relabel, List.map_findSome?]
  rfl

theorem getAt?_relabel (store : Store) (env : Env) (distance : Nat) (name : String) :
    (store.relabel r).getAt? env distance name =
      (store.getAt? env distance name).map (Value.relabel r) := by
  simp only [getAt?, binding?_relabel, Option.map_bind]
  rfl

theorem read_relabel (store : Store) (env : Env) (name : Token) :
    (store.relabel r).read env (r.token name) = r.result (store.read env name) := by
  have hget := store.get?_relabel r env name.lexeme
  rw [read, read, r.lexeme_token, hget]
  cases store.get? env name.lexeme <;> rfl

theorem readAt_relabel (store : Store) (env : Env) (distance : Nat) (name : Token) :
    (store.relabel r).readAt env distance (r.token name) =
      r.result (store.readAt env distance name) := by
  have hget := store.getAt?_relabel r env distance name.lexeme
  rw [readAt, readAt, r.lexeme_token, hget]
  cases store.getAt? env distance name.lexeme <;> rfl

theorem owner_relabel (store : Store) (env : Env) (name : Token) :
    (store.relabel r).owner env (r.token name) =
      (store.owner env name).mapError (RuntimeFault.mapLine r.lines) := by
  have howner := store.owner?_relabel r env name.lexeme
  rw [owner, owner, r.lexeme_token, howner]
  cases store.owner? env name.lexeme <;> rfl

theorem ownerAt_relabel (env : Env) (distance : Nat) (name : Token) :
    ownerAt env distance (r.token name) =
      (ownerAt env distance name).mapError (RuntimeFault.mapLine r.lines) := by
  rw [ownerAt, ownerAt]
  split <;> rfl

end Store

end

/-! ## The world -/

namespace World

/-- A world whose values have other labels and which has other distances on record. -/
def relabel (r : Relabeling) (recorded : Distances) (world : World) : World :=
  { world with store := world.store.relabel r, distances := recorded }

section

variable (r : Relabeling) (recorded : Distances) (world : World)

theorem relabel_eq_recast :
    world.relabel r recorded = world.recast r.recasting fun _ => recorded := by
  rw [relabel, Store.relabel_eq_recast]
  rfl

theorem set_relabel (scope : ScopeId) (name : String) (value : Value) :
    (world.relabel r recorded).set scope name (value.relabel r) =
      (world.set scope name value).relabel r recorded := by
  rw [relabel_eq_recast, relabel_eq_recast, Value.relabel_eq_recast]
  exact world.set_recast r.recasting _ rfl value

theorem define_relabel (env : Env) (name : String) (value : Value) :
    (world.relabel r recorded).define env name (value.relabel r) =
      (world.define env name value).relabel r recorded := by
  rw [relabel_eq_recast, relabel_eq_recast, Value.relabel_eq_recast]
  exact world.define_recast r.recasting _ (fun _ _ => rfl) value

theorem close_relabel (env : Env) (declaration : FunctionDecl) (isInitializer : Bool) :
    (world.relabel r recorded).close env (declaration.relabel r) isInitializer =
      ((world.close env declaration isInitializer).1.relabel r recorded,
        (world.close env declaration isInitializer).2.relabel r) :=
  rfl

theorem construct_relabel (ownClass : Class) :
    (world.relabel r recorded).construct (ownClass.relabel r) =
      ((world.construct ownClass).1.relabel r recorded,
        (world.construct ownClass).2.relabel r) := by
  rw [relabel_eq_recast, relabel_eq_recast, Class.relabel_eq_recast, Instance.relabel_eq_recast]
  exact world.construct_recast r.recasting _ ownClass

theorem bind_relabel (method : Closure) (object : Instance) :
    (world.relabel r recorded).bind (method.relabel r) (object.relabel r) =
      ((world.bind method object).1.relabel r recorded,
        (world.bind method object).2.relabel r) := by
  rw [relabel_eq_recast, relabel_eq_recast, Instance.relabel_eq_recast]
  exact world.bind_recast r.recasting _ method object

theorem makeClass_relabel (env : Env) (name : String) (superclass : Option Class)
    (methods : List FunctionDecl) :
    (world.relabel r recorded).makeClass env name (superclass.map (Class.relabel r))
        (methods.map (FunctionDecl.relabel r)) =
      ((world.makeClass env name superclass methods).1.relabel r recorded,
        (world.makeClass env name superclass methods).2.relabel r) := by
  rw [relabel_eq_recast, relabel_eq_recast, Class.relabel_eq]
  exact world.makeClass_recast r.recasting _ env name superclass methods

theorem print_relabel (value : Value) :
    (world.relabel r recorded).print (value.relabel r) =
      ((world.print value).1.relabel r recorded, (world.print value).2) := by
  rw [relabel_eq_recast, relabel_eq_recast, Value.relabel_eq_recast]
  exact world.print_recast r.recasting _ value

theorem property_relabel (object : Instance) (name : Token) :
    (world.relabel r recorded).property (object.relabel r) (r.token name) =
      ((world.property object name).1.relabel r recorded,
        r.result (world.property object name).2) := by
  have hfield : (world.relabel r recorded).store.field? (object.relabel r).identity
      (r.token name).lexeme = _ := world.store.field?_relabel r object.identity name.lexeme
  have hmethod : (object.relabel r).ownClass.findMethod? (r.token name).lexeme = _ :=
    object.ownClass.findMethod?_relabel r name.lexeme
  rw [property, property, hfield, hmethod]
  cases world.store.field? object.identity name.lexeme with
  | some value => rfl
  | none =>
      cases object.ownClass.findMethod? name.lexeme with
      | none => rfl
      | some method =>
          simp only [Option.map_none, Option.map_some, bind_relabel]
          rfl

variable {r} {recorded} {world}

theorem read_relabel (h : r.Agrees world.distances recorded) (env : Env)
    (occurrence : Occurrence) :
    (world.relabel r recorded).read env (r.occurrence occurrence) =
      r.result (world.read env occurrence) := by
  have hdistance : (world.relabel r recorded).distances[(r.occurrence occurrence).id]? =
      world.distances[occurrence.id]? := h occurrence.id
  rw [read, read, hdistance]
  cases world.distances[occurrence.id]? with
  | none => exact world.store.read_relabel r Store.globalEnv occurrence.name
  | some distance => exact world.store.readAt_relabel r env distance occurrence.name

theorem target_relabel (h : r.Agrees world.distances recorded) (env : Env)
    (occurrence : Occurrence) :
    (world.relabel r recorded).target env (r.occurrence occurrence) =
      (world.target env occurrence).mapError (RuntimeFault.mapLine r.lines) := by
  have hdistance : (world.relabel r recorded).distances[(r.occurrence occurrence).id]? =
      world.distances[occurrence.id]? := h occurrence.id
  rw [target, target, hdistance]
  cases world.distances[occurrence.id]? with
  | none => exact world.store.owner_relabel r Store.globalEnv occurrence.name
  | some distance => exact Store.ownerAt_relabel r env distance occurrence.name

theorem superMethod_relabel (h : r.Agrees world.distances recorded) (env : Env)
    (occurrence : Occurrence) (method : Token) :
    (world.relabel r recorded).superMethod env (r.occurrence occurrence) (r.token method) =
      ((world.superMethod env occurrence method).1.relabel r recorded,
        r.result (world.superMethod env occurrence method).2) := by
  have hdistance : (world.relabel r recorded).distances[(r.occurrence occurrence).id]? =
      world.distances[occurrence.id]? := h occurrence.id
  rw [superMethod, superMethod, hdistance]
  cases world.distances[occurrence.id]? with
  | none => rfl
  | some distance =>
      have hget (distance : Nat) (name : String) :
          (world.relabel r recorded).store.getAt? env distance name = _ :=
        world.store.getAt?_relabel r env distance name
      have hlexeme : (r.occurrence occurrence).name.lexeme = occurrence.name.lexeme := rfl
      dsimp only
      rw [hget, hget, hlexeme]
      cases world.store.getAt? env distance occurrence.name.lexeme with
      | none => rfl
      | some bound =>
          cases world.store.getAt? env (distance - 1) thisName with
          | none => cases bound <;> rfl
          | some self =>
              cases bound with
              | classValue superclass =>
                  cases self with
                  | object object =>
                      have hmethod : (superclass.relabel r).findMethod? (r.token method).lexeme =
                          _ := superclass.findMethod?_relabel r method.lexeme
                      simp only [Option.map_some, Value.relabel, hmethod]
                      cases superclass.findMethod? method.lexeme with
                      | none => rfl
                      | some found =>
                          simp only [Option.map_some, bind_relabel]
                          rfl
                  | _ => rfl
              | _ => cases self <;> rfl

end

end World

end LoxLang
