import LoxLang.Machine.Step
import LoxLang.Proofs.Tree.Respelling

/-!
# Values, stores and worlds recast

A store in which functions have other declarations and variables other names.  The declarations have
the same names and as many parameters, and variables of the same scope keep different names.  Then
no operation on values tells the difference, and every variable is found under its other name.
-/

namespace LoxLang

/-- Other declarations for functions, and other names for the variables of each scope.  The words
that classes bind stay. -/
structure Recasting where
  declaration : FunctionDecl → FunctionDecl
  nameIn : ScopeId → String → String
  name_declaration : ∀ function, (declaration function).name.lexeme = function.name.lexeme
  length_params : ∀ function, (declaration function).params.length = function.params.length
  injective : ∀ scope, Function.Injective (nameIn scope)
  this : ∀ scope, nameIn scope thisName = thisName
  super : ∀ scope, nameIn scope superName = superName

/-! ## Values -/

def Closure.recast (r : Recasting) (closure : Closure) : Closure :=
  { closure with declaration := r.declaration closure.declaration }

def Class.recast (r : Recasting) : Class → Class
  | ⟨identity, name, none, methods⟩ =>
      ⟨identity, name, none, methods.map (Prod.map id (Closure.recast r))⟩
  | ⟨identity, name, some superclass, methods⟩ =>
      ⟨identity, name, some (superclass.recast r), methods.map (Prod.map id (Closure.recast r))⟩

def Instance.recast (r : Recasting) (object : Instance) : Instance :=
  { object with ownClass := object.ownClass.recast r }

/-- A value in which functions have other declarations. -/
def Value.recast (r : Recasting) : Value → Value
  | function closure => function (closure.recast r)
  | classValue ownClass => classValue (ownClass.recast r)
  | object made => object (made.recast r)
  | value => value

variable (r : Recasting)

theorem Closure.name_recast (closure : Closure) : (closure.recast r).name = closure.name :=
  r.name_declaration closure.declaration

theorem Closure.arity_recast (closure : Closure) : (closure.recast r).arity = closure.arity :=
  r.length_params closure.declaration

namespace Class

theorem recast_mk (identity : Nat) (name : String) (superclass : Option Class)
    (methods : List (String × Closure)) :
    Class.recast r ⟨identity, name, superclass, methods⟩ =
      ⟨identity, name, superclass.map (Class.recast r),
        methods.map (Prod.map id (Closure.recast r))⟩ := by
  cases superclass <;> rfl

theorem name_recast (ownClass : Class) : (ownClass.recast r).name = ownClass.name := by
  obtain ⟨identity, name, superclass, methods⟩ := ownClass
  rw [recast_mk]

theorem identity_recast (ownClass : Class) : (ownClass.recast r).identity = ownClass.identity := by
  obtain ⟨identity, name, superclass, methods⟩ := ownClass
  rw [recast_mk]

theorem findMethod?_recast (name : String) : (ownClass : Class) →
    (ownClass.recast r).findMethod? name = (ownClass.findMethod? name).map (Closure.recast r)
  | ⟨_, _, none, methods⟩ =>
      lookup_map_of_injective Function.injective_id (Closure.recast r) methods name
  | ⟨_, _, some superclass, methods⟩ => by
      have hown : (methods.map (Prod.map id (Closure.recast r))).lookup name = _ :=
        lookup_map_of_injective Function.injective_id (Closure.recast r) methods name
      rw [recast, findMethod?, findMethod?, hown]
      cases methods.lookup name with
      | none => exact superclass.findMethod?_recast name
      | some method => rfl

theorem initializer?_recast (ownClass : Class) :
    (ownClass.recast r).initializer? = ownClass.initializer?.map (Closure.recast r) :=
  ownClass.findMethod?_recast r _

theorem arity_recast (ownClass : Class) : (ownClass.recast r).arity = ownClass.arity := by
  rw [arity, arity, initializer?_recast, Option.map_map]
  congr 2
  funext closure
  exact closure.arity_recast r

end Class

namespace Value

theorem text_recast (value : Value) : (value.recast r).text = value.text := by
  cases value with
  | function closure => rw [recast, text, text, closure.name_recast]
  | classValue ownClass => rw [recast, text, text, ownClass.name_recast]
  | object made => rw [recast, text, text, Instance.recast, Class.name_recast]
  | _ => rfl

theorem arity?_recast (value : Value) : (value.recast r).arity? = value.arity? := by
  cases value with
  | function closure => exact congrArg some (closure.arity_recast r)
  | classValue ownClass => exact congrArg some (ownClass.arity_recast r)
  | _ => rfl

theorem isTruthy_recast (value : Value) : (value.recast r).isTruthy = value.isTruthy := by
  cases value <;> rfl

theorem decides_recast (operator : Kind) (value : Value) :
    (value.recast r).decides operator = value.decides operator := by
  rw [decides, decides, isTruthy_recast]

theorem recast_ofLiteral (value : Literal) : (ofLiteral value).recast r = ofLiteral value := by
  cases value <;> rfl

theorem equals_recast (left right : Value) :
    (left.recast r).equals (right.recast r) = left.equals right := by
  cases left with
  | classValue left =>
      cases right with
      | classValue right => simp only [recast, equals, Class.identity_recast]
      | _ => rfl
  | _ => cases right <;> rfl

theorem unary_recast (operator : Kind) (operand : Value) :
    (operand.recast r).unary operator = (operand.unary operator).map (recast r) := by
  unfold unary
  split
  · rw [isTruthy_recast]
    rfl
  · cases operand <;> rfl
  · rfl

theorem arithmetic_recast (operator : Kind) (left right : Float) :
    (arithmetic operator left right).map (recast r) = arithmetic operator left right := by
  unfold arithmetic
  split <;> rfl

theorem binary_recast (operator : Kind) (left right : Value) :
    (left.recast r).binary operator (right.recast r) =
      (left.binary operator right).map (recast r) := by
  unfold binary
  split
  · rw [equals_recast]
    rfl
  · rw [equals_recast]
    rfl
  · cases left <;> cases right <;> rfl
  · cases left with
    | number left =>
        cases right with
        | number right => exact (arithmetic_recast r operator left right).symm
        | _ => rfl
    | _ => rfl

end Value

/-! ## Variables and fields -/

/-- Names with other values, under other names. -/
def Bindings.recast (rename : String → String) (bindings : Bindings) : Bindings :=
  bindings.map (Prod.map rename (Value.recast r))

namespace Bindings

variable {r} {rename : String → String} (h : Function.Injective rename)

include h

theorem get?_recast (bindings : Bindings) (name : String) :
    (bindings.recast r rename).get? (rename name) = (bindings.get? name).map (Value.recast r) :=
  lookup_map_of_injective h (Value.recast r) bindings name

theorem set_recast (bindings : Bindings) (name : String) (value : Value) :
    (bindings.recast r rename).set (rename name) (value.recast r) =
      (bindings.set name value).recast r rename := by
  induction bindings with
  | nil => rfl
  | cons entry rest ih =>
      obtain ⟨key, old⟩ := entry
      show Bindings.set ((rename key, old.recast r) :: Bindings.recast r rename rest) _ _ = _
      rw [set, set, ih]
      by_cases hkey : key = name
      · rw [if_pos hkey, if_pos (congrArg rename hkey)]
        rfl
      · rw [if_neg hkey, if_neg (h.ne hkey)]
        rfl

theorem ofList_recast (entries : List (String × Value)) :
    ofList (Bindings.recast r rename entries) = (ofList entries).recast r rename := by
  have hfoldl (start : Bindings) :
      (Bindings.recast r rename entries).foldl (fun bindings entry => bindings.set entry.1 entry.2)
          (start.recast r rename) =
        (entries.foldl (fun bindings entry => bindings.set entry.1 entry.2) start).recast r
          rename := by
    induction entries generalizing start with
    | nil => rfl
    | cons entry rest ih =>
        show (Bindings.recast r rename rest).foldl _ ((start.recast r rename).set (rename entry.1)
          (entry.2.recast r)) = _
        rw [set_recast h, ih]
        rfl
  exact hfoldl []

end Bindings

namespace Store

/-- A store whose variables have other names and whose values are others.  Fields keep theirs. -/
def recast (store : Store) : Store where
  scopes := store.scopes.mapIdx fun scope bindings => bindings.recast r (r.nameIn scope)
  objects := store.objects.map (Bindings.recast r id)
  identities := store.identities

variable (store : Store)

theorem size_recast : (store.recast r).scopes.size = store.scopes.size :=
  Array.size_mapIdx

theorem newScope_recast (bindings : Bindings) :
    (store.recast r).newScope (bindings.recast r (r.nameIn store.scopes.size)) =
      ((store.newScope bindings).1.recast r, (store.newScope bindings).2) := by
  simp [newScope, recast, Array.mapIdx_push]

theorem newObject_recast :
    (store.recast r).newObject = (store.newObject.1.recast r, store.newObject.2) := by
  simp [newObject, recast, Bindings.recast]

theorem define_recast (scope : ScopeId) (name : String) (value : Value) :
    (store.recast r).define scope (r.nameIn scope name) (value.recast r) =
      (store.define scope name value).recast r := by
  have hscopes : (store.recast r).scopes.modify scope
      (·.set (r.nameIn scope name) (value.recast r)) =
      ((store.scopes.modify scope (·.set name value)).mapIdx fun other bindings =>
        bindings.recast r (r.nameIn other)) := by
    apply Array.ext
    · simp [recast]
    · intro other hother hother'
      simp only [recast, Array.getElem_modify, Array.getElem_mapIdx]
      split
      · next heq =>
          subst heq
          exact Bindings.set_recast (r.injective scope) _ name value
      · rfl
  rw [define, define, hscopes]
  rfl

theorem setField_recast (object : Nat) (name : String) (value : Value) :
    (store.recast r).setField object name (value.recast r) =
      (store.setField object name value).recast r := by
  have hobjects : (store.recast r).objects.modify object (·.set name (value.recast r)) =
      (store.objects.modify object (·.set name value)).map (Bindings.recast r id) := by
    apply Array.ext
    · simp [recast]
    · intro other hother hother'
      simp only [recast, Array.getElem_modify, Array.getElem_map]
      split
      · exact Bindings.set_recast Function.injective_id _ name value
      · rfl
  rw [setField, setField, hobjects]
  rfl

theorem binding?_recast (scope : ScopeId) (name : String) :
    (store.recast r).binding? scope (r.nameIn scope name) =
      (store.binding? scope name).map (Value.recast r) := by
  simp only [binding?, recast, Array.getElem?_mapIdx]
  cases store.scopes[scope]? with
  | none => rfl
  | some bindings => exact bindings.get?_recast (r.injective scope) name

theorem field?_recast (object : Nat) (name : String) :
    (store.recast r).field? object name = (store.field? object name).map (Value.recast r) := by
  simp only [field?, recast, Array.getElem?_map]
  cases store.objects[object]? with
  | none => rfl
  | some bindings => exact bindings.get?_recast Function.injective_id name

/-- A variable is found at the same distance under the name that it has in its scope. -/
theorem getAt?_recast {env : Env} {distance : Nat} {name other : String}
    (h : ∀ scope, env[distance]? = some scope → other = r.nameIn scope name) :
    (store.recast r).getAt? env distance other =
      (store.getAt? env distance name).map (Value.recast r) := by
  rw [getAt?, getAt?]
  cases hscope : env[distance]? with
  | none => rfl
  | some scope =>
      rw [h scope hscope]
      exact store.binding?_recast r scope name

end Store

/-! ## Worlds -/

namespace World

/-- A world in which functions have other declarations and variables other names, and in which other
distances may be on record. -/
def recast (r : Recasting) (change : Distances → Distances) (world : World) : World :=
  { world with store := world.store.recast r, distances := change world.distances }

variable (change : Distances → Distances) (world : World)

theorem set_recast {scope : ScopeId} {name other : String} (h : other = r.nameIn scope name)
    (value : Value) :
    (world.recast r change).set scope other (value.recast r) =
      (world.set scope name value).recast r change := by
  rw [h]
  exact congrArg (withStore _) (world.store.define_recast r scope name value)

theorem define_recast {env : Env} {name other : String}
    (h : ∀ scope, env.head? = some scope → other = r.nameIn scope name) (value : Value) :
    (world.recast r change).define env other (value.recast r) =
      (world.define env name value).recast r change := by
  cases env with
  | nil => rfl
  | cons scope outer => exact world.set_recast r change (h scope rfl) value

theorem close_recast (env : Env) (declaration : FunctionDecl) (isInitializer : Bool) :
    (world.recast r change).close env (r.declaration declaration) isInitializer =
      ((world.close env declaration isInitializer).1.recast r change,
        (world.close env declaration isInitializer).2.recast r) :=
  rfl

theorem construct_recast (ownClass : Class) :
    (world.recast r change).construct (ownClass.recast r) =
      ((world.construct ownClass).1.recast r change, (world.construct ownClass).2.recast r) := by
  have hobject : (world.recast r change).store.newObject = _ := world.store.newObject_recast r
  rw [construct, hobject]
  rfl

/-- A scope for one name that is the same in all scopes. -/
theorem newScope_recast_singleton {name : String} (hname : ∀ scope, r.nameIn scope name = name)
    (value : Value) :
    (world.recast r change).store.newScope [(name, value.recast r)] =
      ((world.store.newScope [(name, value)]).1.recast r,
        (world.store.newScope [(name, value)]).2) := by
  have hscope := world.store.newScope_recast r [(name, value)]
  rw [Bindings.recast, List.map_singleton, Prod.map_apply, hname] at hscope
  exact hscope

theorem bind_recast (method : Closure) (object : Instance) :
    (world.recast r change).bind (method.recast r) (object.recast r) =
      ((world.bind method object).1.recast r change, (world.bind method object).2.recast r) := by
  have hscope :
      (world.recast r change).store.newScope [(thisName, .object (object.recast r))] = _ :=
    world.newScope_recast_singleton r change r.this (.object object)
  rw [bind, hscope]
  rfl

theorem closeAll_recast (env : Env) (methods : List FunctionDecl) :
    (world.recast r change).closeAll env (methods.map r.declaration) =
      ((world.closeAll env methods).1.recast r change,
        (world.closeAll env methods).2.map (Prod.map id (Closure.recast r))) := by
  induction methods generalizing world with
  | nil => rfl
  | cons method rest ih =>
      have hinitializer : (r.declaration method).isInitializer = method.isInitializer := by
        rw [FunctionDecl.isInitializer, FunctionDecl.isInitializer, r.name_declaration]
      rw [List.map_cons, closeAll, hinitializer, close_recast, r.name_declaration]
      dsimp only
      rw [ih]
      rfl

theorem makeClass_recast (env : Env) (name : String) (superclass : Option Class)
    (methods : List FunctionDecl) :
    (world.recast r change).makeClass env name (superclass.map (Class.recast r))
        (methods.map r.declaration) =
      ((world.makeClass env name superclass methods).1.recast r change,
        (world.makeClass env name superclass methods).2.recast r) := by
  cases superclass with
  | none =>
      rw [makeClass.eq_def, makeClass.eq_def, Option.map_none]
      dsimp only
      rw [closeAll_recast, Class.recast_mk, List.map_reverse]
      rfl
  | some superclass =>
      let opened := world.store.newScope [(superName, .classValue superclass)]
      have hscope : (world.recast r change).store.newScope
          [(superName, .classValue (superclass.recast r))] = (opened.1.recast r, opened.2) :=
        world.newScope_recast_singleton r change r.super (.classValue superclass)
      have hclosures : ((world.recast r change).withStore (opened.1.recast r)).closeAll
          (opened.2 :: env) (methods.map r.declaration) = _ :=
        closeAll_recast r change (world.withStore opened.1) (opened.2 :: env) methods
      rw [makeClass.eq_def, makeClass.eq_def, Option.map_some]
      dsimp only
      rw [hscope, Class.recast_mk, List.map_reverse]
      dsimp only
      rw [hclosures]
      rfl

theorem print_recast (value : Value) :
    (world.recast r change).print (value.recast r) =
      ((world.print value).1.recast r change, (world.print value).2) := by
  rw [print, print, value.text_recast]
  rfl

end World

end LoxLang
