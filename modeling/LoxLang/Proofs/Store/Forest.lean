import Mathlib.Data.Nat.Find
import LoxLang.Store

/-!
# Scopes as a forest

Environments that are made one inside the other share the scopes around them.  What their operations
do is said here of a forest: each scope has at most one scope around it, and a name has in a scope
the value that was last written there (`Forest.Step`).  The store, with environments as lists of
scopes, does the same for every history of operations (`Environments.refines_forest`).  In
particular the way that looks for a name and the way that counts scopes lead to the same variable if
the count is that of the nearest scope with the name.
-/

namespace LoxLang

/-! ## The forest -/

/-- The scopes that have been made, each under the number of its environment. -/
structure Forest where
  /-- For each scope the one around it, if there is one. -/
  parents : List (Option Nat)
  /-- What has been written into which scope under which name, the latest first. -/
  written : List ((Nat × String) × Value)

namespace Forest

/-- A forest without scopes. -/
def empty : Forest := ⟨[], []⟩

/-- How many scopes there are. -/
def size (forest : Forest) : Nat :=
  forest.parents.length

/-- The value that was last written into a scope under a name. -/
def latest? (forest : Forest) (scope : Nat) (name : String) : Option Value :=
  forest.written.lookup (scope, name)

/-- The forest with a new scope. -/
def grow (forest : Forest) (parent : Option Nat) : Forest :=
  { forest with parents := forest.parents ++ [parent] }

/-- The forest with a value written into a scope under a name. -/
def write (forest : Forest) (scope : Nat) (name : String) (value : Value) : Forest :=
  { forest with written := ((scope, name), value) :: forest.written }

/-- One scope lies a number of scopes outward from another one. -/
inductive Outward (forest : Forest) : Nat → Nat → Nat → Prop
  | here {scope : Nat} : scope < forest.size → Outward forest scope 0 scope
  | further {scope parent outer distance : Nat} :
      forest.parents[scope]? = some (some parent) → Outward forest parent distance outer →
      Outward forest scope (distance + 1) outer

theorem Outward.lt {forest : Forest} {scope distance outer : Nat}
    (h : forest.Outward scope distance outer) : scope < forest.size ∧ outer < forest.size := by
  induction h with
  | here hlt => exact ⟨hlt, hlt⟩
  | further hparent _ ih => exact ⟨(List.getElem?_eq_some_iff.1 hparent).1, ih.2⟩

/-- There is one scope at each distance. -/
theorem Outward.unique {forest : Forest} {scope distance first second : Nat}
    (h : forest.Outward scope distance first) (h' : forest.Outward scope distance second) :
    first = second := by
  induction h with
  | here _ =>
      cases h'
      rfl
  | further hparent _ ih =>
      cases h' with
      | further hparent' houter =>
          rw [hparent] at hparent'
          cases hparent'
          exact ih houter

/-- The nearest scope outward from an environment in which a name has a value. -/
structure Nearest (forest : Forest) (environment : Nat) (name : String) (distance scope : Nat) :
    Prop where
  outward : forest.Outward environment distance scope
  bound : (forest.latest? scope name).isSome
  least : ∀ nearer < distance, ∀ inner, forest.Outward environment nearer inner →
    forest.latest? inner name = none

/-- A name has a nearest scope, or no scope outward from the environment has it. -/
theorem nearest_or_unbound (forest : Forest) (environment : Nat) (name : String) :
    (∃ distance scope, forest.Nearest environment name distance scope) ∨
      ∀ distance scope, forest.Outward environment distance scope →
        forest.latest? scope name = none := by
  classical
  by_cases hbound : ∃ distance scope, forest.Outward environment distance scope ∧
      (forest.latest? scope name).isSome
  · obtain ⟨scope, houtward, hsome⟩ := Nat.find_spec hbound
    refine .inl ⟨Nat.find hbound, scope, houtward, hsome, ?_⟩
    intro nearer hnearer inner hinner
    rw [← Option.not_isSome_iff_eq_none]
    exact fun hsome => Nat.find_min hbound hnearer ⟨inner, hinner, hsome⟩
  · refine .inr fun distance scope houtward => ?_
    rw [← Option.not_isSome_iff_eq_none]
    exact fun hsome => hbound ⟨distance, scope, houtward, hsome⟩

namespace Nearest

variable {forest : Forest} {environment distance distance' scope scope' : Nat} {name : String}

theorem unique (h : forest.Nearest environment name distance scope)
    (h' : forest.Nearest environment name distance' scope') :
    distance = distance' ∧ scope = scope' := by
  rcases Nat.lt_trichotomy distance distance' with hlt | rfl | hgt
  · have hbound := h.bound
    rw [h'.least distance hlt scope h.outward] at hbound
    cases hbound
  · exact ⟨rfl, h.outward.unique h'.outward⟩
  · have hbound := h'.bound
    rw [h.least distance' hgt scope' h'.outward] at hbound
    cases hbound

theorem not_unbound (h : forest.Nearest environment name distance scope)
    (hnone : ∀ distance scope, forest.Outward environment distance scope →
      forest.latest? scope name = none) : False := by
  have hbound := h.bound
  rw [hnone distance scope h.outward] at hbound
  cases hbound

end Nearest

theorem latest?_write (forest : Forest) (scope other : Nat) (name key : String) (value : Value) :
    (forest.write scope name value).latest? other key =
      if other = scope ∧ key = name then some value else forest.latest? other key := by
  rw [latest?, write, List.lookup_cons]
  by_cases h : other = scope ∧ key = name
  · obtain ⟨rfl, rfl⟩ := h
    rw [beq_self_eq_true, if_pos ⟨rfl, rfl⟩]
  · have hne : (other, key) ≠ (scope, name) := fun heq => h (Prod.mk.inj heq)
    rw [beq_eq_false_iff_ne.2 hne, if_neg h]
    rfl

end Forest

/-! ## Operations -/

/-- What can be done with environments. -/
inductive Operation where
  /-- Makes an environment with nothing around it. -/
  | root
  /-- Makes an environment inside another one. -/
  | child (environment : Nat)
  | define (environment : Nat) (name : String) (value : Value)
  | get (environment : Nat) (name : Token)
  | assign (environment : Nat) (name : Token) (value : Value)
  | getAt (environment distance : Nat) (name : Token)
  | assignAt (environment distance : Nat) (name : Token) (value : Value)

/-- What an operation answers. -/
inductive Answer where
  | made (environment : Nat)
  | done
  | value (value : Value)
  | failed (fault : RuntimeFault)

namespace Operation

/-- The environment with which something is done. -/
def environment? : Operation → Option Nat
  | root => none
  | child environment => some environment
  | define environment _ _ => some environment
  | get environment _ => some environment
  | assign environment _ _ => some environment
  | getAt environment _ _ => some environment
  | assignAt environment _ _ _ => some environment

/-- How many environments an operation makes. -/
def makes : Operation → Nat
  | root => 1
  | child _ => 1
  | _ => 0

/-- An operation on an environment that there is, if there are `size` of them. -/
def Targets (size : Nat) (operation : Operation) : Prop :=
  ∀ environment ∈ operation.environment?, environment < size

/-- Operations one after the other, each on an environment that there is by then. -/
def Legal : (size : Nat) → List Operation → Prop
  | _, [] => True
  | size, operation :: rest => operation.Targets size ∧ Legal (size + operation.makes) rest

end Operation

/-- What an operation answers in a forest, and the forest behind it. -/
inductive Forest.Step (forest : Forest) : Operation → Answer → Forest → Prop
  | root : Step forest .root (.made forest.size) (forest.grow none)
  | child {environment : Nat} : environment < forest.size →
      Step forest (.child environment) (.made forest.size) (forest.grow (some environment))
  | define {environment : Nat} {name : String} {value : Value} : environment < forest.size →
      Step forest (.define environment name value) .done (forest.write environment name value)
  | get {environment distance scope : Nat} {name : Token} {value : Value} :
      forest.Nearest environment name.lexeme distance scope →
      forest.latest? scope name.lexeme = some value →
      Step forest (.get environment name) (.value value) forest
  | getUnbound {environment : Nat} {name : Token} : environment < forest.size →
      (∀ distance scope, forest.Outward environment distance scope →
        forest.latest? scope name.lexeme = none) →
      Step forest (.get environment name) (.failed name.undefined) forest
  | assign {environment distance scope : Nat} {name : Token} {value : Value} :
      forest.Nearest environment name.lexeme distance scope →
      Step forest (.assign environment name value) .done (forest.write scope name.lexeme value)
  | assignUnbound {environment : Nat} {name : Token} {value : Value} :
      environment < forest.size →
      (∀ distance scope, forest.Outward environment distance scope →
        forest.latest? scope name.lexeme = none) →
      Step forest (.assign environment name value) (.failed name.undefined) forest
  | getAt {environment distance scope : Nat} {name : Token} {value : Value} :
      forest.Outward environment distance scope →
      forest.latest? scope name.lexeme = some value →
      Step forest (.getAt environment distance name) (.value value) forest
  | getAtUnbound {environment distance : Nat} {name : Token} : environment < forest.size →
      (∀ scope, forest.Outward environment distance scope →
        forest.latest? scope name.lexeme = none) →
      Step forest (.getAt environment distance name) (.failed name.undefined) forest
  | assignAt {environment distance scope : Nat} {name : Token} {value : Value} :
      forest.Outward environment distance scope →
      Step forest (.assignAt environment distance name value) .done
        (forest.write scope name.lexeme value)
  | assignAtBeyond {environment distance : Nat} {name : Token} {value : Value} :
      environment < forest.size → (∀ scope, ¬forest.Outward environment distance scope) →
      Step forest (.assignAt environment distance name value) (.failed name.undefined) forest

theorem Forest.Step.size_eq {forest next : Forest} {operation : Operation} {answer : Answer}
    (h : forest.Step operation answer next) : next.size = forest.size + operation.makes := by
  cases h with
  | root => exact List.length_append
  | child _ => exact List.length_append
  | _ => rfl

/-- A forest leaves no choice of an answer. -/
theorem Forest.Step.answer_unique {forest next next' : Forest} {operation : Operation}
    {answer answer' : Answer} (h : forest.Step operation answer next)
    (h' : forest.Step operation answer' next') : answer = answer' := by
  cases h with
  | root =>
      cases h'
      rfl
  | child _ =>
      cases h'
      rfl
  | define _ =>
      cases h'
      rfl
  | get hnearest hvalue =>
      cases h' with
      | get hnearest' hvalue' =>
          obtain rfl := (hnearest.unique hnearest').2
          rw [hvalue] at hvalue'
          exact congrArg Answer.value (Option.some.inj hvalue')
      | getUnbound _ hnone => exact (hnearest.not_unbound hnone).elim
  | getUnbound _ hnone =>
      cases h' with
      | get hnearest' _ => exact (hnearest'.not_unbound hnone).elim
      | getUnbound _ _ => rfl
  | assign hnearest =>
      cases h' with
      | assign _ => rfl
      | assignUnbound _ hnone => exact (hnearest.not_unbound hnone).elim
  | assignUnbound _ hnone =>
      cases h' with
      | assign hnearest' => exact (hnearest'.not_unbound hnone).elim
      | assignUnbound _ _ => rfl
  | getAt houtward hvalue =>
      cases h' with
      | getAt houtward' hvalue' =>
          obtain rfl := houtward.unique houtward'
          rw [hvalue] at hvalue'
          exact congrArg Answer.value (Option.some.inj hvalue')
      | getAtUnbound _ hnone =>
          rw [hnone _ houtward] at hvalue
          cases hvalue
  | getAtUnbound _ hnone =>
      cases h' with
      | getAt houtward' hvalue' =>
          rw [hnone _ houtward'] at hvalue'
          cases hvalue'
      | getAtUnbound _ _ => rfl
  | assignAt houtward =>
      cases h' with
      | assignAt _ => rfl
      | assignAtBeyond _ hbeyond => exact (hbeyond _ houtward).elim
  | assignAtBeyond _ hbeyond =>
      cases h' with
      | assignAt houtward' => exact (hbeyond _ houtward').elim
      | assignAtBeyond _ _ => rfl

/-- The answers to operations one after the other, and the forest behind them. -/
inductive Forest.Steps : Forest → List Operation → List Answer → Forest → Prop
  | none {forest : Forest} : Steps forest [] [] forest
  | step {forest next last : Forest} {operation : Operation} {answer : Answer}
      {operations : List Operation} {answers : List Answer} :
      forest.Step operation answer next → Steps next operations answers last →
      Steps forest (operation :: operations) (answer :: answers) last

/-! ## Environments in a store -/

/-- A store with the environments that have been made in it. -/
structure Environments where
  store : Store
  envs : List Env

namespace Environments

/-- A store in which there are no scopes yet. -/
def empty : Environments := ⟨⟨#[], #[], 0⟩, []⟩

/-- The environment of a given number. -/
def env (state : Environments) (environment : Nat) : Env :=
  state.envs.getD environment []

/-- Makes a scope inside an environment. -/
def inside (state : Environments) (outer : Env) : Environments × Answer :=
  let (store, scope) := state.store.newScope []
  (⟨store, state.envs ++ [scope :: outer]⟩, .made state.envs.length)

/-- The answer of an operation that reads. -/
def reading (state : Environments) (result : Except RuntimeFault Value) : Environments × Answer :=
  match result with
  | .ok value => (state, .value value)
  | .error fault => (state, .failed fault)

/-- The answer of an operation that writes, and the store that it leaves. -/
def writing (state : Environments) (result : Except RuntimeFault Store) : Environments × Answer :=
  match result with
  | .ok store => ({ state with store := store }, .done)
  | .error fault => (state, .failed fault)

/-- Carries out an operation. -/
def perform (state : Environments) : Operation → Environments × Answer
  | .root => state.inside []
  | .child environment => state.inside (state.env environment)
  | .define environment name value =>
      state.writing (.ok (state.store.defineIn (state.env environment) name value))
  | .get environment name => state.reading (state.store.read (state.env environment) name)
  | .assign environment name value =>
      state.writing (state.store.write (state.env environment) name value)
  | .getAt environment distance name =>
      state.reading (state.store.readAt (state.env environment) distance name)
  | .assignAt environment distance name value =>
      state.writing (state.store.writeAt (state.env environment) distance name value)

theorem fst_reading (state : Environments) (result : Except RuntimeFault Value) :
    (state.reading result).1 = state := by
  cases result <;> rfl

/-- The answer to a name whose value has been looked up. -/
def answer (name : Token) : Option Value → Answer
  | some value => .value value
  | none => .failed name.undefined

theorem answer_getAt (state : Environments) (environment distance : Nat) (name : Token) :
    (state.perform (.getAt environment distance name)).2 =
      answer name (state.store.getAt? (state.env environment) distance name.lexeme) := by
  rw [perform, Store.readAt]
  split
  · next hvalue => rw [hvalue]; rfl
  · next hnone => rw [hnone]; rfl

/-- Carries out operations one after the other. -/
def performAll (state : Environments) : List Operation → Environments × List Answer
  | [] => (state, [])
  | operation :: rest =>
      let (next, answer) := state.perform operation
      let (last, answers) := next.performAll rest
      (last, answer :: answers)

end Environments

/-! ## One operation -/

namespace Store

variable {store : Store} {env : Env} {name : String}

/-- The nearest scope with a name is the one that is read and the one that is written. -/
theorem get?_of_nearest {distance : Nat} {scope : ScopeId} (hscope : env[distance]? = some scope)
    (hbound : (store.binding? scope name).isSome)
    (hleast : ∀ nearer < distance, ∀ inner, env[nearer]? = some inner →
      store.binding? inner name = none) :
    store.get? env name = store.binding? scope name ∧ store.owner? env name = some scope := by
  induction env generalizing distance with
  | nil => cases hscope
  | cons first outer ih =>
      obtain ⟨value, hvalue⟩ := Option.isSome_iff_exists.1 hbound
      cases distance with
      | zero =>
          cases hscope
          exact ⟨by simp [get?, hvalue], by simp [owner?, hvalue]⟩
      | succ distance =>
          have hfirst : store.binding? first name = none := hleast 0 (Nat.succ_pos _) first rfl
          have houter := ih hscope fun nearer hnearer inner hinner =>
            hleast (nearer + 1) (Nat.succ_lt_succ hnearer) inner hinner
          simpa [get?, owner?, hfirst] using houter

theorem getAt?_define {scope : ScopeId} (hscope : scope < store.scopes.size) (env : Env)
    (distance : Nat) (name key : String) (value : Value) :
    (store.define scope name value).getAt? env distance key =
      if env[distance]? = some scope ∧ key = name then some value
      else store.getAt? env distance key := by
  rw [getAt?, getAt?]
  cases hfound : env[distance]? with
  | none => simp
  | some found => simp [binding?_define, hscope]

/-- A name that no scope has is not found. -/
theorem get?_of_unbound (h : ∀ (distance : Nat) (scope : ScopeId), env[distance]? = some scope →
    store.binding? scope name = none) :
    store.get? env name = none ∧ store.owner? env name = none := by
  have hnone : ∀ scope ∈ env, store.binding? scope name = none := by
    intro scope hscope
    obtain ⟨distance, hdistance⟩ := List.getElem?_of_mem hscope
    exact h distance scope hdistance
  constructor
  · exact List.findSome?_eq_none_iff.2 hnone
  · refine List.find?_eq_none.2 fun scope hscope => ?_
    rw [hnone scope hscope]
    exact Bool.false_ne_true

end Store

/-- What an environment has around its scope: nothing, or the environment of its parent, which is
older. -/
inductive Environments.Around (state : Environments) (scope : Nat) : Option Nat → Env → Prop
  | nothing : Around state scope none []
  | parent {outer : Nat} : outer < scope → Around state scope (some outer) (state.env outer)

/-- A store with its environments shows a forest: scopes and environments have the numbers of the
forest, and the variables have the values that were last written. -/
structure Forest.Shows (forest : Forest) (state : Environments) : Prop where
  envs : state.envs.length = forest.size
  scopes : state.store.scopes.size = forest.size
  around : ∀ scope parent, forest.parents[scope]? = some parent →
    ∃ outer, state.env scope = scope :: outer ∧ state.Around scope parent outer
  bindings : ∀ scope name, state.store.binding? scope name = forest.latest? scope name

namespace Forest.Shows

variable {forest : Forest} {state : Environments}

theorem empty : Forest.empty.Shows .empty where
  envs := rfl
  scopes := rfl
  around scope parent hparent := by cases hparent
  bindings scope name := by simp [Store.binding?, Environments.empty, Forest.empty, latest?]

section

variable (h : forest.Shows state)

include h

/-- The scopes outward from an environment are those in its list. -/
theorem outward_iff {environment : Nat} (henvironment : environment < forest.size)
    (distance scope : Nat) :
    forest.Outward environment distance scope ↔
      (state.env environment)[distance]? = some scope := by
  induction distance generalizing environment with
  | zero =>
      obtain ⟨outer, henv, -⟩ := h.around _ _ (List.getElem?_eq_getElem henvironment)
      rw [henv]
      constructor
      · rintro ⟨-⟩
        rfl
      · rintro ⟨⟩
        exact .here henvironment
  | succ distance ih =>
      constructor
      · intro houtward
        cases houtward with
        | further hparent houter =>
            obtain ⟨_, henv, ⟨⟩ | hlt⟩ := h.around environment _ hparent
            rw [henv]
            exact (ih (Nat.lt_trans hlt henvironment)).1 houter
      · intro hscope
        have hparent := List.getElem?_eq_getElem henvironment
        obtain ⟨outer, henv, haround⟩ := h.around environment _ hparent
        generalize forest.parents[environment] = parent at hparent haround
        rw [henv] at hscope
        cases haround with
        | nothing => cases hscope
        | parent hlt => exact .further hparent ((ih (Nat.lt_trans hlt henvironment)).2 hscope)

/-- A new scope has no variables. -/
theorem grow {parent : Option Nat} {outer : Env} (hparent : state.Around forest.size parent outer) :
    (forest.grow parent).Shows (state.inside outer).1 := by
  have henv (environment : Nat) (hlt : environment < forest.size) :
      (state.inside outer).1.env environment = state.env environment := by
    have hlt' : environment < state.envs.length := h.envs.symm ▸ hlt
    simp [Environments.env, Environments.inside, List.getElem?_append_left hlt']
  have hnew : (state.inside outer).1.env forest.size = forest.size :: outer := by
    simp [Environments.env, Environments.inside, Store.newScope, ← h.envs, h.scopes]
  have haround {scope : Nat} {parent : Option Nat} {outer' : Env} (hscope : scope ≤ forest.size)
      (hstate : state.Around scope parent outer') :
      (state.inside outer).1.Around scope parent outer' := by
    cases hstate with
    | nothing => exact .nothing
    | parent hlt =>
        rw [← henv _ (Nat.lt_of_lt_of_le hlt hscope)]
        exact .parent hlt
  constructor
  · simp [Environments.inside, size, Forest.grow, h.envs]
  · simp [Environments.inside, Store.newScope, size, Forest.grow, h.scopes]
  · intro scope found hfound
    by_cases hlt : scope < forest.size
    · rw [Forest.grow, List.getElem?_append_left hlt] at hfound
      obtain ⟨outer', houter, hstate⟩ := h.around scope found hfound
      exact ⟨outer', (henv scope hlt).trans houter, haround (Nat.le_of_lt hlt) hstate⟩
    · have hle : scope < forest.parents.length + 1 := by
        simpa [Forest.grow] using (List.getElem?_eq_some_iff.1 hfound).1
      obtain rfl : scope = forest.size :=
        Nat.le_antisymm (Nat.lt_succ_iff.1 hle) (Nat.le_of_not_lt hlt)
      rw [Forest.grow, size, List.getElem?_concat_length] at hfound
      obtain rfl : parent = found := Option.some.inj hfound
      exact ⟨outer, hnew, haround (Nat.le_refl _) hparent⟩
  · intro scope name
    have hscope : (state.store.newScope []).2 = forest.size := h.scopes
    show (state.store.newScope []).1.binding? scope name = forest.latest? scope name
    rw [Store.binding?_newScope, hscope, ← h.bindings]
    split
    · next heq =>
        subst heq
        rw [Store.binding?, Array.getElem?_eq_none (Nat.le_of_eq h.scopes)]
        rfl
    · rfl

/-- Writing into a scope changes the variable of that name and nothing else. -/
theorem write {scope : Nat} (hscope : scope < forest.size) (name : String) (value : Value) :
    (forest.write scope name value).Shows
      { state with store := state.store.define scope name value } := by
  constructor
  · exact h.envs
  · exact (Store.size_define _ _ _ _).trans h.scopes
  · intro inner parent hparent
    obtain ⟨outer, henv, haround⟩ := h.around inner parent hparent
    refine ⟨outer, henv, ?_⟩
    cases haround with
    | nothing => exact .nothing
    | parent hlt => exact .parent hlt
  · intro other key
    rw [Store.binding?_define, latest?_write, ← h.bindings]
    simp only [h.scopes, hscope, true_and]

/-! ### Reading and writing -/

section

variable {environment : Nat} {name : String}

/-- Looking for a name leads to its nearest scope. -/
theorem get?_of_nearest {distance scope : Nat}
    (hnearest : forest.Nearest environment name distance scope) :
    state.store.get? (state.env environment) name = forest.latest? scope name ∧
      state.store.owner? (state.env environment) name = some scope ∧
      (state.env environment)[distance]? = some scope := by
  have hlt := hnearest.outward.lt
  have hscope := (h.outward_iff hlt.1 distance scope).1 hnearest.outward
  rw [← h.bindings]
  obtain ⟨hget, howner⟩ :=
    Store.get?_of_nearest hscope ((h.bindings scope name).symm ▸ hnearest.bound)
    fun nearer hnearer inner hinner =>
      (h.bindings inner name).trans
        (hnearest.least nearer hnearer inner ((h.outward_iff hlt.1 nearer inner).2 hinner))
  exact ⟨hget, howner, hscope⟩

theorem get?_of_unbound (henvironment : environment < forest.size)
    (hunbound : ∀ distance scope, forest.Outward environment distance scope →
      forest.latest? scope name = none) :
    state.store.get? (state.env environment) name = none ∧
      state.store.owner? (state.env environment) name = none :=
  Store.get?_of_unbound fun distance scope hscope =>
    (h.bindings scope name).trans
      (hunbound distance scope ((h.outward_iff henvironment distance scope).2 hscope))

theorem getAt?_of_outward {distance scope : Nat}
    (houtward : forest.Outward environment distance scope) :
    state.store.getAt? (state.env environment) distance name = forest.latest? scope name := by
  rw [Store.getAt?, (h.outward_iff houtward.lt.1 distance scope).1 houtward]
  exact h.bindings scope name

/-- Where there is no scope, or one without the name, counting leads to no value. -/
theorem getAt?_of_unbound {distance : Nat} (henvironment : environment < forest.size)
    (hunbound : ∀ scope, forest.Outward environment distance scope →
      forest.latest? scope name = none) :
    state.store.getAt? (state.env environment) distance name = none := by
  rw [Store.getAt?]
  cases hscope : (state.env environment)[distance]? with
  | none => rfl
  | some scope =>
      have houtward := (h.outward_iff henvironment distance scope).2 hscope
      exact (h.bindings scope name).trans (hunbound scope houtward)

end

/-! ### Each operation -/

section

variable {environment : Nat}

theorem define (henvironment : environment < forest.size) (name : String) (value : Value) :
    state.store.defineIn (state.env environment) name value =
      state.store.define environment name value := by
  obtain ⟨outer, henv, -⟩ := h.around _ _ (List.getElem?_eq_getElem henvironment)
  rw [henv]
  rfl

theorem perform_get (henvironment : environment < forest.size) (name : Token) :
    forest.Step (.get environment name) (state.perform (.get environment name)).2 forest := by
  rcases forest.nearest_or_unbound environment name.lexeme with ⟨distance, scope, hnearest⟩ | hnone
  · obtain ⟨value, hvalue⟩ := Option.isSome_iff_exists.1 hnearest.bound
    have hget := (h.get?_of_nearest hnearest).1.trans hvalue
    simp only [Environments.perform, Environments.reading, Store.read, hget]
    exact .get hnearest hvalue
  · have hget := (h.get?_of_unbound henvironment hnone).1
    simp only [Environments.perform, Environments.reading, Store.read, hget]
    exact .getUnbound henvironment hnone

theorem perform_getAt (henvironment : environment < forest.size) (distance : Nat) (name : Token) :
    forest.Step (.getAt environment distance name)
      (state.perform (.getAt environment distance name)).2 forest := by
  by_cases hbound : ∃ scope, forest.Outward environment distance scope ∧
      (forest.latest? scope name.lexeme).isSome
  · obtain ⟨scope, houtward, hsome⟩ := hbound
    obtain ⟨value, hvalue⟩ := Option.isSome_iff_exists.1 hsome
    have hget := (h.getAt?_of_outward houtward).trans hvalue
    simp only [Environments.perform, Environments.reading, Store.readAt, hget]
    exact .getAt houtward hvalue
  · have hnone (scope : Nat) (houtward : forest.Outward environment distance scope) :
        forest.latest? scope name.lexeme = none := by
      rw [← Option.not_isSome_iff_eq_none]
      exact fun hsome => hbound ⟨scope, houtward, hsome⟩
    have hget := h.getAt?_of_unbound henvironment hnone
    simp only [Environments.perform, Environments.reading, Store.readAt, hget]
    exact .getAtUnbound henvironment hnone

theorem perform_assign (henvironment : environment < forest.size) (name : Token) (value : Value) :
    ∃ next, forest.Step (.assign environment name value)
        (state.perform (.assign environment name value)).2 next ∧
      next.Shows (state.perform (.assign environment name value)).1 := by
  rcases forest.nearest_or_unbound environment name.lexeme with ⟨distance, scope, hnearest⟩ | hnone
  · have howner := (h.get?_of_nearest hnearest).2.1
    simp only [Environments.perform, Environments.writing, Store.write, Store.owner, howner,
      Except.map]
    exact ⟨_, .assign hnearest, h.write hnearest.outward.lt.2 _ _⟩
  · have howner := (h.get?_of_unbound henvironment hnone).2
    simp only [Environments.perform, Environments.writing, Store.write, Store.owner, howner,
      Except.map]
    exact ⟨_, .assignUnbound henvironment hnone, h⟩

theorem perform_assignAt (henvironment : environment < forest.size) (distance : Nat) (name : Token)
    (value : Value) :
    ∃ next, forest.Step (.assignAt environment distance name value)
        (state.perform (.assignAt environment distance name value)).2 next ∧
      next.Shows (state.perform (.assignAt environment distance name value)).1 := by
  have hiff := h.outward_iff henvironment distance
  cases hscope : (state.env environment)[distance]? with
  | some scope =>
      have houtward := (hiff scope).2 hscope
      simp only [Environments.perform, Environments.writing, Store.writeAt, Store.ownerAt, hscope,
        Except.map]
      exact ⟨_, .assignAt houtward, h.write houtward.lt.2 _ _⟩
  | none =>
      have hbeyond (scope : Nat) : ¬forest.Outward environment distance scope := by
        rw [hiff, hscope]
        exact Option.some_ne_none scope ∘ Eq.symm
      simp only [Environments.perform, Environments.writing, Store.writeAt, Store.ownerAt, hscope,
        Except.map]
      exact ⟨_, .assignAtBeyond henvironment hbeyond, h⟩

/-- The store does what the forest does. -/
theorem perform {operation : Operation} (hoperation : operation.Targets forest.size) :
    ∃ next, forest.Step operation (state.perform operation).2 next ∧
      next.Shows (state.perform operation).1 := by
  cases operation with
  | root =>
      have hstep : forest.Step .root (.made forest.size) (forest.grow none) := .root
      rw [← h.envs] at hstep
      exact ⟨forest.grow none, hstep, h.grow .nothing⟩
  | child environment =>
      have henvironment := hoperation environment rfl
      have hstep := Forest.Step.child henvironment
      rw [← h.envs] at hstep
      exact ⟨forest.grow (some environment), hstep, h.grow (.parent henvironment)⟩
  | define environment name value =>
      have henvironment := hoperation environment rfl
      refine ⟨forest.write environment name value, .define henvironment, ?_⟩
      rw [Environments.perform, h.define henvironment]
      exact h.write henvironment name value
  | get environment name =>
      refine ⟨forest, h.perform_get (hoperation environment rfl) name, ?_⟩
      rw [Environments.perform, Environments.fst_reading]
      exact h
  | getAt environment distance name =>
      refine ⟨forest, h.perform_getAt (hoperation environment rfl) distance name, ?_⟩
      rw [Environments.perform, Environments.fst_reading]
      exact h
  | assign environment name value => exact h.perform_assign (hoperation environment rfl) name value
  | assignAt environment distance name value =>
      exact h.perform_assignAt (hoperation environment rfl) distance name value

/-! ### The two ways to a variable -/

variable {distance scope : Nat} {name : Token}

/-- Looking for a name and counting to its nearest scope is the same. -/
theorem perform_of_nearest (hnearest : forest.Nearest environment name.lexeme distance scope) :
    state.perform (.get environment name) = state.perform (.getAt environment distance name) ∧
      ∀ value, state.perform (.assign environment name value) =
        state.perform (.assignAt environment distance name value) := by
  obtain ⟨hget, howner, hscope⟩ := h.get?_of_nearest hnearest
  have hgetAt : state.store.getAt? (state.env environment) distance name.lexeme =
      forest.latest? scope name.lexeme := h.getAt?_of_outward hnearest.outward
  constructor
  · rw [Environments.perform, Environments.perform, Store.read, Store.readAt, hget, hgetAt]
  · intro value
    rw [Environments.perform, Environments.perform, Store.write, Store.writeAt, Store.owner,
      Store.ownerAt, howner, hscope]

/-- An assignment changes what is seen in one scope, the nearest one with the name, from whichever
environment, and nothing else. -/
theorem getAt_of_assign (hnearest : forest.Nearest environment name.lexeme distance scope)
    (value : Value) {other depth : Nat} (hother : other < forest.size) (key : Token) :
    let next := (state.perform (.assign environment name value)).1
    (forest.Outward other depth scope → key.lexeme = name.lexeme →
      (next.perform (.getAt other depth key)).2 = .value value) ∧
    (¬(forest.Outward other depth scope ∧ key.lexeme = name.lexeme) →
      (next.perform (.getAt other depth key)).2 = (state.perform (.getAt other depth key)).2) := by
  intro next
  have howner := (h.get?_of_nearest hnearest).2.1
  have hnext : next = { state with store := state.store.define scope name.lexeme value } := by
    simp only [next, Environments.perform, Environments.writing, Store.write, Store.owner, howner,
      Except.map]
  have hscope : scope < state.store.scopes.size := h.scopes.symm ▸ hnearest.outward.lt.2
  have hget := state.store.getAt?_define hscope (state.env other) depth name.lexeme key.lexeme value
  have hiff := h.outward_iff hother depth scope
  rw [hiff, hnext, Environments.answer_getAt, Environments.answer_getAt]
  constructor
  · intro houtward hkey
    rw [if_pos ⟨houtward, hkey⟩] at hget
    exact congrArg (Environments.answer key) hget
  · intro hnot
    rw [if_neg hnot] at hget
    exact congrArg (Environments.answer key) hget

end

end

end Forest.Shows

/-! ## Histories -/

namespace Environments

variable {state : Environments}

theorem fst_writing_of_failed {result : Except RuntimeFault Store} {fault : RuntimeFault}
    (h : (state.writing result).2 = .failed fault) : (state.writing result).1 = state := by
  cases result with
  | ok store => cases h
  | error fault => rfl

/-- An operation that fails changes nothing. -/
theorem perform_of_failed {operation : Operation} {fault : RuntimeFault}
    (h : (state.perform operation).2 = .failed fault) : (state.perform operation).1 = state := by
  cases operation with
  | root => cases h
  | child environment => cases h
  | define environment name value => cases h
  | get environment name => exact state.fst_reading _
  | getAt environment distance name => exact state.fst_reading _
  | assign environment name value => exact fst_writing_of_failed h
  | assignAt environment distance name value => exact fst_writing_of_failed h

/-- Operations one after the other keep the store and the forest together. -/
theorem steps_performAll {forest : Forest} (h : forest.Shows state) {operations : List Operation}
    (hlegal : Operation.Legal forest.size operations) :
    ∃ last, forest.Steps operations (state.performAll operations).2 last ∧
      last.Shows (state.performAll operations).1 := by
  induction operations generalizing forest state with
  | nil => exact ⟨forest, .none, h⟩
  | cons operation rest ih =>
      obtain ⟨hoperation, hrest⟩ := hlegal
      obtain ⟨next, hstep, hnext⟩ := h.perform hoperation
      rw [← hstep.size_eq] at hrest
      obtain ⟨last, hsteps, hlast⟩ := ih hnext hrest
      exact ⟨last, .step hstep hsteps, hlast⟩

/-- Environments in a store answer every history of operations as a forest of scopes does, and in no
other way; an operation that fails changes nothing, and an assignment changes one variable for all
environments that share its scope.  Looking for a name is the same as counting to the nearest scope
that has it. -/
theorem refines_forest {operations : List Operation} (h : Operation.Legal 0 operations) :
    let state := (empty.performAll operations).1
    ∃ forest, Forest.empty.Steps operations (empty.performAll operations).2 forest ∧
      (∀ operation, operation.Targets forest.size →
        (∃ next, forest.Step operation (state.perform operation).2 next) ∧
        (∀ answer next, forest.Step operation answer next → (state.perform operation).2 = answer) ∧
        ∀ fault, (state.perform operation).2 = .failed fault →
          (state.perform operation).1 = state) ∧
      ∀ environment name distance scope, forest.Nearest environment name.lexeme distance scope →
        (state.perform (.get environment name) =
          state.perform (.getAt environment distance name)) ∧
        ∀ value,
          (state.perform (.assign environment name value) =
            state.perform (.assignAt environment distance name value)) ∧
          ∀ other < forest.size, ∀ depth key,
            let next := (state.perform (.assign environment name value)).1
            (forest.Outward other depth scope → key.lexeme = name.lexeme →
              (next.perform (.getAt other depth key)).2 = .value value) ∧
            (¬(forest.Outward other depth scope ∧ key.lexeme = name.lexeme) →
              (next.perform (.getAt other depth key)).2 =
                (state.perform (.getAt other depth key)).2) := by
  intro state
  obtain ⟨forest, hsteps, hforest⟩ := steps_performAll .empty h
  refine ⟨forest, hsteps, ?_, ?_⟩
  · intro operation hoperation
    obtain ⟨next, hstep, -⟩ := hforest.perform hoperation
    exact ⟨⟨next, hstep⟩, fun answer other hother => hstep.answer_unique hother,
      fun fault hfailed => perform_of_failed hfailed⟩
  · intro environment name distance scope hnearest
    obtain ⟨hget, hassign⟩ := hforest.perform_of_nearest hnearest
    refine ⟨hget, fun value => ⟨hassign value, ?_⟩⟩
    intro other hother depth key
    exact hforest.getAt_of_assign hnearest value hother key

/-- Two environments inside a third one, one of which has a variable of its own. -/
def siblings : List Operation :=
  let name : Token := .named "a" 1
  [.root, .child 0, .child 0, .define 0 "a" (.bool true), .define 1 "a" .nil,
    .assign 2 name (.bool false), .get 0 name, .get 1 name, .getAt 2 1 name]

/-- What the siblings answer: an assignment in one of them is seen from outside, and not from the
other one. -/
theorem refines_forest_siblings :
    Operation.Legal 0 siblings ∧
    (empty.performAll siblings).2 = [.made 0, .made 1, .made 2, .done, .done, .done,
      .value (.bool false), .value .nil, .value (.bool false)] ∧
    ∃ forest, Forest.empty.Steps siblings (empty.performAll siblings).2 forest := by
  have hlegal : Operation.Legal 0 siblings := by
    simp [siblings, Operation.Legal, Operation.Targets, Operation.environment?, Operation.makes]
  obtain ⟨forest, hsteps, -⟩ := refines_forest hlegal
  exact ⟨hlegal, rfl, forest, hsteps⟩

end Environments

end LoxLang
