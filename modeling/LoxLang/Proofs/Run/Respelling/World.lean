import LoxLang.Proofs.Run.Recasting

/-!
# Respelled worlds

A program whose variables are spelled in another way keeps them under other names.  Which name a
variable has in a scope need not be told from how programs spell it everywhere: a scope may have a
name that programs spell like another one.  It is enough that the names that a program uses are
spelled as they are in the scopes in which it uses them.
-/

namespace LoxLang

/-- How programs spell the names of variables, and how they are spelled in each scope.  Nothing
changes for the globals and for the words that classes bind. -/
structure Spelling where
  code : String → String
  nameIn : ScopeId → String → String
  injective : ∀ scope, Function.Injective (nameIn scope)
  globals : ∀ name, nameIn Store.globalScope name = name
  this : ∀ scope, nameIn scope thisName = thisName
  super : ∀ scope, nameIn scope superName = superName

namespace Spelling

/-- What becomes of values and stores. -/
def recasting (s : Spelling) : Recasting where
  declaration := FunctionDecl.respell s.code
  nameIn := s.nameIn
  name_declaration function := by rw [function.name_respell]
  length_params function := by rw [function.params_respell, List.length_map]
  injective := s.injective
  this := s.this
  super := s.super

/-- A name is spelled in programs as it is in a scope. -/
def Matches (s : Spelling) (scope : ScopeId) (name : String) : Prop :=
  s.code name = s.nameIn scope name

/-- An occurrence can be read: its recorded distance leads to a scope that has the name and spells
it as the occurrence does, or it is of a global and keeps its spelling. -/
structure Reads (s : Spelling) (world : World) (env : Env) (occurrence : Occurrence) : Prop where
  recorded : ∀ distance, world.distances[occurrence.id]? = some distance →
    ∃ scope, env[distance]? = some scope ∧ s.Matches scope occurrence.name.lexeme ∧
      (world.store.binding? scope occurrence.name.lexeme).isSome
  global : world.distances[occurrence.id]? = none →
    s.code occurrence.name.lexeme = occurrence.name.lexeme

/-- An occurrence can be assigned to, in the same sense. -/
structure Targets (s : Spelling) (world : World) (env : Env) (occurrence : Occurrence) : Prop where
  recorded : ∀ distance, world.distances[occurrence.id]? = some distance →
    ∃ scope, env[distance]? = some scope ∧ s.Matches scope occurrence.name.lexeme
  global : world.distances[occurrence.id]? = none →
    s.code occurrence.name.lexeme = occurrence.name.lexeme

end Spelling

theorem Occurrence.respell_of_eq {spell : String → String} {occurrence : Occurrence}
    (h : spell occurrence.name.lexeme = occurrence.name.lexeme) :
    occurrence.respell spell = occurrence := by
  rw [respell, Token.respell, h]

namespace World

/-- A world in which variables are spelled in another way. -/
abbrev respell (s : Spelling) (world : World) : World :=
  world.recast s.recasting id

section

variable (s : Spelling) (world : World)

theorem property_respell (object : Instance) (name : Token) :
    (world.respell s).property (object.recast s.recasting) name =
      ((world.property object name).1.respell s,
        (world.property object name).2.map (Value.recast s.recasting)) := by
  have hfield : (world.respell s).store.field? (object.recast s.recasting).identity name.lexeme =
      _ := world.store.field?_recast s.recasting object.identity name.lexeme
  have hmethod : (object.recast s.recasting).ownClass.findMethod? name.lexeme = _ :=
    object.ownClass.findMethod?_recast s.recasting name.lexeme
  rw [property, property, hfield, hmethod]
  cases world.store.field? object.identity name.lexeme with
  | some value => rfl
  | none =>
      cases object.ownClass.findMethod? name.lexeme with
      | none => rfl
      | some method =>
          simp only [Option.map_none, Option.map_some, bind_recast]
          rfl

/-! ### Globals -/

theorem binding?_respell_global (name : String) :
    (world.respell s).store.binding? Store.globalScope name =
      (world.store.binding? Store.globalScope name).map (Value.recast s.recasting) := by
  have hbinding := world.store.binding?_recast s.recasting Store.globalScope name
  rwa [show s.recasting.nameIn Store.globalScope name = name from s.globals name] at hbinding

theorem read_respell_global (name : Token) :
    (world.respell s).store.read Store.globalEnv name =
      (world.store.read Store.globalEnv name).map (Value.recast s.recasting) := by
  have hget : (world.respell s).store.get? Store.globalEnv name.lexeme =
      (world.store.get? Store.globalEnv name.lexeme).map (Value.recast s.recasting) := by
    simp only [Store.get?, Store.globalEnv, List.findSome?_singleton]
    exact world.binding?_respell_global s name.lexeme
  rw [Store.read, Store.read, hget]
  cases world.store.get? Store.globalEnv name.lexeme <;> rfl

theorem owner_respell_global (name : Token) :
    (world.respell s).store.owner Store.globalEnv name =
      world.store.owner Store.globalEnv name := by
  have howner : (world.respell s).store.owner? Store.globalEnv name.lexeme =
      world.store.owner? Store.globalEnv name.lexeme := by
    simp only [Store.owner?, Store.globalEnv, List.find?_singleton, binding?_respell_global,
      Option.isSome_map]
  rw [Store.owner, Store.owner, howner]

end

section

variable {s : Spelling} {world : World} {env : Env} {occurrence : Occurrence}

/-- Words that are spelled alike in all scopes are found where they were. -/
theorem getAt?_respell_word {word : String} (hword : ∀ scope, s.nameIn scope word = word)
    (distance : Nat) :
    (world.respell s).store.getAt? env distance word =
      (world.store.getAt? env distance word).map (Value.recast s.recasting) :=
  world.store.getAt?_recast s.recasting fun scope _ => (hword scope).symm

theorem read_respell (h : s.Reads world env occurrence) :
    (world.respell s).read env (occurrence.respell s.code) =
      (world.read env occurrence).map (Value.recast s.recasting) := by
  have hdistances : (world.respell s).distances[(occurrence.respell s.code).id]? =
      world.distances[occurrence.id]? := rfl
  rw [read, read, hdistances]
  cases hdistance : world.distances[occurrence.id]? with
  | none =>
      rw [Occurrence.respell_of_eq (h.global hdistance)]
      exact world.read_respell_global s occurrence.name
  | some distance =>
      obtain ⟨scope, hscope, hmatches, hbound⟩ := h.recorded distance hdistance
      obtain ⟨value, hvalue⟩ := Option.isSome_iff_exists.1 hbound
      have hfound : world.store.getAt? env distance occurrence.name.lexeme = some value := by
        rw [Store.getAt?, hscope]
        exact hvalue
      have hget : (world.respell s).store.getAt? env distance
          (occurrence.respell s.code).name.lexeme = some (value.recast s.recasting) := by
        have hnames : ∀ found, env[distance]? = some found →
            s.code occurrence.name.lexeme = s.nameIn found occurrence.name.lexeme := by
          intro found hsame
          cases hscope.symm.trans hsame
          exact hmatches
        have hrecast := world.store.getAt?_recast s.recasting hnames
        rw [hfound] at hrecast
        exact hrecast
      dsimp only
      rw [Store.readAt, Store.readAt, hget, hfound]
      rfl

/-- An occurrence of a word that is spelled alike in all scopes. -/
theorem read_respell_word (hword : ∀ scope, s.nameIn scope occurrence.name.lexeme =
    occurrence.name.lexeme) :
    (world.respell s).read env occurrence =
      (world.read env occurrence).map (Value.recast s.recasting) := by
  have hdistances : (world.respell s).distances[occurrence.id]? =
      world.distances[occurrence.id]? := rfl
  rw [read, read, hdistances]
  cases world.distances[occurrence.id]? with
  | none => exact world.read_respell_global s occurrence.name
  | some distance =>
      dsimp only
      rw [Store.readAt, Store.readAt, getAt?_respell_word hword]
      cases world.store.getAt? env distance occurrence.name.lexeme <;> rfl

theorem target_respell (h : s.Targets world env occurrence) :
    (world.respell s).target env (occurrence.respell s.code) = world.target env occurrence ∧
      ∀ scope, world.target env occurrence = .ok scope →
        s.Matches scope occurrence.name.lexeme := by
  have hdistances : (world.respell s).distances[(occurrence.respell s.code).id]? =
      world.distances[occurrence.id]? := rfl
  rw [target, target, hdistances]
  cases hdistance : world.distances[occurrence.id]? with
  | none =>
      have hsame := h.global hdistance
      rw [Occurrence.respell_of_eq hsame]
      refine ⟨world.owner_respell_global s occurrence.name, fun scope hscope => ?_⟩
      dsimp only [Store.owner] at hscope
      split at hscope
      · next found howner =>
          cases hscope
          obtain rfl := List.mem_singleton.1 (List.mem_of_find?_eq_some howner)
          exact hsame.trans (s.globals _).symm
      · cases hscope
  | some distance =>
      obtain ⟨scope, hscope, hmatches⟩ := h.recorded distance hdistance
      dsimp only [Store.ownerAt]
      rw [hscope]
      refine ⟨rfl, fun found hfound => ?_⟩
      cases hfound
      exact hmatches

theorem superMethod_respell (h : occurrence.name.lexeme = superName) (env : Env) (method : Token) :
    (world.respell s).superMethod env occurrence method =
      ((world.superMethod env occurrence method).1.respell s,
        (world.superMethod env occurrence method).2.map (Value.recast s.recasting)) := by
  have hdistances : (world.respell s).distances[occurrence.id]? =
      world.distances[occurrence.id]? := rfl
  rw [superMethod, superMethod, hdistances, h]
  cases world.distances[occurrence.id]? with
  | none => rfl
  | some distance =>
      dsimp only
      rw [getAt?_respell_word s.super, getAt?_respell_word s.this]
      cases world.store.getAt? env distance superName with
      | none => rfl
      | some bound =>
          cases world.store.getAt? env (distance - 1) thisName with
          | none => cases bound <;> rfl
          | some self =>
              cases bound with
              | classValue superclass =>
                  cases self with
                  | object object =>
                      simp only [Option.map_some, Value.recast, superclass.findMethod?_recast]
                      cases superclass.findMethod? method.lexeme with
                      | none => rfl
                      | some found =>
                          simp only [Option.map_some, bind_recast]
                          rfl
                  | _ => rfl
              | _ => cases self <;> rfl

end

end World

end LoxLang
