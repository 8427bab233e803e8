import LoxLang.Proofs.Loop.Values
import LoxLang.Proofs.Run.World

/-!
# Worlds of two runs

Worlds correspond if their variables and fields hold values that correspond, and a scope that is
left out holds nothing.  The operations on the world lead from worlds that correspond to worlds that
correspond again, once the new scopes are paired.
-/

namespace LoxLang

/-! ## More scopes -/

namespace Pairing

variable {p : Pairing} {image : Option ScopeId}

theorem image_adding (p : Pairing) (image : Option ScopeId) :
    (p.adding image).images[p.images.length]? = some image :=
  List.getElem?_concat_length

/-- Either the image is the new one, or there was one before. -/
theorem of_image_adding {found : Option ScopeId} {scope : ScopeId}
    (h : (p.adding image).images[scope]? = some found) :
    scope = p.images.length ∧ image = found ∨
      scope < p.images.length ∧ p.images[scope]? = some found := by
  rcases Nat.lt_trichotomy scope p.images.length with hlt | rfl | hgt
  · exact .inr ⟨hlt, (List.getElem?_append_left hlt).symm.trans h⟩
  · exact .inl ⟨rfl, Option.some.inj ((p.image_adding image).symm.trans h)⟩
  · have hlength : (p.adding image).images.length ≤ scope := by
      rw [adding, List.length_append, List.length_singleton]
      exact hgt
    rw [List.getElem?_eq_none hlength] at h
    cases h

/-- The scopes of two stores, so many in each, correspond one to one, apart from those that are left
out; and so do the globals. -/
structure Covers (p : Pairing) (count count' : Nat) : Prop where
  length : p.images.length = count
  lt : ∀ scope image : ScopeId, p.images[scope]? = some (some image) → image < count'
  injective : ∀ scope other image : ScopeId, p.images[scope]? = some (some image) →
    p.images[other]? = some (some image) → scope = other
  onto : ∀ image < count', ∃ scope : ScopeId, p.images[scope]? = some (some image)
  globals : p.images[Store.globalScope]? = some (some Store.globalScope)

namespace Covers

variable {count count' : Nat}

theorem adding_some (h : p.Covers count count') :
    (p.adding (some count')).Covers (count + 1) (count' + 1) := by
  have hgrows := p.grows_adding (some count')
  constructor
  · rw [adding, List.length_append, List.length_singleton, h.length]
  · intro scope found hfound
    rcases of_image_adding hfound with ⟨-, heq⟩ | ⟨-, hold⟩
    · cases heq
      exact Nat.lt_succ_self _
    · exact Nat.lt_succ_of_lt (h.lt scope found hold)
  · intro scope other found hfound hother
    rcases of_image_adding hfound with ⟨rfl, heq⟩ | ⟨-, hold⟩
    · cases heq
      rcases of_image_adding hother with ⟨rfl, -⟩ | ⟨-, hold'⟩
      · rfl
      · exact absurd (h.lt other _ hold') (Nat.lt_irrefl _)
    · rcases of_image_adding hother with ⟨rfl, heq⟩ | ⟨-, hold'⟩
      · cases heq
        exact absurd (h.lt scope _ hold) (Nat.lt_irrefl _)
      · exact h.injective scope other found hold hold'
  · intro found hlt
    rcases Nat.lt_succ_iff_lt_or_eq.1 hlt with hold | rfl
    · obtain ⟨scope, hscope⟩ := h.onto found hold
      exact ⟨scope, hgrows.image hscope⟩
    · exact ⟨p.images.length, p.image_adding _⟩
  · exact hgrows.image h.globals

theorem adding_none (h : p.Covers count count') : (p.adding none).Covers (count + 1) count' := by
  have hgrows := p.grows_adding none
  have hold {scope found : ScopeId} (hfound : (p.adding none).images[scope]? = some (some found)) :
      p.images[scope]? = some (some found) := by
    rcases of_image_adding hfound with ⟨-, heq⟩ | ⟨-, hold⟩
    · cases heq
    · exact hold
  constructor
  · rw [adding, List.length_append, List.length_singleton, h.length]
  · exact fun scope found hfound => h.lt scope found (hold hfound)
  · exact fun scope other found hfound hother =>
      h.injective scope other found (hold hfound) (hold hother)
  · intro found hlt
    obtain ⟨scope, hscope⟩ := h.onto found hlt
    exact ⟨scope, hgrows.image hscope⟩
  · exact hgrows.image h.globals

end Covers

end Pairing

/-! ## Stores and worlds that correspond -/

/-- Variables with values that correspond. -/
def Bindings.Like (p : Pairing) (bindings bindings' : Bindings) : Prop :=
  ∀ name, Option.Rel (Value.Like p) (bindings.get? name) (bindings'.get? name)

/-- Stores with the same instances, in which scopes that correspond hold values that correspond, and
so do the fields. -/
structure Store.Like (p : Pairing) (store store' : Store) : Prop where
  covers : p.Covers store.scopes.size store'.scopes.size
  bindings : ∀ scope image : ScopeId, p.images[scope]? = some (some image) → ∀ name,
    Option.Rel (Value.Like p) (store.binding? scope name) (store'.binding? image name)
  /-- A scope that is left out holds nothing. -/
  idle : ∀ scope : ScopeId, p.images[scope]? = some none → ∀ name,
    store.binding? scope name = none
  objects : store'.objects.size = store.objects.size
  fields : ∀ object name,
    Option.Rel (Value.Like p) (store.field? object name) (store'.field? object name)
  identities : store'.identities = store.identities

/-- Worlds in which the same has been printed and the clock shows the same, with stores that
correspond. -/
structure World.Like (p : Pairing) (world world' : World) : Prop where
  store : world.store.Like p world'.store
  real : world.distances = p.real
  direct : world'.distances = p.direct
  output : world'.output = world.output
  clock : world'.clock = world.clock

section

variable {p q : Pairing}

theorem Value.Like.mono_option {found found' : Option Value}
    (h : Option.Rel (Value.Like p) found found') (hgrows : p.Grows q) :
    Option.Rel (Value.Like q) found found' :=
  optionRel_imp (fun _ _ hvalue => hvalue.mono hgrows) h

theorem Bindings.like_nil (p : Pairing) : Bindings.Like p [] [] :=
  fun _ => .none

theorem Bindings.like_singleton {name : String} {value value' : Value} (h : value.Like p value') :
    Bindings.Like p [(name, value)] [(name, value')] := by
  intro key
  rw [Bindings.get?, Bindings.get?, List.lookup_cons, List.lookup_cons]
  cases key == name with
  | true => exact .some h
  | false => exact .none

theorem Bindings.Like.set {bindings bindings' : Bindings} (h : bindings.Like p bindings')
    (name : String) {value value' : Value} (hvalue : value.Like p value') :
    (bindings.set name value).Like p (bindings'.set name value') := by
  intro key
  rw [Bindings.get?_set, Bindings.get?_set]
  split
  · exact .some hvalue
  · exact h key

/-- Names that are given values that correspond, one after the other. -/
theorem Bindings.like_ofList (names : List String) {values values' : List Value}
    (h : List.Forall₂ (Value.Like p) values values') :
    Bindings.Like p (Bindings.ofList (names.zip values)) (Bindings.ofList (names.zip values')) := by
  suffices hfold : ∀ bindings bindings' : Bindings, bindings.Like p bindings' →
      Bindings.Like p
        ((names.zip values).foldl (fun bindings entry => bindings.set entry.1 entry.2) bindings)
        ((names.zip values').foldl (fun bindings entry => bindings.set entry.1 entry.2) bindings')
    from hfold [] [] (Bindings.like_nil p)
  induction h generalizing names with
  | nil => simp
  | cons hvalue _ ih =>
      intro bindings bindings' hbindings
      cases names with
      | nil => exact hbindings
      | cons name names => exact ih names _ _ (hbindings.set name hvalue)

/-! ## Operations on stores -/

namespace Store.Like

variable {store store' : Store}

theorem binding?_newScope (h : store.Like p store') (bindings : Bindings) (scope : ScopeId)
    (name : String) :
    (store.newScope bindings).1.binding? scope name =
      if scope = p.images.length then bindings.get? name else store.binding? scope name := by
  rw [Store.binding?_newScope, h.covers.length]
  rfl

/-- A scope that is made in both runs. -/
theorem newScope (h : store.Like p store') {bindings bindings' : Bindings}
    (hbindings : bindings.Like p bindings') :
    (store.newScope bindings).1.Like (p.adding (some store'.scopes.size))
      (store'.newScope bindings').1 := by
  have hgrows := p.grows_adding (some store'.scopes.size)
  constructor
  · show Pairing.Covers _ (store.scopes.push bindings).size (store'.scopes.push bindings').size
    rw [Array.size_push, Array.size_push]
    exact h.covers.adding_some
  · intro scope image himage name
    rw [h.binding?_newScope, Store.binding?_newScope]
    rcases Pairing.of_image_adding himage with ⟨rfl, heq⟩ | ⟨hlt, hold⟩
    · cases heq
      rw [if_pos rfl, if_pos (show store'.scopes.size = (store'.newScope bindings').2 from rfl)]
      exact Value.Like.mono_option (hbindings name) hgrows
    · have hne : image ≠ (store'.newScope bindings').2 :=
        Nat.ne_of_lt (h.covers.lt scope image hold)
      rw [if_neg (Nat.ne_of_lt hlt), if_neg hne]
      exact Value.Like.mono_option (h.bindings scope image hold name) hgrows
  · intro scope himage name
    rcases Pairing.of_image_adding himage with ⟨-, heq⟩ | ⟨hlt, hold⟩
    · cases heq
    · rw [h.binding?_newScope, if_neg (Nat.ne_of_lt hlt)]
      exact h.idle scope hold name
  · exact h.objects
  · exact fun object name => Value.Like.mono_option (h.fields object name) hgrows
  · exact h.identities

theorem image_newScope (h : store.Like p store') (bindings bindings' : Bindings) :
    (p.adding (some store'.scopes.size)).images[(store.newScope bindings).2]? =
      some (some (store'.newScope bindings').2) := by
  have himage := p.image_adding (some store'.scopes.size)
  rwa [h.covers.length] at himage

/-- A scope that is only made in the first run, and holds nothing. -/
theorem newIdle (h : store.Like p store') :
    (store.newScope []).1.Like (p.adding none) store' := by
  have hgrows := p.grows_adding none
  constructor
  · show Pairing.Covers _ (store.scopes.push []).size _
    rw [Array.size_push]
    exact h.covers.adding_none
  · intro scope image himage name
    rcases Pairing.of_image_adding himage with ⟨-, heq⟩ | ⟨hlt, hold⟩
    · cases heq
    · rw [h.binding?_newScope, if_neg (Nat.ne_of_lt hlt)]
      exact Value.Like.mono_option (h.bindings scope image hold name) hgrows
  · intro scope himage name
    rw [h.binding?_newScope]
    rcases Pairing.of_image_adding himage with ⟨rfl, -⟩ | ⟨hlt, hold⟩
    · rw [if_pos rfl]
      rfl
    · rw [if_neg (Nat.ne_of_lt hlt)]
      exact h.idle scope hold name
  · exact h.objects
  · exact fun object name => Value.Like.mono_option (h.fields object name) hgrows
  · exact h.identities

theorem newIdentity (h : store.Like p store') :
    store.newIdentity.1.Like p store'.newIdentity.1 ∧
      store'.newIdentity.2 = store.newIdentity.2 :=
  ⟨⟨h.covers, h.bindings, h.idle, h.objects, h.fields, congrArg (· + 1) h.identities⟩, h.identities⟩

theorem newObject (h : store.Like p store') :
    store.newObject.1.Like p store'.newObject.1 ∧ store'.newObject.2 = store.newObject.2 := by
  refine ⟨⟨h.covers, h.bindings, h.idle, ?_, ?_, h.identities⟩, h.objects⟩
  · show (store'.objects.push []).size = (store.objects.push []).size
    rw [Array.size_push, Array.size_push, h.objects]
  · intro object name
    rw [Store.field?_newObject, Store.field?_newObject]
    exact h.fields object name

/-- A variable of scopes that correspond gets values that correspond. -/
theorem define (h : store.Like p store') {scope image : ScopeId}
    (himage : p.images[scope]? = some (some image)) (name : String) {value value' : Value}
    (hvalue : value.Like p value') :
    (store.define scope name value).Like p (store'.define image name value') := by
  have hlt : scope < store.scopes.size :=
    h.covers.length ▸ (List.getElem?_eq_some_iff.1 himage).1
  have hlt' := h.covers.lt scope image himage
  constructor
  · rw [Store.size_define, Store.size_define]
    exact h.covers
  · intro other found hfound key
    rw [Store.binding?_define, Store.binding?_define]
    by_cases hscope : other = scope
    · subst hscope
      cases himage.symm.trans hfound
      by_cases hkey : key = name
      · rw [if_pos ⟨hlt, rfl, hkey⟩, if_pos ⟨hlt', rfl, hkey⟩]
        exact .some hvalue
      · rw [if_neg fun heq => hkey heq.2.2, if_neg fun heq => hkey heq.2.2]
        exact h.bindings other image hfound key
    · have hne : found ≠ image := by
        rintro rfl
        exact hscope (h.covers.injective other scope found hfound himage)
      rw [if_neg fun heq => hscope heq.2.1, if_neg fun heq => hne heq.2.1]
      exact h.bindings other found hfound key
  · intro other hother key
    have hne : other ≠ scope := by
      rintro rfl
      cases hother.symm.trans himage
    rw [Store.binding?_define, if_neg fun heq => hne heq.2.1]
    exact h.idle other hother key
  · exact h.objects
  · exact h.fields
  · exact h.identities

theorem setField (h : store.Like p store') (object : Nat) (name : String) {value value' : Value}
    (hvalue : value.Like p value') :
    (store.setField object name value).Like p (store'.setField object name value') := by
  refine ⟨h.covers, h.bindings, h.idle, ?_, ?_, h.identities⟩
  · show (store'.objects.modify object _).size = (store.objects.modify object _).size
    rw [Array.size_modify, Array.size_modify, h.objects]
  · intro other key
    rw [Store.field?_setField, Store.field?_setField, h.objects]
    split
    · exact .some hvalue
    · exact h.fields other key

variable {idle : Option Nat} {env env' : Env}

/-- Variables have values that correspond, in the scopes where they are found. -/
theorem getAt? (h : store.Like p store') (henv : Env.Skips p idle env env') {distance : Nat}
    (hne : idle ≠ some distance) (name : String) :
    Option.Rel (Value.Like p) (store.getAt? env distance name)
      (store'.getAt? env' (skip idle distance) name) := by
  rw [Store.getAt?, Store.getAt?]
  rcases henv.getElem? hne with ⟨scope, image, hscope, himage, hpair⟩ | ⟨hscope, himage⟩
  · rw [hscope, himage]
    exact h.bindings scope image hpair name
  · rw [hscope, himage]
    exact .none

theorem global (h : store.Like p store') (name : String) :
    Option.Rel (Value.Like p) (store.get? Store.globalEnv name)
      (store'.get? Store.globalEnv name) := by
  rw [Store.get?, Store.get?, Store.globalEnv, List.findSome?_singleton,
    List.findSome?_singleton]
  exact h.bindings _ _ h.covers.globals name

end Store.Like

/-! ## Operations on worlds -/

/-- Scopes that an assignment finds: scopes that correspond, or the same fault. -/
inductive Pairing.Targets (p : Pairing) :
    Except RuntimeFault ScopeId → Except RuntimeFault ScopeId → Prop
  | ok {scope image : ScopeId} : p.images[scope]? = some (some image) →
      Targets p (.ok scope) (.ok image)
  | error (fault : RuntimeFault) : Targets p (.error fault) (.error fault)

namespace World.Like

variable {world world' : World} {idle : Option Nat} {env env' : Env}

theorem withStore (h : world.Like p world') {store store' : Store} (hgrows : p.Grows q)
    (hstore : store.Like q store') : (world.withStore store).Like q (world'.withStore store') :=
  ⟨hstore, h.real.trans hgrows.real.symm, h.direct.trans hgrows.direct.symm, h.output, h.clock⟩

theorem set (h : world.Like p world') {scope image : ScopeId}
    (himage : p.images[scope]? = some (some image)) (name : String) {value value' : Value}
    (hvalue : value.Like p value') :
    (world.set scope name value).Like p (world'.set image name value') :=
  h.withStore (.refl p) (h.store.define himage name hvalue)

/-- Nothing is declared in the scope that is left out. -/
theorem define (h : world.Like p world') (henv : Env.Skips p idle env env') (hidle : idle ≠ some 0)
    (name : String) {value value' : Value} (hvalue : value.Like p value') :
    (world.define env name value).Like p (world'.define env' name value') := by
  cases henv with
  | globals himage => exact h.set himage name hvalue
  | inner himage _ => exact h.set himage name hvalue
  | idle _ _ => exact absurd rfl hidle

/-- The recorded distances of an occurrence and its copy. -/
theorem distance_cases (h : world.Like p world') {occurrence occurrence' : Occurrence}
    (hoccurrence : occurrence.Like p idle occurrence') :
    occurrence'.name = occurrence.name ∧
      (world.distances[occurrence.id]? = none ∧ world'.distances[occurrence'.id]? = none ∨
        ∃ distance, world.distances[occurrence.id]? = some distance ∧
          world'.distances[occurrence'.id]? = some (skip idle distance) ∧
            idle ≠ some distance) := by
  obtain ⟨ids, rfl, hfits⟩ := hoccurrence
  have hdirect : world'.distances[ids occurrence.id]? =
      (world.distances[occurrence.id]?).map (skip idle) := by
    rw [h.real, h.direct]
    exact hfits.recorded
  refine ⟨rfl, ?_⟩
  change _ ∧ world'.distances[ids occurrence.id]? = none ∨
    ∃ distance, _ ∧ world'.distances[ids occurrence.id]? = some (skip idle distance) ∧ _
  rw [hdirect]
  cases hdistance : world.distances[occurrence.id]? with
  | none => exact .inl ⟨rfl, rfl⟩
  | some distance =>
      refine .inr ⟨distance, rfl, rfl, hfits.ne distance ?_⟩
      rw [h.real] at hdistance
      exact hdistance

theorem read (h : world.Like p world') (henv : Env.Skips p idle env env')
    {occurrence occurrence' : Occurrence} (hoccurrence : occurrence.Like p idle occurrence') :
    p.Results (world.read env occurrence) (world'.read env' occurrence') := by
  obtain ⟨hname, ⟨hreal, hdirect⟩ | ⟨distance, hreal, hdirect, hne⟩⟩ := h.distance_cases hoccurrence
  · rw [World.read, World.read, hreal, hdirect]
    dsimp only [Store.read]
    rw [hname]
    rcases optionRel_cases (h.store.global occurrence.name.lexeme) with
      ⟨value, value', hfound, hfound', hvalue⟩ | ⟨hfound, hfound'⟩
    · rw [hfound, hfound']
      exact .ok hvalue
    · rw [hfound, hfound']
      exact .error _
  · rw [World.read, World.read, hreal, hdirect]
    dsimp only [Store.readAt]
    rw [hname]
    rcases optionRel_cases (h.store.getAt? henv hne occurrence.name.lexeme) with
      ⟨value, value', hfound, hfound', hvalue⟩ | ⟨hfound, hfound'⟩
    · rw [hfound, hfound']
      exact .ok hvalue
    · rw [hfound, hfound']
      exact .error _

theorem target (h : world.Like p world') (henv : Env.Skips p idle env env')
    {occurrence occurrence' : Occurrence} (hoccurrence : occurrence.Like p idle occurrence') :
    p.Targets (world.target env occurrence) (world'.target env' occurrence') := by
  obtain ⟨hname, ⟨hreal, hdirect⟩ | ⟨distance, hreal, hdirect, hne⟩⟩ := h.distance_cases hoccurrence
  · rw [World.target, World.target, hreal, hdirect]
    dsimp only [Store.owner, Store.owner?, Store.globalEnv]
    rw [hname, List.find?_singleton, List.find?_singleton]
    rcases optionRel_cases (h.store.bindings _ _ h.store.covers.globals occurrence.name.lexeme) with
      ⟨value, value', hfound, hfound', -⟩ | ⟨hfound, hfound'⟩
    · rw [hfound, hfound']
      exact .ok h.store.covers.globals
    · rw [hfound, hfound']
      exact .error _
  · rw [World.target, World.target, hreal, hdirect]
    dsimp only [Store.ownerAt]
    rw [hname]
    rcases henv.getElem? hne with ⟨scope, image, hscope, himage, hpair⟩ | ⟨hscope, himage⟩
    · rw [hscope, himage]
      exact .ok hpair
    · rw [hscope, himage]
      exact .error _

theorem close (h : world.Like p world') {place : Option Nat → Option Nat}
    (henv : Env.Skips p idle env env') {declaration declaration' : FunctionDecl}
    (hdeclaration : declaration.Like p (place idle) declaration') {isInitializer : Bool}
    (hplace : isInitializer → place idle ≠ some 0) :
    (world.close env declaration isInitializer).1.Like p
        (world'.close env' declaration' isInitializer).1 ∧
      (world.close env declaration isInitializer).2.LikeAt p place
        (world'.close env' declaration' isInitializer).2 := by
  obtain ⟨hstore, hidentity⟩ := h.store.newIdentity
  refine ⟨h.withStore (.refl p) hstore, ?_⟩
  rw [World.close, World.close]
  dsimp only
  rw [hidentity]
  exact .mk henv hdeclaration hplace

/-- A bound method stands in a scope of its own. -/
theorem bind (h : world.Like p world') {method method' : Closure}
    (hmethod : method.LikeMethod p method') {object object' : Instance}
    (hobject : object.Like p object') :
    ∃ q, p.Grows q ∧ (world.bind method object).1.Like q (world'.bind method' object').1 ∧
      (world.bind method object).2.Like q (world'.bind method' object').2 := by
  have hgrows := p.grows_adding (some world'.store.scopes.size)
  have hthis : Bindings.Like p [(thisName, .object object)] [(thisName, .object object')] :=
    Bindings.like_singleton (.object hobject)
  have hscope := h.store.newScope hthis
  obtain ⟨hstore, hidentity⟩ := hscope.newIdentity
  refine ⟨_, hgrows, h.withStore hgrows hstore, ?_⟩
  have himage := h.store.image_newScope [(thisName, .object object)] [(thisName, .object object')]
  cases hmethod with
  | mk henv hdeclaration hplace =>
      rw [World.bind, World.bind]
      dsimp only
      rw [hidentity]
      exact .mk (.inner himage (henv.mono hgrows)) (hdeclaration.mono hgrows) hplace

theorem construct (h : world.Like p world') {ownClass ownClass' : Class}
    (hclass : ownClass.Like p ownClass') :
    (world.construct ownClass).1.Like p (world'.construct ownClass').1 ∧
      (world.construct ownClass).2.Like p (world'.construct ownClass').2 := by
  obtain ⟨hstore, hidentity⟩ := h.store.newObject
  refine ⟨h.withStore (.refl p) hstore, ?_⟩
  rw [World.construct, World.construct]
  dsimp only
  rw [hidentity]
  exact .mk hclass

theorem tick (h : world.Like p world') :
    world.tick.1.Like p world'.tick.1 ∧ world'.tick.2 = world.tick.2 := by
  rw [World.tick, World.tick, h.clock]
  exact ⟨⟨h.store, h.real, h.direct, h.output, rfl⟩, rfl⟩

theorem print (h : world.Like p world') {value value' : Value} (hvalue : value.Like p value') :
    (world.print value).1.Like p (world'.print value').1 ∧
      (world'.print value').2 = (world.print value).2 := by
  have hwrite :
      world'.output.write (value'.text ++ "\n") = world.output.write (value.text ++ "\n") := by
    rw [h.output, hvalue.text_eq]
  rw [World.print, World.print]
  dsimp only
  rw [hwrite]
  exact ⟨⟨h.store, h.real, h.direct, rfl, h.clock⟩, rfl⟩

/-- The property of an instance: a field, or a method that is bound to it. -/
theorem property (h : world.Like p world') {object object' : Instance}
    (hobject : object.Like p object') (name : Token) :
    ∃ q, p.Grows q ∧ (world.property object name).1.Like q (world'.property object' name).1 ∧
      q.Results (world.property object name).2 (world'.property object' name).2 := by
  have hsame := hobject
  cases hobject with
  | @mk identity ownClass ownClass' hclass =>
      rw [World.property, World.property]
      rcases optionRel_cases (h.store.fields identity name.lexeme) with
        ⟨value, value', hfound, hfound', hvalue⟩ | ⟨hfound, hfound'⟩
      · rw [hfound, hfound']
        exact ⟨p, .refl p, h, .ok hvalue⟩
      · rw [hfound, hfound']
        rcases optionRel_cases (hclass.findMethod? name.lexeme) with
          ⟨method, method', hmethod, hmethod', hlike⟩ | ⟨hmethod, hmethod'⟩
        · dsimp only
          rw [hmethod, hmethod']
          obtain ⟨q, hgrows, hworld, hclosure⟩ := h.bind hlike hsame
          exact ⟨q, hgrows, hworld, .ok (.function hclosure)⟩
        · dsimp only
          rw [hmethod, hmethod']
          exact ⟨p, .refl p, h, .error _⟩

/-- A method of the superclass.  The scope that is left out is neither that of the superclass nor
the one inside it. -/
theorem superMethod (h : world.Like p world') (henv : Env.Skips p idle env env')
    {occurrence occurrence' : Occurrence} (hoccurrence : occurrence.Like p idle occurrence')
    (hpred : ∀ distance, world.distances[occurrence.id]? = some distance →
      idle ≠ some (distance - 1)) (method : Token) :
    ∃ q, p.Grows q ∧
      (world.superMethod env occurrence method).1.Like q
        (world'.superMethod env' occurrence' method).1 ∧
      q.Results (world.superMethod env occurrence method).2
        (world'.superMethod env' occurrence' method).2 := by
  obtain ⟨hname, ⟨hreal, hdirect⟩ | ⟨distance, hreal, hdirect, hne⟩⟩ := h.distance_cases hoccurrence
  · rw [World.superMethod, World.superMethod, hreal, hdirect, hname]
    exact ⟨p, .refl p, h, .error _⟩
  · have hclass := h.store.getAt? henv hne occurrence.name.lexeme
    have hobject := h.store.getAt? henv (hpred distance hreal) thisName
    rw [skip_pred hne (hpred distance hreal)] at hobject
    rw [World.superMethod, World.superMethod, hreal, hdirect, hname]
    dsimp only
    rcases optionRel_cases hclass with ⟨found, found', hfound, hfound', hlike⟩ | ⟨hfound, hfound'⟩
    · rw [hfound, hfound']
      rcases optionRel_cases hobject with ⟨this, this', hthis, hthis', hlike'⟩ | ⟨hthis, hthis'⟩
      · rw [hthis, hthis']
        cases hlike with
        | classValue hclass =>
            cases hlike' with
            | object hobject =>
                dsimp only
                rcases optionRel_cases (hclass.findMethod? method.lexeme) with
                  ⟨bound, bound', hbound, hbound', hmethod⟩ | ⟨hbound, hbound'⟩
                · rw [hbound, hbound']
                  obtain ⟨q, hgrows, hworld, hclosure⟩ := h.bind hmethod hobject
                  exact ⟨q, hgrows, hworld, .ok (.function hclosure)⟩
                · rw [hbound, hbound']
                  exact ⟨p, .refl p, h, .error _⟩
            | _ => exact ⟨p, .refl p, h, .error _⟩
        | _ => cases hlike' <;> exact ⟨p, .refl p, h, .error _⟩
      · rw [hthis, hthis']
        cases hlike <;> exact ⟨p, .refl p, h, .error _⟩
    · rw [hfound, hfound']
      exact ⟨p, .refl p, h, .error _⟩

/-! ### Classes -/

/-- The methods of a class stand one scope inside the environment in which they are made. -/
theorem closeAll (h : world.Like p world') (henv : Env.Skips p idle env env')
    {methods methods' : List FunctionDecl}
    (hmethods : FunctionDecl.LikeAll p (deeper idle) methods methods') :
    (world.closeAll env methods).1.Like p (world'.closeAll env' methods').1 ∧
      Closure.LikeMethods p (world.closeAll env methods).2 (world'.closeAll env' methods').2 := by
  obtain ⟨ids, rfl, hfits⟩ := hmethods
  induction methods generalizing world world' with
  | nil => exact ⟨h, .nil⟩
  | cons method rest ih =>
      have hmethod : method.Like p (deeper idle) (method.relabel (.ofIds ids)) :=
        ⟨ids, rfl, hfits.1⟩
      obtain ⟨hclosed, hclosure⟩ := h.close henv hmethod
        fun _ : method.isInitializer => deeper_ne_zero idle
      obtain ⟨hworld, hrest⟩ := ih hclosed hfits.2
      have hinitializer := method.isInitializer_relabel (.ofIds ids)
      have hname := method.name_relabel (.ofIds ids)
      rw [FunctionDecl.relabelAll, World.closeAll, World.closeAll, hinitializer]
      refine ⟨hworld, .cons ⟨?_, hclosure⟩ hrest⟩
      rw [hname]
      rfl

/-- A class with its methods, which find the superclass in a scope around them. -/
theorem makeClass (h : world.Like p world') (henv : Env.Skips p idle env env') (name : String)
    {superclass superclass' : Option Class}
    (hsuperclass : Option.Rel (Class.Like p) superclass superclass')
    {methods methods' : List FunctionDecl}
    (hmethods : FunctionDecl.LikeAll p (deeper (if superclass.isSome then deeper idle else idle))
      methods methods') :
    ∃ q, p.Grows q ∧
      (world.makeClass env name superclass methods).1.Like q
        (world'.makeClass env' name superclass' methods').1 ∧
      (world.makeClass env name superclass methods).2.Like q
        (world'.makeClass env' name superclass' methods').2 := by
  cases hsuperclass with
  | none =>
      obtain ⟨hclosed, hclosures⟩ := h.closeAll henv hmethods
      obtain ⟨hstore, hidentity⟩ := hclosed.store.newIdentity
      refine ⟨p, .refl p, hclosed.withStore (.refl p) hstore, ?_⟩
      rw [World.makeClass, World.makeClass]
      dsimp only
      rw [hidentity]
      exact .base (List.forall₂_reverse_iff.2 hclosures)
  | @some superclass superclass' hclass =>
      have hgrows := p.grows_adding (some world'.store.scopes.size)
      have hsuper : Bindings.Like p [(superName, .classValue superclass)]
          [(superName, .classValue superclass')] := Bindings.like_singleton (.classValue hclass)
      have hopened := h.withStore hgrows (h.store.newScope hsuper)
      have hinside := Env.Skips.inner
        (h.store.image_newScope [(superName, .classValue superclass)]
          [(superName, .classValue superclass')]) (henv.mono hgrows)
      obtain ⟨hclosed, hclosures⟩ := hopened.closeAll hinside (hmethods.mono hgrows)
      obtain ⟨hstore, hidentity⟩ := hclosed.store.newIdentity
      refine ⟨_, hgrows, hclosed.withStore (.refl _) hstore, ?_⟩
      rw [World.makeClass, World.makeClass]
      dsimp only at hidentity ⊢
      rw [hidentity]
      exact .derived (hclass.mono hgrows) (List.forall₂_reverse_iff.2 hclosures)

end World.Like

end

end LoxLang
