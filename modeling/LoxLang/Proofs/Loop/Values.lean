import Mathlib.Data.Option.Basic
import LoxLang.Proofs.Loop.Idle
import LoxLang.Proofs.Scope.Relabeling

/-!
# Values of two runs

Two runs of a loop make the same values, up to what nobody can see: which number a scope has,
whether the environments contain scopes in which nothing is declared, and which numbers the
occurrences of the code have.  A `Pairing` says how the scopes of the two runs correspond, and
`Like` which values do.
-/

namespace LoxLang

/-! ## What may be missing -/

theorem optionRel_cases {α β : Type} {R : α → β → Prop} {a : Option α} {b : Option β}
    (h : Option.Rel R a b) :
    (∃ x y, a = some x ∧ b = some y ∧ R x y) ∨ a = none ∧ b = none := by
  cases h with
  | some hr => exact .inl ⟨_, _, rfl, rfl, hr⟩
  | none => exact .inr ⟨rfl, rfl⟩

theorem optionRel_imp {α β : Type} {R S : α → β → Prop} (hRS : ∀ x y, R x y → S x y)
    {a : Option α} {b : Option β} (h : Option.Rel R a b) : Option.Rel S a b := by
  cases h with
  | some hr => exact .some (hRS _ _ hr)
  | none => exact .none

/-! ## Scopes that correspond -/

/-- How the scopes of two runs correspond, and what has been recorded in each of them. -/
structure Pairing where
  real : Distances
  direct : Distances
  /-- The scope that stands in the second run for each one of the first; none for a scope that is
  left out. -/
  images : List (Option ScopeId)

namespace Pairing

/-- What is recorded about code, and about a copy of it with other numbers. -/
def records (p : Pairing) (ids : NodeId → NodeId) : Records where
  real id := p.real[id]?
  direct id := p.direct[ids id]?

/-- More scopes correspond. -/
structure Grows (p q : Pairing) : Prop where
  real : q.real = p.real
  direct : q.direct = p.direct
  images : p.images <+: q.images

/-- The pairing in which one more scope has an image, or is left out. -/
def adding (p : Pairing) (image : Option ScopeId) : Pairing :=
  { p with images := p.images ++ [image] }

theorem grows_adding (p : Pairing) (image : Option ScopeId) : p.Grows (p.adding image) :=
  ⟨rfl, rfl, List.prefix_append _ _⟩

namespace Grows

variable {p q r : Pairing}

theorem refl (p : Pairing) : p.Grows p :=
  ⟨rfl, rfl, List.prefix_rfl⟩

theorem trans (h : p.Grows q) (h' : q.Grows r) : p.Grows r :=
  ⟨h'.real.trans h.real, h'.direct.trans h.direct, h.images.trans h'.images⟩

theorem image (h : p.Grows q) {scope : ScopeId} {image : Option ScopeId}
    (himage : p.images[scope]? = some image) : q.images[scope]? = some image := by
  obtain ⟨hlt, rfl⟩ := List.getElem?_eq_some_iff.1 himage
  exact List.prefix_iff_getElem?.1 h.images scope hlt

theorem records (h : p.Grows q) (ids : NodeId → NodeId) : q.records ids = p.records ids := by
  rw [Pairing.records, Pairing.records, h.real, h.direct]

end Grows

/-- A piece of code and a copy of it with other numbers, of which it fits what is recorded. -/
def Copies {α : Type} (p : Pairing) (relabel : Relabeling → α → α)
    (Fits : Records → Option Nat → α → Prop) (idle : Option Nat) (code copy : α) : Prop :=
  ∃ ids, copy = relabel (.ofIds ids) code ∧ Fits (p.records ids) idle code

theorem Copies.mono {α : Type} {p q : Pairing} {relabel : Relabeling → α → α}
    {Fits : Records → Option Nat → α → Prop} {idle : Option Nat} {code copy : α}
    (h : p.Copies relabel Fits idle code copy) (hgrows : p.Grows q) :
    q.Copies relabel Fits idle code copy := by
  obtain ⟨ids, hcopy, hfits⟩ := h
  exact ⟨ids, hcopy, (hgrows.records ids).symm ▸ hfits⟩

end Pairing

section

variable (p : Pairing) (idle : Option Nat)

abbrev Occurrence.Like : Occurrence → Occurrence → Prop :=
  p.Copies Relabeling.occurrence Occurrence.Fits idle

abbrev Expr.Like : Expr → Expr → Prop :=
  p.Copies Expr.relabel Expr.Fits idle

abbrev Expr.LikeAll : List Expr → List Expr → Prop :=
  p.Copies Expr.relabelAll Expr.FitsAll idle

abbrev Stmt.Like : Stmt → Stmt → Prop :=
  p.Copies Stmt.relabel Stmt.Fits idle

abbrev Stmt.LikeAll : List Stmt → List Stmt → Prop :=
  p.Copies Stmt.relabelAll Stmt.FitsAll idle

abbrev FunctionDecl.Like : FunctionDecl → FunctionDecl → Prop :=
  p.Copies FunctionDecl.relabel FunctionDecl.Fits idle

abbrev FunctionDecl.LikeAll : List FunctionDecl → List FunctionDecl → Prop :=
  p.Copies FunctionDecl.relabelAll FunctionDecl.FitsAll idle

end

/-- Environments that correspond, with at most one scope left out. -/
inductive Env.Skips (p : Pairing) : Option Nat → Env → Env → Prop
  | globals : p.images[Store.globalScope]? = some (some Store.globalScope) →
      Skips p none Store.globalEnv Store.globalEnv
  | inner {idle : Option Nat} {scope image : ScopeId} {env env' : Env} :
      p.images[scope]? = some (some image) → Skips p idle env env' →
      Skips p (deeper idle) (scope :: env) (image :: env')
  | idle {scope : ScopeId} {env env' : Env} :
      p.images[scope]? = some none → Skips p none env env' →
      Skips p (some 0) (scope :: env) env'

namespace Env.Skips

variable {p q : Pairing} {idle : Option Nat} {env env' : Env}

theorem mono (h : Env.Skips p idle env env') (hgrows : p.Grows q) : Env.Skips q idle env env' := by
  induction h with
  | globals himage => exact .globals (hgrows.image himage)
  | inner himage _ ih => exact .inner (hgrows.image himage) ih
  | idle himage _ ih => exact .idle (hgrows.image himage) ih

/-- Scopes are found where they were, one scope nearer if the one that is left out was on the
way. -/
theorem getElem? (h : Env.Skips p idle env env') {distance : Nat} (hne : idle ≠ some distance) :
    (∃ scope image, env[distance]? = some scope ∧ env'[skip idle distance]? = some image ∧
      p.images[scope]? = some (some image)) ∨
    env[distance]? = none ∧ env'[skip idle distance]? = none := by
  induction h generalizing distance with
  | globals himage =>
      cases distance with
      | zero => exact .inl ⟨_, _, rfl, rfl, himage⟩
      | succ distance => exact .inr ⟨rfl, rfl⟩
  | @inner idle scope image env env' himage _ ih =>
      cases distance with
      | zero =>
          rw [skip_zero]
          exact .inl ⟨_, _, rfl, rfl, himage⟩
      | succ distance =>
          have hne' : idle ≠ some distance := fun heq => hne (deeper_eq_succ_iff.2 heq)
          rw [skip_deeper hne']
          exact ih hne'
  | @idle scope env env' _ _ ih =>
      cases distance with
      | zero => exact absurd rfl hne
      | succ distance =>
          have hne' : (none : Option Nat) ≠ some distance := nofun
          exact ih hne'

/-- Unless the innermost scope is the one that is left out, the innermost scopes correspond. -/
theorem head? (h : Env.Skips p idle env env') (hidle : idle ≠ some 0) :
    ∃ scope image, env.head? = some scope ∧ env'.head? = some image ∧
      p.images[scope]? = some (some image) := by
  cases h with
  | globals himage => exact ⟨_, _, rfl, rfl, himage⟩
  | inner himage _ => exact ⟨_, _, rfl, rfl, himage⟩
  | idle _ _ => exact absurd rfl hidle

end Env.Skips

/-! ## Values that correspond -/

/-- Functions with the same identity and the same code, in environments that correspond.  The code
stands at some place inside the environment: that of a method stands one scope further inside. -/
inductive Closure.LikeAt (p : Pairing) (place : Option Nat → Option Nat) :
    Closure → Closure → Prop
  | mk {identity : Nat} {declaration declaration' : FunctionDecl} {env env' : Env}
      {isInitializer : Bool} {idle : Option Nat} :
      Env.Skips p idle env env' → declaration.Like p (place idle) declaration' →
      (isInitializer → place idle ≠ some 0) →
      LikeAt p place ⟨identity, declaration, env, isInitializer⟩
        ⟨identity, declaration', env', isInitializer⟩

/-- A function that can be called. -/
abbrev Closure.Like (p : Pairing) : Closure → Closure → Prop :=
  Closure.LikeAt p id

/-- A method as its class has it. -/
abbrev Closure.LikeMethod (p : Pairing) : Closure → Closure → Prop :=
  Closure.LikeAt p deeper

/-- Methods under the same names. -/
abbrev Closure.LikeMethods (p : Pairing) :
    List (String × Closure) → List (String × Closure) → Prop :=
  List.Forall₂ fun entry entry' => entry.1 = entry'.1 ∧ Closure.LikeMethod p entry.2 entry'.2

inductive Class.Like (p : Pairing) : Class → Class → Prop
  | base {identity : Nat} {name : String} {methods methods' : List (String × Closure)} :
      Closure.LikeMethods p methods methods' →
      Like p ⟨identity, name, none, methods⟩ ⟨identity, name, none, methods'⟩
  | derived {identity : Nat} {name : String} {superclass superclass' : Class}
      {methods methods' : List (String × Closure)} :
      Like p superclass superclass' → Closure.LikeMethods p methods methods' →
      Like p ⟨identity, name, some superclass, methods⟩ ⟨identity, name, some superclass', methods'⟩

inductive Instance.Like (p : Pairing) : Instance → Instance → Prop
  | mk {identity : Nat} {ownClass ownClass' : Class} :
      ownClass.Like p ownClass' → Like p ⟨identity, ownClass⟩ ⟨identity, ownClass'⟩

inductive Value.Like (p : Pairing) : Value → Value → Prop
  | nil : Like p .nil .nil
  | bool (value : Bool) : Like p (.bool value) (.bool value)
  | number (value : Float) : Like p (.number value) (.number value)
  | string (value : String) : Like p (.string value) (.string value)
  | builtin (native : Builtin) : Like p (.builtin native) (.builtin native)
  | function {closure closure' : Closure} : closure.Like p closure' →
      Like p (.function closure) (.function closure')
  | classValue {ownClass ownClass' : Class} : ownClass.Like p ownClass' →
      Like p (.classValue ownClass) (.classValue ownClass')
  | object {object object' : Instance} : object.Like p object' →
      Like p (.object object) (.object object')

/-- Results of parts that correspond: the same fault, or values that correspond. -/
inductive Pairing.Results {ε : Type} (p : Pairing) : Except ε Value → Except ε Value → Prop
  | ok {value value' : Value} : value.Like p value' → Results p (.ok value) (.ok value')
  | error (fault : ε) : Results p (.error fault) (.error fault)

section

variable {p q : Pairing}

theorem Closure.LikeAt.mono {place : Option Nat → Option Nat} {closure closure' : Closure}
    (h : closure.LikeAt p place closure') (hgrows : p.Grows q) :
    closure.LikeAt q place closure' := by
  cases h with
  | mk henv hdeclaration hinitializer =>
      exact .mk (henv.mono hgrows) (hdeclaration.mono hgrows) hinitializer

theorem Closure.LikeMethods.mono {methods methods' : List (String × Closure)}
    (h : Closure.LikeMethods p methods methods') (hgrows : p.Grows q) :
    Closure.LikeMethods q methods methods' :=
  h.imp fun _ _ hentry => ⟨hentry.1, hentry.2.mono hgrows⟩

theorem Class.Like.mono {ownClass ownClass' : Class} (h : ownClass.Like p ownClass')
    (hgrows : p.Grows q) : ownClass.Like q ownClass' := by
  induction h with
  | base hmethods => exact .base (Closure.LikeMethods.mono hmethods hgrows)
  | derived _ hmethods ih => exact .derived ih (Closure.LikeMethods.mono hmethods hgrows)

theorem Instance.Like.mono {object object' : Instance} (h : object.Like p object')
    (hgrows : p.Grows q) : object.Like q object' := by
  cases h with
  | mk hclass => exact .mk (hclass.mono hgrows)

theorem Value.Like.mono {value value' : Value} (h : value.Like p value') (hgrows : p.Grows q) :
    value.Like q value' := by
  cases h with
  | nil => exact .nil
  | bool value => exact .bool value
  | number value => exact .number value
  | string value => exact .string value
  | builtin native => exact .builtin native
  | function hclosure => exact .function (hclosure.mono hgrows)
  | classValue hclass => exact .classValue (hclass.mono hgrows)
  | object hobject => exact .object (hobject.mono hgrows)

theorem Value.Like.mono_all {values values' : List Value}
    (h : List.Forall₂ (Value.Like p) values values') (hgrows : p.Grows q) :
    List.Forall₂ (Value.Like q) values values' :=
  h.imp fun _ _ hvalue => hvalue.mono hgrows

end

/-! ## What can be seen of values -/

section

variable {p : Pairing}

theorem Closure.LikeAt.name_eq {place : Option Nat → Option Nat} {closure closure' : Closure}
    (h : closure.LikeAt p place closure') : closure'.name = closure.name := by
  cases h with
  | mk _ hdeclaration _ =>
      obtain ⟨ids, rfl, -⟩ := hdeclaration
      exact congrArg Token.lexeme (FunctionDecl.name_relabel _ _)

theorem Closure.LikeAt.arity_eq {place : Option Nat → Option Nat} {closure closure' : Closure}
    (h : closure.LikeAt p place closure') : closure'.arity = closure.arity := by
  cases h with
  | @mk _ declaration _ _ _ _ _ _ hdeclaration _ =>
      obtain ⟨ids, rfl, -⟩ := hdeclaration
      cases declaration
      exact List.length_map _

theorem Closure.LikeAt.identity_eq {place : Option Nat → Option Nat} {closure closure' : Closure}
    (h : closure.LikeAt p place closure') : closure'.identity = closure.identity := by
  cases h
  rfl

theorem Class.Like.name_eq {ownClass ownClass' : Class} (h : ownClass.Like p ownClass') :
    ownClass'.name = ownClass.name := by
  cases h <;> rfl

theorem Class.Like.identity_eq {ownClass ownClass' : Class} (h : ownClass.Like p ownClass') :
    ownClass'.identity = ownClass.identity := by
  cases h <;> rfl

theorem Closure.LikeMethods.lookup {methods methods' : List (String × Closure)}
    (h : Closure.LikeMethods p methods methods') (name : String) :
    Option.Rel (Closure.LikeMethod p) (methods.lookup name) (methods'.lookup name) := by
  induction h with
  | nil => exact .none
  | @cons entry entry' methods methods' hentry _ ih =>
      obtain ⟨key, closure⟩ := entry
      obtain ⟨key', closure'⟩ := entry'
      obtain ⟨rfl, hclosure⟩ := hentry
      rw [List.lookup_cons, List.lookup_cons]
      cases name == key with
      | true => exact .some hclosure
      | false => exact ih

/-- The same methods are found. -/
theorem Class.Like.findMethod? {ownClass ownClass' : Class} (h : ownClass.Like p ownClass')
    (name : String) :
    Option.Rel (Closure.LikeMethod p) (ownClass.findMethod? name)
      (ownClass'.findMethod? name) := by
  induction h with
  | base hmethods => exact Closure.LikeMethods.lookup hmethods name
  | @derived _ _ superclass superclass' methods methods' _ hmethods ih =>
      have hown := Closure.LikeMethods.lookup hmethods name
      rw [Class.findMethod?, Class.findMethod?]
      revert hown
      generalize methods.lookup name = found, methods'.lookup name = found'
      intro hown
      cases hown with
      | some hmethod => exact .some hmethod
      | none => exact ih

theorem Class.Like.arity_eq {ownClass ownClass' : Class} (h : ownClass.Like p ownClass') :
    ownClass'.arity = ownClass.arity := by
  have hfound := h.findMethod? FunctionDecl.initializerName
  rw [Class.arity, Class.arity, Class.initializer?, Class.initializer?]
  revert hfound
  generalize ownClass.findMethod? _ = found, ownClass'.findMethod? _ = found'
  intro hfound
  cases hfound with
  | some hmethod => exact hmethod.arity_eq
  | none => rfl

namespace Value.Like

variable {value value' left left' right right' : Value}

theorem isTruthy_eq (h : value.Like p value') : value'.isTruthy = value.isTruthy := by
  cases h <;> rfl

theorem decides_eq (h : value.Like p value') (operator : Kind) :
    value'.decides operator = value.decides operator := by
  rw [Value.decides, Value.decides, h.isTruthy_eq]

theorem arity?_eq (h : value.Like p value') : value'.arity? = value.arity? := by
  cases h with
  | function hclosure => exact congrArg some hclosure.arity_eq
  | classValue hclass => exact congrArg some hclass.arity_eq
  | _ => rfl

/-- Values that correspond are printed in the same way. -/
theorem text_eq (h : value.Like p value') : value'.text = value.text := by
  cases h with
  | function hclosure => rw [Value.text, Value.text, hclosure.name_eq]
  | classValue hclass => rw [Value.text, Value.text, hclass.name_eq]
  | object hobject =>
      cases hobject with
      | mk hclass => rw [Value.text, Value.text, hclass.name_eq]
  | _ => rfl

/-- Values that correspond are equal to values that correspond. -/
theorem equals_eq (hleft : left.Like p left') (hright : right.Like p right') :
    left'.equals right' = left.equals right := by
  cases hleft with
  | function hclosure =>
      cases hright with
      | function hclosure' =>
          rw [Value.equals, Value.equals, hclosure.identity_eq, hclosure'.identity_eq]
      | _ => rfl
  | classValue hclass =>
      cases hright with
      | classValue hclass' =>
          rw [Value.equals, Value.equals, hclass.identity_eq, hclass'.identity_eq]
      | _ => rfl
  | object hobject =>
      cases hobject
      cases hright with
      | object hobject' =>
          cases hobject'
          rfl
      | _ => rfl
  | _ => cases hright <;> rfl

theorem unary (h : value.Like p value') (operator : Kind) :
    p.Results (value.unary operator) (value'.unary operator) := by
  have htruthy := h.isTruthy_eq
  unfold Value.unary
  split
  · rw [htruthy]
    exact .ok (.bool _)
  · cases h with
    | number value => exact .ok (.number _)
    | _ => exact .error _
  · exact .error _

theorem add (hleft : left.Like p left') (hright : right.Like p right') :
    p.Results (left.add right) (left'.add right') := by
  cases hleft with
  | number value =>
      cases hright with
      | number other => exact .ok (.number _)
      | _ => exact .error _
  | string value =>
      cases hright with
      | string other => exact .ok (.string _)
      | _ => exact .error _
  | _ => exact .error _

theorem arithmetic (operator : Kind) (left right : Float) :
    p.Results (Value.arithmetic operator left right) (Value.arithmetic operator left right) := by
  unfold Value.arithmetic
  split
  · exact .ok (.number _)
  · exact .ok (.number _)
  · exact .ok (.number _)
  · exact .ok (.bool _)
  · exact .ok (.bool _)
  · exact .ok (.bool _)
  · exact .ok (.bool _)
  · exact .error _

theorem binary (hleft : left.Like p left') (hright : right.Like p right') (operator : Kind) :
    p.Results (left.binary operator right) (left'.binary operator right') := by
  have hequals := hleft.equals_eq hright
  unfold Value.binary
  split
  · rw [hequals]
    exact .ok (.bool _)
  · rw [hequals]
    exact .ok (.bool _)
  · exact hleft.add hright
  · cases hleft with
    | number value =>
        cases hright with
        | number other => exact arithmetic operator value other
        | _ => exact .error _
    | _ => exact .error _

theorem ofLiteral (literal : Literal) :
    (Value.ofLiteral literal).Like p (Value.ofLiteral literal) := by
  cases literal with
  | nil => exact .nil
  | bool value => exact .bool value
  | number value => exact .number value
  | string value => exact .string value

end Value.Like

theorem Pairing.Results.mapError {ε ε' : Type} {result result' : Except ε Value}
    (h : p.Results result result') (f : ε → ε') :
    p.Results (result.mapError f) (result'.mapError f) := by
  cases h with
  | ok hvalue => exact .ok hvalue
  | error fault => exact .error _

end

end LoxLang
