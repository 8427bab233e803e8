import LoxLang.Proofs.Scope.Distances

/-!
# Scopes in which nothing is declared

A block in which nothing is declared needs no scope.  If its scope is left out, the code inside
finds what is bound outside of it one scope nearer, and everything else where it was.  A piece of
code `Fits` if what is recorded about its occurrences differs in this way and no other.
-/

namespace LoxLang

/-! ## Distances without the scope -/

/-- How far out a scope is that is left out, seen from one scope further inside. -/
def deeper (idle : Option Nat) : Option Nat :=
  idle.map (· + 1)

/-- The number of scopes to go out when one of them is left out. -/
def skip (idle : Option Nat) (distance : Nat) : Nat :=
  match idle with
  | none => distance
  | some place => if place < distance then distance - 1 else distance

@[simp] theorem deeper_ne_zero (idle : Option Nat) : deeper idle ≠ some 0 := by
  cases idle <;> simp [deeper]

theorem deeper_eq_succ_iff {idle : Option Nat} {distance : Nat} :
    deeper idle = some (distance + 1) ↔ idle = some distance := by
  cases idle <;> simp [deeper]

@[simp] theorem skip_zero (idle : Option Nat) : skip idle 0 = 0 := by
  cases idle <;> simp [skip]

theorem skip_deeper {idle : Option Nat} {distance : Nat} (h : idle ≠ some distance) :
    skip (deeper idle) (distance + 1) = skip idle distance + 1 := by
  cases idle with
  | none => rfl
  | some place =>
      have hne : place ≠ distance := fun heq => h (congrArg some heq)
      simp only [deeper, skip, Option.map_some]
      split <;> split <;> omega

/-- The scope in front of another one is still in front of it. -/
theorem skip_pred {idle : Option Nat} {distance : Nat} (h : idle ≠ some distance)
    (hpred : idle ≠ some (distance - 1)) : skip idle (distance - 1) = skip idle distance - 1 := by
  cases idle with
  | none => rfl
  | some place =>
      have hne : place ≠ distance := fun heq => h (congrArg some heq)
      have hne' : place ≠ distance - 1 := fun heq => hpred (congrArg some heq)
      simp only [skip]
      split <;> split <;> omega

/-! ## Scopes without the scope -/

namespace Scopes

/-- The same scopes, apart from one of them in which there are no names.  It does not stand between
the two scopes that a class opens. -/
inductive Skips : Option Nat → Scopes → Scopes → Prop
  | same (scopes : Scopes) : Skips none scopes scopes
  | idle {scopes : Scopes} : scopes.innermost? superName = none →
      Skips (some 0) ([] :: scopes) scopes
  | inner {idle : Option Nat} {scopes scopes' : Scopes} (scope : ScopeNames) :
      Skips idle scopes scopes' → Skips (deeper idle) (scope :: scopes) (scope :: scopes')

namespace Skips

variable {idle : Option Nat} {scopes scopes' : Scopes}

/-- Names are found where they were, one scope nearer if the scope was on the way. -/
theorem distance? (h : Skips idle scopes scopes') (name : String) :
    scopes'.distance? name = (scopes.distance? name).map (skip idle) ∧
      ∀ distance, scopes.distance? name = some distance → idle ≠ some distance := by
  induction h with
  | same scopes => exact ⟨Option.map_id'.symm, fun _ _ heq => by cases heq⟩
  | @idle scopes _ =>
      rw [show Scopes.distance? ([] :: scopes) name = (scopes.distance? name).map (· + 1) from
        List.findIdx?_cons]
      constructor
      · rw [Option.map_map]
        exact Option.map_id'.symm
      · intro distance hdistance heq
        obtain ⟨outer, -, rfl⟩ := Option.map_eq_some_iff.1 hdistance
        cases heq
  | @inner idle scopes scopes' scope _ ih =>
      obtain ⟨hsame, hplace⟩ := ih
      rw [Scopes.distance?, Scopes.distance?, List.findIdx?_cons, List.findIdx?_cons]
      split
      · exact ⟨by simp, fun distance hdistance heq => by
          cases hdistance
          exact deeper_ne_zero idle heq⟩
      · change ((scopes'.distance? name).map (· + 1)) = _ ∧ _
        rw [hsame]
        constructor
        · change _ = ((scopes.distance? name).map (· + 1)).map _
          cases hfound : scopes.distance? name with
          | none => rfl
          | some distance => exact congrArg some (skip_deeper (hplace distance hfound)).symm
        · intro distance hdistance heq
          obtain ⟨outer, houter, rfl⟩ := Option.map_eq_some_iff.1 hdistance
          exact hplace outer houter (deeper_eq_succ_iff.1 heq)

/-- The scope in front of the one that has the superclass is not left out. -/
theorem ne_pred (h : Skips idle scopes scopes') {distance : Nat}
    (hdistance : scopes.distance? superName = some distance) : idle ≠ some (distance - 1) := by
  induction h generalizing distance with
  | same scopes => exact fun heq => by cases heq
  | @idle scopes hnone =>
      rw [show Scopes.distance? ([] :: scopes) superName =
        (scopes.distance? superName).map (· + 1) from List.findIdx?_cons] at hdistance
      obtain ⟨outer, houter, rfl⟩ := Option.map_eq_some_iff.1 hdistance
      cases outer with
      | succ outer => exact fun heq => by cases heq
      | zero =>
          cases scopes with
          | nil => cases houter
          | cons scope scopes =>
              have hfound : (scope.lookup superName).isSome := by
                rw [Scopes.distance?, List.findIdx?_cons] at houter
                split at houter
                · next hsome => exact hsome
                · obtain ⟨_, _, hsucc⟩ := Option.map_eq_some_iff.1 houter
                  cases hsucc
              rw [show scope.lookup superName = none from hnone] at hfound
              cases hfound
  | @inner idle scopes scopes' scope _ ih =>
      rw [Scopes.distance?, List.findIdx?_cons] at hdistance
      split at hdistance
      · cases hdistance
        exact deeper_ne_zero idle
      · obtain ⟨outer, houter, rfl⟩ := Option.map_eq_some_iff.1 hdistance
        cases outer with
        | zero => exact deeper_ne_zero idle
        | succ outer => exact fun heq => ih houter (deeper_eq_succ_iff.1 heq)

theorem innermost? (h : Skips idle scopes scopes') (hidle : idle ≠ some 0) (name : String) :
    scopes'.innermost? name = scopes.innermost? name := by
  cases h with
  | same scopes => rfl
  | idle _ => exact absurd rfl hidle
  | inner scope _ => rfl

/-- A name that is declared in both. -/
theorem enter (h : Skips idle scopes scopes') (hidle : idle ≠ some 0) (name : String)
    (readable : Bool) : Skips idle (scopes.enter name readable) (scopes'.enter name readable) := by
  cases h with
  | same scopes => exact .same _
  | idle _ => exact absurd rfl hidle
  | inner scope h => exact .inner _ h

theorem after (h : Skips idle scopes scopes') (hidle : idle ≠ some 0) (statement : Stmt) :
    Skips idle (scopes.after statement) (scopes'.after statement) := by
  cases statement with
  | varDecl name _ => exact h.enter hidle _ _
  | function declaration => exact h.enter hidle _ _
  | classDecl name _ _ => exact h.enter hidle _ _
  | _ => exact h

theorem withParams (h : Skips idle scopes scopes') (params : List Token) :
    Skips (deeper idle) (scopes.withParams params) (scopes'.withParams params) := by
  rw [Scopes.withParams, Scopes.withParams, Path.foldl_enter, Path.foldl_enter]
  exact .inner _ h

/-- The scopes around the methods of a class. -/
theorem classBody (h : Skips idle scopes scopes') (hidle : idle ≠ some 0) (name : Token)
    (superclass : Option Occurrence) :
    Skips (deeper (if superclass.isSome then deeper idle else idle))
      (scopes.classBody name superclass) (scopes'.classBody name superclass) := by
  have hinside := h.enter hidle name.lexeme true
  cases superclass with
  | none => exact .inner _ hinside
  | some superclass => exact .inner _ (.inner _ hinside)

end Skips

end Scopes

/-! ## Code without the scope -/

/-- What is recorded under the numbers of occurrences, with the scope and without it. -/
structure Records where
  real : NodeId → Option Nat
  direct : NodeId → Option Nat

/-- An occurrence whose binding is where it was, one scope nearer if the scope was on the way. -/
structure Occurrence.Fits (r : Records) (idle : Option Nat) (occurrence : Occurrence) : Prop where
  recorded : r.direct occurrence.id = (r.real occurrence.id).map (skip idle)
  ne : ∀ distance, r.real occurrence.id = some distance → idle ≠ some distance

mutual

/-- An expression all of whose occurrences fit. -/
def Expr.Fits (r : Records) (idle : Option Nat) : Expr → Prop
  | .literal _ => True
  | .grouping inner => inner.Fits r idle
  | .unary _ operand => operand.Fits r idle
  | .binary _ left right => left.Fits r idle ∧ right.Fits r idle
  | .logical _ left right => left.Fits r idle ∧ right.Fits r idle
  | .variable occurrence => occurrence.Fits r idle
  | .assign target value => target.Fits r idle ∧ value.Fits r idle
  | .call callee _ arguments => callee.Fits r idle ∧ Expr.FitsAll r idle arguments
  | .get object _ => object.Fits r idle
  | .set object _ value => object.Fits r idle ∧ value.Fits r idle
  | .thisRef occurrence => occurrence.Fits r idle
  | .superRef occurrence _ =>
      occurrence.Fits r idle ∧
        ∀ distance, r.real occurrence.id = some distance → idle ≠ some (distance - 1)

/-- Several expressions all of which fit. -/
def Expr.FitsAll (r : Records) (idle : Option Nat) : List Expr → Prop
  | [] => True
  | expression :: rest => expression.Fits r idle ∧ Expr.FitsAll r idle rest

end

mutual

/-- A statement all of whose occurrences fit.  Nothing is declared in the scope that is left out. -/
def Stmt.Fits (r : Records) (idle : Option Nat) : Stmt → Prop
  | .block body => Stmt.FitsAll r (deeper idle) body
  | .classDecl _ superclass methods =>
      idle ≠ some 0 ∧ (∀ occurrence ∈ superclass, occurrence.Fits r idle) ∧
        FunctionDecl.FitsAll r (deeper (if superclass.isSome then deeper idle else idle)) methods
  | .expression value => value.Fits r idle
  | .function declaration => idle ≠ some 0 ∧ declaration.Fits r idle
  | .conditional condition thenBranch elseBranch =>
      condition.Fits r idle ∧ thenBranch.Fits r idle ∧
        match elseBranch with
        | none => True
        | some elseBranch => elseBranch.Fits r idle
  | .print value => value.Fits r idle
  | .returnValue _ value => ∀ expression ∈ value, expression.Fits r idle
  | .varDecl _ initializer => idle ≠ some 0 ∧ ∀ expression ∈ initializer, expression.Fits r idle
  | .whileLoop condition body => condition.Fits r idle ∧ body.Fits r idle

/-- Several statements all of which fit. -/
def Stmt.FitsAll (r : Records) (idle : Option Nat) : List Stmt → Prop
  | [] => True
  | statement :: rest => statement.Fits r idle ∧ Stmt.FitsAll r idle rest

/-- A function whose body fits. -/
def FunctionDecl.Fits (r : Records) (idle : Option Nat) : FunctionDecl → Prop
  | .mk _ _ body => Stmt.FitsAll r (deeper idle) body

/-- Several functions all of which fit. -/
def FunctionDecl.FitsAll (r : Records) (idle : Option Nat) : List FunctionDecl → Prop
  | [] => True
  | method :: rest => method.Fits r idle ∧ FunctionDecl.FitsAll r idle rest

end

/-! ## What is found is recorded -/

/-- What a finding says about an occurrence is recorded. -/
def Finding.Tells (record : NodeId → Option Nat) : Finding → Prop
  | .binding occurrence distance => record occurrence.id = distance
  | .fault _ => True

/-- What is found in some code is recorded, both with the scope and without it, and with it no fault
is found. -/
structure Found (r : Records) (findings findings' : List Finding) : Prop where
  clean : ∀ finding ∈ findings, finding.fault? = none
  real : ∀ finding ∈ findings, finding.Tells r.real
  direct : ∀ finding ∈ findings', finding.Tells r.direct

namespace Found

variable {r : Records} {first first' second second' : List Finding}

theorem of_subset (h : Found r first first') (hsub : second ⊆ first) (hsub' : second' ⊆ first') :
    Found r second second' where
  clean finding hfinding := h.clean finding (hsub hfinding)
  real finding hfinding := h.real finding (hsub hfinding)
  direct finding hfinding := h.direct finding (hsub' hfinding)

theorem left (h : Found r (first ++ second) (first' ++ second')) : Found r first first' :=
  h.of_subset (List.subset_append_left _ _) (List.subset_append_left _ _)

theorem right (h : Found r (first ++ second) (first' ++ second')) : Found r second second' :=
  h.of_subset (List.subset_append_right _ _) (List.subset_append_right _ _)

variable {idle : Option Nat} {scopes scopes' : Scopes} {occurrence : Occurrence}

/-- An occurrence whose binding is found fits. -/
theorem binding (h : Found r first first') (hskips : scopes.Skips idle scopes')
    (hmem : scopes.binding occurrence ∈ first) (hmem' : scopes'.binding occurrence ∈ first') :
    occurrence.Fits r idle := by
  have hreal : r.real occurrence.id = scopes.distance? occurrence.name.lexeme := h.real _ hmem
  have hdirect : r.direct occurrence.id = scopes'.distance? occurrence.name.lexeme :=
    h.direct _ hmem'
  obtain ⟨hsame, hne⟩ := hskips.distance? occurrence.name.lexeme
  constructor
  · rw [hdirect, hreal, hsame]
  · rw [hreal]
    exact hne

theorem reading (h : Found r (scopes.reading occurrence) (scopes'.reading occurrence))
    (hskips : scopes.Skips idle scopes') : occurrence.Fits r idle :=
  h.binding hskips (List.mem_append_right _ (List.mem_singleton_self _))
    (List.mem_append_right _ (List.mem_singleton_self _))

theorem usingThis {context : Context}
    (h : Found r (context.usingThis occurrence scopes) (context.usingThis occurrence scopes'))
    (hskips : scopes.Skips idle scopes') : occurrence.Fits r idle := by
  unfold Context.usingThis at h
  cases hclass : context.classBody with
  | outside =>
      rw [hclass] at h
      cases h.clean _ (List.mem_singleton_self _)
  | plain =>
      rw [hclass] at h
      exact h.binding hskips (List.mem_singleton_self _) (List.mem_singleton_self _)
  | derived =>
      rw [hclass] at h
      exact h.binding hskips (List.mem_singleton_self _) (List.mem_singleton_self _)

end Found

/-! ## Code fits -/

section

variable {r : Records} {idle : Option Nat} {scopes scopes' : Scopes} {context : Context}

mutual

/-- Code fits if what is found in it, with the scope and without it, is recorded. -/
theorem Expr.fits (hskips : scopes.Skips idle scopes') :
    (expression : Expr) → expression.Formed Token.Genuine →
      Found r (expression.findings context scopes) (expression.findings context scopes') →
      expression.Fits r idle
  | .literal _, _, _ => trivial
  | .grouping inner, hformed, h => inner.fits hskips (hformed.operand (.head _)) h
  | .unary _ operand, hformed, h => operand.fits hskips (hformed.operand (.head _)) h
  | .binary _ left right, hformed, h =>
      ⟨left.fits hskips (hformed.operand (.head _)) h.left,
        right.fits hskips (hformed.operand (.tail _ (.head _))) h.right⟩
  | .logical _ left right, hformed, h =>
      ⟨left.fits hskips (hformed.operand (.head _)) h.left,
        right.fits hskips (hformed.operand (.tail _ (.head _))) h.right⟩
  | .variable _, _, h => h.reading hskips
  | .assign _ value, hformed, h =>
      ⟨h.right.binding hskips (List.mem_singleton_self _) (List.mem_singleton_self _),
        value.fits hskips (hformed.operand (.head _)) h.left⟩
  | .call callee _ arguments, hformed, h =>
      ⟨callee.fits hskips (hformed.operand (.head _)) h.left,
        Expr.fitsAll hskips arguments (fun _ hmem => hformed.operand (.tail _ hmem)) h.right⟩
  | .get object _, hformed, h => object.fits hskips (hformed.operand (.head _)) h
  | .set object _ value, hformed, h =>
      ⟨object.fits hskips (hformed.operand (.head _)) h.right,
        value.fits hskips (hformed.operand (.tail _ (.head _))) h.left⟩
  | .thisRef _, _, h => h.usingThis hskips
  | .superRef occurrence _, hformed, h => by
      have hfits := h.right.binding hskips (List.mem_singleton_self _)
        (List.mem_singleton_self _)
      refine ⟨hfits, fun distance hdistance => ?_⟩
      have hspells : occurrence.name.isKeyword .superKw ∧ occurrence.name.Genuine := hformed.spells
      have hword : occurrence.name.lexeme = superName := hspells.2.keyword _ hspells.1
      have hreal : r.real occurrence.id = scopes.distance? occurrence.name.lexeme :=
        h.right.real _ (List.mem_singleton_self _)
      rw [hreal, hword] at hdistance
      exact hskips.ne_pred hdistance

theorem Expr.fitsAll (hskips : scopes.Skips idle scopes') :
    (expressions : List Expr) → (∀ expression ∈ expressions, expression.Formed Token.Genuine) →
      Found r (Expr.findingsAll context scopes expressions)
        (Expr.findingsAll context scopes' expressions) →
      Expr.FitsAll r idle expressions
  | [], _, _ => trivial
  | expression :: rest, hformed, h =>
      ⟨expression.fits hskips (hformed _ (.head _)) h.left,
        Expr.fitsAll hskips rest (fun _ hmem => hformed _ (.tail _ hmem)) h.right⟩

end

mutual

/-- In the scope that is left out nothing may be declared. -/
theorem Stmt.fits {scopes scopes' : Scopes} {context : Context} {idle : Option Nat}
    (hskips : scopes.Skips idle scopes') :
    (statement : Stmt) → (idle = some 0 → statement.declared? = none) →
      statement.Formed Token.Genuine →
      Found r (statement.findings context scopes) (statement.findings context scopes') →
      statement.Fits r idle
  | .block body, _, hformed, h =>
      Stmt.fitsAll (.inner _ hskips) (deeper_ne_zero idle) body
        (fun _ hmem => hformed.enclosed hmem) h
  | .classDecl name superclass methods, hdeclares, hformed, h => by
      have hidle : idle ≠ some 0 := fun heq => by cases hdeclares heq
      refine ⟨hidle, ?_, ?_⟩
      · rintro occurrence ⟨⟩
        exact h.left.right.right.reading (hskips.enter hidle _ _)
      · exact FunctionDecl.fitsAll (hskips.classBody hidle name superclass) methods
          (fun method hmethod _ hmem =>
            hformed.enclosed (List.mem_flatMap.2 ⟨method, hmethod, hmem⟩))
          h.right
  | .expression value, _, hformed, h => value.fits hskips (hformed.expression (.head _)) h
  | .function declaration, hdeclares, hformed, h => by
      have hidle : idle ≠ some 0 := fun heq => by cases hdeclares heq
      exact ⟨hidle, declaration.fits (hskips.enter hidle _ _)
        (fun _ hmem => hformed.enclosed hmem) h.right⟩
  | .conditional condition thenBranch none, _, hformed, h =>
      ⟨condition.fits hskips (hformed.expression (.head _)) h.left.left,
        thenBranch.fits hskips (fun _ => hformed.declared?_branch (.head _))
          (hformed.branch (.head _)) h.left.right, trivial⟩
  | .conditional condition thenBranch (some elseBranch), _, hformed, h =>
      ⟨condition.fits hskips (hformed.expression (.head _)) h.left.left,
        thenBranch.fits hskips (fun _ => hformed.declared?_branch (.head _))
          (hformed.branch (.head _)) h.left.right,
        elseBranch.fits hskips (fun _ => hformed.declared?_branch (.tail _ (.head _)))
          (hformed.branch (.tail _ (.head _))) h.right⟩
  | .print value, _, hformed, h => value.fits hskips (hformed.expression (.head _)) h
  | .returnValue _ value, _, hformed, h => by
      rintro expression ⟨⟩
      exact expression.fits hskips (hformed.expression (.head _)) h.right.right
  | .varDecl name initializer, hdeclares, hformed, h => by
      have hidle : idle ≠ some 0 := fun heq => by cases hdeclares heq
      refine ⟨hidle, ?_⟩
      rintro expression ⟨⟩
      have hvalue := h.right
      rw [hskips.innermost? hidle] at hvalue
      split at hvalue
      · exact expression.fits hskips (hformed.expression (.head _)) hvalue
      · exact expression.fits (hskips.enter hidle _ _) (hformed.expression (.head _)) hvalue
  | .whileLoop condition body, _, hformed, h =>
      ⟨condition.fits hskips (hformed.expression (.head _)) h.left,
        body.fits hskips (fun _ => hformed.declared?_branch (.head _)) (hformed.branch (.head _))
          h.right⟩

theorem Stmt.fitsAll {scopes scopes' : Scopes} {context : Context} {idle : Option Nat}
    (hskips : scopes.Skips idle scopes') (hidle : idle ≠ some 0) :
    (statements : List Stmt) → (∀ statement ∈ statements, statement.Formed Token.Genuine) →
      Found r (Stmt.findingsAll context scopes statements)
        (Stmt.findingsAll context scopes' statements) →
      Stmt.FitsAll r idle statements
  | [], _, _ => trivial
  | statement :: rest, hformed, h =>
      ⟨statement.fits hskips (fun heq => absurd heq hidle) (hformed _ (.head _)) h.left,
        Stmt.fitsAll (hskips.after hidle statement) hidle rest
          (fun _ hmem => hformed _ (.tail _ hmem)) h.right⟩

theorem FunctionDecl.fits {scopes scopes' : Scopes} {context : Context} {idle : Option Nat}
    (hskips : scopes.Skips idle scopes') :
    (declaration : FunctionDecl) →
      (∀ statement ∈ declaration.body, statement.Formed Token.Genuine) →
      Found r (declaration.findings context scopes) (declaration.findings context scopes') →
      declaration.Fits r idle
  | .mk _ params body, hformed, h =>
      Stmt.fitsAll (hskips.withParams params) (deeper_ne_zero idle) body hformed h.right

theorem FunctionDecl.fitsAll {scopes scopes' : Scopes} {context : Context} {idle : Option Nat}
    (hskips : scopes.Skips idle scopes') :
    (methods : List FunctionDecl) →
      (∀ method ∈ methods, ∀ statement ∈ method.body, statement.Formed Token.Genuine) →
      Found r (FunctionDecl.findingsAll context scopes methods)
        (FunctionDecl.findingsAll context scopes' methods) →
      FunctionDecl.FitsAll r idle methods
  | [], _, _ => trivial
  | method :: rest, hformed, h =>
      ⟨method.fits hskips (hformed _ (.head _)) h.left,
        FunctionDecl.fitsAll hskips rest (fun _ hmem => hformed _ (.tail _ hmem)) h.right⟩

end

end

end LoxLang
