import Mathlib.Data.List.Forall2
import Mathlib.Logic.Equiv.Basic
import LoxLang.Proofs.Scope.Distances
import LoxLang.Proofs.Tree.Renaming

/-!
# Findings about renamed programs

Resolution walks a program and the one in which a local variable has another name side by side.  The
scopes differ in one of them, where one has the new name for the old one.  So each occurrence finds
its binding as far out as before; those that are renamed find it in that scope.
-/

namespace LoxLang

namespace Renaming

/-- The two names differ, and neither is a reserved word. -/
structure Proper (r : Renaming) : Prop where
  ne : r.old ≠ r.new
  old_ne : ∀ keyword : Keyword, r.old ≠ keyword.spelling
  new_ne : ∀ keyword : Keyword, r.new ≠ keyword.spelling

/-- The tokens of a program in which the new name does not occur. -/
def Admits (r : Renaming) (token : Token) : Prop :=
  token.Genuine ∧ token.lexeme ≠ r.new

/-- A finding without a fault whose distance is on record, about an occurrence of another name than
the new one. -/
def Accepts (r : Renaming) : Finding → Prop
  | .binding occurrence distance =>
      r.distances[occurrence.id]? = distance ∧ occurrence.name.lexeme ≠ r.new
  | .fault _ => False

/-- What becomes of a finding: the occurrence may get the new name, if it is not one of a global. -/
inductive Finds (r : Renaming) : Finding → Finding → Prop
  | same {occurrence : Occurrence} {distance : Option Nat} : occurrence.name.lexeme ≠ r.new →
      Finds r (.binding occurrence distance) (.binding occurrence distance)
  | renamed {occurrence : Occurrence} {distance : Nat} :
      Finds r (.binding occurrence (some distance))
        (.binding { occurrence with name := r.token occurrence.name } (some distance))

/-- What becomes of findings that are all accepted. -/
def Follows (r : Renaming) (findings renamed : List Finding) : Prop :=
  (∀ finding ∈ findings, r.Accepts finding) → List.Forall₂ r.Finds findings renamed

namespace Follows

variable {r : Renaming} {first second first' second' : List Finding}

theorem nil : r.Follows [] [] :=
  fun _ => .nil

theorem append (h : r.Follows first first') (h' : r.Follows second second') :
    r.Follows (first ++ second) (first' ++ second') := by
  intro haccepts
  obtain ⟨hfirst, hsecond⟩ := List.forall_mem_append.1 haccepts
  exact List.rel_append (h hfirst) (h' hsecond)

/-- Findings about parts in which nothing is renamed. -/
theorem refl (findings : List Finding) : r.Follows findings findings := by
  refine fun haccepts => List.forall₂_same.2 fun finding hfinding => ?_
  cases finding with
  | binding occurrence distance => exact .same (haccepts _ hfinding).2
  | fault broken => exact (haccepts _ hfinding).elim

/-- Where there was no fault there is none. -/
theorem of_faults (hfaults : ∀ finding ∈ first, ∃ broken, finding = .fault broken)
    (h : first = [] → first' = []) : r.Follows first first' := by
  intro haccepts
  have hnil : first = [] := by
    refine List.eq_nil_iff_forall_not_mem.2 fun finding hfinding => ?_
    obtain ⟨broken, rfl⟩ := hfaults finding hfinding
    exact haccepts _ hfinding
  rw [hnil, h hnil]
  exact .nil

end Follows

end Renaming

/-! ## Renamed scopes -/

namespace Scopes

/-- Scopes one of which has the new name for the old one. -/
def renamed (r : Renaming) (depth : Nat) (scopes : Scopes) : Scopes :=
  scopes.modify depth (List.map (Prod.map (Equiv.swap r.old r.new) id))

/-- No scope has a name. -/
def Lacks (scopes : Scopes) (name : String) : Prop :=
  ∀ scope ∈ scopes, List.lookup name scope = none

variable {r : Renaming} {scopes : Scopes}

theorem lookup_swap (scope : ScopeNames) (name : String) :
    (scope.map (Prod.map (Equiv.swap r.old r.new) id)).lookup name =
      scope.lookup (Equiv.swap r.old r.new name) := by
  have h := lookup_map_of_injective (Equiv.swap r.old r.new).injective id scope
    (Equiv.swap r.old r.new name)
  rwa [Equiv.swap_apply_self, Option.map_id, id] at h

theorem distance?_cons (scope : ScopeNames) (outer : Scopes) (name : String) :
    distance? (scope :: outer) name =
      if (scope.lookup name).isSome then some 0 else (distance? outer name).map (· + 1) :=
  List.findIdx?_cons

theorem Lacks.cons {outer : Scopes} {name : String} (h : outer.Lacks name) :
    Lacks ([] :: outer) name :=
  List.forall_mem_cons.2 ⟨rfl, h⟩

theorem Lacks.enter {name other : String} (h : scopes.Lacks other) (hne : other ≠ name)
    (readable : Bool) : (scopes.enter name readable).Lacks other := by
  cases scopes with
  | nil => exact h
  | cons scope outer =>
      obtain ⟨hscope, houter⟩ := List.forall_mem_cons.1 h
      refine List.forall_mem_cons.2 ⟨?_, houter⟩
      rw [List.lookup_cons, beq_eq_false_iff_ne.2 hne]
      exact hscope

/-- The variable is found under its new name where it was under the old one. -/
theorem distance?_renamed_new {depth : Nat} (hlacks : scopes.Lacks r.new)
    (h : scopes.distance? r.old = some depth) :
    (scopes.renamed r depth).distance? r.new = some depth := by
  induction scopes generalizing depth with
  | nil => cases h
  | cons scope outer ih =>
      obtain ⟨hscope, houter⟩ := List.forall_mem_cons.1 hlacks
      rw [distance?_cons] at h
      cases depth with
      | zero =>
          have hfound : (scope.lookup r.old).isSome := by
            by_contra hnone
            rw [if_neg hnone] at h
            cases hdistance : distance? outer r.old <;> simp [hdistance] at h
          show distance? (scope.map _ :: outer) r.new = _
          rw [distance?_cons, lookup_swap, Equiv.swap_apply_right, if_pos hfound]
      | succ depth =>
          have hdistance : distance? outer r.old = some depth := by
            split at h
            · cases h
            · simpa using h
          show distance? (scope :: renamed r depth outer) r.new = _
          rw [distance?_cons, hscope, ih houter hdistance]
          rfl

/-- All else is found where it was. -/
theorem distance?_renamed_of_ne {depth : Nat} {name : String} (hlacks : scopes.Lacks r.new)
    (hnew : name ≠ r.new) (hold : name = r.old → scopes.distance? r.old ≠ some depth) :
    (scopes.renamed r depth).distance? name = scopes.distance? name := by
  induction scopes generalizing depth with
  | nil => cases depth <;> rfl
  | cons scope outer ih =>
      obtain ⟨hscope, houter⟩ := List.forall_mem_cons.1 hlacks
      cases depth with
      | zero =>
          show distance? (scope.map _ :: outer) name = _
          rw [distance?_cons, lookup_swap, distance?_cons]
          by_cases hname : name = r.old
          · have hnone : (scope.lookup name).isSome = false := by
              refine Bool.eq_false_iff.2 fun hsome => hold hname ?_
              rw [distance?_cons, ← hname, if_pos hsome]
            rw [hnone, hname, Equiv.swap_apply_left, hscope]
            rfl
          · rw [Equiv.swap_apply_of_ne_of_ne hname hnew]
      | succ depth =>
          show distance? (scope :: renamed r depth outer) name = _
          rw [distance?_cons, distance?_cons]
          by_cases hsome : (scope.lookup name).isSome
          · rw [if_pos hsome, if_pos hsome]
          · rw [if_neg hsome, if_neg hsome, ih houter]
            rintro rfl hdistance
            refine hold rfl ?_
            rw [distance?_cons, if_neg hsome, hdistance]
            rfl

/-- What the innermost scope says about a declaration. -/
theorem innermost?_renamed_declared (scopes : Scopes) (depth : Nat) {name : Token}
    (h : name.lexeme ≠ r.new) :
    (scopes.renamed r depth).innermost? (r.declared depth name).lexeme =
      scopes.innermost? name.lexeme := by
  cases scopes with
  | nil => cases depth <;> rfl
  | cons scope outer =>
      cases depth with
      | zero =>
          show (scope.map _).lookup _ = _
          rw [lookup_swap, Renaming.declared]
          by_cases hold : name.lexeme = r.old
          · rw [if_pos ⟨hold, rfl⟩]
            show scope.lookup (Equiv.swap r.old r.new r.new) = _
            rw [Equiv.swap_apply_right, ← hold]
            rfl
          · rw [if_neg fun h => hold h.1, Equiv.swap_apply_of_ne_of_ne hold h]
            rfl
      | succ depth =>
          rw [Renaming.declared, if_neg (by simp)]
          rfl

/-- What may not be read yet could not be read before. -/
theorem innermost?_of_renamed (depth : Nat) {occurrence : Occurrence}
    (hlacks : scopes.Lacks r.new) (hnew : occurrence.name.lexeme ≠ r.new)
    (h : (scopes.renamed r depth).innermost? (r.occurrence depth occurrence).name.lexeme =
      some false) : scopes.innermost? occurrence.name.lexeme = some false := by
  cases scopes with
  | nil => cases depth <;> cases h
  | cons scope outer =>
      have hscope : scope.lookup r.new = none := hlacks scope List.mem_cons_self
      by_cases hbound : occurrence.name.lexeme = r.old ∧
          r.distances[occurrence.id]? = some depth
      · rw [Renaming.occurrence, if_pos hbound] at h
        cases depth with
        | zero =>
            have hold : (scope.map (Prod.map (Equiv.swap r.old r.new) id)).lookup r.new =
              some false := h
            rwa [lookup_swap, Equiv.swap_apply_right, ← hbound.1] at hold
        | succ depth =>
            have hfound : none = some false := hscope.symm.trans h
            cases hfound
      · rw [Renaming.occurrence, if_neg hbound] at h
        cases depth with
        | zero =>
            have hold : (scope.map (Prod.map (Equiv.swap r.old r.new) id)).lookup
              occurrence.name.lexeme = some false := h
            rw [lookup_swap] at hold
            by_cases hname : occurrence.name.lexeme = r.old
            · rw [hname, Equiv.swap_apply_left, hscope] at hold
              cases hold
            · rwa [Equiv.swap_apply_of_ne_of_ne hname hnew] at hold
        | succ depth => exact h

theorem enter_renamed (scopes : Scopes) (depth : Nat) {name : Token} (h : name.lexeme ≠ r.new)
    (readable : Bool) :
    (scopes.enter name.lexeme readable).renamed r depth =
      (scopes.renamed r depth).enter (r.declared depth name).lexeme readable := by
  cases scopes with
  | nil => cases depth <;> rfl
  | cons scope outer =>
      cases depth with
      | zero =>
          have hname : (r.declared 0 name).lexeme = Equiv.swap r.old r.new name.lexeme := by
            rw [Renaming.declared]
            by_cases hold : name.lexeme = r.old
            · rw [if_pos ⟨hold, rfl⟩, hold, Equiv.swap_apply_left]
              rfl
            · rw [if_neg fun h => hold h.1, Equiv.swap_apply_of_ne_of_ne hold h]
          rw [hname]
          rfl
      | succ depth =>
          rw [Renaming.declared, if_neg (by simp)]
          rfl

end Scopes

/-! ## The walk over expressions -/

section

variable {r : Renaming} {scopes : Scopes}

theorem Renaming.occurrence_of_ne (r : Renaming) (depth : Nat) {occurrence : Occurrence}
    (h : occurrence.name.lexeme ≠ r.old) : r.occurrence depth occurrence = occurrence :=
  if_neg fun hbound => h hbound.1

namespace Scopes

theorem follows_binding (hlacks : scopes.Lacks r.new) (depth : Nat) (occurrence : Occurrence) :
    r.Follows [scopes.binding occurrence]
      [(scopes.renamed r depth).binding (r.occurrence depth occurrence)] := by
  intro haccepts
  obtain ⟨hrecorded, hnew⟩ := haccepts _ List.mem_cons_self
  refine .cons ?_ .nil
  by_cases hbound : occurrence.name.lexeme = r.old ∧ r.distances[occurrence.id]? = some depth
  · have hdistance : scopes.distance? r.old = some depth := by
      rw [← hbound.1, ← hrecorded, hbound.2]
    rw [Renaming.occurrence, if_pos hbound]
    show r.Finds (.binding _ _) (.binding _ ((scopes.renamed r depth).distance? r.new))
    rw [distance?_renamed_new hlacks hdistance, hbound.1, hdistance]
    exact .renamed
  · have hdistance : (scopes.renamed r depth).distance? occurrence.name.lexeme =
        scopes.distance? occurrence.name.lexeme := by
      refine distance?_renamed_of_ne hlacks hnew fun hold hfound => hbound ⟨hold, ?_⟩
      rw [hrecorded, hold, hfound]
    rw [Renaming.occurrence, if_neg hbound, binding, binding, hdistance]
    exact .same hnew

theorem follows_reading (hlacks : scopes.Lacks r.new) (depth : Nat) (occurrence : Occurrence) :
    r.Follows (scopes.reading occurrence)
      ((scopes.renamed r depth).reading (r.occurrence depth occurrence)) := by
  intro haccepts
  obtain ⟨-, hbinding⟩ := List.forall_mem_append.1 haccepts
  have hread : scopes.innermost? occurrence.name.lexeme ≠ some false := by
    intro hread
    refine haccepts (.fault ⟨.notInOwnInitializer, occurrence.name⟩) ?_
    simp [reading, hread]
  have hread' := mt (innermost?_of_renamed depth hlacks (hbinding _ List.mem_cons_self).2) hread
  rw [reading, reading, if_neg hread, if_neg hread']
  exact follows_binding hlacks depth occurrence hbinding

end Scopes

variable (hr : r.Proper)

include hr

theorem Renaming.Proper.lexeme_ne_old {keyword : Keyword} {token : Token}
    (h : token.isKeyword keyword ∧ r.Admits token) : token.lexeme ≠ r.old := by
  rw [h.2.1.keyword keyword h.1]
  exact (hr.old_ne keyword).symm

theorem Context.follows_usingThis (context : Context) (hlacks : scopes.Lacks r.new) (depth : Nat)
    {occurrence : Occurrence}
    (h : occurrence.name.isKeyword .thisKw ∧ r.Admits occurrence.name) :
    r.Follows (context.usingThis occurrence scopes)
      (context.usingThis occurrence (scopes.renamed r depth)) := by
  have hfollows := Scopes.follows_binding hlacks depth occurrence
  rw [r.occurrence_of_ne depth (hr.lexeme_ne_old h)] at hfollows
  rw [usingThis, usingThis]
  split
  · exact .refl _
  · exact hfollows

theorem Context.follows_usingSuper (context : Context) (hlacks : scopes.Lacks r.new)
    (depth : Nat) {occurrence : Occurrence}
    (h : occurrence.name.isKeyword .superKw ∧ r.Admits occurrence.name) :
    r.Follows (context.usingSuper occurrence scopes)
      (context.usingSuper occurrence (scopes.renamed r depth)) := by
  have hfollows := Scopes.follows_binding hlacks depth occurrence
  rw [r.occurrence_of_ne depth (hr.lexeme_ne_old h)] at hfollows
  rw [usingSuper, usingSuper]
  exact .append (.refl _) hfollows

end

mutual

/-- What is found in an expression in which the variable has its new name. -/
theorem Expr.follows_rename {r : Renaming} (hr : r.Proper) (depth : Nat) (context : Context)
    {scopes : Scopes} (hlacks : scopes.Lacks r.new) :
    (expression : Expr) → expression.Formed r.Admits →
      r.Follows (expression.findings context scopes)
        ((expression.rename r depth).findings context (scopes.renamed r depth))
  | .literal _, _ => .nil
  | .grouping inner, h =>
      inner.follows_rename hr depth context hlacks (h.operand List.mem_cons_self)
  | .unary _ operand, h =>
      operand.follows_rename hr depth context hlacks (h.operand List.mem_cons_self)
  | .binary _ left right, h =>
      (left.follows_rename hr depth context hlacks (h.operand List.mem_cons_self)).append
        (right.follows_rename hr depth context hlacks
          (h.operand (List.mem_cons_of_mem _ List.mem_cons_self)))
  | .logical _ left right, h =>
      (left.follows_rename hr depth context hlacks (h.operand List.mem_cons_self)).append
        (right.follows_rename hr depth context hlacks
          (h.operand (List.mem_cons_of_mem _ List.mem_cons_self)))
  | .variable occurrence, _ => Scopes.follows_reading hlacks depth occurrence
  | .assign target value, h =>
      (value.follows_rename hr depth context hlacks (h.operand List.mem_cons_self)).append
        (Scopes.follows_binding hlacks depth target)
  | .call callee _ arguments, h =>
      (callee.follows_rename hr depth context hlacks (h.operand List.mem_cons_self)).append
        (Expr.follows_renameAll hr depth context hlacks arguments fun _ hargument =>
          h.operand (List.mem_cons_of_mem _ hargument))
  | .get object _, h =>
      object.follows_rename hr depth context hlacks (h.operand List.mem_cons_self)
  | .set object _ value, h =>
      (value.follows_rename hr depth context hlacks
          (h.operand (List.mem_cons_of_mem _ List.mem_cons_self))).append
        (object.follows_rename hr depth context hlacks (h.operand List.mem_cons_self))
  | .thisRef _, h => context.follows_usingThis hr hlacks depth h.spells
  | .superRef _ _, h => context.follows_usingSuper hr hlacks depth h.spells

theorem Expr.follows_renameAll {r : Renaming} (hr : r.Proper) (depth : Nat) (context : Context)
    {scopes : Scopes} (hlacks : scopes.Lacks r.new) :
    (expressions : List Expr) → (∀ expression ∈ expressions, expression.Formed r.Admits) →
      r.Follows (Expr.findingsAll context scopes expressions)
        (Expr.findingsAll context (scopes.renamed r depth) (Expr.renameAll r depth expressions))
  | [], _ => .nil
  | expression :: rest, h =>
      (expression.follows_rename hr depth context hlacks (h _ List.mem_cons_self)).append
        (Expr.follows_renameAll hr depth context hlacks rest fun other hother =>
          h other (List.mem_cons_of_mem _ hother))

end

theorem Expr.follows_map_rename {r : Renaming} (hr : r.Proper) (depth : Nat) (context : Context)
    {scopes : Scopes} (hlacks : scopes.Lacks r.new) (expression : Option Expr)
    (h : ∀ value ∈ expression.toList, value.Formed r.Admits) :
    r.Follows (Expr.findingsOf context scopes expression)
      (Expr.findingsOf context (scopes.renamed r depth)
          (expression.map (Expr.rename r depth))) := by
  cases expression with
  | none => exact .nil
  | some expression =>
      exact expression.follows_rename hr depth context hlacks (h _ List.mem_cons_self)

/-! ## The walk over statements -/

namespace Scopes

variable {r : Renaming} {scopes : Scopes}

theorem declaring_eq_nil_iff (name : Token) :
    scopes.declaring name = [] ↔ scopes.innermost? name.lexeme = none := by
  rw [declaring]
  cases scopes.innermost? name.lexeme <;> simp

theorem follows_declaring (scopes : Scopes) (depth : Nat) {name : Token}
    (h : name.lexeme ≠ r.new) :
    r.Follows (scopes.declaring name)
      ((scopes.renamed r depth).declaring (r.declared depth name)) := by
  refine .of_faults (fun finding hfinding => ?_) fun hnil => ?_
  · rw [declaring] at hfinding
    split at hfinding
    · exact ⟨_, List.mem_singleton.1 hfinding⟩
    · cases hfinding
  · rw [declaring_eq_nil_iff, innermost?_renamed_declared scopes depth h]
    exact (declaring_eq_nil_iff name).1 hnil

theorem follows_declaringParams (scopes : Scopes) (depth : Nat) {params : List Token}
    (h : ∀ param ∈ params, param.lexeme ≠ r.new) :
    r.Follows (scopes.declaringParams params)
      ((scopes.renamed r depth).declaringParams (params.map (r.declared depth))) := by
  induction params generalizing scopes with
  | nil => exact .nil
  | cons param rest ih =>
      obtain ⟨hparam, hrest⟩ := List.forall_mem_cons.1 h
      rw [List.map_cons, declaringParams, declaringParams, ← enter_renamed _ depth hparam]
      exact (follows_declaring _ depth hparam).append (ih _ hrest)

/-- Behind parameters one of which may be the renamed variable. -/
theorem foldl_enter_renamed (depth : Nat) {params : List Token}
    (h : ∀ param ∈ params, param.lexeme ≠ r.new) :
    (params.foldl (fun scopes param => scopes.enter param.lexeme true) scopes).renamed r depth =
      (params.map (r.declared depth)).foldl (fun scopes param => scopes.enter param.lexeme true)
        (scopes.renamed r depth) := by
  induction params generalizing scopes with
  | nil => rfl
  | cons param rest ih =>
      obtain ⟨hparam, hrest⟩ := List.forall_mem_cons.1 h
      rw [List.map_cons, List.foldl_cons, List.foldl_cons, ih hrest,
        enter_renamed _ depth hparam]

theorem Lacks.foldl_enter {name : String} (hlacks : scopes.Lacks name) {params : List Token}
    (h : ∀ param ∈ params, param.lexeme ≠ name) :
    Lacks (params.foldl (fun scopes param => scopes.enter param.lexeme true) scopes) name := by
  induction params generalizing scopes with
  | nil => exact hlacks
  | cons param rest ih =>
      obtain ⟨hparam, hrest⟩ := List.forall_mem_cons.1 h
      exact ih (hlacks.enter hparam.symm true) hrest

end Scopes

namespace Renaming

/-- What a statement declares under the old name in the scope of the variable is the variable. -/
def Spares (r : Renaming) (depth : Nat) (statement : Stmt) : Prop :=
  depth = 0 → statement.declared? = some r.old → statement.variable? = some r.old

variable {r : Renaming} {depth : Nat}

theorem Spares.inner (statement : Stmt) : r.Spares (depth + 1) statement :=
  fun h => absurd h (Nat.succ_ne_zero depth)

theorem Spares.branch {statement : Stmt} (h : statement.declared? = none) :
    r.Spares depth statement :=
  fun _ hdeclared => by cases h.symm.trans hdeclared

/-- The name of a function or a class stays. -/
theorem declared_of_spares {statement : Stmt} (h : r.Spares depth statement) {name : Token}
    (hdeclared : statement.declared? = some name.lexeme) (hvariable : statement.variable? = none) :
    r.declared depth name = name := by
  refine if_neg fun hbound => ?_
  have hsome := h hbound.2 (hdeclared.trans (congrArg some hbound.1))
  cases hvariable.symm.trans hsome

end Renaming

namespace Scopes

variable {r : Renaming} {scopes : Scopes}

theorem renamed_after {depth : Nat} {statement : Stmt} (h : statement.Formed r.Admits)
    (hspares : r.Spares depth statement) :
    (scopes.after statement).renamed r depth =
      (scopes.renamed r depth).after (statement.rename r depth) := by
  cases statement with
  | varDecl name initializer => exact enter_renamed scopes depth h.spells.2.2 true
  | function declaration =>
      have henter := enter_renamed scopes depth h.spells.1.2.2 true
      rw [r.declared_of_spares hspares rfl rfl] at henter
      rw [Stmt.rename, after, after, declaration.name_rename]
      exact henter
  | classDecl name superclass methods =>
      have henter := enter_renamed scopes depth h.spells.1.2.2 true
      rw [r.declared_of_spares hspares rfl rfl] at henter
      exact henter
  | conditional condition thenBranch elseBranch => cases elseBranch <;> rfl
  | _ => rfl

theorem Lacks.after {statement : Stmt} (hlacks : scopes.Lacks r.new)
    (h : statement.Formed r.Admits) : (scopes.after statement).Lacks r.new := by
  cases statement with
  | varDecl name initializer => exact hlacks.enter h.spells.2.2.symm true
  | function declaration => exact hlacks.enter h.spells.1.2.2.symm true
  | classDecl name superclass methods => exact hlacks.enter h.spells.1.2.2.symm true
  | _ => exact hlacks

/-- In the head of a class whose name stays. -/
theorem follows_classHead (hlacks : scopes.Lacks r.new) {depth : Nat} {name : Token}
    (hname : name.lexeme ≠ r.new) (hkept : r.declared depth name = name)
    (superclass : Option Occurrence) :
    r.Follows (scopes.classHead name superclass)
      ((scopes.renamed r depth).classHead name (superclass.map (r.occurrence depth))) := by
  have hdeclaring := follows_declaring scopes depth hname
  have henter := enter_renamed scopes depth hname true
  rw [hkept] at hdeclaring henter
  cases superclass with
  | none => exact hdeclaring.append .nil
  | some occurrence =>
      have hreading := follows_reading (hlacks.enter hname.symm true) depth occurrence
      rw [henter] at hreading
      refine hdeclaring.append (.append ?_ hreading)
      refine .of_faults (fun finding hfinding => ?_) fun hnil => ?_
      · split at hfinding
        · exact ⟨_, List.mem_singleton.1 hfinding⟩
        · cases hfinding
      · have hne : occurrence.name.lexeme ≠ name.lexeme := fun heq => by simp [heq] at hnil
        refine if_neg ?_
        rw [Renaming.occurrence]
        split
        · exact hname.symm
        · exact hne

theorem classBody_renamed {depth : Nat} {name : Token} (hname : name.lexeme ≠ r.new)
    (hkept : r.declared depth name = name) (superclass : Option Occurrence) :
    (scopes.classBody name superclass).renamed r (depth + classScopes superclass) =
      (scopes.renamed r depth).classBody name (superclass.map (r.occurrence depth)) := by
  have henter := enter_renamed scopes depth hname true
  rw [hkept] at henter
  cases superclass with
  | none => exact congrArg ([(thisName, true)] :: ·) henter
  | some occurrence => exact congrArg ([(thisName, true)] :: [(superName, true)] :: ·) henter

theorem Lacks.classBody (hr : r.Proper) (hlacks : scopes.Lacks r.new) {name : Token}
    (hname : name.lexeme ≠ r.new) (superclass : Option Occurrence) :
    (scopes.classBody name superclass).Lacks r.new := by
  have hbound {scopes : Scopes} (hlacks : scopes.Lacks r.new) (keyword : Keyword) :
      (scopes.bound keyword.spelling).Lacks r.new := by
    refine List.forall_mem_cons.2 ⟨?_, hlacks⟩
    rw [List.lookup_cons, beq_eq_false_iff_ne.2 (hr.new_ne keyword)]
    rfl
  have hinside := hlacks.enter hname.symm true
  cases superclass with
  | none => exact hbound hinside .thisKw
  | some occurrence => exact hbound (hbound hinside .superKw) .thisKw

end Scopes

theorem Scopes.cons_renamed (r : Renaming) (depth : Nat) (scopes : Scopes) :
    Scopes.renamed r (depth + 1) ([] :: scopes) = [] :: scopes.renamed r depth := rfl

theorem Context.inClass_map (context : Context) (superclass : Option Occurrence)
    (rename : Occurrence → Occurrence) :
    context.inClass (superclass.map rename) = context.inClass superclass := by
  cases superclass <;> rfl

theorem Context.inMethod_rename (context : Context) (r : Renaming) (depth : Nat)
    (method : FunctionDecl) :
    context.inMethod (method.rename r depth) = context.inMethod method := by
  rw [inMethod, FunctionDecl.isInitializer, method.name_rename]
  rfl

mutual

/-- What is found in a statement in which the variable has its new name. -/
theorem Stmt.follows_rename {r : Renaming} (hr : r.Proper) (depth : Nat) (context : Context)
    {scopes : Scopes} (hlacks : scopes.Lacks r.new) :
    (statement : Stmt) → statement.Formed r.Admits → r.Spares depth statement →
      r.Follows (statement.findings context scopes)
        ((statement.rename r depth).findings context (scopes.renamed r depth))
  | .block body, h, _ =>
      Stmt.follows_renameAll hr (depth + 1) context hlacks.cons body
        (fun _ hinner => h.enclosed hinner) fun inner _ => .inner inner
  | .classDecl name superclass methods, h, hspares => by
      obtain ⟨hname, -, hparams⟩ := h.spells
      have hkept := Renaming.declared_of_spares hspares rfl rfl
      have hmethods := FunctionDecl.follows_renameAll hr (depth + classScopes superclass + 1)
        (context.inClass superclass) (hlacks.classBody hr hname.2.2 superclass)
        (Scopes.cons_renamed r _ _) methods hparams
        (fun method hmethod _ hinner => h.enclosed (List.mem_flatMap.2 ⟨method, hmethod, hinner⟩))
        fun _ _ inner _ => .inner inner
      rw [Stmt.rename, Stmt.findings, Stmt.findings, context.inClass_map,
        ← Scopes.classBody_renamed hname.2.2 hkept]
      exact (Scopes.follows_classHead hlacks hname.2.2 hkept superclass).append hmethods
  | .expression value, h, _ =>
      value.follows_rename hr depth context hlacks (h.expression List.mem_cons_self)
  | .function declaration, h, hspares => by
      obtain ⟨hname, hparams⟩ := h.spells
      have hkept := Renaming.declared_of_spares hspares rfl rfl
      have hdeclaring := Scopes.follows_declaring scopes depth hname.2.2
      have henter := Scopes.enter_renamed scopes depth hname.2.2 true
      rw [hkept] at hdeclaring henter
      have hinner :=
        declaration.follows_rename hr (depth + 1) { context with function := .function }
        (hlacks.enter hname.2.2.symm true) (Scopes.cons_renamed r depth _) hparams
        (fun _ hinner => h.enclosed hinner) fun inner _ => .inner inner
      rw [henter] at hinner
      rw [Stmt.rename, Stmt.findings, Stmt.findings, declaration.name_rename]
      exact hdeclaring.append hinner
  | .conditional condition thenBranch none, h, _ =>
      .append (.append
        (condition.follows_rename hr depth context hlacks (h.expression List.mem_cons_self))
        (thenBranch.follows_rename hr depth context hlacks (h.branch List.mem_cons_self)
          (.branch (h.declared?_branch List.mem_cons_self)))) .nil
  | .conditional condition thenBranch (some elseBranch), h, _ =>
      have hmem : elseBranch ∈ thenBranch :: [elseBranch] :=
        List.mem_cons_of_mem _ List.mem_cons_self
      .append (.append
        (condition.follows_rename hr depth context hlacks (h.expression List.mem_cons_self))
        (thenBranch.follows_rename hr depth context hlacks (h.branch List.mem_cons_self)
          (.branch (h.declared?_branch List.mem_cons_self))))
        (elseBranch.follows_rename hr depth context hlacks (h.branch hmem)
          (.branch (h.declared?_branch hmem)))
  | .print value, h, _ =>
      value.follows_rename hr depth context hlacks (h.expression List.mem_cons_self)
  | .returnValue _ none, _, _ => .append (.refl _) .nil
  | .returnValue _ (some value), h, _ =>
      .append (.refl _) (.append (.refl _)
        (value.follows_rename hr depth context hlacks (h.expression List.mem_cons_self)))
  | .varDecl name initializer, h, _ => by
      intro haccepts
      have hfresh : name.lexeme ≠ r.new := h.spells.2.2
      -- The name is new in its scope, so it is pending in its initializer.
      have hnew : scopes.innermost? name.lexeme = none := by
        by_contra hsome
        refine haccepts (.fault ⟨.declaredOnce, name⟩) (List.mem_append_left _ ?_)
        rw [Scopes.declaring, if_pos (Option.isSome_iff_ne_none.2 hsome)]
        exact List.mem_singleton_self _
      have hnew' := (Scopes.innermost?_renamed_declared scopes depth hfresh).trans hnew
      have hdeclaring := Scopes.follows_declaring scopes depth hfresh
      have hvalue := Expr.follows_map_rename hr depth context (hlacks.enter hfresh.symm false)
        initializer fun _ hvalue => h.expression hvalue
      rw [Scopes.enter_renamed _ depth hfresh false] at hvalue
      rw [Stmt.findings, hnew] at haccepts
      rw [Stmt.rename, Stmt.findings, Stmt.findings, hnew, hnew']
      exact (hdeclaring.append hvalue) haccepts
  | .whileLoop condition body, h, _ =>
      (condition.follows_rename hr depth context hlacks (h.expression List.mem_cons_self)).append
        (body.follows_rename hr depth context hlacks (h.branch List.mem_cons_self)
          (.branch (h.declared?_branch List.mem_cons_self)))

theorem Stmt.follows_renameAll {r : Renaming} (hr : r.Proper) (depth : Nat) (context : Context)
    {scopes : Scopes} (hlacks : scopes.Lacks r.new) :
    (statements : List Stmt) → (∀ statement ∈ statements, statement.Formed r.Admits) →
      (∀ statement ∈ statements, r.Spares depth statement) →
      r.Follows (Stmt.findingsAll context scopes statements)
        (Stmt.findingsAll context (scopes.renamed r depth) (Stmt.renameAll r depth statements))
  | [], _, _ => .nil
  | statement :: rest, h, hspares => by
      have hstatement := h _ List.mem_cons_self
      have hfirst := statement.follows_rename hr depth context hlacks hstatement
        (hspares _ List.mem_cons_self)
      have hrest := Stmt.follows_renameAll hr depth context (hlacks.after hstatement) rest
        (fun other hother => h other (List.mem_cons_of_mem _ hother))
        fun other hother => hspares other (List.mem_cons_of_mem _ hother)
      rw [Scopes.renamed_after hstatement (hspares _ List.mem_cons_self)] at hrest
      exact hfirst.append hrest

theorem FunctionDecl.follows_rename {r : Renaming} (hr : r.Proper) (depth : Nat)
    (context : Context) {scopes scopes' : Scopes} (hlacks : scopes.Lacks r.new)
    (hscopes : Scopes.renamed r depth ([] :: scopes) = [] :: scopes') :
    (declaration : FunctionDecl) → declaration.Spells r.Admits →
      (∀ inner ∈ declaration.body, inner.Formed r.Admits) →
      (∀ inner ∈ declaration.body, r.Spares depth inner) →
      r.Follows (declaration.findings context scopes)
        ((declaration.rename r depth).findings context scopes')
  | .mk name params body, hparams, hbody, hspares => by
      have hfresh : ∀ param ∈ params, param.lexeme ≠ r.new :=
        fun param hparam => (hparams param hparam).2.2
      have hdeclaring := Scopes.follows_declaringParams ([] :: scopes) depth hfresh
      have hinner := Stmt.follows_renameAll hr depth context
        (Scopes.Lacks.foldl_enter hlacks.cons hfresh) body hbody hspares
      rw [Scopes.foldl_enter_renamed depth hfresh, hscopes] at hinner
      rw [hscopes] at hdeclaring
      exact hdeclaring.append hinner

theorem FunctionDecl.follows_renameAll {r : Renaming} (hr : r.Proper) (depth : Nat)
    (context : Context) {scopes scopes' : Scopes} (hlacks : scopes.Lacks r.new)
    (hscopes : Scopes.renamed r depth ([] :: scopes) = [] :: scopes') :
    (methods : List FunctionDecl) → (∀ method ∈ methods, method.Spells r.Admits) →
      (∀ method ∈ methods, ∀ inner ∈ method.body, inner.Formed r.Admits) →
      (∀ method ∈ methods, ∀ inner ∈ method.body, r.Spares depth inner) →
      r.Follows (FunctionDecl.findingsAll context scopes methods)
        (FunctionDecl.findingsAll context scopes' (FunctionDecl.renameAll r depth methods))
  | [], _, _, _ => .nil
  | method :: rest, hparams, hbodies, hspares => by
      have hfirst := method.follows_rename hr depth (context.inMethod method) hlacks hscopes
        (hparams _ List.mem_cons_self) (hbodies _ List.mem_cons_self) (hspares _ List.mem_cons_self)
      have hrest := FunctionDecl.follows_renameAll hr depth context hlacks hscopes rest
        (fun other hother => hparams other (List.mem_cons_of_mem _ hother))
        (fun other hother => hbodies other (List.mem_cons_of_mem _ hother))
        fun other hother => hspares other (List.mem_cons_of_mem _ hother)
      rw [FunctionDecl.renameAll, FunctionDecl.findingsAll, FunctionDecl.findingsAll,
        context.inMethod_rename]
      exact hfirst.append hrest

end

end LoxLang
