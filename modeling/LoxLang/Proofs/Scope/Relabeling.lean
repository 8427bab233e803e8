import LoxLang.Proofs.Scope.Distances
import LoxLang.Proofs.Tree.Relabeling

/-!
# Findings about relabelled trees

Resolution looks at names and not at labels: with other labels the same is found in a program.  What
is recorded under the new numbers is then what was recorded under the old ones.
-/

namespace LoxLang

/-- A fault on another line. -/
def StaticFault.mapLine (lines : Nat → Nat) (fault : StaticFault) : StaticFault :=
  { fault with token := fault.token.mapLine lines }

/-- A finding about an occurrence or a token with other labels. -/
def Finding.relabel (r : Relabeling) : Finding → Finding
  | binding occurrence distance => binding (r.occurrence occurrence) distance
  | fault broken => fault (broken.mapLine r.lines)

/-! ## The same findings -/

section

variable (r : Relabeling) (context : Context) (scopes : Scopes)

theorem Scopes.declaring_relabel (name : Token) :
    scopes.declaring (r.token name) = (scopes.declaring name).map (Finding.relabel r) := by
  have hlexeme : (r.token name).lexeme = name.lexeme := rfl
  rw [Scopes.declaring, Scopes.declaring, hlexeme]
  split <;> rfl

theorem Scopes.reading_relabel (occurrence : Occurrence) :
    scopes.reading (r.occurrence occurrence) =
      (scopes.reading occurrence).map (Finding.relabel r) := by
  have hlexeme : (r.occurrence occurrence).name.lexeme = occurrence.name.lexeme := rfl
  rw [Scopes.reading, Scopes.reading, hlexeme]
  split <;> rfl

theorem Scopes.foldl_enter_relabel (params : List Token) :
    (params.map r.token).foldl (fun scopes param => scopes.enter param.lexeme true) scopes =
      params.foldl (fun scopes param => scopes.enter param.lexeme true) scopes :=
  List.foldl_map

theorem Scopes.declaringParams_relabel (params : List Token) :
    scopes.declaringParams (params.map r.token) =
      (scopes.declaringParams params).map (Finding.relabel r) := by
  induction params generalizing scopes with
  | nil => rfl
  | cons param rest ih =>
      have hlexeme : (r.token param).lexeme = param.lexeme := rfl
      rw [List.map_cons, Scopes.declaringParams, Scopes.declaringParams, List.map_append,
        Scopes.declaring_relabel, hlexeme, ih]

theorem Scopes.classHead_relabel (name : Token) (superclass : Option Occurrence) :
    scopes.classHead (r.token name) (superclass.map r.occurrence) =
      (scopes.classHead name superclass).map (Finding.relabel r) := by
  have hname : (r.token name).lexeme = name.lexeme := rfl
  cases superclass with
  | none =>
      rw [Option.map_none, Scopes.classHead, Scopes.classHead, List.map_append,
        Scopes.declaring_relabel]
      rfl
  | some occurrence =>
      have hlexeme : (r.occurrence occurrence).name.lexeme = occurrence.name.lexeme := rfl
      rw [Option.map_some, Scopes.classHead, Scopes.classHead, List.map_append, List.map_append,
        Scopes.declaring_relabel, Scopes.reading_relabel, hlexeme, hname]
      split <;> rfl

theorem Scopes.classBody_relabel (name : Token) (superclass : Option Occurrence) :
    scopes.classBody (r.token name) (superclass.map r.occurrence) =
      scopes.classBody name superclass := by
  cases superclass <;> rfl

theorem Context.usingThis_relabel (occurrence : Occurrence) :
    context.usingThis (r.occurrence occurrence) scopes =
      (context.usingThis occurrence scopes).map (Finding.relabel r) := by
  rw [Context.usingThis, Context.usingThis]
  split <;> rfl

theorem Context.usingSuper_relabel (occurrence : Occurrence) :
    context.usingSuper (r.occurrence occurrence) scopes =
      (context.usingSuper occurrence scopes).map (Finding.relabel r) := by
  rw [Context.usingSuper, Context.usingSuper]
  cases context.classBody <;> rfl

theorem Context.returning_relabel (keyword : Token) :
    context.returning (r.token keyword) =
      (context.returning keyword).map (Finding.relabel r) := by
  rw [Context.returning, Context.returning]
  split <;> rfl

theorem Context.returningValue_relabel (keyword : Token) :
    context.returningValue (r.token keyword) =
      (context.returningValue keyword).map (Finding.relabel r) := by
  rw [Context.returningValue, Context.returningValue]
  split <;> rfl

end

mutual

/-- The same is found in an expression with other labels. -/
theorem Expr.findings_relabel (r : Relabeling) (context : Context) (scopes : Scopes) :
    (expression : Expr) → (expression.relabel r).findings context scopes =
      (expression.findings context scopes).map (Finding.relabel r)
  | .literal _ => rfl
  | .grouping inner => inner.findings_relabel r context scopes
  | .unary _ operand => operand.findings_relabel r context scopes
  | .binary _ left right => by
      rw [relabel, findings, findings, List.map_append, left.findings_relabel,
        right.findings_relabel]
  | .logical _ left right => by
      rw [relabel, findings, findings, List.map_append, left.findings_relabel,
        right.findings_relabel]
  | .variable occurrence => scopes.reading_relabel r occurrence
  | .assign target value => by
      rw [relabel, findings, findings, List.map_append, value.findings_relabel]
      rfl
  | .call callee _ arguments => by
      rw [relabel, findings, findings, List.map_append, callee.findings_relabel,
        Expr.findingsAll_relabel]
  | .get object _ => object.findings_relabel r context scopes
  | .set object _ value => by
      rw [relabel, findings, findings, List.map_append, value.findings_relabel,
        object.findings_relabel]
  | .thisRef occurrence => context.usingThis_relabel r scopes occurrence
  | .superRef occurrence _ => context.usingSuper_relabel r scopes occurrence

theorem Expr.findingsAll_relabel (r : Relabeling) (context : Context) (scopes : Scopes) :
    (expressions : List Expr) →
      Expr.findingsAll context scopes (Expr.relabelAll r expressions) =
        (Expr.findingsAll context scopes expressions).map (Finding.relabel r)
  | [] => rfl
  | expression :: rest => by
      rw [relabelAll, findingsAll, findingsAll, List.map_append, expression.findings_relabel,
        Expr.findingsAll_relabel]

end

theorem Expr.findingsOf_relabel (r : Relabeling) (context : Context) (scopes : Scopes)
    (expression : Option Expr) :
    Expr.findingsOf context scopes (expression.map (Expr.relabel r)) =
      (Expr.findingsOf context scopes expression).map (Finding.relabel r) := by
  cases expression with
  | none => rfl
  | some expression => exact expression.findings_relabel r context scopes

theorem FunctionDecl.name_relabel (r : Relabeling) (declaration : FunctionDecl) :
    (declaration.relabel r).name = r.token declaration.name := by
  cases declaration
  rfl

theorem FunctionDecl.isInitializer_relabel (r : Relabeling) (declaration : FunctionDecl) :
    (declaration.relabel r).isInitializer = declaration.isInitializer := by
  rw [isInitializer, name_relabel]
  rfl

theorem Scopes.after_relabel (r : Relabeling) (scopes : Scopes) (statement : Stmt) :
    scopes.after (statement.relabel r) = scopes.after statement := by
  cases statement with
  | function declaration =>
      rw [Stmt.relabel, Scopes.after, FunctionDecl.name_relabel]
      rfl
  | conditional condition thenBranch elseBranch =>
      rw [Stmt.relabel_conditional]
      rfl
  | _ => rfl

mutual

/-- The same is found in a statement with other labels. -/
theorem Stmt.findings_relabel (r : Relabeling) (context : Context) (scopes : Scopes) :
    (statement : Stmt) → (statement.relabel r).findings context scopes =
      (statement.findings context scopes).map (Finding.relabel r)
  | .block body => Stmt.findingsAll_relabel r context ([] :: scopes) body
  | .classDecl name superclass methods => by
      have hclass : context.inClass (superclass.map r.occurrence) = context.inClass superclass := by
        cases superclass <;> rfl
      rw [Stmt.relabel, Stmt.findings, Stmt.findings, List.map_append, Scopes.classHead_relabel,
        Scopes.classBody_relabel, hclass, FunctionDecl.findingsAll_relabel]
  | .expression value => value.findings_relabel r context scopes
  | .function declaration => by
      rw [Stmt.relabel, Stmt.findings, Stmt.findings, List.map_append,
        FunctionDecl.name_relabel, Scopes.declaring_relabel, declaration.findings_relabel]
      rfl
  | .conditional condition thenBranch none => by
      rw [Stmt.relabel, Stmt.findings, Stmt.findings, List.map_append, List.map_append,
        condition.findings_relabel, thenBranch.findings_relabel]
      rfl
  | .conditional condition thenBranch (some elseBranch) => by
      rw [Stmt.relabel, Stmt.findings, Stmt.findings, List.map_append, List.map_append,
        condition.findings_relabel, thenBranch.findings_relabel]
      exact congrArg _ (elseBranch.findings_relabel r context scopes)
  | .print value => value.findings_relabel r context scopes
  | .returnValue keyword none => by
      rw [Stmt.relabel, Option.map_none, Stmt.findings, Stmt.findings, List.map_append,
        Context.returning_relabel]
      rfl
  | .returnValue keyword (some value) => by
      rw [Stmt.relabel, Option.map_some, Stmt.findings, Stmt.findings, List.map_append,
        List.map_append, Context.returning_relabel, Context.returningValue_relabel,
        value.findings_relabel]
  | .varDecl name initializer => by
      have hlexeme : (r.token name).lexeme = name.lexeme := rfl
      rw [Stmt.relabel, Stmt.findings, Stmt.findings, List.map_append, Scopes.declaring_relabel,
        Expr.findingsOf_relabel, hlexeme]
  | .whileLoop condition body => by
      rw [Stmt.relabel, Stmt.findings, Stmt.findings, List.map_append, condition.findings_relabel,
        body.findings_relabel]

theorem Stmt.findingsAll_relabel (r : Relabeling) (context : Context) (scopes : Scopes) :
    (statements : List Stmt) →
      Stmt.findingsAll context scopes (Stmt.relabelAll r statements) =
        (Stmt.findingsAll context scopes statements).map (Finding.relabel r)
  | [] => rfl
  | statement :: rest => by
      rw [Stmt.relabelAll, Stmt.findingsAll, Stmt.findingsAll, List.map_append,
        statement.findings_relabel, Scopes.after_relabel, Stmt.findingsAll_relabel]

theorem FunctionDecl.findings_relabel (r : Relabeling) (context : Context) (scopes : Scopes) :
    (declaration : FunctionDecl) → (declaration.relabel r).findings context scopes =
      (declaration.findings context scopes).map (Finding.relabel r)
  | .mk name params body => by
      rw [FunctionDecl.relabel, FunctionDecl.findings, FunctionDecl.findings, List.map_append,
        Scopes.declaringParams_relabel, Scopes.withParams, Scopes.withParams,
        Scopes.foldl_enter_relabel, Stmt.findingsAll_relabel]

theorem FunctionDecl.findingsAll_relabel (r : Relabeling) (context : Context) (scopes : Scopes) :
    (methods : List FunctionDecl) →
      FunctionDecl.findingsAll context scopes (FunctionDecl.relabelAll r methods) =
        (FunctionDecl.findingsAll context scopes methods).map (Finding.relabel r)
  | [] => rfl
  | method :: rest => by
      have hmethod : context.inMethod (method.relabel r) = context.inMethod method := by
        rw [Context.inMethod, FunctionDecl.isInitializer_relabel]
        rfl
      rw [FunctionDecl.relabelAll, FunctionDecl.findingsAll, FunctionDecl.findingsAll,
        List.map_append, hmethod, method.findings_relabel, FunctionDecl.findingsAll_relabel]

end

theorem Program.findings_relabel (r : Relabeling) (program : Program) :
    (program.relabel r).findings = program.findings.map (Finding.relabel r) :=
  Stmt.findingsAll_relabel r _ _ program

/-- The same static rules are broken in a program with other labels. -/
theorem Program.staticFaults_relabel (r : Relabeling) (program : Program) :
    (program.relabel r).staticFaults =
      program.staticFaults.map (StaticFault.mapLine r.lines) := by
  rw [staticFaults, staticFaults, findings_relabel, List.filterMap_map, List.map_filterMap]
  congr 1
  funext finding
  cases finding <;> rfl

/-! ## The same distances -/

/-- What is recorded under the new numbers is what was recorded under the old ones. -/
def Relabeling.Agrees (r : Relabeling) (old new : Distances) : Prop :=
  ∀ id : NodeId, new[r.ids id]? = old[id]?

namespace Relabeling.Agrees

variable {r : Relabeling} {old new : Distances}

theorem record (h : r.Agrees old new) (hids : Function.Injective r.ids) (finding : Finding) :
    r.Agrees (old.record finding) (new.record (finding.relabel r)) := by
  intro id
  cases finding with
  | fault broken => exact h id
  | binding occurrence distance =>
      cases distance with
      | none => exact h id
      | some distance =>
          show (new.insert (r.ids occurrence.id) distance)[r.ids id]? =
            (old.insert occurrence.id distance)[id]?
          rw [Std.TreeMap.getElem?_insert, Std.TreeMap.getElem?_insert, h id]
          by_cases heq : occurrence.id = id
          · rw [if_pos (compare_eq_iff_eq.2 heq), if_pos (compare_eq_iff_eq.2 (congrArg _ heq))]
          · rw [if_neg (mt compare_eq_iff_eq.1 heq),
              if_neg (mt compare_eq_iff_eq.1 (hids.ne heq))]

theorem recordAll (h : r.Agrees old new) (hids : Function.Injective r.ids)
    (findings : List Finding) :
    r.Agrees (old.recordAll findings) (new.recordAll (findings.map (Finding.relabel r))) := by
  induction findings generalizing old new with
  | nil => exact h
  | cons finding rest ih => exact ih (h.record hids finding)

end Relabeling.Agrees

/-- The lines of tokens are not recorded. -/
theorem Distances.recordAll_ofLines (distances : Distances) (lines : Nat → Nat)
    (findings : List Finding) :
    distances.recordAll (findings.map (Finding.relabel (.ofLines lines))) =
      distances.recordAll findings := by
  rw [recordAll, List.foldl_map]
  congr 1
  funext distances finding
  cases finding with
  | fault broken => rfl
  | binding occurrence distance => cases distance <;> rfl

/-! ## Programs one behind the other -/

theorem Distances.recordAll_append (distances : Distances) (first second : List Finding) :
    distances.recordAll (first ++ second) = (distances.recordAll first).recordAll second :=
  List.foldl_append

theorem Stmt.findingsAll_global_append (context : Context) (first second : List Stmt) :
    Stmt.findingsAll context [] (first ++ second) =
      Stmt.findingsAll context [] first ++ Stmt.findingsAll context [] second := by
  induction first with
  | nil => rfl
  | cons statement rest ih =>
      have hafter : Scopes.after [] statement = [] := by cases statement <;> rfl
      rw [List.cons_append, Stmt.findingsAll, Stmt.findingsAll, hafter, ih, List.append_assoc]

/-- What is found in a program does not depend on the declarations in front of it. -/
theorem Program.findings_append (first second : Program) :
    Program.findings (first ++ second) = first.findings ++ second.findings :=
  Stmt.findingsAll_global_append _ first second

end LoxLang
