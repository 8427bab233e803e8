import LoxLang.Proofs.Scope.StaticRules
import LoxLang.Proofs.Token.Words
import LoxLang.Proofs.Tree.Numbering
import LoxLang.Session

/-!
# Recorded distances

Resolution says at most one thing about each numbered occurrence, so what is recorded under a number
is what was found about the occurrence that has it.  In a program without static faults the distance
of an occurrence is the number of constructs to go out from its place to the innermost one that has
declared its name in front of it.
-/

namespace LoxLang

/-! ## Each occurrence is met once -/

/-- The number of the occurrence whose binding a finding is. -/
def Finding.id? : Finding → Option NodeId
  | .binding occurrence _ => some occurrence.id
  | .fault _ => none

/-- The numbers of the occurrences that findings are about. -/
def Finding.ids (findings : List Finding) : List NodeId :=
  findings.filterMap Finding.id?

namespace Finding

@[simp] theorem ids_append (findings findings' : List Finding) :
    ids (findings ++ findings') = ids findings ++ ids findings' :=
  List.filterMap_append

theorem ids_eq_nil {findings : List Finding} (h : ∀ finding ∈ findings, ∃ broken,
    finding = .fault broken) : ids findings = [] := by
  refine List.filterMap_eq_nil_iff.2 fun finding hfinding => ?_
  obtain ⟨broken, rfl⟩ := h finding hfinding
  rfl

theorem mem_ids {findings : List Finding} {occurrence : Occurrence} {distance : Option Nat}
    (h : Finding.binding occurrence distance ∈ findings) : occurrence.id ∈ ids findings :=
  List.mem_filterMap.2 ⟨_, h, rfl⟩

end Finding

section

variable (context : Context) (scopes : Scopes)

theorem Scopes.ids_declaring (name : Token) : Finding.ids (scopes.declaring name) = [] := by
  rw [Scopes.declaring]
  split <;> rfl

theorem Scopes.ids_reading (occurrence : Occurrence) :
    Finding.ids (scopes.reading occurrence) = [occurrence.id] := by
  rw [Scopes.reading]
  split <;> rfl

theorem Scopes.ids_classHead (name : Token) (superclass : Option Occurrence) :
    Finding.ids (scopes.classHead name superclass) = (superclass.map Occurrence.id).toList := by
  cases superclass with
  | none => simp [Scopes.classHead, Scopes.ids_declaring]
  | some occurrence =>
      rw [Scopes.classHead, Finding.ids_append, Finding.ids_append, Scopes.ids_declaring,
        Scopes.ids_reading]
      split <;> rfl

theorem Context.ids_usingThis (occurrence : Occurrence) :
    (Finding.ids (context.usingThis occurrence scopes)).Sublist [occurrence.id] := by
  rw [Context.usingThis]
  split
  · exact List.nil_sublist _
  · exact List.Sublist.refl _

theorem Context.ids_usingSuper (occurrence : Occurrence) :
    Finding.ids (context.usingSuper occurrence scopes) = [occurrence.id] := by
  rw [Context.usingSuper]
  cases context.classBody <;> rfl

theorem Context.ids_returning (keyword : Token) :
    Finding.ids (context.returning keyword) = [] := by
  rw [Context.returning]
  split <;> rfl

theorem Context.ids_returningValue (keyword : Token) :
    Finding.ids (context.returningValue keyword) = [] := by
  rw [Context.returningValue]
  split <;> rfl

end

mutual

/-- Resolution meets the occurrences of an expression one by one. -/
theorem Expr.ids_findings_sublist (context : Context) (scopes : Scopes) :
    (expression : Expr) →
      (Finding.ids (expression.findings context scopes)).Sublist expression.ids
  | .literal _ => List.Sublist.refl _
  | .grouping inner => inner.ids_findings_sublist context scopes
  | .unary _ operand => operand.ids_findings_sublist context scopes
  | .binary _ left right => by
      rw [findings, Finding.ids_append]
      exact (left.ids_findings_sublist context scopes).append
        (right.ids_findings_sublist context scopes)
  | .logical _ left right => by
      rw [findings, Finding.ids_append]
      exact (left.ids_findings_sublist context scopes).append
        (right.ids_findings_sublist context scopes)
  | .variable occurrence => by
      rw [findings, Scopes.ids_reading]
      exact List.Sublist.refl _
  | .assign target value => by
      rw [findings, Finding.ids_append]
      exact (value.ids_findings_sublist context scopes).append (List.Sublist.refl _)
  | .call callee _ arguments => by
      rw [findings, Finding.ids_append]
      exact (callee.ids_findings_sublist context scopes).append
        (Expr.ids_findingsAll_sublist context scopes arguments)
  | .get object _ => object.ids_findings_sublist context scopes
  | .set object _ value => by
      rw [findings, Finding.ids_append]
      exact (value.ids_findings_sublist context scopes).append
        (object.ids_findings_sublist context scopes)
  | .thisRef occurrence => context.ids_usingThis scopes occurrence
  | .superRef occurrence _ => by
      rw [findings, Context.ids_usingSuper]
      exact List.Sublist.refl _

theorem Expr.ids_findingsAll_sublist (context : Context) (scopes : Scopes) :
    (expressions : List Expr) →
      (Finding.ids (Expr.findingsAll context scopes expressions)).Sublist (Expr.idsAll expressions)
  | [] => List.Sublist.refl _
  | expression :: rest => by
      rw [findingsAll, Finding.ids_append]
      exact (expression.ids_findings_sublist context scopes).append
        (Expr.ids_findingsAll_sublist context scopes rest)

end

theorem Expr.ids_findingsOf_sublist (context : Context) (scopes : Scopes)
    (expression : Option Expr) :
    (Finding.ids (Expr.findingsOf context scopes expression)).Sublist (Expr.idsOf expression) := by
  cases expression with
  | none => exact List.Sublist.refl _
  | some expression => exact expression.ids_findings_sublist context scopes

mutual

/-- Resolution meets the occurrences of a statement one by one. -/
theorem Stmt.ids_findings_sublist (context : Context) (scopes : Scopes) :
    (statement : Stmt) →
      (Finding.ids (statement.findings context scopes)).Sublist statement.ids
  | .block body => Stmt.ids_findingsAll_sublist context ([] :: scopes) body
  | .classDecl name superclass methods => by
      rw [Stmt.findings, Finding.ids_append, Scopes.ids_classHead]
      exact (List.Sublist.refl _).append (FunctionDecl.ids_findingsAll_sublist _ _ methods)
  | .expression value => value.ids_findings_sublist context scopes
  | .function declaration => by
      rw [Stmt.findings, Finding.ids_append, Scopes.ids_declaring]
      exact declaration.ids_findings_sublist _ _
  | .conditional condition thenBranch none => by
      rw [Stmt.findings, Finding.ids_append, Finding.ids_append]
      exact ((condition.ids_findings_sublist context scopes).append
        (thenBranch.ids_findings_sublist context scopes)).append (List.Sublist.refl _)
  | .conditional condition thenBranch (some elseBranch) => by
      rw [Stmt.findings, Finding.ids_append, Finding.ids_append]
      exact ((condition.ids_findings_sublist context scopes).append
        (thenBranch.ids_findings_sublist context scopes)).append
          (elseBranch.ids_findings_sublist context scopes)
  | .print value => value.ids_findings_sublist context scopes
  | .returnValue keyword none => by
      rw [Stmt.findings, Finding.ids_append, Context.ids_returning]
      exact List.Sublist.refl _
  | .returnValue keyword (some value) => by
      rw [Stmt.findings, Finding.ids_append, Context.ids_returning, Finding.ids_append,
        Context.ids_returningValue]
      exact value.ids_findings_sublist context scopes
  | .varDecl name initializer => by
      rw [Stmt.findings, Finding.ids_append, Scopes.ids_declaring]
      exact Expr.ids_findingsOf_sublist context _ initializer
  | .whileLoop condition body => by
      rw [Stmt.findings, Finding.ids_append]
      exact (condition.ids_findings_sublist context scopes).append
        (body.ids_findings_sublist context scopes)

theorem Stmt.ids_findingsAll_sublist (context : Context) (scopes : Scopes) :
    (statements : List Stmt) →
      (Finding.ids (Stmt.findingsAll context scopes statements)).Sublist (Stmt.idsAll statements)
  | [] => List.Sublist.refl _
  | statement :: rest => by
      rw [Stmt.findingsAll, Finding.ids_append]
      exact (statement.ids_findings_sublist context scopes).append
        (Stmt.ids_findingsAll_sublist context (scopes.after statement) rest)

theorem FunctionDecl.ids_findings_sublist (context : Context) (scopes : Scopes) :
    (declaration : FunctionDecl) →
      (Finding.ids (declaration.findings context scopes)).Sublist declaration.ids
  | .mk name params body => by
      rw [FunctionDecl.findings, Finding.ids_append,
        Finding.ids_eq_nil fun _ => Scopes.exists_of_mem_declaringParams]
      exact Stmt.ids_findingsAll_sublist context _ body

theorem FunctionDecl.ids_findingsAll_sublist (context : Context) (scopes : Scopes) :
    (methods : List FunctionDecl) →
      (Finding.ids (FunctionDecl.findingsAll context scopes methods)).Sublist
        (FunctionDecl.idsAll methods)
  | [] => List.Sublist.refl _
  | method :: rest => by
      rw [FunctionDecl.findingsAll, Finding.ids_append]
      exact (method.ids_findings_sublist _ scopes).append
        (FunctionDecl.ids_findingsAll_sublist context scopes rest)

end

/-! ## What is recorded -/

namespace Distances

variable {findings : List Finding} {id : NodeId}

theorem getElem?_record (distances : Distances) (finding : Finding) (h : finding.id? ≠ some id) :
    (distances.record finding)[id]? = distances[id]? := by
  cases finding with
  | fault broken => rfl
  | binding occurrence distance =>
      cases distance with
      | none => rfl
      | some distance =>
          have hne : occurrence.id ≠ id := fun heq => h (congrArg some heq)
          show (distances.insert occurrence.id distance)[id]? = _
          rw [Std.TreeMap.getElem?_insert, if_neg (mt compare_eq_iff_eq.1 hne)]

/-- Nothing changes for occurrences that no finding is about. -/
theorem getElem?_recordAll_of_not_mem (distances : Distances) (h : id ∉ Finding.ids findings) :
    (distances.recordAll findings)[id]? = distances[id]? := by
  induction findings generalizing distances with
  | nil => rfl
  | cons finding rest ih =>
      have hfirst : finding.id? ≠ some id := fun heq => h (List.mem_filterMap.2
        ⟨finding, List.mem_cons_self, heq⟩)
      have hrest : id ∉ Finding.ids rest := by
        intro hmem
        obtain ⟨other, hother, heq⟩ := List.mem_filterMap.1 hmem
        exact h (List.mem_filterMap.2 ⟨other, List.mem_cons_of_mem _ hother, heq⟩)
      rw [recordAll, List.foldl_cons, ← recordAll, ih _ hrest, getElem?_record _ _ hfirst]

/-- If no two findings are about the same occurrence, then each is recorded as it is. -/
theorem getElem?_recordAll (distances : Distances) {occurrence : Occurrence}
    {distance : Option Nat} (h : .binding occurrence distance ∈ findings)
    (hnodup : (Finding.ids findings).Nodup) (hnew : distances[occurrence.id]? = none) :
    (distances.recordAll findings)[occurrence.id]? = distance := by
  induction findings generalizing distances with
  | nil => cases h
  | cons finding rest ih =>
      rw [recordAll, List.foldl_cons, ← recordAll]
      rcases List.mem_cons.1 h with rfl | hrest
      · have hids : Finding.ids (.binding occurrence distance :: rest) =
            occurrence.id :: Finding.ids rest := rfl
        rw [hids, List.nodup_cons] at hnodup
        rw [getElem?_recordAll_of_not_mem _ hnodup.1]
        cases distance with
        | none => exact hnew
        | some distance => exact Std.TreeMap.getElem?_insert_self
      · have hnodup' : (Finding.ids rest).Nodup :=
          hnodup.sublist ((List.sublist_cons_self finding rest).filterMap _)
        have hne : finding.id? ≠ some occurrence.id := by
          intro heq
          have hids : Finding.ids (finding :: rest) = occurrence.id :: Finding.ids rest :=
            List.filterMap_cons_some heq
          rw [hids, List.nodup_cons] at hnodup
          exact hnodup.1 (Finding.mem_ids hrest)
        exact ih _ hrest hnodup' ((getElem?_record _ _ hne).trans hnew)

end Distances

/-! ## Distances along the constructs -/

/-- The words by which methods find their instance and their superclass are names of no
variables. -/
theorem Token.Names.ne {name : Token} (h : name.Names Token.Genuine) :
    name.lexeme ≠ thisName ∧ name.lexeme ≠ superName :=
  ⟨h.2.identifier h.1 .thisKw, h.2.identifier h.1 .superKw⟩

/-- A program as it is run: read from a text, and without static faults. -/
structure Program.Accepted (program : Program) : Prop where
  formed : program.Formed Token.Genuine
  clean : program.staticFaults = []

/-- How many constructs to go out from a place to the innermost one that has declared a name in
front of it. -/
def Path.distance? (path : Path) (name : String) : Option Nat :=
  path.findIdx? fun enclosure => name ∈ enclosure.declared

/-- A new name does not stand in the way of other names. -/
theorem Scopes.distance?_enter (scopes : Scopes) {name other : String} (readable : Bool)
    (h : other ≠ name) :
    (scopes.enter name readable).distance? other = scopes.distance? other := by
  cases scopes with
  | nil => rfl
  | cons scope outer =>
      have hlookup : List.lookup other ((name, readable) :: scope) = scope.lookup other := by
        rw [List.lookup_cons, beq_eq_false_iff_ne.2 h]
      rw [enter, distance?, distance?, List.findIdx?_cons, List.findIdx?_cons, hlookup]

namespace Path

theorem distance?_scopes (path : Path) (name : String) :
    path.scopes.distance? name = path.distance? name := by
  rw [Scopes.distance?, scopes, List.findIdx?_map, distance?]
  congr 1
  funext enclosure
  rw [Function.comp_apply, lookup_readable]
  split <;> simp_all

theorem distance?_enter {path : Path} {name other : String} (h : other ≠ name) :
    (path.enter name).distance? other = path.distance? other := by
  rw [← distance?_scopes, scopes_enter, Scopes.distance?_enter _ _ h, distance?_scopes]

/-- A name that is not readable yet does not stand in the way of other names. -/
theorem distance?_pending {path : Path} {name : Token} {other : String}
    (h : path ≠ [] → other ≠ name.lexeme) :
    (path.pending name).distance? other = path.distance? other := by
  rw [pending]
  split
  · exact path.distance?_scopes other
  · cases path with
    | nil => rfl
    | cons enclosure outer =>
        rw [Scopes.distance?_enter _ _ (h (List.cons_ne_nil _ _)), distance?_scopes]

/-- There is one scope for each construct, whether or not a name has been entered. -/
theorem length_scopesInside (path : Path) (statement : Stmt) :
    (statement.scopesInside path).length = path.length := by
  have hscopes : path.scopes.length = path.length := List.length_map _
  cases statement with
  | varDecl name initializer =>
      rw [Stmt.scopesInside, pending]
      split
      · exact hscopes
      · cases path with
        | nil => rfl
        | cons enclosure outer => exact hscopes
  | _ => exact hscopes

/-- The construct at a distance from a place is the innermost one that has declared a name in front
of the place. -/
structure Binds (path : Path) (name : String) (distance : Nat) (enclosure : Enclosure) : Prop where
  found : path[distance]? = some enclosure
  declared : name ∈ enclosure.declared
  innermost : ∀ inner ∈ path.take distance, name ∉ inner.declared

theorem binds_of_distance? {path : Path} {name : String} {distance : Nat}
    (h : path.distance? name = some distance) :
    ∃ enclosure, path.Binds name distance enclosure := by
  obtain ⟨hlt, hfound, hbefore⟩ := List.findIdx?_eq_some_iff_getElem.1 h
  refine ⟨path[distance], List.getElem?_eq_getElem hlt, of_decide_eq_true hfound, ?_⟩
  intro inner hinner
  obtain ⟨i, hi, rfl⟩ := List.mem_take_iff_getElem.1 hinner
  simpa using hbefore i (by omega)

end Path

/-- An occurrence that reads a variable at a place, as an expression or as a superclass. -/
inductive Program.Reads (program : Program) (path : Path) (occurrence : Occurrence) : Prop
  | variable : Located program path (.expression (.variable occurrence)) →
      Reads program path occurrence
  | superclass {name : Token} {methods : List FunctionDecl} :
      Located program path (.statement (.classDecl name (some occurrence) methods)) →
      Reads program path occurrence

namespace Program

variable {program : Program} {path : Path}

/-- What is read is an identifier. -/
theorem Reads.names {occurrence : Occurrence} (h : program.Reads path occurrence)
    (hprogram : program.Formed Token.Genuine) : occurrence.name.Names Token.Genuine := by
  cases h with
  | «variable» h => exact Expr.Formed.spells (h.formed hprogram)
  | superclass h => exact (Stmt.Formed.spells (h.formed hprogram)).2.1 occurrence rfl

/-- What resolution finds about the target of an assignment.  In the initializer of a variable the
name of the variable has been entered, so this need not be the distance along the constructs around
the place; but it stays within them. -/
theorem assign_mem_findings {target : Occurrence} {value : Expr}
    (h : Located program path (.expression (.assign target value))) :
    ∃ distance, .binding target distance ∈ program.findings ∧ ∀ d ∈ distance, d < path.length := by
  obtain ⟨statement, whole, hstatement, hwhole, hinside⟩ := located_expression_iff.1 h
  let scopes := statement.scopesInside path
  refine ⟨scopes.distance? target.name.lexeme, ?_, ?_⟩
  · have hown : scopes.binding target ∈ (Expr.assign target value).own path.context scopes :=
      List.mem_singleton_self _
    exact Program.mem_findings_iff.2 ⟨path, statement, hstatement,
      .inr ⟨whole, hwhole, whole.mem_findings_iff.2 ⟨_, hinside, hown⟩⟩⟩
  · intro d hd
    obtain ⟨hlt, -⟩ := List.findIdx?_eq_some_iff_getElem.1 hd
    rwa [Path.length_scopesInside] at hlt

namespace Accepted

theorem not_fault_mem_findings (h : program.Accepted) (broken : StaticFault) :
    Finding.fault broken ∉ program.findings :=
  Program.staticFaults_eq_nil_iff_forall.1 h.clean broken

theorem obeysStaticRules (h : program.Accepted) : program.ObeysStaticRules :=
  obeysStaticRules_of_clean h.not_fault_mem_findings

/-- What resolution finds about an expression of an accepted program, if the expression is not
about the variable in whose initializer it stands. -/
theorem binding_mem_findings {expression : Expr} {occurrence : Occurrence}
    (h : Located program path (.expression expression))
    (hbinding : ∀ scopes : Scopes, scopes.binding occurrence ∈
      expression.own path.context scopes)
    (hother : ∀ {name : Token} {initializer : Expr}, path ≠ [] →
      Located program path (.statement (.varDecl name (some initializer))) →
      expression.Inside initializer → occurrence.name.lexeme ≠ name.lexeme) :
    .binding occurrence (path.distance? occurrence.name.lexeme) ∈ program.findings := by
  obtain ⟨statement, whole, hstatement, hwhole, hinside⟩ := located_expression_iff.1 h
  have hdistance : (statement.scopesInside path).distance? occurrence.name.lexeme =
      path.distance? occurrence.name.lexeme := by
    cases statement with
    | varDecl name initializer =>
        obtain rfl := Option.mem_toList.1 hwhole
        exact Path.distance?_pending fun hpath => hother hpath hstatement hinside
    | _ => exact path.distance?_scopes _
  have hown := hbinding (statement.scopesInside path)
  rw [Scopes.binding, hdistance] at hown
  exact Program.mem_findings_iff.2 ⟨path, statement, hstatement,
    .inr ⟨whole, hwhole, whole.mem_findings_iff.2 ⟨expression, hinside, hown⟩⟩⟩

/-- What resolution finds about a variable that is read in an accepted program. -/
theorem reads_mem_findings (hprogram : program.Accepted) {occurrence : Occurrence}
    (h : program.Reads path occurrence) :
    .binding occurrence (path.distance? occurrence.name.lexeme) ∈ program.findings := by
  cases h with
  | «variable» h =>
      refine binding_mem_findings h (fun scopes => List.mem_append_right _ ?_) ?_
      · exact List.mem_singleton_self _
      · intro name initializer hpath hvar hinside
        exact hprogram.obeysStaticRules.notInOwnInitializer hvar hpath hinside
  | @superclass name methods h =>
      have hne := hprogram.obeysStaticRules.noSelfInheritance h
      have hdistance : (path.scopes.enter name.lexeme true).distance? occurrence.name.lexeme =
          path.distance? occurrence.name.lexeme := by
        rw [← Path.scopes_enter, Path.distance?_scopes, Path.distance?_enter hne]
      have hown : .binding occurrence (path.distance? occurrence.name.lexeme) ∈
          Stmt.own path (.classDecl name (some occurrence) methods) := by
        rw [← hdistance]
        refine List.mem_append_left _ (List.mem_append_right _ (List.mem_append_right _ ?_))
        exact List.mem_append_right _ (List.mem_singleton_self _)
      exact Program.mem_findings_iff.2 ⟨path, _, h, .inl hown⟩

theorem lexeme_thisRef (hprogram : program.Accepted) {occurrence : Occurrence}
    (h : Located program path (.expression (.thisRef occurrence))) :
    occurrence.name.lexeme = thisName := by
  have hspells : occurrence.name.isKeyword .thisKw ∧ occurrence.name.Genuine :=
    Expr.Formed.spells (h.formed hprogram.formed)
  exact hspells.2.keyword _ hspells.1

theorem lexeme_superRef (hprogram : program.Accepted) {occurrence : Occurrence} {method : Token}
    (h : Located program path (.expression (.superRef occurrence method))) :
    occurrence.name.lexeme = superName := by
  have hspells : occurrence.name.isKeyword .superKw ∧ occurrence.name.Genuine :=
    Expr.Formed.spells (h.formed hprogram.formed)
  exact hspells.2.keyword _ hspells.1

/-- What resolution finds about `this` in an accepted program. -/
theorem thisRef_mem_findings (hprogram : program.Accepted) {occurrence : Occurrence}
    (h : Located program path (.expression (.thisRef occurrence))) :
    .binding occurrence (path.distance? thisName) ∈ program.findings := by
  have hname := hprogram.lexeme_thisRef h
  have hclass : path.context.classBody ≠ .outside := by
    refine mt Path.context_classBody_eq_outside_iff.1 (mt Path.class?_eq_none_iff.1 ?_)
    exact not_not.2 (hprogram.obeysStaticRules.thisInClass h)
  rw [← hname]
  refine binding_mem_findings h (fun scopes => ?_) ?_
  · rw [Expr.own, Context.usingThis]
    split
    · next houtside => exact absurd houtside hclass
    · exact List.mem_singleton_self _
  · intro name initializer _ hvar _
    have hnames : name.Names Token.Genuine := Stmt.Formed.spells (hvar.formed hprogram.formed)
    rw [hname]
    exact hnames.ne.1.symm

/-- What resolution finds about `super` in an accepted program. -/
theorem superRef_mem_findings (hprogram : program.Accepted) {occurrence : Occurrence}
    {method : Token} (h : Located program path (.expression (.superRef occurrence method))) :
    .binding occurrence (path.distance? superName) ∈ program.findings := by
  have hname := hprogram.lexeme_superRef h
  rw [← hname]
  refine binding_mem_findings h (fun scopes => List.mem_append_right _ ?_) ?_
  · exact List.mem_singleton_self _
  · intro name initializer _ hvar _
    have hnames : name.Names Token.Genuine := Stmt.Formed.spells (hvar.formed hprogram.formed)
    rw [hname]
    exact hnames.ne.2.symm

end Accepted

end Program

end LoxLang
