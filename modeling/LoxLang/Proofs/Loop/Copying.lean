import LoxLang.Proofs.Loop.Beginning
import LoxLang.Proofs.Loop.Direct
import LoxLang.Proofs.Run.Arising

/-!
# A copy of a loop

What is recorded about the tree of a loop counts the scope of each turn, and what is recorded about
the loop by itself does not.  So the loop by itself has numbers of its own (`Run.Unused`), and then
the code of the tree fits the one of the loop, clause by clause (`Loop.Like`).
-/

namespace LoxLang

/-! ## Numbers -/

/-- The numbers in a part of a program, expressions apart. -/
def Part.ids : Part → List NodeId
  | .expression _ => []
  | .statement single => single.ids
  | .statements rest => Stmt.idsAll rest

/-- A part of a program has some of its numbers, in their order. -/
theorem Located.ids_sublist {program : Program} {path : Path} {part : Part}
    (h : Located program path part) : part.ids.Sublist (Stmt.idsAll program) := by
  induction h with
  | program => exact List.Sublist.refl _
  | first _ ih => exact (List.sublist_append_left _ _).trans ih
  | rest _ ih => exact (List.sublist_append_right _ _).trans ih
  | block _ ih => exact ih
  | @function path declaration _ ih =>
      cases declaration
      exact ih
  | @method path name superclass methods method _ hmethod ih =>
      have hmethods : (FunctionDecl.idsAll methods).Sublist (Stmt.idsAll _) :=
        (List.sublist_append_right _ _).trans ih
      rw [FunctionDecl.idsAll_eq_flatMap] at hmethods
      cases method
      exact (List.sublist_flatten_of_mem (List.mem_map_of_mem hmethod)).trans hmethods
  | @branch path statement branch _ hbranch ih =>
      refine List.Sublist.trans ?_ ih
      cases statement with
      | conditional condition thenBranch elseBranch =>
          rw [Part.ids, Part.ids, Stmt.ids_conditional]
          refine List.Sublist.trans ?_ (List.sublist_append_right _ _)
          rcases List.mem_cons.1 hbranch with rfl | helse
          · exact List.sublist_append_left _ _
          · obtain rfl := Option.mem_toList.1 helse
            exact List.sublist_append_right _ _
      | whileLoop condition body =>
          obtain rfl := List.mem_singleton.1 hbranch
          exact List.sublist_append_right _ _
      | _ => cases hbranch
  | expression _ _ _ => exact List.nil_sublist _
  | operand _ _ _ => exact List.nil_sublist _

theorem Program.idsAll_echoing (program : Program) :
    Stmt.idsAll program.echoing = Stmt.idsAll program := by
  rw [echoing.eq_def]
  split <;> rfl

/-- The occurrences of a program that has been read have different numbers. -/
theorem Program.Written.nodup_ids {program : Program} (h : program.Written) :
    (Stmt.idsAll program).Nodup := by
  cases h with
  | @mk source nextId next prepare program hprepare hparse =>
      have hresult : (Program.parse (TokenStream.ofSource source).tokens
          (TokenStream.ofSource source).endLine nextId).result = .ok program := by rw [hparse]
      obtain ⟨-, hids⟩ := Program.derives_of_parse_eq_ok hresult
      cases hprepare with
      | script => exact hids.nodup
      | line =>
          rw [Program.idsAll_echoing]
          exact hids.nodup

theorem Run.Arises.written {run : Run} (h : run.Arises) :
    ∀ program ∈ run.past.programs, program.Written := by
  induction h with
  | first _ hprogram => exact List.forall_mem_singleton.2 hprogram
  | step _ ih => exact ih
  | next _ _ hprogram ih => exact List.forall_mem_cons.2 ⟨hprogram, ih⟩

/-! ## Numbers of a copy -/

/-- Numbers for the occurrences of a copy.  No occurrence in a program of the session has one of
them, and nothing is recorded under them. -/
structure Run.Unused (run : Run) (ids : NodeId → NodeId) : Prop where
  injective : Function.Injective ids
  unrecorded : ∀ id, run.machine.world.distances[ids id]? = none
  unnamed : ∀ program ∈ run.past.programs, ∀ id, ids id ∉ Finding.ids program.findings

/-- There are such numbers, since the session gives out its own in their order. -/
theorem Run.InOrder.exists_unused {run : Run} (h : run.InOrder) : ∃ ids, run.Unused ids := by
  obtain ⟨nextId, hrecorded⟩ := h.recorded
  refine ⟨fun id => nextId + id, fun first second heq => Nat.add_left_cancel heq, ?_, ?_⟩
  · exact fun id => hrecorded.fresh _ (Nat.le_add_right _ _)
  · intro program hprogram id hmem
    exact absurd (hrecorded.used program hprogram _ hmem) (Nat.not_lt.2 (Nat.le_add_right _ _))

/-- A finding about a copy is about an occurrence with a number of the copy. -/
theorem Finding.exists_of_mem_ids_relabel {findings : List Finding} {r : Relabeling} {id : NodeId}
    (h : id ∈ Finding.ids (findings.map (Finding.relabel r))) :
    ∃ original, id = r.ids original := by
  obtain ⟨copied, hcopied, hid⟩ := List.mem_filterMap.1 h
  obtain ⟨finding, -, rfl⟩ := List.mem_map.1 hcopied
  cases finding with
  | fault broken => cases hid
  | binding occurrence distance =>
      cases hid
      exact ⟨occurrence.id, rfl⟩

/-- The scopes that there are, and what is recorded about their programs and about a copy of some
code. -/
def Run.pairing (run : Run) (findings : List Finding) : Pairing where
  real := run.machine.world.distances
  direct := run.machine.world.distances.recordAll findings
  images := (List.range run.past.openings.length).map some

namespace Run.Unused

variable {run : Run} {ids : NodeId → NodeId} (h : run.Unused ids) {findings : List Finding}

include h

/-- What is found about the copy is recorded under its numbers. -/
theorem tells (hnodup : (Finding.ids findings).Nodup) :
    ∀ finding ∈ findings, finding.Tells fun id =>
    (run.pairing (findings.map (Finding.relabel (.ofIds ids)))).direct[ids id]? := by
  intro finding hfinding
  cases finding with
  | fault broken => trivial
  | binding occurrence distance =>
      have hnothing : Relabeling.Agrees (.ofIds ids) ∅ run.machine.world.distances := fun id =>
        (h.unrecorded id).trans Std.TreeMap.getElem?_emptyc.symm
      have hagrees := hnothing.recordAll h.injective findings occurrence.id
      exact hagrees.trans
        (Distances.getElem?_recordAll ∅ hfinding hnodup Std.TreeMap.getElem?_emptyc)

/-- What is recorded about the copy does not touch what is recorded about the programs. -/
theorem shares (hrun : run.InOrder) :
    (run.pairing (findings.map (Finding.relabel (.ofIds ids)))).Shares run.scene where
  grounded := hrun.sound.grounded
  images := rfl
  real := by
    obtain ⟨nextId, hrecorded⟩ := hrun.recorded
    intro program hprogram finding hfinding
    cases finding with
    | fault broken => trivial
    | binding occurrence distance =>
        exact hrecorded.recorded program hprogram occurrence distance hfinding
  direct := by
    obtain ⟨nextId, hrecorded⟩ := hrun.recorded
    intro program hprogram finding hfinding
    cases finding with
    | fault broken => trivial
    | binding occurrence distance =>
        have hnot : occurrence.id ∉ Finding.ids (findings.map (Finding.relabel (.ofIds ids))) := by
          intro hmem
          obtain ⟨original, horiginal⟩ := Finding.exists_of_mem_ids_relabel hmem
          have hid := Finding.mem_ids hfinding
          rw [horiginal] at hid
          exact h.unnamed program hprogram original hid
        exact (Distances.getElem?_recordAll_of_not_mem _ hnot).trans
          (hrecorded.recorded program hprogram occurrence distance hfinding)

end Run.Unused

/-! ## Clauses -/

/-- The clauses of the tree of a loop and of the loop by itself.  If there is an increment, then the
body of the tree stands with it in the scope of the turn, in which nothing is declared. -/
structure Loop.Like (p : Pairing) (loop copy : Loop) : Prop where
  initializer : Option.Rel (Stmt.Like p none) loop.initializer copy.initializer
  condition : Option.Rel (Expr.Like p none) loop.condition copy.condition
  increment : Option.Rel (Expr.Like p (some 0)) loop.increment copy.increment
  body : loop.body.Like p (if loop.increment.isSome then some 0 else none) copy.body

theorem Loop.Like.mono {p q : Pairing} {loop copy : Loop} (h : loop.Like p copy)
    (hgrows : p.Grows q) : loop.Like q copy := by
  have hexpression (idle : Option Nat) (clause clause' : Expr)
      (hlike : clause.Like p idle clause') :
      clause.Like q idle clause' := hlike.mono hgrows
  have hstatement (clause clause' : Stmt) (hlike : clause.Like p none clause') :
      clause.Like q none clause' := hlike.mono hgrows
  exact ⟨optionRel_imp hstatement h.initializer, optionRel_imp (hexpression none) h.condition,
    optionRel_imp (hexpression (some 0)) h.increment, h.body.mono hgrows⟩

/-- The name of a declaration is no word that classes bind. -/
theorem Stmt.Formed.ne_of_declared? {statement : Stmt} (h : statement.Formed Token.Genuine)
    {name : String} (hname : statement.declared? = some name) :
    name ≠ thisName ∧ name ≠ superName := by
  have hspells := h.spells
  cases statement with
  | varDecl token initializer =>
      cases hname
      exact Token.Names.ne hspells
  | function declaration =>
      cases hname
      exact hspells.1.ne
  | classDecl token superclass methods =>
      cases hname
      exact hspells.1.ne
  | _ => cases hname

theorem Scopes.after_of_declared?_eq_none (scopes : Scopes) {statement : Stmt}
    (h : statement.declared? = none) : scopes.after statement = scopes := by
  cases statement with
  | varDecl token initializer => cases h
  | function declaration => cases h
  | classDecl token superclass methods => cases h
  | _ => rfl

/-- The innermost scope behind the first statement of a block has the name that it declares. -/
theorem Scopes.innermost?_after_nil (scopes : Scopes) {statement : Stmt} {name : String}
    (h : statement.declared? ≠ some name) :
    (Scopes.after ([] :: scopes) statement).innermost? name = none := by
  have henter {other : String} (hother : some other ≠ some name) :
      (Scopes.enter ([] :: scopes) other true).innermost? name = none := by
    have hne : (name == other) = false := beq_eq_false_iff_ne.2 fun heq => hother (heq ▸ rfl)
    rw [Scopes.enter, Scopes.innermost?, List.lookup_cons, hne]
    rfl
  cases statement with
  | varDecl token initializer => exact henter h
  | function declaration => exact henter h
  | classDecl token superclass methods => exact henter h
  | _ => rfl

/-- Statements do not stand in the scope that a class opens for its superclass. -/
theorem Scene.Activates.innermost?_superName {scene : Scene} {env : Env} {path : Path}
    (h : scene.Activates env path) : path.scopes.innermost? superName = none := by
  have hnot {scope : ScopeId} {declared : List String} (hkeeps : scene.Keeps scope declared) :
      (declared.map fun name => (name, true)).lookup superName = none := by
    rw [lookup_readable, if_neg fun hmem => (hkeeps _ hmem).2.1 rfl]
  cases h with
  | globals => rfl
  | block _ _ hkeeps => exact hnot hkeeps
  | function _ _ _ hkeeps => exact hnot hkeeps
  | method _ _ _ _ _ _ _ hkeeps => exact hnot hkeeps

namespace Loop

/-- What is found in the tree, clause by clause. -/
theorem findings_tree (loop : Loop) (context : Context) (scopes : Scopes) :
    let inside := loop.scopesInside scopes
    loop.tree.findings context scopes =
      loop.initializerFindings context scopes ++ Expr.findingsOf context inside loop.condition ++
        loop.body.findings context (if loop.increment.isSome then [] :: inside else inside) ++
        Expr.findingsOf context ([] :: inside) loop.increment := by
  obtain ⟨initializer, condition, increment, body, hbody⟩ := loop
  have hafter := Scopes.after_of_declared?_eq_none
    ([] :: Loop.scopesInside ⟨initializer, condition, increment, body, hbody⟩ scopes) hbody
  cases initializer <;> cases condition <;> cases increment <;>
    simp_all [tree, Stmt.forLoop, Stmt.findings, Stmt.findingsAll, Expr.findings, Expr.findingsOf,
      scopesInside, initializerFindings]

/-- In the scope of a turn nothing is declared, and it stands in none that a class opens. -/
theorem skips_turn {program : Program} {scene : Scene} {env : Env} {path : Path} {loop : Loop}
    (hformed : program.Formed Token.Genuine) (henv : scene.Activates env path)
    (hlocated : Located program path (.statement loop.tree)) :
    Scopes.Skips (some 0) ([] :: loop.scopesInside path.scopes)
      (loop.scopesInside path.scopes) := by
  obtain ⟨initializer, condition, increment, body, hbody⟩ := loop
  cases initializer with
  | none => exact .idle henv.innermost?_superName
  | some initializer =>
      have htree : Stmt.Formed Token.Genuine _ := hlocated.formed hformed
      have hinitializer : initializer.Formed Token.Genuine := htree.enclosed List.mem_cons_self
      refine .idle (Scopes.innermost?_after_nil path.scopes fun hname => ?_)
      exact (hinitializer.ne_of_declared? hname).2 rfl

/-- The clauses of a loop whose tree is formed. -/
theorem formed_clauses {loop : Loop} (h : loop.tree.Formed Token.Genuine) :
    (∀ statement ∈ loop.initializer, statement.Formed Token.Genuine) ∧
      (∀ expression ∈ loop.condition, expression.Formed Token.Genuine) ∧
      (∀ expression ∈ loop.increment, expression.Formed Token.Genuine) ∧
      loop.body.Formed Token.Genuine := by
  obtain ⟨initializer, condition, increment, body, hbody⟩ := loop
  have hloop : (Stmt.forLoop none condition increment body).Formed Token.Genuine := by
    cases initializer with
    | none => exact h
    | some initializer => exact h.enclosed (.tail _ (.head _))
  refine ⟨?_, ?_, ?_, ?_⟩
  · rintro statement ⟨⟩
    exact h.enclosed (.head _)
  · rintro expression ⟨⟩
    exact hloop.expression (.head _)
  · rintro expression ⟨⟩
    have hturn := hloop.branch (.head _)
    exact (hturn.enclosed (.tail _ (.head _))).expression (.head _)
  · cases increment with
    | none => exact hloop.branch (.head _)
    | some increment => exact (hloop.branch (.head _)).enclosed (.head _)

end Loop

/-- A clause that may be missing fits its copy. -/
theorem Expr.like_option {p : Pairing} {ids : NodeId → NodeId} {idle : Option Nat}
    {context : Context} {scopes scopes' : Scopes} {clause : Option Expr}
    (hskips : scopes.Skips idle scopes')
    (hformed : ∀ expression ∈ clause, expression.Formed Token.Genuine)
    (hfound : Found (p.records ids) (Expr.findingsOf context scopes clause)
      (Expr.findingsOf context scopes' clause)) :
    Option.Rel (Expr.Like p idle) clause (clause.map (Expr.relabel (.ofIds ids))) := by
  cases clause with
  | none => exact .none
  | some expression =>
      exact .some ⟨ids, rfl, expression.fits hskips (hformed expression rfl) hfound⟩

theorem Run.Unused.shares_copy {run : Run} {ids : NodeId → NodeId} (h : run.Unused ids)
    (hrun : run.InOrder) (loop : Loop) (context : Context) (scopes : Scopes) :
    (run.pairing ((loop.relabel (.ofIds ids)).findings context scopes)).Shares run.scene := by
  rw [loop.findings_relabel]
  exact h.shares hrun

/-- The clauses of the tree fit those of a copy with unused numbers. -/
theorem Run.Unused.like_copy {run : Run} {ids : NodeId → NodeId} (h : run.Unused ids)
    (hrun : run.Occurs) {program : Program} (hprogram : program ∈ run.past.programs) {env : Env}
    {path : Path} (henv : run.scene.Activates env path) {loop : Loop}
    (hlocated : Located program path (.statement loop.tree)) :
    let copy := loop.relabel (.ofIds ids)
    loop.Like (run.pairing (copy.findings path.context path.scopes)) copy := by
  intro copy
  have haccepted := hrun.inOrder.sound.grounded.accepted program hprogram
  have hnodup : (Finding.ids (loop.findings path.context path.scopes)).Nodup :=
    ((hrun.arises.written program hprogram).nodup_ids).sublist
      ((loop.ids_findings_sublist _ _).trans hlocated.ids_sublist)
  have hshares := h.shares_copy hrun.inOrder loop path.context path.scopes
  have htells := h.tells hnodup
  rw [← loop.findings_relabel] at htells
  let p := run.pairing (copy.findings path.context path.scopes)
  have hfound : Found (p.records ids) (loop.tree.findings path.context path.scopes)
      (loop.findings path.context path.scopes) := by
    have hsub := hlocated.findings_subset
    refine ⟨fun finding hfinding => ?_, fun finding hfinding => ?_, htells⟩
    · exact (hshares.found hprogram hsub).clean finding hfinding
    · exact hshares.real program hprogram finding (hsub hfinding)
  obtain ⟨hinitializer, hcondition, hincrement, hbody⟩ :=
    Loop.formed_clauses (hlocated.formed haccepted.formed)
  have hturn := Loop.skips_turn haccepted.formed henv hlocated
  rw [Loop.findings_tree] at hfound
  constructor
  · have hfirst := hfound.left.left.left
    obtain ⟨initializer, condition, increment, body, hdeclares⟩ := loop
    cases initializer with
    | none => exact .none
    | some initializer =>
        exact .some
          ⟨ids, rfl, initializer.fits (.same _) nofun (hinitializer initializer rfl) hfirst⟩
  · exact Expr.like_option (.same _) hcondition hfound.left.left.right
  · exact Expr.like_option hturn hincrement hfound.right
  · refine ⟨ids, rfl, ?_⟩
    have hbodies := hfound.left.right
    revert hbodies
    split
    · exact loop.body.fits hturn (fun _ => loop.body_declares) hbody
    · exact loop.body.fits (.same _) nofun hbody

end LoxLang
