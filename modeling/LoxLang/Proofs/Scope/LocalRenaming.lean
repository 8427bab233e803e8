import Mathlib.Data.List.Pairwise
import LoxLang.Proofs.Scope.LocalVariables
import LoxLang.Proofs.Scope.Renaming

/-!
# Programs with one local variable renamed

In a program in which a local variable has got another name that does not occur in it, resolution
finds the same: no faults, and for each occurrence the same distance.  In the old spelling the
program is the one that it was, and no scope of it has both names.
-/

namespace LoxLang

/-! ## The scope of the variable -/

theorem Scopes.after_eq (scopes : Scopes) (statement : Stmt) :
    scopes.after statement =
      match statement.declared? with
      | some name => scopes.enter name true
      | none => scopes := by
  cases statement <;> rfl

theorem Stmt.declaring_of_declared? {statement : Stmt} {name : String}
    (h : statement.declared? = some name) (context : Context) (scopes : Scopes) :
    ∃ token : Token, token.lexeme = name ∧
      scopes.declaring token ⊆ statement.findings context scopes := by
  cases statement with
  | varDecl token initializer => exact ⟨token, Option.some.inj h, List.subset_append_left _ _⟩
  | function declaration =>
      exact ⟨declaration.name, Option.some.inj h, List.subset_append_left _ _⟩
  | classDecl token superclass methods =>
      refine ⟨token, Option.some.inj h, fun finding hfinding => ?_⟩
      exact List.mem_append_left _ (List.mem_append_left _ hfinding)
  | _ => cases h

/-- Without faults the names that statements declare differ from each other and from those in front
of them. -/
theorem Stmt.nodup_declared (context : Context) (declared : List String) (outer : Scopes)
    {body : List Stmt}
    (h : ∀ broken, Finding.fault broken ∉
      Stmt.findingsAll context ((declared.map fun name => (name, true)) :: outer) body) :
    (body.filterMap Stmt.declared?).Nodup ∧ ∀ name ∈ body.filterMap Stmt.declared?,
      name ∉ declared := by
  induction body generalizing declared with
  | nil => exact ⟨List.nodup_nil, fun _ hname => absurd hname List.not_mem_nil⟩
  | cons statement rest ih =>
      rw [Stmt.findingsAll, Scopes.after_eq] at h
      have hrest (broken : StaticFault) := fun hmem => h broken (List.mem_append_right _ hmem)
      cases hname : statement.declared? with
      | none =>
          rw [List.filterMap_cons_none hname]
          rw [hname] at hrest
          exact ih declared hrest
      | some name =>
          rw [hname] at hrest
          obtain ⟨hnodup, hnew⟩ := ih (name :: declared) hrest
          have hfresh : name ∉ declared := by
            intro hmem
            obtain ⟨token, rfl, hsubset⟩ := Stmt.declaring_of_declared? hname context
              ((declared.map fun name => (name, true)) :: outer)
            refine h ⟨.declaredOnce, token⟩ (List.mem_append_left _ (hsubset ?_))
            refine Scopes.mem_declaring_iff.2 ⟨rfl, ?_⟩
            rw [Scopes.innermost?, lookup_readable, if_pos hmem]
            rfl
          rw [List.filterMap_cons_some hname]
          refine ⟨List.nodup_cons.2 ⟨fun hmem => hnew name hmem List.mem_cons_self, hnodup⟩, ?_⟩
          refine List.forall_mem_cons.2 ⟨hfresh, fun other hother hmem => ?_⟩
          exact hnew other hother (List.mem_cons_of_mem _ hmem)

theorem Stmt.declared?_of_variable? {statement : Stmt} {name : String}
    (h : statement.variable? = some name) : statement.declared? = some name := by
  cases statement with
  | varDecl token initializer => exact h
  | _ => cases h

theorem eq_of_nodup_filterMap {α β : Type} {f : α → Option β} {entries : List α}
    (h : (entries.filterMap f).Nodup) {first second : α} (hfirst : first ∈ entries)
    (hsecond : second ∈ entries) {b : β} (heq : f first = some b) (heq' : f second = some b) :
    first = second := by
  by_contra hne
  have hsymm : Std.Symm fun first second : α => ∀ b, f first = some b →
      ∀ b', f second = some b' → b ≠ b' :=
    ⟨fun _ _ hdiffer b hb b' hb' => (hdiffer b' hb' b hb).symm⟩
  exact (List.pairwise_filterMap.1 h).forall hfirst hsecond hne b heq b heq' rfl

/-- Without faults nothing but the variable is declared under its name in its scope. -/
theorem Renaming.spares_of_clean {r : Renaming} (context : Context) (declared : List String)
    (outer : Scopes) {body : List Stmt}
    (h : ∀ broken, Finding.fault broken ∉
      Stmt.findingsAll context ((declared.map fun name => (name, true)) :: outer) body)
    (hold : r.old ∈ declared ++ body.filterMap Stmt.variable?) :
    ∀ statement ∈ body, r.Spares 0 statement := by
  intro statement hstatement _ hdeclared
  obtain ⟨hnodup, hnew⟩ := Stmt.nodup_declared context declared outer h
  have hmem : r.old ∈ body.filterMap Stmt.declared? :=
    List.mem_filterMap.2 ⟨statement, hstatement, hdeclared⟩
  rcases List.mem_append.1 hold with hparam | hvariable
  · exact absurd hparam (hnew r.old hmem)
  · obtain ⟨declaration, hdeclaration, hname⟩ := List.mem_filterMap.1 hvariable
    have hsame : statement = declaration :=
      eq_of_nodup_filterMap hnodup hstatement hdeclaration hdeclared
        (Stmt.declared?_of_variable? hname)
    rw [hsame]
    exact hname

/-! ## The walk over a program in which the variable is renamed -/

section

variable {r : Renaming} (hr : r.Proper)

include hr

/-- The variable is one of those of a function. -/
theorem FunctionDecl.follows_own {declaration : FunctionDecl} (hold : r.old ∈ declaration.variables)
    (hparams : declaration.Spells r.Admits)
    (hbody : ∀ inner ∈ declaration.body, inner.Formed r.Admits) (context : Context)
    {scopes : Scopes} (hlacks : scopes.Lacks r.new) :
    r.Follows (declaration.findings context scopes)
      ((declaration.rename r 0).findings context scopes) := by
  intro haccepts
  refine declaration.follows_rename hr 0 context hlacks rfl hparams hbody ?_ haccepts
  rw [declaration.findings_eq, Scopes.withParams, Path.foldl_enter, List.append_nil] at haccepts
  refine Renaming.spares_of_clean context (declaration.params.map Token.lexeme).reverse scopes
    (fun broken hmem => ?_) ?_
  · exact haccepts _ (List.mem_append_right _ hmem)
  · simpa [FunctionDecl.variables] using hold

omit hr in
/-- One statement in a list is another one that declares the same. -/
theorem Stmt.follows_among {before after : List Stmt} {statement renamed : Stmt}
    (hdeclared : renamed.declared? = statement.declared?)
    (hstatement : ∀ (context : Context) {scopes : Scopes}, scopes.Lacks r.new →
      r.Follows (statement.findings context scopes) (renamed.findings context scopes))
    (context : Context) {scopes : Scopes} (hlacks : scopes.Lacks r.new)
    (hformed : ∀ inner ∈ before ++ statement :: after, inner.Formed r.Admits) :
    r.Follows (Stmt.findingsAll context scopes (before ++ statement :: after))
      (Stmt.findingsAll context scopes (before ++ renamed :: after)) := by
  induction before generalizing scopes with
  | nil =>
      have hafter : scopes.after renamed = scopes.after statement := by
        rw [Scopes.after_eq, Scopes.after_eq, hdeclared]
      show r.Follows (_ ++ _) (_ ++ Stmt.findingsAll context (scopes.after renamed) after)
      rw [hafter]
      exact (hstatement context hlacks).append (.refl _)
  | cons first rest ih =>
      obtain ⟨hfirst, hrest⟩ := List.forall_mem_cons.1 hformed
      exact Renaming.Follows.append (.refl _) (ih (hlacks.after hfirst) hrest)

omit hr in
theorem FunctionDecl.follows_within {name : Token} {params : List Token} {body body' : List Stmt}
    (hparams : ∀ param ∈ params, param.Names r.Admits)
    (hbody : ∀ (context : Context) {scopes : Scopes}, scopes.Lacks r.new →
      r.Follows (Stmt.findingsAll context scopes body) (Stmt.findingsAll context scopes body'))
    (context : Context) {scopes : Scopes} (hlacks : scopes.Lacks r.new) :
    r.Follows ((FunctionDecl.mk name params body).findings context scopes)
      ((FunctionDecl.mk name params body').findings context scopes) :=
  .append (.refl _) (hbody context
    (hlacks.cons.foldl_enter fun param hparam => (hparams param hparam).2.2))

omit hr in
/-- A function is another one of the same name. -/
theorem Stmt.follows_function {declaration renamed : FunctionDecl}
    (hname : renamed.name = declaration.name) (hspells : declaration.name.Names r.Admits)
    (hdeclaration : ∀ (context : Context) {scopes : Scopes}, scopes.Lacks r.new →
      r.Follows (declaration.findings context scopes) (renamed.findings context scopes))
    (context : Context) {scopes : Scopes} (hlacks : scopes.Lacks r.new) :
    r.Follows ((Stmt.function declaration).findings context scopes)
      ((Stmt.function renamed).findings context scopes) := by
  rw [Stmt.findings, Stmt.findings, hname]
  exact .append (.refl _) (hdeclaration _ (hlacks.enter hspells.2.2.symm true))

/-- A method is another one of the same name. -/
theorem Stmt.follows_method {name : Token} {superclass : Option Occurrence}
    {before after : List FunctionDecl} {method renamed : FunctionDecl}
    (hmethod : renamed.name = method.name) (hname : name.Names r.Admits)
    (hdeclaration : ∀ (context : Context) {scopes : Scopes}, scopes.Lacks r.new →
      r.Follows (method.findings context scopes) (renamed.findings context scopes))
    (context : Context) {scopes : Scopes} (hlacks : scopes.Lacks r.new) :
    r.Follows
      ((Stmt.classDecl name superclass (before ++ method :: after)).findings context scopes)
      ((Stmt.classDecl name superclass (before ++ renamed :: after)).findings context scopes) := by
  have hinMethod (context : Context) : context.inMethod renamed = context.inMethod method := by
    rw [Context.inMethod, FunctionDecl.isInitializer, hmethod]
    rfl
  have hinner := hdeclaration ((context.inClass superclass).inMethod method)
    (hlacks.classBody hr hname.2.2 superclass)
  simp only [Stmt.findings, FunctionDecl.findingsAll_eq_flatMap, List.flatMap_append,
    List.flatMap_cons, hinMethod]
  exact .append (.refl _) (.append (.refl _) (.append hinner (.refl _)))

omit hr in
theorem Stmt.Renames.declared?_eq {statement renamed : Stmt} (h : statement.Renames r renamed) :
    renamed.declared? = statement.declared? := by
  cases h with
  | function _ => exact congrArg some (congrArg Token.lexeme (FunctionDecl.name_rename r 0 _))
  | _ => rfl

/-- What is found in a statement in which the variable has got its new name. -/
theorem Stmt.Renames.follows {statement renamed : Stmt} (h : statement.Renames r renamed)
    (hformed : statement.Formed r.Admits) (context : Context) {scopes : Scopes}
    (hlacks : scopes.Lacks r.new) :
    r.Follows (statement.findings context scopes) (renamed.findings context scopes) := by
  induction h generalizing context scopes with
  | @block body hold =>
      intro haccepts
      refine Stmt.follows_renameAll hr 0 context hlacks.cons body
        (fun _ hinner => hformed.enclosed hinner) ?_ haccepts
      exact Renaming.spares_of_clean context [] scopes (fun _ hmem => haccepts _ hmem) hold
  | function hold =>
      obtain ⟨hname, hparams⟩ := hformed.spells
      exact Stmt.follows_function (FunctionDecl.name_rename r 0 _) hname
        (FunctionDecl.follows_own hr hold hparams fun _ hinner => hformed.enclosed hinner) context
        hlacks
  | @method name superclass before after method hold =>
      obtain ⟨hname, -, hmethods⟩ := hformed.spells
      have hmem : method ∈ before ++ method :: after :=
        List.mem_append_cons_self
      exact Stmt.follows_method hr (FunctionDecl.name_rename r 0 _) hname
        (FunctionDecl.follows_own hr hold (hmethods method hmem)
          fun _ hinner => hformed.enclosed (List.mem_flatMap.2 ⟨method, hmem, hinner⟩)) context
        hlacks
  | inBlock hinner ih =>
      have hbody (statement : Stmt) (hmem : statement ∈ _) := hformed.enclosed hmem
      exact Stmt.follows_among hinner.declared?_eq
        (ih (hbody _ List.mem_append_cons_self)) context hlacks.cons hbody
  | @inFunction name params before after statement renamed hinner ih =>
      obtain ⟨hname, hparams⟩ := hformed.spells
      have hbody (inner : Stmt) (hmem : inner ∈ before ++ statement :: after) :
          inner.Formed r.Admits := hformed.enclosed hmem
      have hwithin := fun (context : Context) {scopes : Scopes} (hlacks : scopes.Lacks r.new) =>
        Stmt.follows_among hinner.declared?_eq
          (ih (hbody _ List.mem_append_cons_self)) context hlacks hbody
      refine Stmt.follows_function ?_ hname ?_ context hlacks
      · rfl
      · exact FunctionDecl.follows_within hparams hwithin
  | @inMethod name superclass first last method params before after statement renamed hinner ih =>
      obtain ⟨hname, -, hmethods⟩ := hformed.spells
      have hmem : FunctionDecl.mk method params (before ++ statement :: after) ∈
          first ++ .mk method params (before ++ statement :: after) :: last :=
        List.mem_append_cons_self
      have hbody (inner : Stmt) (hinner : inner ∈ before ++ statement :: after) :
          inner.Formed r.Admits := hformed.enclosed (List.mem_flatMap.2 ⟨_, hmem, hinner⟩)
      have hwithin := fun (context : Context) {scopes : Scopes} (hlacks : scopes.Lacks r.new) =>
        Stmt.follows_among hinner.declared?_eq
          (ih (hbody _ List.mem_append_cons_self)) context hlacks hbody
      refine Stmt.follows_method hr ?_ hname ?_ context hlacks
      · rfl
      · exact FunctionDecl.follows_within (hmethods _ hmem) hwithin
  | @thenBranch condition thenBranch renamed elseBranch _ ih =>
      have hinner := ih (hformed.branch List.mem_cons_self) context hlacks
      have hbefore : r.Follows (condition.findings context scopes) _ := .refl _
      cases elseBranch with
      | none => exact (hbefore.append hinner).append .nil
      | some elseBranch => exact (hbefore.append hinner).append (.refl _)
  | elseBranch _ ih =>
      have hinner := ih (hformed.branch (List.mem_cons_of_mem _ List.mem_cons_self)) context hlacks
      exact .append (.refl _) hinner
  | loopBody _ ih =>
      have hinner := ih (hformed.branch List.mem_cons_self) context hlacks
      exact .append (.refl _) hinner

/-- What is found in a program in which the variable has got its new name. -/
theorem Program.Renames.follows {program renamed : Program} (h : program.Renames r renamed)
    (hformed : program.Formed r.Admits) : r.Follows program.findings renamed.findings := by
  cases h with
  | mk hrenames =>
      exact Stmt.follows_among hrenames.declared?_eq
        (hrenames.follows hr (hformed _ List.mem_append_cons_self)) _
        (fun _ hscope => absurd hscope List.not_mem_nil) hformed

end

/-! ## What is found about occurrences -/

section

variable {genuine : Token → Prop} {occurrence : Occurrence} {distance : Option Nat}

theorem Scopes.binding_not_mem_declaring (scopes : Scopes) (name : Token) :
    .binding occurrence distance ∉ scopes.declaring name := by
  intro h
  rw [Scopes.declaring] at h
  split at h
  · cases List.mem_singleton.1 h
  · cases h

theorem Scopes.binding_not_mem_declaringParams (scopes : Scopes) (params : List Token) :
    .binding occurrence distance ∉ scopes.declaringParams params := by
  intro h
  obtain ⟨broken, hfault⟩ := Scopes.exists_of_mem_declaringParams h
  cases hfault

theorem Scopes.eq_of_mem_reading {scopes : Scopes} {read : Occurrence}
    (h : .binding occurrence distance ∈ scopes.reading read) : occurrence = read := by
  rcases List.mem_append.1 h with hearly | hbinding
  · split at hearly
    · cases List.mem_singleton.1 hearly
    · cases hearly
  · cases List.mem_singleton.1 hbinding
    rfl

/-- The occurrence that an expression is about by itself has a genuine name. -/
theorem Expr.Formed.of_mem_own {expression : Expr} (hformed : expression.Formed genuine)
    {context : Context} {scopes : Scopes}
    (h : .binding occurrence distance ∈ expression.own context scopes) :
    genuine occurrence.name := by
  have hspells := hformed.spells
  cases expression with
  | «variable» read => exact Scopes.eq_of_mem_reading h ▸ hspells.2
  | assign target value =>
      cases List.mem_singleton.1 h
      exact hspells.2
  | thisRef word =>
      rw [Expr.own, Context.usingThis] at h
      split at h
      · cases List.mem_singleton.1 h
      · cases List.mem_singleton.1 h
        exact hspells.2
  | superRef word method =>
      rcases List.mem_append.1 h with hfaults | hbinding
      · split at hfaults <;> cases hfaults <;> contradiction
      · cases List.mem_singleton.1 hbinding
        exact hspells.2
  | _ => cases h

/-- The occurrence that a statement is about by itself, which is a superclass, has a genuine
name. -/
theorem Stmt.Formed.of_mem_own {statement : Stmt} (hformed : statement.Formed genuine)
    {path : Path} (h : .binding occurrence distance ∈ statement.own path) :
    genuine occurrence.name := by
  have hspells := hformed.spells
  cases statement with
  | classDecl name superclass methods =>
      rcases List.mem_append.1 h with hhead | hmethods
      · rcases List.mem_append.1 hhead with hname | hsuperclass
        · exact absurd hname (Scopes.binding_not_mem_declaring _ _)
        · cases superclass with
          | none => cases hsuperclass
          | some read =>
              rcases List.mem_append.1 hsuperclass with hself | hread
              · split at hself
                · cases List.mem_singleton.1 hself
                · cases hself
              · exact Scopes.eq_of_mem_reading hread ▸ (hspells.2.1 read rfl).2
      · obtain ⟨method, -, hmethod⟩ := List.mem_flatMap.1 hmethods
        exact absurd hmethod (Scopes.binding_not_mem_declaringParams _ _)
  | function declaration =>
      rcases List.mem_append.1 h with hname | hparams
      · exact absurd hname (Scopes.binding_not_mem_declaring _ _)
      · exact absurd hparams (Scopes.binding_not_mem_declaringParams _ _)
  | returnValue keyword value =>
      cases value <;> simp [Stmt.own, Context.returning, Context.returningValue] at h
  | varDecl name initializer => exact absurd h (Scopes.binding_not_mem_declaring _ _)
  | _ => cases h

/-- The occurrences that findings are about have genuine names. -/
theorem Program.Formed.of_binding {program : Program} (hprogram : program.Formed genuine)
    (h : .binding occurrence distance ∈ program.findings) : genuine occurrence.name := by
  obtain ⟨path, statement, hlocated, hown | ⟨whole, hwhole, hfinding⟩⟩ :=
    Program.mem_findings_iff.1 h
  · have hformed : statement.Formed genuine := hlocated.formed hprogram
    exact hformed.of_mem_own hown
  · obtain ⟨inner, hinside, hown⟩ := whole.mem_findings_iff.1 hfinding
    have hformed : inner.Formed genuine :=
      ((hlocated.expression hwhole).inside hinside).formed hprogram
    exact hformed.of_mem_own hown

end

/-- A name that does not occur in a program and is not a reserved word is fit to be the new one. -/
theorem Program.Renames.proper {r : Renaming} {program renamed : Program}
    (h : program.Renames r renamed) (hformed : program.Formed r.Admits)
    (hnew : ∀ keyword : Keyword, r.new ≠ keyword.spelling) : r.Proper := by
  cases h with
  | mk hrenames =>
      obtain ⟨token, ⟨hidentifier, hgenuine, hne⟩, hname⟩ :=
        hrenames.exists_names (hformed _ List.mem_append_cons_self)
      refine ⟨fun hsame => hne (hname.trans hsame), fun keyword hkeyword => ?_, hnew⟩
      exact hgenuine.identifier hidentifier keyword (hname.trans hkeyword)

/-! ## The renamed program -/

/-- A local variable of an accepted program gets a name that does not occur in the program. -/
structure Program.RenamesLocal (r : Renaming) (program renamed : Program) : Prop where
  proper : r.Proper
  accepted : program.Accepted
  fresh : program.Formed r.Admits
  recorded : ∀ occurrence distance, .binding occurrence distance ∈ program.findings →
    r.distances[occurrence.id]? = distance
  renames : program.Renames r renamed

namespace Renaming.Finds

variable {r : Renaming} {finding finding' : Finding}

theorem fault?_eq_none (h : r.Finds finding finding') : finding'.fault? = none := by
  cases h <;> rfl

theorem record_eq (h : r.Finds finding finding') (distances : Distances) :
    distances.record finding' = distances.record finding := by
  cases h with
  | same _ => rfl
  | renamed => rfl

theorem id?_eq (h : r.Finds finding finding') : finding'.id? = finding.id? := by
  cases h <;> rfl

theorem isSome_of_new {occurrence : Occurrence} {distance : Option Nat}
    (h : r.Finds finding (.binding occurrence distance)) (hnew : occurrence.name.lexeme = r.new) :
    distance.isSome := by
  cases h with
  | same hne => exact absurd hnew hne
  | renamed => rfl

end Renaming.Finds

namespace Program.RenamesLocal

variable {r : Renaming} {program renamed : Program} (h : program.RenamesLocal r renamed)

include h

/-- Each finding becomes one with the same distance. -/
theorem finds : List.Forall₂ r.Finds program.findings renamed.findings := by
  refine h.renames.follows h.proper h.fresh fun finding hfinding => ?_
  cases finding with
  | binding occurrence distance =>
      exact ⟨h.recorded occurrence distance hfinding, (h.fresh.of_binding hfinding).2⟩
  | fault broken => exact h.accepted.not_fault_mem_findings broken hfinding

theorem exists_finds {finding : Finding} (hfinding : finding ∈ renamed.findings) :
    ∃ old, r.Finds old finding := by
  obtain ⟨i, hi, rfl⟩ := List.getElem_of_mem hfinding
  have hlength := h.finds.length_eq
  exact ⟨_, h.finds.get (hlength ▸ hi) hi⟩

/-- The renamed program breaks no static rule. -/
theorem staticFaults_eq_nil : renamed.staticFaults = [] := by
  refine List.filterMap_eq_nil_iff.2 fun finding hfinding => ?_
  obtain ⟨old, hfinds⟩ := h.exists_finds hfinding
  exact hfinds.fault?_eq_none

/-- The same is recorded for the renamed program. -/
theorem recordAll_eq (distances : Distances) :
    distances.recordAll renamed.findings = distances.recordAll program.findings := by
  have hfinds := h.finds
  generalize program.findings = findings, renamed.findings = findings' at hfinds
  induction hfinds generalizing distances with
  | nil => rfl
  | cons hfirst _ ih =>
      rw [Distances.recordAll, Distances.recordAll, List.foldl_cons, List.foldl_cons,
        hfirst.record_eq]
      exact ih _

theorem ids_eq : Finding.ids renamed.findings = Finding.ids program.findings := by
  have hfinds := h.finds
  generalize program.findings = findings, renamed.findings = findings' at hfinds
  induction hfinds with
  | nil => rfl
  | cons hfirst _ ih =>
      rw [Finding.ids, Finding.ids, List.filterMap_cons, List.filterMap_cons, hfirst.id?_eq]
      cases Finding.id? _ with
      | none => exact ih
      | some id => exact congrArg _ ih

/-- No global has the new name. -/
theorem isSome_distance {occurrence : Occurrence} {distance : Option Nat}
    (hfinding : .binding occurrence distance ∈ renamed.findings)
    (hnew : occurrence.name.lexeme = r.new) : distance.isSome := by
  obtain ⟨old, hfinds⟩ := h.exists_finds hfinding
  exact hfinds.isSome_of_new hnew

/-- In the old spelling the renamed program is the one that it was. -/
theorem respell_eq : renamed.respell r.spell = program := by
  rw [h.renames.respell_eq]
  exact Program.respell_eq_self (h.fresh.mono fun token htoken => r.spell_of_ne htoken.2)

theorem formed_renamed : renamed.Formed Token.Genuine := by
  have hrespelled : (renamed.respell r.spell).Formed r.Admits := h.respell_eq.symm ▸ h.fresh
  refine hrespelled.of_respell ?_ fun token htoken => htoken.1
  rintro token ⟨hidentifier, hadmits⟩
  refine ⟨hidentifier, ?_, fun _ keyword => ?_⟩
  · intro keyword hkeyword
    cases (eq_of_beq hidentifier).symm.trans (eq_of_beq hkeyword)
  · by_cases hnew : token.lexeme = r.new
    · rw [hnew]
      exact h.proper.new_ne keyword
    · have hgenuine := hadmits.1.identifier hidentifier keyword
      rwa [Token.respell, r.spell_of_ne hnew] at hgenuine

/-- The renamed program is accepted. -/
theorem accepted_renamed : renamed.Accepted :=
  ⟨h.formed_renamed, h.staticFaults_eq_nil⟩

/-! ### Declarations -/

/-- Functions and classes keep their names, and these differ from the new one. -/
theorem declared?_respell {path : Path} {statement : Stmt}
    (hlocated : Located renamed path (.statement statement)) :
    (statement.respell r.spell).declared? = statement.declared?.map r.spell := by
  obtain ⟨respelled, hplace, -⟩ := hlocated.respell r.spell
  rw [h.respell_eq] at hplace
  have hformed : (statement.respell r.spell).Formed r.Admits := hplace.formed h.fresh
  cases statement with
  | function declaration =>
      have hname : declaration.name.lexeme ≠ r.new := by
        rw [← declaration.name_respell r.spell]
        exact hformed.spells.1.2.2
      show some (declaration.respell r.spell).name.lexeme = some (r.spell declaration.name.lexeme)
      rw [declaration.name_respell, r.spell_of_ne hname]
  | classDecl name superclass methods =>
      have hname : name.lexeme ≠ r.new := hformed.spells.1.2.2
      exact congrArg some (r.spell_of_ne hname).symm
  | conditional condition thenBranch elseBranch => cases elseBranch <;> rfl
  | _ => rfl

/-- In the old spelling a construct declares what it declared. -/
theorem declarations_respell {path : Path} {part : Part} (hlocated : Located renamed path part)
    {construct : Construct} (hmem : construct ∈ path.constructs) :
    (construct.respell r.spell).declarations = construct.declarations.map r.spell := by
  have hbody : ∀ statement ∈ construct.body,
      (statement.respell r.spell).declared? = statement.declared?.map r.spell := by
    intro statement hstatement
    rcases hlocated.exists_opened hmem with ⟨-, hnil⟩ | ⟨outer, hopened⟩
    · rw [hnil] at hstatement
      cases hstatement
    · obtain ⟨path', hplace⟩ := hopened.exists_of_mem hstatement
      exact h.declared?_respell hplace
  rw [construct.declarations_eq, Construct.declarations_eq, construct.params_respell,
    construct.body_respell, Stmt.respellAll_eq_map, List.filterMap_map, List.map_append,
    List.map_filterMap, List.map_map, List.map_map]
  exact congrArg _ (List.filterMap_congr hbody)

/-- No construct declares both names. -/
theorem distinct {path : Path} {part : Part} (hlocated : Located renamed path part)
    {construct : Construct} (hmem : construct ∈ path.constructs)
    (hnew : r.new ∈ construct.declarations) : r.old ∉ construct.declarations := by
  intro hold
  have hnodup : (construct.declarations.map r.spell).Nodup := by
    rw [← h.declarations_respell hlocated hmem]
    obtain ⟨respelled, hplace, hconstructs⟩ := hlocated.respell r.spell
    have hmem' : construct.respell r.spell ∈ respelled.constructs := by
      rw [hconstructs]
      exact List.mem_map_of_mem hmem
    rw [h.respell_eq] at hplace
    rcases hplace.exists_opened hmem' with ⟨hparams, hbody⟩ | ⟨outer, hopened⟩
    · rw [Construct.declarations_eq, hparams, hbody]
      exact List.nodup_nil
    · exact h.accepted.obeysStaticRules.declaredOnce hopened
  have hsame : r.spell r.new = r.spell r.old := r.spell_new.trans r.spell_old.symm
  exact h.proper.ne (List.inj_on_of_nodup_map hnodup hnew hold hsame).symm

/-- Outside all constructs the new name is not declared. -/
theorem declared?_ne_of_global {statement : Stmt}
    (hlocated : Located renamed [] (.statement statement)) :
    statement.declared? ≠ some r.new := by
  intro hnew
  have hmem := hlocated.mem_of_declared h.formed_renamed (hnew ▸ nofun)
  have hold : ∃ old ∈ program, old.declared? = some r.new := by
    cases h.renames with
    | @mk before after old renamed hrenames =>
        rcases List.mem_append.1 hmem with hbefore | hrest
        · exact ⟨statement, List.mem_append_left _ hbefore, hnew⟩
        · rcases List.mem_cons.1 hrest with rfl | hafter
          · exact ⟨old, List.mem_append_cons_self,
              hrenames.declared?_eq.symm.trans hnew⟩
          · exact ⟨statement, List.mem_append_right _ (List.mem_cons_of_mem _ hafter), hnew⟩
  obtain ⟨old, hprogram, hdeclared⟩ := hold
  have hspells := (h.fresh old hprogram).spells
  cases old with
  | varDecl name initializer => exact hspells.2.2 (Option.some.inj hdeclared)
  | function declaration => exact hspells.1.2.2 (Option.some.inj hdeclared)
  | classDecl name superclass methods => exact hspells.1.2.2 (Option.some.inj hdeclared)
  | _ => cases hdeclared

end Program.RenamesLocal

end LoxLang
