import LoxLang.Proofs.Grammar.Acceptance
import LoxLang.Proofs.Grammar.Form
import LoxLang.Proofs.Scope.Resolution

/-!
# The static rules

The rules that a program has to obey before it is run, in terms of the places in it, and that
resolution reports no fault exactly for the programs that obey them.  Resolution checks a
declaration against what is in front of it and keeps track of functions and classes as it goes; the
rules speak about whole scopes and about what is around a place.
-/

namespace LoxLang

/-- The static rules. -/
structure Program.ObeysStaticRules (program : Program) : Prop where
  /-- No block, function or method declares a name twice. -/
  declaredOnce : ∀ {enclosure : Enclosure} {path : Path} {part : Part},
    Located program (enclosure :: path) part → enclosure.construct.declarations.Nodup
  /-- No variable that is not a global is read in its own initializer. -/
  notInOwnInitializer : ∀ {path : Path} {name : Token} {initializer : Expr}
    {occurrence : Occurrence},
    Located program path (.statement (.varDecl name (some initializer))) →
      path ≠ [] → (Expr.variable occurrence).Inside initializer →
        occurrence.name.lexeme ≠ name.lexeme
  /-- Every `return` stands in a function. -/
  returnInFunction : ∀ {path : Path} {keyword : Token} {value : Option Expr},
    Located program path (.statement (.returnValue keyword value)) →
      ∃ enclosure ∈ path, enclosure.construct.isFunction
  /-- The function nearest around a `return` with a value is no initializer. -/
  noValueFromInitializer : ∀ {path : Path} {keyword : Token} {value : Expr}
    {method : FunctionDecl}, Located program path (.statement (.returnValue keyword (some value))) →
      path.function? = some (.method method) → ¬method.isInitializer
  /-- Every `this` stands in a class. -/
  thisInClass : ∀ {path : Path} {occurrence : Occurrence},
    Located program path (.expression (.thisRef occurrence)) →
      ∃ enclosure ∈ path, enclosure.construct.isClass
  /-- The class nearest around every `super` has a superclass clause. -/
  superInSubclass : ∀ {path : Path} {occurrence : Occurrence} {method : Token},
    Located program path (.expression (.superRef occurrence method)) →
      ∃ name superclass methods, path.class? = some (.classBody name (some superclass) methods)
  /-- No class names itself as its superclass. -/
  noSelfInheritance : ∀ {path : Path} {name : Token} {superclass : Occurrence}
    {methods : List FunctionDecl},
    Located program path (.statement (.classDecl name (some superclass) methods)) →
      superclass.name.lexeme ≠ name.lexeme

variable {program : Program} {path : Path}

theorem Program.staticFaults_eq_nil_iff_forall :
    program.staticFaults = [] ↔ ∀ broken, Finding.fault broken ∉ program.findings := by
  rw [Program.staticFaults, List.filterMap_eq_nil_iff]
  constructor
  · intro h broken hmem
    cases h _ hmem
  · intro h finding hmem
    cases finding with
    | binding occurrence distance => rfl
    | fault broken => exact absurd hmem (h broken)

/-! ## What the innermost scope says -/

theorem lookup_readable (names : List String) (name : String) :
    (names.map fun name => (name, true)).lookup name =
      if name ∈ names then some true else none := by
  induction names with
  | nil => rfl
  | cons first names ih =>
      rw [List.map_cons, List.lookup_cons, ih]
      by_cases h : name = first
      · simp [h]
      · simp [h, beq_eq_false_iff_ne.2 h]

namespace Path

theorem isSome_innermost?_scopes (enclosure : Enclosure) (name : String) :
    (Scopes.innermost? (Path.scopes (enclosure :: path)) name).isSome ↔
      name ∈ enclosure.declared := by
  show ((enclosure.declared.map fun name => (name, true)).lookup name).isSome ↔ _
  rw [lookup_readable]
  split <;> simp_all

theorem innermost?_scopes_ne_false (path : Path) (name : String) :
    path.scopes.innermost? name ≠ some false := by
  cases path with
  | nil => exact nofun
  | cons enclosure path =>
      show (enclosure.declared.map fun name => (name, true)).lookup name ≠ _
      rw [lookup_readable]
      split <;> simp

theorem innermost?_enter_ne_false (path : Path) (name other : String) :
    (path.scopes.enter name true).innermost? other ≠ some false := by
  rw [← scopes_enter]
  exact innermost?_scopes_ne_false _ other

/-- A name may not be read in the innermost scope only in the initializer of its variable, if that
is not a global. -/
theorem of_innermost?_pending {name : Token} {other : String}
    (h : (path.pending name).innermost? other = some false) :
    path ≠ [] ∧ other = name.lexeme := by
  rw [pending] at h
  split at h
  · exact absurd h (path.innermost?_scopes_ne_false other)
  · cases path with
    | nil => cases h
    | cons enclosure path =>
        refine ⟨List.cons_ne_nil _ _, ?_⟩
        by_contra hne
        have hlookup : Scopes.innermost? (Scopes.enter (Path.scopes (enclosure :: path))
            name.lexeme false) other =
            Scopes.innermost? (Path.scopes (enclosure :: path)) other := by
          show ((name.lexeme, false) :: _).lookup other = _
          rw [List.lookup_cons, beq_eq_false_iff_ne.2 hne]
          rfl
        rw [hlookup] at h
        exact innermost?_scopes_ne_false _ other h

theorem innermost?_pending (enclosure : Enclosure) (outer : Path) (name : Token)
    (h : name.lexeme ∉ enclosure.declared) :
    (Path.pending (enclosure :: outer) name).innermost? name.lexeme = some false := by
  rw [pending, if_neg (mt (isSome_innermost?_scopes enclosure name.lexeme).1 h)]
  show ((name.lexeme, false) :: _).lookup name.lexeme = _
  rw [List.lookup_cons, beq_self_eq_true]

theorem function?_eq_none_iff :
    path.function? = none ↔ ¬∃ enclosure ∈ path, enclosure.construct.isFunction := by
  simp [function?]

theorem class?_eq_none_iff :
    path.class? = none ↔ ¬∃ enclosure ∈ path, enclosure.construct.isClass := by
  simp [class?]

theorem context_function_eq_outside_iff :
    path.context.function = .outside ↔ path.function? = none := by
  cases h : path.function? with
  | none => simp [context, h]
  | some construct =>
      have hfunction : construct.isFunction := List.find?_some h
      cases construct with
      | function declaration => simp [context, h]
      | method declaration =>
          simp only [context, h]
          split <;> simp
      | _ => cases hfunction

theorem context_function_eq_initializer_iff :
    path.context.function = .initializer ↔
      ∃ method, path.function? = some (.method method) ∧ method.isInitializer := by
  cases h : path.function? with
  | none => simp [context, h]
  | some construct =>
      cases construct with
      | method declaration => simp [context, h]
      | _ => simp [context, h]

theorem context_classBody_eq_outside_iff :
    path.context.classBody = .outside ↔ path.class? = none := by
  cases h : path.class? with
  | none => simp [context, h]
  | some construct =>
      have hclass : construct.isClass := List.find?_some h
      cases construct with
      | classBody name superclass methods =>
          simp only [context, h]
          split <;> simp
      | _ => cases hclass

theorem context_classBody_eq_derived_iff :
    path.context.classBody = .derived ↔
      ∃ name superclass methods,
        path.class? = some (.classBody name (some superclass) methods) := by
  cases h : path.class? with
  | none => simp [context, h]
  | some construct =>
      cases construct with
      | classBody name superclass methods => cases superclass <;> simp [context, h]
      | _ => simp [context, h]

end Path

/-! ## Declarations of a scope -/

theorem Scopes.mem_declaring_iff {scopes : Scopes} {name : Token} {broken : StaticFault} :
    Finding.fault broken ∈ scopes.declaring name ↔
      broken = ⟨.declaredOnce, name⟩ ∧ (scopes.innermost? name.lexeme).isSome := by
  rw [Scopes.declaring]
  split <;> simp_all

/-- Parameters are declared without a fault exactly if they differ from each other and from what is
in the scope. -/
theorem Scopes.declaringParams_eq_nil_iff (declared : List String) (outer : Scopes)
    (params : List Token) :
    Scopes.declaringParams ((declared.map fun name => (name, true)) :: outer) params = [] ↔
      (params.map Token.lexeme).Nodup ∧ ∀ param ∈ params, param.lexeme ∉ declared := by
  induction params generalizing declared with
  | nil => simp [Scopes.declaringParams]
  | cons param params ih =>
      have henter : Scopes.enter ((declared.map fun name => (name, true)) :: outer) param.lexeme
          true = ((param.lexeme :: declared).map fun name => (name, true)) :: outer := rfl
      have hdeclaring : Scopes.declaring ((declared.map fun name => (name, true)) :: outer) param
          = [] ↔ param.lexeme ∉ declared := by
        rw [Scopes.declaring, Scopes.innermost?, lookup_readable]
        split <;> simp_all
      rw [Scopes.declaringParams, List.append_eq_nil_iff, hdeclaring, henter, ih]
      simp only [List.map_cons, List.nodup_cons, List.mem_map, List.mem_cons, not_or,
        forall_eq_or_imp]
      grind

theorem Scopes.exists_of_mem_declaringParams {scopes : Scopes} {params : List Token}
    {finding : Finding} (h : finding ∈ scopes.declaringParams params) :
    ∃ broken, finding = .fault broken := by
  induction params generalizing scopes with
  | nil => simp [Scopes.declaringParams] at h
  | cons param params ih =>
      rcases List.mem_append.1 h with hfirst | hrest
      · rw [Scopes.declaring] at hfirst
        split at hfirst
        · exact ⟨_, List.mem_singleton.1 hfirst⟩
        · cases hfirst
      · exact ih hrest

theorem Path.after_cons (enclosure : Enclosure) (path : Path) (statement : Stmt) :
    ∃ declared, Path.after (enclosure :: path) statement =
      ⟨enclosure.construct, declared⟩ :: path ∧
        declared = statement.declared?.toList ++ enclosure.declared := by
  rw [Path.after]
  cases statement.declared? with
  | none => exact ⟨_, rfl, rfl⟩
  | some name => exact ⟨_, rfl, rfl⟩

/-- Behind a statement the same constructs are around as in front of it. -/
theorem Path.exists_of_after_eq_cons {enclosure : Enclosure} {path whole : Path} {statement : Stmt}
    (h : enclosure :: path = whole.after statement) :
    ∃ outer, whole = outer :: path ∧ enclosure.construct = outer.construct ∧
      enclosure.declared = statement.declared?.toList ++ outer.declared := by
  cases whole with
  | nil =>
      rw [Path.after] at h
      split at h <;> cases h
  | cons outer whole =>
      obtain ⟨declared, heq, hdeclared⟩ := Path.after_cons outer whole statement
      rw [heq] at h
      cases h
      exact ⟨outer, rfl, rfl, hdeclared⟩

/-- What a scope has declared so far and what is still to come are its declarations. -/
theorem Located.declared_append {enclosure : Enclosure} {rest : List Stmt}
    (h : Located program (enclosure :: path) (.statements rest)) :
    enclosure.declared.reverse ++ rest.filterMap Stmt.declared? =
      enclosure.construct.declarations := by
  generalize hpath : enclosure :: path = whole at h
  generalize hpart : Part.statements rest = part at h
  induction h generalizing enclosure path rest with
  | program => cases hpath
  | @rest whole statement rest' _ ih =>
      cases hpart
      obtain ⟨outer, rfl, hconstruct, hdeclared⟩ := Path.exists_of_after_eq_cons hpath
      rw [hconstruct, ← ih rfl rfl, hdeclared]
      cases hname : statement.declared? with
      | none => simp [hname]
      | some name => simp [hname]
  | block _ _ =>
      cases hpart
      cases hpath
      rfl
  | function _ _ =>
      cases hpart
      cases hpath
      simp [Construct.opened, Construct.declarations]
  | method _ _ _ =>
      cases hpart
      cases hpath
      simp [Construct.opened, Construct.declarations]
  | _ => cases hpart

/-- The innermost scope around a part is the one in which a list of statements stands. -/
theorem Located.exists_statements {part : Part} (h : Located program path part) :
    ∃ rest, Located program path (.statements rest) := by
  induction h with
  | program => exact ⟨_, .program⟩
  | first h _ => exact ⟨_, h⟩
  | rest h _ => exact ⟨_, h.rest⟩
  | block h _ => exact ⟨_, h.block⟩
  | function h _ => exact ⟨_, h.function⟩
  | method h hmethod _ => exact ⟨_, h.method hmethod⟩
  | branch _ _ ih => exact ih
  | expression _ _ ih => exact ih
  | operand _ _ ih => exact ih

/-- A list of statements can be followed to its end. -/
theorem Located.exists_end {enclosure : Enclosure} {rest : List Stmt}
    (h : Located program (enclosure :: path) (.statements rest)) :
    ∃ declared, Located program (⟨enclosure.construct, declared⟩ :: path) (.statements []) := by
  induction rest generalizing enclosure with
  | nil => exact ⟨_, h⟩
  | cons statement rest ih =>
      obtain ⟨declared, heq, -⟩ := Path.after_cons enclosure path statement
      have hrest := h.rest
      rw [heq] at hrest
      obtain ⟨declared', hend⟩ := ih hrest
      exact ⟨declared', hend⟩

/-- A declaration in a formed program stands in a list of statements, not in a branch. -/
theorem Located.statements_of_declared {genuine : Token → Prop} {statement : Stmt}
    (hprogram : program.Formed genuine) (h : Located program path (.statement statement))
    (hdeclared : statement.declared? ≠ none) :
    ∃ rest, Located program path (.statements (statement :: rest)) := by
  cases h with
  | first h => exact ⟨_, h⟩
  | branch h hbranch =>
      have hstatement : Stmt.Formed genuine _ := h.formed hprogram
      exact absurd (hstatement.declared?_branch hbranch) hdeclared

/-! ## From no faults to the rules -/

section

variable (hclean : ∀ broken, Finding.fault broken ∉ program.findings)

include hclean

theorem Located.not_shows {statement : Stmt} (h : Located program path (.statement statement))
    (broken : StaticFault) : ¬statement.Shows path (.fault broken) :=
  fun hshows => hclean broken (Program.mem_findings_iff.2 ⟨path, statement, h, hshows⟩)

theorem Located.not_mem_own {statement : Stmt} (h : Located program path (.statement statement))
    (broken : StaticFault) : Finding.fault broken ∉ statement.own path :=
  fun hown => h.not_shows hclean broken (.inl hown)

theorem Located.not_mem_own_expression {statement : Stmt} {whole inner : Expr}
    (h : Located program path (.statement statement)) (hwhole : whole ∈ statement.expressions)
    (hinside : inner.Inside whole) (broken : StaticFault) :
    Finding.fault broken ∉ inner.own path.context (statement.scopesInside path) :=
  fun hown => h.not_shows hclean broken
    (.inr ⟨whole, hwhole, whole.mem_findings_iff.2 ⟨inner, hinside, hown⟩⟩)

/-- Without faults a declared name is new in its scope. -/
theorem Located.not_mem_declared {enclosure : Enclosure} {statement : Stmt} {name : String}
    (h : Located program (enclosure :: path) (.statement statement))
    (hname : statement.declared? = some name) : name ∉ enclosure.declared := by
  have hdeclaring : ∀ token : Token, Finding.fault ⟨.declaredOnce, token⟩ ∉
      Scopes.declaring (Path.scopes (enclosure :: path)) token →
          token.lexeme ∉ enclosure.declared := by
    intro token hnot hmem
    exact hnot (Scopes.mem_declaring_iff.2
      ⟨rfl, (Path.isSome_innermost?_scopes enclosure token.lexeme).2 hmem⟩)
  cases statement with
  | varDecl token initializer =>
      cases hname
      exact hdeclaring token (h.not_mem_own hclean _)
  | function declaration =>
      cases hname
      exact hdeclaring _ fun hmem => h.not_mem_own hclean _ (List.mem_append_left _ hmem)
  | classDecl token superclass methods =>
      cases hname
      refine hdeclaring token fun hmem => h.not_mem_own hclean ⟨.declaredOnce, token⟩ ?_
      exact List.mem_append_left _ (List.mem_append_left _ hmem)
  | _ => cases hname

theorem nodup_params_of_subset {scopes : Scopes} {params : List Token} {statement : Stmt}
    (h : Located program path (.statement statement))
    (hsubset : Scopes.declaringParams ([] :: scopes) params ⊆ statement.own path) :
    (params.map Token.lexeme).Nodup := by
  have hnil : Scopes.declaringParams ([] :: scopes) params = [] := by
    refine List.eq_nil_iff_forall_not_mem.2 fun finding hfinding => ?_
    obtain ⟨broken, rfl⟩ := Scopes.exists_of_mem_declaringParams hfinding
    exact h.not_mem_own hclean broken (hsubset hfinding)
  exact ((Scopes.declaringParams_eq_nil_iff [] scopes params).1 hnil).1

/-- Without faults the names declared so far differ from each other. -/
theorem Located.nodup_declared {enclosure : Enclosure} {rest : List Stmt}
    (h : Located program (enclosure :: path) (.statements rest)) : enclosure.declared.Nodup := by
  generalize hpath : enclosure :: path = whole at h
  generalize hpart : Part.statements rest = part at h
  induction h generalizing enclosure path rest with
  | program => cases hpath
  | @rest whole statement rest' h ih =>
      cases hpart
      obtain ⟨outer, rfl, -, hdeclared⟩ := Path.exists_of_after_eq_cons hpath
      have hnodup := ih rfl rfl
      rw [hdeclared]
      cases hname : statement.declared? with
      | none => exact hnodup
      | some name => exact List.nodup_cons.2 ⟨h.first.not_mem_declared hclean hname, hnodup⟩
  | block _ _ =>
      cases hpart
      cases hpath
      exact List.nodup_nil
  | function h _ =>
      cases hpart
      cases hpath
      exact List.nodup_reverse.2 (nodup_params_of_subset hclean h (List.subset_append_right _ _))
  | @method outer name superclass methods method h hmethod _ =>
      cases hpart
      cases hpath
      have hsubset : Scopes.declaringParams ([] :: (outer.inClass name superclass methods).scopes)
          method.params ⊆ (Stmt.classDecl name superclass methods).own outer :=
        fun finding hfinding =>
          List.mem_append_right _ (List.mem_flatMap.2 ⟨method, hmethod, hfinding⟩)
      exact List.nodup_reverse.2 (nodup_params_of_subset hclean h hsubset)
  | _ => cases hpart

theorem nodup_declarations {enclosure : Enclosure} {part : Part}
    (h : Located program (enclosure :: path) part) : enclosure.construct.declarations.Nodup := by
  obtain ⟨rest, hstatements⟩ := h.exists_statements
  obtain ⟨declared, hend⟩ := hstatements.exists_end
  have hdeclared := hend.declared_append
  rw [List.filterMap_nil, List.append_nil] at hdeclared
  rw [← hdeclared]
  exact List.nodup_reverse.2 (hend.nodup_declared hclean)

theorem obeysStaticRules_of_clean : program.ObeysStaticRules where
  declaredOnce h := nodup_declarations hclean h
  notInOwnInitializer := by
    intro path name initializer occurrence h hpath hinside heq
    cases path with
    | nil => exact hpath rfl
    | cons enclosure path =>
        have hname := h.not_mem_declared hclean rfl
        have hpending := Path.innermost?_pending enclosure path name hname
        refine h.not_mem_own_expression hclean (List.mem_singleton_self _) hinside
          ⟨.notInOwnInitializer, occurrence.name⟩ ?_
        have hread : (Path.pending (enclosure :: path) name).innermost? occurrence.name.lexeme =
            some false := heq ▸ hpending
        simp [Expr.own, Stmt.scopesInside, Scopes.reading, hread]
  returnInFunction := by
    intro path keyword value h
    by_contra hnone
    have houtside := Path.context_function_eq_outside_iff.2 (Path.function?_eq_none_iff.2 hnone)
    refine h.not_mem_own hclean ⟨.returnInFunction, keyword⟩ (List.mem_append_left _ ?_)
    rw [Context.returning, if_pos houtside]
    exact List.mem_singleton_self _
  noValueFromInitializer := by
    intro path keyword value method h hfunction hinitializer
    have hcontext := Path.context_function_eq_initializer_iff.2 ⟨method, hfunction, hinitializer⟩
    refine h.not_mem_own hclean ⟨.noValueFromInitializer, keyword⟩ (List.mem_append_right _ ?_)
    rw [Option.isSome_some, if_pos rfl, Context.returningValue, if_pos hcontext]
    exact List.mem_singleton_self _
  thisInClass := by
    intro path occurrence h
    by_contra hnone
    have houtside := Path.context_classBody_eq_outside_iff.2 (Path.class?_eq_none_iff.2 hnone)
    obtain ⟨statement, whole, hstatement, hwhole, hinside⟩ := located_expression_iff.1 h
    refine hstatement.not_mem_own_expression hclean hwhole hinside
      ⟨.thisInClass, occurrence.name⟩ ?_
    simp [Expr.own, Context.usingThis, houtside]
  superInSubclass := by
    intro path occurrence method h
    obtain ⟨statement, whole, hstatement, hwhole, hinside⟩ := located_expression_iff.1 h
    have hnot := hstatement.not_mem_own_expression hclean hwhole hinside
    refine Path.context_classBody_eq_derived_iff.1 ?_
    cases hclass : path.context.classBody with
    | outside =>
        exact absurd (by simp [Expr.own, Context.usingSuper, hclass])
          (hnot ⟨.superInClass, occurrence.name⟩)
    | plain =>
        exact absurd (by simp [Expr.own, Context.usingSuper, hclass])
          (hnot ⟨.superInSubclass, occurrence.name⟩)
    | derived => rfl
  noSelfInheritance := by
    intro path name superclass methods h heq
    refine h.not_mem_own hclean ⟨.noSelfInheritance, superclass.name⟩ (List.mem_append_left _ ?_)
    simp [Scopes.classHead, heq]

end

/-! ## From the rules to no faults -/

section

variable (hrules : program.ObeysStaticRules)

include hrules

theorem fault_not_mem_own_expression {statement : Stmt} {whole inner : Expr}
    (h : Located program path (.statement statement)) (hwhole : whole ∈ statement.expressions)
    (hinside : inner.Inside whole) (broken : StaticFault) :
    Finding.fault broken ∉ inner.own path.context (statement.scopesInside path) := by
  intro hown
  have hinner := (h.expression hwhole).inside hinside
  cases inner with
  | «variable» occurrence =>
      have hread : (statement.scopesInside path).innermost? occurrence.name.lexeme =
          some false := by
        by_contra hread
        simp [Expr.own, Scopes.reading, Scopes.binding, hread] at hown
      cases statement with
      | varDecl name initializer =>
          obtain ⟨hpath, heq⟩ := Path.of_innermost?_pending hread
          obtain rfl := Option.mem_toList.1 hwhole
          exact hrules.notInOwnInitializer h hpath hinside heq
      | _ => exact path.innermost?_scopes_ne_false _ hread
  | thisRef occurrence =>
      have hclass := mt Path.class?_eq_none_iff.1 (not_not.2 (hrules.thisInClass hinner))
      have hcontext := mt Path.context_classBody_eq_outside_iff.1 hclass
      rw [Expr.own, Context.usingThis] at hown
      split at hown
      · next hout => exact hcontext hout
      · simp [Scopes.binding] at hown
  | superRef occurrence method =>
      have hcontext := Path.context_classBody_eq_derived_iff.2 (hrules.superInSubclass hinner)
      simp [Expr.own, Context.usingSuper, Scopes.binding, hcontext] at hown
  | _ => simp [Expr.own, Scopes.binding] at hown

theorem fault_not_mem_declaring {genuine : Token → Prop} (hformed : program.Formed genuine)
    {statement : Stmt} {name : Token} (h : Located program path (.statement statement))
    (hname : statement.declared? = some name.lexeme) (broken : StaticFault) :
    Finding.fault broken ∉ path.scopes.declaring name := by
  intro hmem
  obtain ⟨-, hsome⟩ := Scopes.mem_declaring_iff.1 hmem
  obtain ⟨rest, hstatements⟩ := h.statements_of_declared hformed (by simp [hname])
  cases path with
  | nil => cases hsome
  | cons enclosure path =>
      have hdeclared := (Path.isSome_innermost?_scopes enclosure name.lexeme).1 hsome
      have hnodup := hrules.declaredOnce h
      rw [← hstatements.declared_append, List.filterMap_cons_some hname] at hnodup
      exact (List.nodup_append'.1 hnodup).2.2 (List.mem_reverse.2 hdeclared) List.mem_cons_self

theorem declaringParams_eq_nil {enclosure : Enclosure} {rest : List Stmt} {params : List Token}
    (h : Located program (enclosure :: path) (.statements rest))
    (hparams : params.map Token.lexeme <+: enclosure.construct.declarations) (scopes : Scopes) :
    Scopes.declaringParams ([] :: scopes) params = [] :=
  (Scopes.declaringParams_eq_nil_iff [] scopes params).2
    ⟨(hrules.declaredOnce h).sublist hparams.sublist, by simp⟩

theorem fault_not_mem_own {genuine : Token → Prop} (hformed : program.Formed genuine)
    {statement : Stmt} (h : Located program path (.statement statement)) (broken : StaticFault) :
    Finding.fault broken ∉ statement.own path := by
  intro hown
  cases statement with
  | classDecl name superclass methods =>
      rcases List.mem_append.1 hown with hhead | hparams
      · rcases List.mem_append.1 hhead with hdeclaring | hsuperclass
        · exact fault_not_mem_declaring hrules hformed h rfl broken hdeclaring
        · cases superclass with
          | none => cases hsuperclass
          | some superclass =>
              have hne := hrules.noSelfInheritance h
              have hread := Path.innermost?_enter_ne_false path name.lexeme superclass.name.lexeme
              simp [hne, Scopes.reading, Scopes.binding, hread] at hsuperclass
      · obtain ⟨method, hmethod, hmem⟩ := List.mem_flatMap.1 hparams
        rw [declaringParams_eq_nil hrules (h.method hmethod) (List.prefix_append _ _)] at hmem
        cases hmem
  | function declaration =>
      rcases List.mem_append.1 hown with hdeclaring | hparams
      · exact fault_not_mem_declaring hrules hformed h rfl broken hdeclaring
      · rw [declaringParams_eq_nil hrules h.function (List.prefix_append _ _)] at hparams
        cases hparams
  | returnValue keyword value =>
      rcases List.mem_append.1 hown with hreturning | hvalue
      · have hfunction := mt Path.function?_eq_none_iff.1 (not_not.2 (hrules.returnInFunction h))
        have hcontext := mt Path.context_function_eq_outside_iff.1 hfunction
        rw [Context.returning, if_neg hcontext] at hreturning
        cases hreturning
      · cases value with
        | none => cases hvalue
        | some value =>
            have hcontext : path.context.function ≠ .initializer := by
              intro hinitializer
              obtain ⟨method, hfunction, hinit⟩ :=
                Path.context_function_eq_initializer_iff.1 hinitializer
              exact hrules.noValueFromInitializer h hfunction hinit
            rw [Option.isSome_some, if_pos rfl, Context.returningValue, if_neg hcontext] at hvalue
            cases hvalue
  | varDecl name initializer => exact fault_not_mem_declaring hrules hformed h rfl broken hown
  | _ => cases hown

theorem clean_of_obeysStaticRules {genuine : Token → Prop} (hformed : program.Formed genuine)
    (broken : StaticFault) : Finding.fault broken ∉ program.findings := by
  intro hmem
  obtain ⟨path, statement, h, hown | ⟨whole, hwhole, hfinding⟩⟩ := Program.mem_findings_iff.1 hmem
  · exact fault_not_mem_own hrules hformed h broken hown
  · obtain ⟨inner, hinside, hown⟩ := whole.mem_findings_iff.1 hfinding
    exact fault_not_mem_own_expression hrules h hwhole hinside broken hown

end

/-- Resolution reports no fault exactly for the programs that obey the static rules. -/
theorem Program.staticFaults_eq_nil_iff {tokens : List Token} {endLine : Nat} {nextId : NodeId}
    (h : (Program.parse tokens endLine nextId).result = .ok program) :
    program.staticFaults = [] ↔ program.ObeysStaticRules := by
  rw [Program.staticFaults_eq_nil_iff_forall]
  have hformed : program.Formed fun _ => True :=
    (Program.derives_of_parse_eq_ok h).1.formed fun _ _ => trivial
  exact ⟨obeysStaticRules_of_clean, fun hrules => clean_of_obeysStaticRules hrules hformed⟩

/-- The program `return;` breaks a rule, as resolution says. -/
theorem not_obeysStaticRules_return :
    (Program.parse [⟨.keyword .returnKw, "return", 1⟩, ⟨.symbol .semicolon, ";", 1⟩] 1 0).result =
      .ok [.returnValue ⟨.keyword .returnKw, "return", 1⟩ none] ∧
    ¬Program.ObeysStaticRules [.returnValue ⟨.keyword .returnKw, "return", 1⟩ none] := by
  have hparse : (Program.parse
      [⟨.keyword .returnKw, "return", 1⟩, ⟨.symbol .semicolon, ";", 1⟩] 1 0).result =
        .ok [.returnValue ⟨.keyword .returnKw, "return", 1⟩ none] := rfl
  refine ⟨hparse, fun hobeys => ?_⟩
  exact absurd ((Program.staticFaults_eq_nil_iff hparse).2 hobeys) (by decide)

end LoxLang
