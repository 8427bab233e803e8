import LoxLang.Proofs.Grammar.Acceptance
import LoxLang.Proofs.Grammar.Rereading.Expression

/-!
# Reading programs again

The rules for statements and declarations.  Most of them are over with their last token; a
conditional is over if no `else` follows.  So a program with other labels is read as the tree with
these labels (`Program.parse_relabel`), and the tokens of two programs, one behind the other, as the
declarations of both (`Program.parse_append`).
-/

namespace LoxLang

/-- No `else` stands behind the text. -/
def Rereading.NoElse (again : Rereading) : Prop :=
  again.more.head?.any (·.isKeyword .elseKw) = false

namespace Grammar

open Reading

variable {again : Rereading} {inner : Enclosed} {whole : Prop}

/-- The rules for what stands inside a nesting go the same way. -/
structure Enclosed.Retraces (again : Rereading) (inner : Enclosed) : Prop
    extends inner.toInner.Retraces again where
  statement : ∀ limit, Reading.Retraces again again.NoElse limit (Stmt.relabel again.labels)
    inner.statement inner.statement
  body : ∀ (whole : Prop) (limit : Nat), Reading.Retraces again whole limit
    (Stmt.relabelAll again.labels) inner.body inner.body
  consumes : Consumes inner.statement

/-! ## Functions and classes -/

theorem retraces_function (h : inner.Retraces again) (sort : FunctionSort) (limit : Nat) :
    Retraces again whole limit (FunctionDecl.relabel again.labels) (function inner sort)
      (function inner sort) := by
  refine .bind (.expect (fun _ => rfl) _) fun name => ?_
  refine .bind (.expect (fun _ => rfl) _) fun _ => ?_
  refine .bind_expect (retraces_items (fun _ => .expect (fun _ => rfl) _) _ _) (fun _ => rfl) _ ?_
  intro params _
  refine .bind (.expect (fun _ => rfl) _) fun _ => ?_
  exact .bind (h.body _ _) fun body => .pure rfl

theorem consumes_function (h : inner.Retraces again) (sort : FunctionSort) :
    Consumes (function inner sort) :=
  (Consumes.expect _ _).bind_left fun _ => (Ensures.expect _ _).bind fun _ =>
    (ensures_items (ensures_identifier _) _).bind fun _ => (Ensures.expect _ _).bind fun _ =>
      (Ensures.expect _ _).bind fun _ => (h.body True 0).ensures.bind fun _ => Ensures.pure _

theorem retraces_bodyEnds (limit : Nat) : Retraces again False limit id bodyEnds bodyEnds :=
  .bind (.nextIs fun _ => rfl) fun _ => .bind .atEnd fun _ => .pure rfl

theorem retraces_methods (h : inner.Retraces again) (limit : Nat) :
    Retraces again False limit (FunctionDecl.relabelAll again.labels) (methods inner limit)
      (methods inner (limit + again.more.length)) := by
  induction limit with
  | zero =>
      refine .of_end (Ensures.pure []) fun hmore => ?_
      rw [hmore]
      exact .pure rfl
  | succ limit ih =>
      rw [Nat.succ_add]
      refine .bind (retraces_bodyEnds _) fun ends => ?_
      cases ends with
      | true => exact .pure rfl
      | false =>
          refine .bind_progressing (retraces_function h .method _)
            (consumes_function h .method).progresses fun method => ?_
          exact .bind ih fun methods => .pure rfl

theorem retraces_inheritance (limit : Nat) :
    Retraces again False limit (Option.map again.labels.occurrence) inheritance inheritance := by
  refine .bind_accepts (fun _ => rfl) ?_ (.pure rfl) False.elim
  refine .bind (.expect (fun _ => rfl) _) fun name => ?_
  exact .bind (.occurrence name) fun place => .pure rfl

theorem retraces_classDeclaration (h : inner.Retraces again) (limit : Nat) :
    Retraces again whole limit (Stmt.relabel again.labels) (classDeclaration inner)
      (classDeclaration inner) := by
  refine .bind (.expect (fun _ => rfl) _) fun name => ?_
  refine .bind_expect (retraces_inheritance _) (fun _ => rfl) _ fun superclass _ => ?_
  refine .bind_remaining fun n => ?_
  refine .bind_expect (retraces_methods h n) (fun _ => rfl) _ fun methods _ => ?_
  exact .pure rfl

/-! ## Declarations -/

theorem retraces_variableValue (h : inner.Retraces again) (limit : Nat) :
    Retraces again False limit (Option.map (Expr.relabel again.labels)) (variableValue inner)
      (variableValue inner) := by
  refine .bind_accepts (fun _ => rfl) ?_ (.pure rfl) False.elim
  exact .bind (h.expression _) fun value => .pure rfl

theorem retraces_varDeclaration (h : inner.Retraces again) (limit : Nat) :
    Retraces again whole limit (Stmt.relabel again.labels) (varDeclaration inner)
      (varDeclaration inner) := by
  refine .bind (.expect (fun _ => rfl) _) fun name => ?_
  exact .bind_expect (retraces_variableValue h _) (fun _ => rfl) _ fun value _ => .pure rfl

theorem advances_expressionStatement (h : inner.Retraces again) (limit : Nat) :
    Advances again whole limit (Stmt.relabel again.labels) (expressionStatement inner)
      (expressionStatement inner) where
  toRetraces := .bind_expect (h.expression _) (fun _ => rfl) _ fun _ _ => .pure rfl
  consumes := .bind_right (h.expression 0).ensures fun _ =>
    (Consumes.expect _ _).bind_left fun _ => Ensures.pure _

/-- Going on after a fault does not depend on what stands behind the text, if some of it is left. -/
theorem resume_append (labels : Relabeling) {more tokens : List Token}
    (h : more = [] ∨ resume tokens ≠ []) :
    resume (tokens.map labels.token ++ more) = (resume tokens).map labels.token ++ more := by
  fun_induction resume tokens with
  | case1 =>
      rcases h with rfl | hresume
      · rfl
      · exact absurd rfl hresume
  | case2 token rest hsemicolon =>
      have hsemicolon' : (labels.token token).isSymbol .semicolon := hsemicolon
      simp [resume, hsemicolon']
  | case3 token hsemicolon =>
      rcases h with rfl | hresume
      · have hsemicolon' : ¬(labels.token token).isSymbol .semicolon := hsemicolon
        simp [resume, hsemicolon']
      · exact absurd rfl hresume
  | case4 token hsemicolon next rest hstart =>
      have hsemicolon' : ¬(labels.token token).isSymbol .semicolon := hsemicolon
      have hstart' : startsStatement (labels.token next) := hstart
      rw [List.map_cons, List.map_cons, List.cons_append, List.cons_append, resume.eq_def]
      simp only [hsemicolon', hstart', Bool.false_eq_true, if_true, if_false]
  | case5 token hsemicolon next rest hstart ih =>
      have hsemicolon' : ¬(labels.token token).isSymbol .semicolon := hsemicolon
      have hstart' : ¬startsStatement (labels.token next) := hstart
      rw [← ih h, List.map_cons, List.map_cons, List.cons_append, List.cons_append,
        resume.eq_def]
      simp only [hsemicolon', hstart', Bool.false_eq_true, if_false]

theorem advances_declarationOrFault (h : inner.Retraces again) (limit : Nat) :
    Advances again again.NoElse limit (Stmt.relabel again.labels) (declarationOrFault inner)
      (declarationOrFault inner) := by
  refine .branch (fun _ => rfl) (retraces_classDeclaration h _) ?_
  refine .branch (fun _ => rfl) ?_ ?_
  · exact .bind (retraces_function h .function _) fun declaration => .pure rfl
  refine .branch (fun _ => rfl) (retraces_varDeclaration h _) ?_
  exact ⟨h.statement _, h.consumes⟩

theorem retraces_resume (limit : Nat) :
    Retraces again False limit id
      (modify fun cursor : Cursor => { cursor with rest := resume cursor.rest })
      (modify fun cursor : Cursor => { cursor with rest := resume cursor.rest }) where
  ensures := ensures_resume
  exec_eq cursor _ _ hsettles := by
    have hrest : again.more = [] ∨ resume cursor.rest ≠ [] :=
      hsettles.imp And.left <| Or.rec id fun hwhole => hwhole.1.elim
    simp only [exec_modify, Rereading.outcome, Rereading.cursor, id_eq,
      resume_append again.labels hrest]

theorem retraces_declaration (h : inner.Retraces again) (limit : Nat) :
    Retraces again again.NoElse limit (Option.map (Stmt.relabel again.labels)) (declaration inner)
      (declaration inner) := by
  refine .tryCatch ?_ ensures_leftOut fun fault => ?_
  · rw [map_eq_pure_bind]
    exact .bind (advances_declarationOrFault h limit).toRetraces fun statement => .pure rfl
  · refine .bind (.note fault) fun _ => ?_
    exact .bind (retraces_resume limit) fun _ => .pure rfl

theorem length_resume_le (tokens : List Token) : (resume tokens).length ≤ tokens.length - 1 := by
  fun_induction resume tokens with
  | case1 => exact Nat.le_refl _
  | case2 => exact Nat.le_refl _
  | case3 => exact Nat.zero_le _
  | case4 => exact Nat.le_refl _
  | case5 token hsemicolon next rest hstart ih => exact Nat.le_trans ih (Nat.sub_le _ _)

theorem progresses_declaration (h : inner.Retraces again) : Progresses (declaration inner) := by
  have hensures : Ensures (some <$> declarationOrFault inner) _ :=
    (advances_declarationOrFault h 0).ensures.map
  have hconsumes : Consumes (some <$> declarationOrFault inner) := by
    rw [map_eq_pure_bind]
    exact (advances_declarationOrFault h 0).consumes.bind_left fun statement => Ensures.pure _
  intro cursor reached found hexec
  rw [declaration, exec_tryCatch] at hexec
  rcases hrule : exec (some <$> declarationOrFault inner) cursor with ⟨fault | statement, between⟩
  · have hbefore := hensures.reaches cursor
    rw [hrule] at hexec hbefore
    cases hexec
    exact Nat.le_trans (length_resume_le _) (Nat.sub_le_sub_right hbefore.rest.length_le 1)
  · rw [hrule] at hexec
    cases hexec
    exact hconsumes.progresses _ _ _ hrule

theorem retraces_declarations (h : inner.Retraces again) {ends : Reading Bool}
    (hends : ∀ limit, Retraces again False limit id ends ends) (limit : Nat) :
    Retraces again False limit (Stmt.relabelAll again.labels) (declarations inner ends limit)
      (declarations inner ends (limit + again.more.length)) := by
  induction limit with
  | zero =>
      refine .of_end (Ensures.pure []) fun hmore => ?_
      rw [hmore]
      exact .pure rfl
  | succ limit ih =>
      rw [Nat.succ_add]
      refine .bind (hends _) fun found => ?_
      cases found with
      | true => exact .pure rfl
      | false =>
          refine .bind_progressing ((retraces_declaration h _).mono False.elim)
            (progresses_declaration h) fun found => ?_
          cases found with
          | none => exact ih
          | some statement => exact .bind ih fun rest => .pure rfl

theorem retraces_block (h : inner.Retraces again) (limit : Nat) :
    Retraces again whole limit (Stmt.relabelAll again.labels) (block inner) (block inner) := by
  refine .bind_remaining fun n => ?_
  exact .bind_expect (retraces_declarations h retraces_bodyEnds n) (fun _ => rfl) _
    fun body _ => .pure rfl

/-! ## Statements -/

theorem retraces_expressionUnless (h : inner.Retraces again) (symbol : Symbol) (limit : Nat) :
    Retraces again False limit (Option.map (Expr.relabel again.labels))
      (expressionUnless inner symbol) (expressionUnless inner symbol) := by
  refine .bind (.nextIs fun _ => rfl) fun found => ?_
  cases found with
  | true => exact .pure rfl
  | false => exact .bind (h.expression _) fun value => .pure rfl

theorem retraces_loopInitializer (h : inner.Retraces again) (limit : Nat) :
    Retraces again whole limit (Option.map (Stmt.relabel again.labels)) (loopInitializer inner)
      (loopInitializer inner) := by
  refine Advances.toRetraces ?_
  refine .branch (fun _ => rfl) (.pure rfl) ?_
  refine .branch (fun _ => rfl) ?_ ?_
  · exact .bind (retraces_varDeclaration h _) fun declaration => .pure rfl
  · exact .bind (advances_expressionStatement h _) fun statement => .pure rfl

theorem retraces_forLoop (h : inner.Retraces again) (limit : Nat) :
    Retraces again again.NoElse limit (Stmt.relabel again.labels) (forLoop inner)
      (forLoop inner) := by
  refine .bind (.expect (fun _ => rfl) _) fun _ => ?_
  refine .bind (retraces_loopInitializer h _) fun initializer => ?_
  refine .bind_expect (retraces_expressionUnless h _ _) (fun _ => rfl) _ fun condition _ => ?_
  refine .bind_expect (retraces_expressionUnless h _ _) (fun _ => rfl) _ fun increment _ => ?_
  exact .bind (h.statement _) fun body => .pure (Stmt.relabel_forLoop _ _ _ _ _).symm

theorem retraces_elseBranch (h : inner.Retraces again) (limit : Nat) :
    Retraces again again.NoElse limit (Option.map (Stmt.relabel again.labels)) (elseBranch inner)
      (elseBranch inner) := by
  refine .bind_accepts (fun _ => rfl) ?_ (.pure rfl) .inl
  exact .bind (h.statement _) fun statement => .pure rfl

theorem retraces_conditional (h : inner.Retraces again) (limit : Nat) :
    Retraces again again.NoElse limit (Stmt.relabel again.labels) (conditional inner)
      (conditional inner) := by
  refine .bind (.expect (fun _ => rfl) _) fun _ => ?_
  refine .bind_expect (h.expression _) (fun _ => rfl) _ fun condition _ => ?_
  refine .bind (h.statement _) fun thenBranch => ?_
  refine .bind (retraces_elseBranch h _) fun elseBranch => ?_
  exact .pure (Stmt.relabel_conditional _ _ _ _).symm

theorem retraces_whileLoop (h : inner.Retraces again) (limit : Nat) :
    Retraces again again.NoElse limit (Stmt.relabel again.labels) (whileLoop inner)
      (whileLoop inner) := by
  refine .bind (.expect (fun _ => rfl) _) fun _ => ?_
  refine .bind_expect (h.expression _) (fun _ => rfl) _ fun condition _ => ?_
  exact .bind (h.statement _) fun body => .pure rfl

theorem retraces_print (h : inner.Retraces again) (limit : Nat) :
    Retraces again whole limit (Stmt.relabel again.labels) (print inner) (print inner) :=
  .bind_expect (h.expression _) (fun _ => rfl) _ fun _ _ => .pure rfl

theorem retraces_returnValue (h : inner.Retraces again) (keyword : Token) (limit : Nat) :
    Retraces again whole limit (Stmt.relabel again.labels) (returnValue inner keyword)
      (returnValue inner (again.labels.token keyword)) :=
  .bind_expect (retraces_expressionUnless h _ _) (fun _ => rfl) _ fun _ _ => .pure rfl

theorem advances_statement (h : inner.Retraces again) (limit : Nat) :
    Advances again again.NoElse limit (Stmt.relabel again.labels) (statement inner)
      (statement inner) := by
  refine .branch (fun _ => rfl) (retraces_forLoop h _) ?_
  refine .branch (fun _ => rfl) (retraces_conditional h _) ?_
  refine .branch (fun _ => rfl) (retraces_print h _) ?_
  refine .branch? (fun _ => rfl) (fun keyword => retraces_returnValue h keyword _) ?_
  refine .branch (fun _ => rfl) (retraces_whileLoop h _) ?_
  refine .branch (fun _ => rfl) ?_ ?_
  · exact .bind (retraces_block h _) fun body => .pure rfl
  · exact advances_expressionStatement h _

/-! ## Programs -/

theorem retraces_statements (n : Nat) : (statements n).Retraces again := by
  induction n with
  | zero =>
      exact {
        toRetraces := Inner.retraces_full
        statement := fun _ => .stop .nesting
        body := fun _ _ => .stop .nesting
        consumes := .stop .nesting }
  | succ n ih =>
      exact {
        toRetraces := Inner.retraces_opened ih.toRetraces
        statement := fun limit => (advances_statement ih limit).toRetraces
        body := fun _ => retraces_block ih
        consumes := (advances_statement ih 0).consumes }

theorem retraces_program (limit : Nat) :
    Retraces again False limit (Stmt.relabelAll again.labels) program program :=
  .bind_remaining fun n =>
    retraces_declarations (retraces_statements nestingLimit) (fun _ => .atEnd) n

theorem exec_declarations_nil {ends : Reading Bool} {test : List Token → Bool} (htest : test [])
    (hends : ∀ cursor : Cursor, exec ends cursor = (.ok (test cursor.rest), cursor)) (limit : Nat)
    {cursor : Cursor} (hnil : cursor.rest = []) :
    exec (declarations inner ends limit) cursor = (.ok [], cursor) := by
  cases limit with
  | zero => rfl
  | succ limit =>
      rw [declarations, exec_bind_of_ok (hends cursor), hnil, htest]
      rfl

/-- A limit of as many declarations as there are tokens is no limit. -/
theorem exec_declarations_add {ends : Reading Bool} {test : List Token → Bool} (htest : test [])
    (hends : ∀ cursor : Cursor, exec ends cursor = (.ok (test cursor.rest), cursor))
    (hinner : Progresses (declaration inner)) {limit : Nat} (more : Nat) {cursor : Cursor}
    (hlimit : cursor.rest.length ≤ limit) :
    exec (declarations inner ends (limit + more)) cursor =
      exec (declarations inner ends limit) cursor := by
  induction limit generalizing cursor with
  | zero =>
      have hnil : cursor.rest = [] := List.eq_nil_of_length_eq_zero (Nat.le_zero.1 hlimit)
      rw [exec_declarations_nil htest hends _ hnil, exec_declarations_nil htest hends _ hnil]
  | succ limit ih =>
      rw [Nat.succ_add, declarations, declarations, exec_bind_of_ok (hends cursor),
        exec_bind_of_ok (hends cursor)]
      cases test cursor.rest with
      | true => rfl
      | false =>
          simp only [Bool.false_eq_true, if_false]
          rw [exec_bind, exec_bind]
          rcases hexec : exec (declaration inner) cursor with ⟨fault | found, between⟩
          · rfl
          · have hlength := hinner _ _ _ hexec
            have hnext := @ih between (by omega)
            cases found with
            | none => exact hnext
            | some statement =>
                simp only
                rw [exec_bind, exec_bind, hnext]

/-- Where declarations have been read up to the end without a fault, the first one has been read
without a fault, and then the others. -/
theorem exec_declarations_cons {n limit : Nat} (hsound : inner.Sound (phrases n))
    {cursor reached : Cursor} {body : List Stmt}
    (hexec : exec (declarations inner atEnd (limit + 1)) cursor = (.ok body, reached))
    (hnoted : reached.noted = cursor.noted) (hrest : cursor.rest ≠ []) :
    ∃ statement rest between, body = statement :: rest ∧
      exec (declaration inner) cursor = (.ok (some statement), between) ∧
      exec (declarations inner atEnd limit) between = (.ok rest, reached) ∧
      between.noted = cursor.noted ∧ reached.noted = between.noted := by
  have hnil : List.isEmpty ([] : List Token) := rfl
  have hdeclarations := ensures_declarations hsound hnil Ensures.atEnd limit
  have hisEmpty : cursor.rest.isEmpty = false := List.isEmpty_eq_false_iff.2 hrest
  have hbefore := (ensures_declaration hsound).reaches cursor
  rw [declarations, exec_bind_of_ok (exec_atEnd cursor), hisEmpty] at hexec
  simp only [Bool.false_eq_true, if_false] at hexec
  rw [exec_bind] at hexec
  rcases hfound : exec (declaration inner) cursor with ⟨fault | found, between⟩
  · rw [hfound] at hexec
    cases hexec
  · rw [hfound] at hexec hbefore
    have hafter := hdeclarations.reaches between
    cases found with
    | none =>
        replace hexec : exec (declarations inner atEnd limit) between = _ := hexec
        rw [hexec] at hafter
        have hleft := hbefore.noted_eq_left hafter hnoted
        obtain ⟨statement, hnone, -⟩ := (ensures_declaration hsound).yields hfound hleft
        cases hnone
    | some statement =>
        simp only at hexec
        rw [exec_bind] at hexec
        rcases hmore : exec (declarations inner atEnd limit) between with ⟨fault | rest, reached'⟩
        · rw [hmore] at hexec
          cases hexec
        · rw [hmore] at hexec hafter
          cases hexec
          exact ⟨statement, rest, between, rfl, rfl, hmore,
            hbefore.noted_eq_left hafter hnoted, hbefore.noted_eq_right hafter hnoted⟩

/-- Declarations that have been read up to the end without a fault are read in the same way in front
of more tokens, and then those are read. -/
theorem exec_declarations_append {n : Nat} (hretraces : inner.Retraces again)
    (hsound : inner.Sound (phrases n)) (helse : again.NoElse) {limit : Nat}
    {cursor reached : Cursor} {body : List Stmt}
    (hexec : exec (declarations inner atEnd limit) cursor = (.ok body, reached))
    (hnoted : reached.noted = cursor.noted) (hlimit : cursor.rest.length ≤ limit)
    (hcounts : again.Counts cursor) :
    exec (declarations inner atEnd (cursor.rest.length + again.more.length))
        (again.cursor cursor) =
      exec ((Stmt.relabelAll again.labels body ++ ·) <$>
        declarations inner atEnd again.more.length) (again.cursor reached) := by
  have hend : (List.isEmpty ([] : List Token)) := rfl
  induction limit generalizing cursor body with
  | zero =>
      have hnil : cursor.rest = [] := List.eq_nil_of_length_eq_zero (Nat.le_zero.1 hlimit)
      rw [exec_declarations_nil hend exec_atEnd 0 hnil] at hexec
      cases hexec
      simp [hnil, Stmt.relabelAll]
  | succ limit ih =>
      cases hrest : cursor.rest with
      | nil =>
          rw [exec_declarations_nil hend exec_atEnd _ hrest] at hexec
          cases hexec
          simp [Stmt.relabelAll]
      | cons token tokens =>
          have hne : cursor.rest ≠ [] := hrest ▸ List.cons_ne_nil _ _
          obtain ⟨statement, rest, between, rfl, hfirst, hmore, hleft, hright⟩ :=
            exec_declarations_cons hsound hexec hnoted hne
          have hprogresses := progresses_declaration hretraces _ _ _ hfirst
          have hlength : between.rest.length ≤ tokens.length := by
            rw [hrest] at hprogresses
            exact hprogresses
          have hbefore := (retraces_declaration hretraces 0).ensures.reaches cursor
          have hread := (retraces_declaration hretraces _).exec_eq cursor (Nat.le_refl _) hcounts
          rw [hfirst] at hread hbefore
          have hlimit' : between.rest.length ≤ limit := by
            rw [hrest, List.length_cons] at hlimit
            omega
          have hnext : exec (declarations inner atEnd (tokens.length + again.more.length))
              (again.cursor between) =
                exec (declarations inner atEnd (between.rest.length + again.more.length))
                  (again.cursor between) := by
            rw [← Nat.add_sub_of_le hlength, Nat.add_right_comm]
            refine exec_declarations_add hend exec_atEnd (progresses_declaration hretraces) _ ?_
            rw [Rereading.cursor, List.length_append, List.length_map]
          have hisEmpty : (again.cursor cursor).rest.isEmpty = false := by
            rw [Rereading.cursor, hrest]
            rfl
          rw [List.length_cons, Nat.succ_add, declarations, exec_bind_of_ok (exec_atEnd _),
            hisEmpty]
          simp only [Bool.false_eq_true, if_false]
          rw [exec_bind_of_ok (hread (.inr <| .inr ⟨helse, rfl, hleft⟩))]
          simp only [Option.map_some]
          rw [exec_bind, hnext, ih hmore hright hlimit' (hcounts.reaches hbefore),
            map_eq_pure_bind, map_eq_pure_bind, exec_bind, exec_bind]
          rcases exec (declarations inner atEnd again.more.length) (again.cursor reached) with
            ⟨fault | body, last⟩
          · rfl
          · rfl

end Grammar

/-! ## Parsing -/

namespace Parsed

/-- What is read from a text with other labels. -/
def relabel (labels : Relabeling) (parsed : Parsed Program) : Parsed Program where
  result :=
    match parsed.result with
    | .ok program => .ok (program.relabel labels)
    | .error faults => .error (faults.map (SyntaxFault.mapLine labels.lines))
  nextId := labels.ids parsed.nextId

end Parsed

namespace Program

open Reading Grammar

/-- Tokens with other labels are read as the same program with other labels, or the same faults are
found in them. -/
theorem parse_relabel (labels : Relabeling) (tokens : List Token) (endLine : Nat) {nextId : NodeId}
    (hcounts : ∀ id, nextId ≤ id → labels.ids (id + 1) = labels.ids id + 1) :
    parse (tokens.map labels.token) (labels.lines endLine) (labels.ids nextId) =
      (parse tokens endLine nextId).relabel labels := by
  let again : Rereading := ⟨labels, [], labels.lines endLine⟩
  have hstart : again.cursor (Parsed.start tokens endLine nextId) =
      Parsed.start (tokens.map labels.token) (labels.lines endLine) (labels.ids nextId) := by
    simp [again, Rereading.cursor, Parsed.start]
  have hretraces : Retraces again False tokens.length (Stmt.relabelAll labels) program program :=
    retraces_program _
  have hexec := hretraces.exec_eq (Parsed.start tokens endLine nextId) (Nat.le_refl _)
    hcounts (.inl ⟨rfl, rfl⟩)
  rw [parse, parse, Parsed.ofReading_eq, Parsed.ofReading_eq, ← hstart, hexec]
  rcases exec program (Parsed.start tokens endLine nextId) with ⟨fault | tree, reached⟩
  · simp [Rereading.outcome, Rereading.cursor, Parsed.relabel, again]
  · by_cases hnoted : reached.noted = []
    · simp [Rereading.outcome, Rereading.cursor, Parsed.relabel, Program.relabel, hnoted, again]
    · simp [Rereading.outcome, Rereading.cursor, Parsed.relabel, hnoted, again]

/-- No program starts with an `else`. -/
theorem head?_isElse_of_derives {tokens : List Token} {program : Program}
    (h : Program.Derives tokens program) :
    tokens.head?.any (·.isKeyword .elseKw) = false := by
  cases h with
  | nil => rfl
  | cons hfirst _ =>
      exact (hfirst.starts.append _).not_starts fun _ => isElse_eq_false_of_startsDeclaration

/-- Where a program has been read, its declarations have been read up to the end. -/
theorem exec_of_parse_eq {tokens : List Token} {endLine : Nat} {nextId last : NodeId}
    {program : Program} (h : parse tokens endLine nextId = ⟨.ok program, last⟩) :
    exec (declarations (statements nestingLimit) atEnd tokens.length)
        (Parsed.start tokens endLine nextId) =
      (.ok program, { rest := [], endLine := endLine, noted := [], nextId := last }) := by
  have hresult : (parse tokens endLine nextId).result = .ok program := by rw [h]
  obtain ⟨reached, hexec, hnoted, hnextId⟩ := Parsed.exec_of_result_eq_ok hresult
  have hreaches := ensures_program.reaches (Parsed.start tokens endLine nextId)
  obtain ⟨hrest, -⟩ := ensures_program.yields hexec hnoted
  rw [hexec] at hreaches
  have hlast : reached.nextId = last := by
    rw [← hnextId]
    exact congrArg Parsed.nextId h
  have hprogram := exec_bind_of_ok (exec_remaining (Parsed.start tokens endLine nextId))
    (declarations (statements nestingLimit) atEnd)
  refine hprogram.symm.trans (hexec.trans (congrArg _ ?_))
  have hend := hreaches.endLine
  cases reached
  simp_all [Parsed.start]

/-- The tokens of one program in front of those of another one are read as the declarations of both,
if the second program goes on where the first one stops giving out numbers. -/
theorem parse_append {first second : List Token} {endLine endLine' : Nat}
    {nextId middle last : NodeId} {program program' : Program}
    (h : parse first endLine nextId = ⟨.ok program, middle⟩)
    (h' : parse second endLine' middle = ⟨.ok program', last⟩) :
    parse (first ++ second) endLine' nextId = ⟨.ok (program ++ program'), last⟩ := by
  let again : Rereading := ⟨.ofIds id, second, endLine'⟩
  have helse : again.NoElse := head?_isElse_of_derives (derives_of_parse_eq_ok (by rw [h'])).1
  have hstart : again.cursor (Parsed.start first endLine nextId) =
      Parsed.start (first ++ second) endLine' nextId := by
    simp only [again, Rereading.cursor, Parsed.start, Relabeling.map_token_ofIds]
    rfl
  have hmiddle : again.cursor { rest := [], endLine := endLine, noted := [], nextId := middle } =
      Parsed.start second endLine' middle := rfl
  have hsame : Stmt.relabelAll again.labels program = program :=
    Stmt.relabelAll_eq_self program fun _ _ => rfl
  have happend := exec_declarations_append (retraces_statements nestingLimit)
    (sound_statements nestingLimit) helse (exec_of_parse_eq h) rfl (Nat.le_refl _) fun _ _ => rfl
  rw [hstart, hmiddle, hsame, map_eq_pure_bind, exec_bind_of_ok (exec_of_parse_eq h'), exec_pure]
    at happend
  have hprogram : exec Grammar.program (Parsed.start (first ++ second) endLine' nextId) = _ :=
    exec_bind_of_ok (exec_remaining _) _
  have hlength : (Parsed.start (first ++ second) endLine' nextId).rest.length =
      (Parsed.start first endLine nextId).rest.length + again.more.length := List.length_append
  rw [parse, Parsed.ofReading_eq, hprogram, hlength, happend]
  rfl

end Program

end LoxLang
