import LoxLang.Proofs.Grammar.Complete.Program
import LoxLang.Proofs.Grammar.Rereading.Program
import LoxLang.Proofs.Grammar.Walk.Following

/-!
# The rules of the walker follow those of the grammar

One lemma for each rule.  A loop of the walker follows a repetition if it may take one round more
than there are tokens left; and a recursion as deep as the nestings that may still be opened follows
the rules for that many nestings.
-/

namespace LoxLang

namespace Walk

open Grammar (Level Tier)

variable {room limit : Nat}

/-! ## Items with commas in between -/

section Items

variable {α : Type} {item : Walk α} {item' : Reading α}

theorem follows_itemsFrom (hitem : ∀ limit, Follows room limit item item') (excess : SyntaxCause)
    {limit rounds : Nat} (hrounds : limit < rounds) (count : Nat) :
    Follows room limit (itemsFrom item excess rounds count)
      (Reading.itemsFrom item' excess (limit + 1) count) := by
  induction rounds generalizing limit count with
  | zero => exact absurd hrounds (Nat.not_lt_zero _)
  | succ rounds ih =>
      refine .noteWhen (.bind (hitem _) fun first => ?_) excess
      refine .bind_accepts (fun fewer hfewer => ?_) (.pure _)
      subst hfewer
      exact .bind (ih (Nat.lt_of_succ_lt_succ hrounds) (count + 1)) fun rest => .pure _

theorem follows_items (hitem : ∀ limit, Follows room limit item item') (excess : SyntaxCause) :
    Follows room limit (items item excess) (Reading.items item' excess) := by
  refine .bind_nextIs fun found => ?_
  cases found with
  | true => exact .pure _
  | false => exact .bind_rounds fun n m hlt => follows_itemsFrom hitem excess hlt 0

end Items

/-! ## Expressions -/

section Expressions

variable {inner : Inner} {inner' : Grammar.Inner}

/-- The rules for what stands inside a nesting follow those of the grammar. -/
structure Inner.Follows (room : Nat) (inner : Inner) (inner' : Grammar.Inner) : Prop where
  expression : ∀ limit, Walk.Follows room limit inner.expression inner'.expression
  assigned : ∀ limit, Walk.Follows room limit inner.assigned inner'.expression
  operand : ∀ limit, Walk.Follows room limit inner.operand inner'.operand

theorem follows_operations {level : Level} {next : Walk Expr} {next' : Reading Expr}
    (hnext : ∀ limit, Follows room limit next next') {limit rounds : Nat}
    (hrounds : limit < rounds) (left : Expr) :
    Follows room limit (operations level next rounds left)
      (Grammar.operations level next' limit left) := by
  induction rounds generalizing limit left with
  | zero => exact absurd hrounds (Nat.not_lt_zero _)
  | succ rounds ih =>
      cases limit with
      | zero => exact .bind_accept?_of_end (.pure left)
      | succ limit =>
          refine .bind_accept? (fun operator fewer hfewer => ?_) (.pure left)
          obtain rfl : limit = fewer := Nat.succ.inj hfewer
          exact .bind (hnext _) fun right => ih (Nat.lt_of_succ_lt_succ hrounds) _

theorem follows_chain {tier : Tier} {next : Walk Expr} {next' : Reading Expr}
    (hnext : ∀ limit, Follows room limit next next') (limit : Nat) :
    Follows room limit (chain tier next) (Grammar.chain tier.level next') := by
  refine .within _ (.bind (hnext limit) fun first => .of_nextIs ?_ fun horderly hnot => ?_)
  · exact .bind_rounds fun n m hlt => follows_operations hnext hlt first
  · rw [exec_bind_of_ok (exec_rounds _), operations,
      exec_bind_of_ok (exec_accept?_of_not horderly hnot), exec_pure]

theorem follows_finishCall (h : inner.Follows room inner') (callee : Expr) :
    Follows room limit (finishCall inner callee) (Grammar.finishCall inner' callee) := by
  refine .within _ (.bind (follows_items h.expression _) fun arguments => ?_)
  exact .bind (.expect _ _) fun paren => .pure _

theorem follows_primary (h : inner.Follows room inner') :
    Follows room limit (primary inner) (Grammar.primary inner') := by
  refine .within _ (.bind_accept? (fun token _ _ => .pure _) ?_)
  refine .bind_accept? (fun keyword _ _ => ?_) ?_
  · refine .bind (.expect _ _) fun _ => .bind (.expect _ _) fun method => ?_
    exact .bind (.occurrence keyword) fun place => .pure _
  refine .bind_accept? (fun keyword _ _ => .bind (.occurrence keyword) fun place => .pure _) ?_
  refine .bind_accept? (fun name _ _ => .bind (.occurrence name) fun place => .pure _) ?_
  refine .bind_accepts (fun _ _ => ?_) (.stop _)
  exact .bind (h.expression _) fun expression => .bind (.expect _ _) fun _ => .pure _

theorem follows_selections (h : inner.Follows room inner') {limit rounds : Nat}
    (hrounds : limit < rounds) (subject : Expr) :
    Follows room limit (selections inner rounds subject)
      (Grammar.selections inner' limit subject) := by
  induction rounds generalizing limit subject with
  | zero => exact absurd hrounds (Nat.not_lt_zero _)
  | succ rounds ih =>
      cases limit with
      | zero => exact .bind_accepts_of_end (.bind_accepts_of_end (.pure subject))
      | succ limit =>
          refine .bind_accepts (fun fewer hfewer => ?_) ?_
          · obtain rfl : limit = fewer := Nat.succ.inj hfewer
            exact .bind (follows_finishCall h subject) fun call =>
              ih (Nat.lt_of_succ_lt_succ hrounds) call
          refine .bind_accepts (fun fewer hfewer => ?_) (.pure subject)
          obtain rfl : limit = fewer := Nat.succ.inj hfewer
          exact .bind (.expect _ _) fun name => ih (Nat.lt_of_succ_lt_succ hrounds) _

theorem follows_call (h : inner.Follows room inner') :
    Follows room limit (call inner) (Grammar.call inner') := by
  refine .within _ (.bind (follows_primary h) fun subject => ?_)
  refine .of_nextIs ?_ fun {walker} horderly hnot => ?_
  · exact .bind_rounds fun n m hlt => follows_selections h hlt subject
  · obtain ⟨hparen, hdot⟩ : walker.cursor.rest.head?.any (·.isSymbol .leftParen) = false ∧
        walker.cursor.rest.head?.any (·.isSymbol .dot) = false := by
      cases hhead : walker.cursor.rest.head? with
      | none => exact ⟨rfl, rfl⟩
      | some token =>
          rw [hhead] at hnot
          exact Bool.or_eq_false_iff.1 hnot
    rw [exec_bind_of_ok (exec_rounds _), selections,
      exec_bind_of_ok (exec_accepts_of_not horderly hparen), if_neg Bool.false_ne_true,
      exec_bind_of_ok (exec_accepts_of_not horderly hdot), if_neg Bool.false_ne_true, exec_pure]

theorem follows_unary (h : inner.Follows room inner') (limit : Nat) :
    Follows room limit (unary inner) (Grammar.unary inner') :=
  .within _ (.bind_accept? (fun _ _ _ => .bind (h.operand _) fun _ => .pure _) (follows_call h))

theorem follows_disjunction (h : inner.Follows room inner') :
    Follows room limit (disjunction inner) (Grammar.disjunction inner') :=
  follows_chain (follows_chain (follows_chain (follows_chain (follows_chain (follows_chain
    (follows_unary h)))))) limit

theorem follows_assignTo (target : Expr) (equal : Token) (value : Expr) :
    Follows room limit (assignTo target equal value) (Grammar.assignTo target equal value) := by
  cases target with
  | «variable» place => exact .bind (.occurrence place.name) fun place => .pure _
  | get object name => exact .pure _
  | _ => exact .bind (.note _) fun _ => .pure _

theorem follows_assignment (h : inner.Follows room inner') :
    Follows room limit (assignment inner) (Grammar.assignment inner') := by
  refine .within _ (.bind (follows_disjunction h) fun target => ?_)
  refine .bind_accept? (fun equal _ _ => ?_) (.pure target)
  exact .bind (h.assigned _) fun value => follows_assignTo target equal value

end Expressions

/-! ## Declarations and statements -/

variable {inner : Enclosed} {inner' : Grammar.Enclosed}

/-- The rules for what stands inside a nesting follow those of the grammar, by which declarations
and methods take up tokens. -/
structure Enclosed.Follows (room : Nat) (inner : Enclosed) (inner' : Grammar.Enclosed) : Prop
    extends inner.toInner.Follows room inner'.toInner where
  statement : ∀ limit, Walk.Follows room limit inner.statement inner'.statement
  body : ∀ limit, Walk.Follows room limit inner.body inner'.body
  declaration_progresses : Reading.Progresses (Grammar.declaration inner')
  method_progresses : Reading.Progresses (Grammar.function inner' .method)

theorem follows_function (h : inner.Follows room inner') (sort : FunctionSort) :
    Follows room limit (function inner sort) (Grammar.function inner' sort) := by
  refine .within _ (.bind (.expect _ _) fun name => .bind (.expect _ _) fun _ => ?_)
  refine .bind (follows_items (fun _ => .expect _ _) _) fun params => ?_
  refine .bind (.expect _ _) fun _ => .bind (.expect _ _) fun _ => ?_
  exact .bind (h.body _) fun body => .pure _

theorem exec_bodyEnds {walker : Walker} (h : walker.Orderly) :
    exec bodyEnds walker = (.ok (Grammar.endsBody walker.cursor.rest), walker) := by
  rw [bodyEnds, exec_bind_of_ok (exec_check h _), exec_bind_of_ok (exec_isAtEnd h), exec_pure]
  rfl

theorem follows_methods (h : inner.Follows room inner') {limit rounds : Nat}
    (hrounds : limit < rounds) :
    Follows room limit (methods inner rounds) (Grammar.methods inner' limit) := by
  induction rounds generalizing limit with
  | zero => exact absurd hrounds (Nat.not_lt_zero _)
  | succ rounds ih =>
      cases limit with
      | zero => exact .bind_check_of_end exec_bodyEnds (.pure [])
      | succ limit =>
          refine .bind_check exec_bodyEnds Grammar.exec_bodyEnds fun ends => ?_
          cases ends with
          | true => exact .pure []
          | false =>
              refine .bind_progressing (follows_function h .method) h.method_progresses ?_
              intro method
              exact .bind (ih (Nat.lt_of_succ_lt_succ hrounds)) fun methods => .pure _

theorem follows_inheritance : Follows room limit inheritance Grammar.inheritance := by
  refine .bind_accepts (fun _ _ => ?_) (.pure none)
  exact .bind (.expect _ _) fun name => .bind (.occurrence name) fun place => .pure _

theorem follows_classDeclaration (h : inner.Follows room inner') :
    Follows room limit (classDeclaration inner) (Grammar.classDeclaration inner') := by
  refine .within _ (.bind (.expect _ _) fun name => ?_)
  refine .bind follows_inheritance fun superclass => ?_
  refine .bind (.expect _ _) fun _ => .bind_rounds fun n m hlt => ?_
  refine .bind (follows_methods h hlt) fun methods => ?_
  exact .bind (.expect _ _) fun _ => .pure _

theorem follows_variableValue (h : inner.Follows room inner') :
    Follows room limit (variableValue inner) (Grammar.variableValue inner') :=
  .bind_accepts (fun _ _ => .bind (h.expression _) fun _ => .pure _) (.pure none)

theorem follows_varDeclaration (h : inner.Follows room inner') :
    Follows room limit (varDeclaration inner) (Grammar.varDeclaration inner') := by
  refine .within _ (.bind (.expect _ _) fun name => ?_)
  refine .bind (follows_variableValue h) fun initializer => ?_
  exact .bind (.expect _ _) fun _ => .pure _

theorem follows_expressionStatement (h : inner.Follows room inner') :
    Follows room limit (expressionStatement inner) (Grammar.expressionStatement inner') :=
  .within _ (.bind (h.expression _) fun _ => .bind (.expect _ _) fun _ => .pure _)

theorem follows_expressionUnless (h : inner.Follows room inner') (symbol : Symbol) :
    Follows room limit (expressionUnless inner symbol)
      (Grammar.expressionUnless inner' symbol) := by
  refine .bind_nextIs fun found => ?_
  cases found with
  | true => exact .pure none
  | false => exact .bind (h.expression _) fun value => .pure _

theorem follows_loopInitializer (h : inner.Follows room inner') :
    Follows room limit (loopInitializer inner) (Grammar.loopInitializer inner') := by
  refine .bind_accepts (fun _ _ => .pure none) ?_
  refine .bind_accepts (fun _ _ => ?_) ?_
  · exact .bind (follows_varDeclaration h) fun declaration => .pure _
  · exact .bind (follows_expressionStatement h) fun statement => .pure _

theorem follows_forLoop (h : inner.Follows room inner') :
    Follows room limit (forLoop inner) (Grammar.forLoop inner') := by
  refine .within _ (.bind (.expect _ _) fun _ => ?_)
  refine .bind (follows_loopInitializer h) fun initializer => ?_
  refine .bind (follows_expressionUnless h _) fun condition => .bind (.expect _ _) fun _ => ?_
  refine .bind (follows_expressionUnless h _) fun increment => .bind (.expect _ _) fun _ => ?_
  exact .bind (h.statement _) fun body => .pure _

theorem follows_elseBranch (h : inner.Follows room inner') :
    Follows room limit (elseBranch inner) (Grammar.elseBranch inner') :=
  .bind_accepts (fun _ _ => .bind (h.statement _) fun _ => .pure _) (.pure none)

theorem follows_conditional (h : inner.Follows room inner') :
    Follows room limit (conditional inner) (Grammar.conditional inner') := by
  refine .within _ (.bind (.expect _ _) fun _ => .bind (h.expression _) fun condition => ?_)
  refine .bind (.expect _ _) fun _ => .bind (h.statement _) fun thenBranch => ?_
  exact .bind (follows_elseBranch h) fun elseBranch => .pure _

theorem follows_whileLoop (h : inner.Follows room inner') :
    Follows room limit (whileLoop inner) (Grammar.whileLoop inner') := by
  refine .within _ (.bind (.expect _ _) fun _ => .bind (h.expression _) fun condition => ?_)
  exact .bind (.expect _ _) fun _ => .bind (h.statement _) fun body => .pure _

theorem follows_print (h : inner.Follows room inner') :
    Follows room limit (print inner) (Grammar.print inner') :=
  .within _ (.bind (h.expression _) fun _ => .bind (.expect _ _) fun _ => .pure _)

theorem follows_returnValue (h : inner.Follows room inner') (keyword : Token) :
    Follows room limit (returnValue inner keyword) (Grammar.returnValue inner' keyword) :=
  .within _ (.bind (follows_expressionUnless h _) fun _ => .bind (.expect _ _) fun _ => .pure _)

theorem follows_declarationOrFault (h : inner.Follows room inner') :
    Follows room limit (declarationOrFault inner) (Grammar.declarationOrFault inner') := by
  refine .bind_accepts (fun _ _ => follows_classDeclaration h) ?_
  refine .bind_accepts (fun _ _ => ?_) ?_
  · exact .bind (follows_function h .function) fun declaration => .pure _
  exact .bind_accepts (fun _ _ => follows_varDeclaration h) (h.statement _)

/-! ### Recovery -/

/-- Behind a token the walker skips to where the grammar goes on after a fault at that token. -/
theorem agrees_skip {walker : Walker} (h : walker.Orderly) {index : Nat}
    (hindex : walker.current = index + 1) {token : Token} (htoken : walker.tokens[index]? = token)
    {rounds : Nat} (hrounds : walker.cursor.rest.length < rounds) :
    Agrees walker (exec (skip rounds) walker)
      (.ok (), { walker.cursor with rest := Grammar.resume (token :: walker.cursor.rest) }) := by
  induction rounds generalizing walker index token with
  | zero => exact absurd hrounds (Nat.not_lt_zero _)
  | succ rounds ih =>
      rw [skip, exec_bind_of_ok (exec_isAtEnd h)]
      cases hrest : walker.cursor.rest with
      | nil =>
          have hresume : Grammar.resume [token] = walker.cursor.rest := by
            rw [hrest, Grammar.resume]
            split <;> rfl
          rw [hresume]
          exact .here h (.ok ())
      | cons next rest =>
          rw [List.isEmpty_cons, if_neg Bool.false_ne_true,
            exec_bind_of_ok (exec_previous h hindex), htoken, Option.any_some, Grammar.resume]
          split
          · rw [← hrest]
            exact .here h (.ok ())
          rw [exec_bind_of_ok (exec_peek h), hrest, List.head?_cons, Option.any_some]
          dsimp only
          split
          · rw [← hrest]
            exact .here h (.ok ())
          rw [exec_bind_of_ok (exec_advance_of_cons h hrest)]
          have hskip := ih (h.step hrest) rfl (Walker.getElem?_step hrest)
            (Walker.length_rest_step_lt hrest hrounds)
          rw [Walker.cursor_step hrest] at hskip
          exact hskip.onward rfl rfl (Nat.le_succ _)

/-- At the end a walker without any tokens would look in front of the first one. -/
theorem agrees_synchronize {walker : Walker} (h : walker.Orderly) (hne : walker.tokens ≠ []) :
    Agrees walker (exec synchronize walker)
      (.ok (), { walker.cursor with rest := Grammar.resume walker.cursor.rest }) := by
  have hrounds : walker.cursor.rest.length < walker.tokens.length + 1 := by
    rw [walker.length_rest]
    omega
  cases hrest : walker.cursor.rest with
  | nil =>
      have hlength := walker.length_rest
      rw [hrest, List.length_nil] at hlength
      have hpositive := List.length_pos_iff.2 hne
      obtain ⟨index, hindex⟩ : ∃ index, walker.current = index + 1 :=
        Nat.exists_eq_add_one.2 (by omega)
      rw [synchronize, exec_bind_of_ok (exec_advance_of_nil h hrest hindex),
        exec_bind_of_ok (exec_rounds _), skip, exec_bind_of_ok (exec_isAtEnd h), hrest,
        List.isEmpty_nil, if_pos rfl, exec_pure, Grammar.resume, ← hrest]
      exact .here h (.ok ())
  | cons token rest =>
      have hfewer := Walker.length_rest_step_lt hrest (Nat.lt_succ_of_lt hrounds)
      have hskip := agrees_skip (h.step hrest) rfl (Walker.getElem?_step hrest) hfewer
      rw [Walker.cursor_step hrest] at hskip
      rw [synchronize, exec_bind_of_ok (exec_advance_of_cons h hrest),
        exec_bind_of_ok (exec_rounds _)]
      exact hskip.onward rfl rfl (Nat.le_succ _)

/-- If there are any tokens, then a declaration is read alike; and unless it starts at the end, it
takes the walker past a token. -/
theorem agrees_declaration (h : inner.Follows room inner') {walker : Walker}
    (horderly : walker.Orderly) (hroom : walker.depth + room = nestingLimit)
    (hne : walker.tokens ≠ []) :
    Agrees walker (exec (declaration inner) walker)
      (Reading.exec (Grammar.declaration inner') walker.cursor) := by
  have hrule : Follows room walker.cursor.rest.length (some <$> declarationOrFault inner)
      (some <$> Grammar.declarationOrFault inner') := by
    rw [map_eq_pure_bind, map_eq_pure_bind]
    exact .bind (follows_declarationOrFault h) fun statement => .pure _
  let entered := walker.calling .declaration
  have hentered : entered.Orderly := horderly.of_eq rfl rfl rfl rfl
  refine .within ?_
  rw [exec_bind_of_ok (exec_get entered), ← bind_pure (Grammar.declaration inner')]
  refine ((hrule entered hentered hroom (Nat.le_refl _)).tryCatch ?_).bind ?_
  · intro fault between hbetween htokens
    refine (Agrees.note hbetween fault).bind fun _ noted hnoted hsame _ _ _ => ?_
    have hne' : noted.tokens ≠ [] := by rwa [hsame, htokens]
    refine (agrees_synchronize hnoted hne').bind fun _ resumed hresumed _ _ _ _ => ?_
    exact .here hresumed (.ok none)
  · intro found between hbetween htokens hdepth hcurrent hread
    have hfewer := h.declaration_progresses _ _ _ hread
    refine ⟨rfl, rfl, ⟨hbetween.inside, hbetween.arrival, hbetween.onward, ?_⟩, rfl, rfl,
      Nat.le_refl _⟩
    refine List.forall_mem_cons.2 ⟨fun hstart => ?_, hbetween.progress⟩
    replace hstart : entered.current < between.tokens.length := hstart
    have hinside := hbetween.inside
    rw [between.length_rest, entered.length_rest, htokens] at hfewer
    rw [htokens] at hinside hstart
    show entered.current < between.current
    omega

theorem follows_declarations (h : inner.Follows room inner') {ends : Walk Bool}
    {ends' : Reading Bool} {choice : List Token → Bool} (hend : choice [])
    (hends : ∀ {walker : Walker}, walker.Orderly →
      exec ends walker = (.ok (choice walker.cursor.rest), walker))
    (hends' : ∀ cursor : Cursor, Reading.exec ends' cursor = (.ok (choice cursor.rest), cursor))
    {limit rounds : Nat} (hrounds : limit < rounds) :
    Follows room limit (declarations inner ends rounds)
      (Grammar.declarations inner' ends' limit) := by
  induction rounds generalizing limit with
  | zero => exact absurd hrounds (Nat.not_lt_zero _)
  | succ rounds ih =>
      cases limit with
      | zero =>
          refine .bind_check_of_end hends ?_
          rw [hend]
          exact .pure []
      | succ limit =>
          intro walker horderly hroom hlimit
          rw [declarations, exec_bind_of_ok (hends horderly), Grammar.declarations,
            Reading.exec_bind_of_ok (hends' walker.cursor)]
          cases hchoice : choice walker.cursor.rest with
          | true => exact .here horderly (.ok [])
          | false =>
              -- A declaration is only read where a token is left, so recovery may look back.
              have hne : walker.tokens ≠ [] := by
                intro hnil
                rw [Walker.cursor, hnil, List.drop_nil, hend] at hchoice
                exact Bool.noConfusion hchoice
              refine (agrees_declaration h horderly hroom hne).bind ?_
              intro found between hbetween _ hdepth _ hread
              have hfewer := h.declaration_progresses _ _ _ hread
              have hnext := ih (Nat.lt_of_succ_lt_succ hrounds)
              have hlimit' : between.cursor.rest.length ≤ limit := by omega
              cases found with
              | none => exact hnext between hbetween (hdepth ▸ hroom) hlimit'
              | some statement =>
                  exact (hnext.bind fun rest => .pure _) between hbetween (hdepth ▸ hroom) hlimit'

theorem follows_block (h : inner.Follows room inner') :
    Follows room limit (block inner) (Grammar.block inner') := by
  refine .within _ (.bind_rounds fun n m hlt => ?_)
  refine .bind (follows_declarations h rfl exec_bodyEnds Grammar.exec_bodyEnds hlt) fun body => ?_
  exact .bind (.expect _ _) fun _ => .pure _

theorem follows_statementKind (h : inner.Follows room inner') :
    Follows room limit (statementKind inner) (Grammar.statement inner') := by
  refine .within _ (.bind_accepts (fun _ _ => follows_forLoop h) ?_)
  refine .bind_accepts (fun _ _ => follows_conditional h) ?_
  refine .bind_accepts (fun _ _ => follows_print h) ?_
  refine .bind_accept? (fun keyword _ _ => follows_returnValue h keyword) ?_
  refine .bind_accepts (fun _ _ => follows_whileLoop h) ?_
  refine .bind_accepts (fun _ _ => ?_) (follows_expressionStatement h)
  exact .bind (follows_block h) fun body => .pure _

/-! ## Nestings -/

/-- A recursion deeper than the nestings that may still be opened follows the rules of the grammar
for that many. -/
theorem follows_enclosed {room fuel : Nat} (hfuel : room < fuel) :
    (enclosed fuel).Follows room (Grammar.statements room) := by
  induction fuel generalizing room with
  | zero => exact absurd hfuel (Nat.not_lt_zero _)
  | succ fuel ih =>
      let unchanged : Rereading := ⟨.ofIds id, [], 0⟩
      have hretraces : (Grammar.statements room).Retraces unchanged :=
        Grammar.retraces_statements room
      have hdeclaration := Grammar.progresses_declaration hretraces
      have hmethod := (Grammar.consumes_function hretraces .method).progresses
      cases room with
      | zero =>
          exact {
            expression := fun _ => .within _ (.nested_full _ _)
            assigned := fun _ => .nested_full _ _
            operand := fun _ => .nested_full _ _
            statement := fun _ => .within _ (.nested_full _ _)
            body := fun _ => .nested_full _ _
            declaration_progresses := hdeclaration
            method_progresses := hmethod }
      | succ room =>
          have hinner := ih (Nat.lt_of_succ_lt_succ hfuel)
          exact {
            expression := fun _ => .within _ (.nested _ (follows_assignment hinner.toFollows))
            assigned := fun _ => .nested _ (follows_assignment hinner.toFollows)
            operand := fun _ => .nested _ (follows_unary hinner.toFollows _)
            statement := fun _ => .within _ (.nested _ (follows_statementKind hinner))
            body := fun _ => .nested _ (follows_block hinner)
            declaration_progresses := hdeclaration
            method_progresses := hmethod }

theorem follows_outermost : outermost.Follows nestingLimit (Grammar.statements nestingLimit) :=
  follows_enclosed (Nat.lt_succ_self _)

theorem follows_program : Follows nestingLimit limit program Grammar.program :=
  .within _ <| .bind_rounds fun _ _ hlt =>
    follows_declarations follows_outermost rfl exec_isAtEnd Reading.exec_atEnd hlt

theorem follows_wholeExpression :
    Follows nestingLimit limit wholeExpression Grammar.wholeExpression := by
  have hexpression := follows_outermost.expression limit
  rw [Grammar.statements_toInner] at hexpression
  refine .within _ (.bind hexpression fun expression => ?_)
  refine .bind_check exec_isAtEnd Reading.exec_atEnd fun found => ?_
  cases found with
  | true => exact .pure _
  | false => exact .stop _

end Walk

end LoxLang
