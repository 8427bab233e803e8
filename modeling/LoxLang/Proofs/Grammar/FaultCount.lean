import LoxLang.Proofs.Grammar.Complete.Program
import LoxLang.Proofs.Grammar.Rereading.Program

/-!
# How many faults are found

Each fault is paid for with a token: a fault that stops a declaration with the token that reading
passes over afterwards, an assignment to something else than a variable or a property with its
equals sign, and an item too many with the comma in front of it.  So the faults noted and the tokens
left are together never more than there were at first (`Owes`), and a rule that yields something has
paid a token for nothing (`Pays`); such a token is left over for the fault at the end of a text.
-/

namespace LoxLang

/-- The number of faults that have been noted and tokens that are left. -/
def Cursor.load (cursor : Cursor) : Nat :=
  cursor.noted.length + cursor.rest.length

/-- A token that is passed makes the load smaller. -/
theorem Cursor.load_of_rest {cursor : Cursor} {token : Token} {rest : List Token}
    (hrest : cursor.rest = token :: rest) :
    cursor.load = ({ cursor with rest := rest } : Cursor).load + 1 := by
  rw [load, hrest]
  rfl

/-- A fault that is noted makes the load greater. -/
theorem Cursor.load_note (cursor : Cursor) (fault : SyntaxFault) :
    ({ cursor with noted := fault :: cursor.noted } : Cursor).load = cursor.load + 1 :=
  Nat.add_right_comm _ _ _

namespace Reading

variable {α β : Type}

/-! ## Rules that owe tokens -/

/-- A rule that adds to the load no more than a debt, whether it yields something or stops. -/
def Owes (debt : Nat) (rule : Reading α) : Prop :=
  ∀ cursor : Cursor, (exec rule cursor).2.load ≤ cursor.load + debt

namespace Owes

variable {debt debt' : Nat} {rule : Reading α} {next : α → Reading β} {test : Token → Bool}

theorem mono (h : Owes debt rule) (hle : debt ≤ debt') : Owes debt' rule :=
  fun cursor => (h cursor).trans (Nat.add_le_add_left hle _)

theorem pure (a : α) : Owes 0 (pure a) :=
  fun _ => Nat.le_refl _

theorem stop (cause : SyntaxCause) : Owes 0 (stop cause : Reading α) :=
  fun _ => Nat.le_refl _

theorem occurrence (name : Token) : Owes 0 (occurrence name) :=
  fun _ => Nat.le_refl _

theorem note (fault : SyntaxFault) : Owes 1 (note fault) :=
  fun cursor => Nat.le_of_eq (cursor.load_note fault)

theorem noteHere (cause : SyntaxCause) : Owes 1 (noteHere cause) :=
  fun cursor => Nat.le_of_eq (cursor.load_note ⟨cause, cursor.place⟩)

theorem bind (h : Owes debt rule) (hnext : ∀ a, Owes debt' (next a)) :
    Owes (debt + debt') (rule >>= next) := by
  intro cursor
  have hbefore := h cursor
  rw [exec_bind]
  rcases hexec : exec rule cursor with ⟨fault | a, between⟩
  all_goals
    rw [hexec] at hbefore
    replace hbefore : between.load ≤ cursor.load + debt := hbefore
  · exact hbefore.trans (by omega)
  · exact (hnext a between).trans (by omega)

/-- Rules without a debt, one after the other. -/
theorem seq (h : Owes 0 rule) (hnext : ∀ a, Owes debt (next a)) : Owes debt (rule >>= next) := by
  rw [← Nat.zero_add debt]
  exact h.bind hnext

theorem bind_remaining {next : Nat → Reading β} (hnext : ∀ n, Owes debt (next n)) :
    Owes debt (remaining >>= next) := by
  intro cursor
  rw [exec_bind_of_ok (exec_remaining cursor)]
  exact hnext _ cursor

/-- A choice by a test that reads nothing. -/
theorem bind_check {check : Reading Bool} {choice : List Token → Bool} {next : Bool → Reading β}
    (hcheck : ∀ cursor : Cursor, exec check cursor = (.ok (choice cursor.rest), cursor))
    (hnext : ∀ found, Owes debt (next found)) : Owes debt (check >>= next) := by
  intro cursor
  rw [exec_bind_of_ok (hcheck cursor)]
  exact hnext _ cursor

theorem bind_nextIs {next : Bool → Reading β} (hnext : ∀ found, Owes debt (next found)) :
    Owes debt (nextIs test >>= next) := by
  intro cursor
  rw [exec_bind_of_ok (exec_nextIs test cursor)]
  exact hnext _ cursor

/-- A token that is read pays for a debt of the rule behind it. -/
theorem bind_accept? {next : Option Token → Reading β}
    (hsome : ∀ token, Owes (debt + 1) (next (some token))) (hnone : Owes debt (next none)) :
    Owes debt (accept? test >>= next) := by
  intro cursor
  rcases head?_any_cases test cursor.rest with hnot | ⟨token, rest, hrest, hpasses⟩
  · rw [exec_bind_of_ok (exec_accept?_of_not hnot)]
    exact hnone cursor
  · rw [exec_bind_of_ok (exec_accept?_of_test hrest hpasses)]
    refine (hsome token _).trans ?_
    rw [Cursor.load_of_rest hrest]
    omega

theorem bind_accepts {next : Bool → Reading β} (htrue : Owes (debt + 1) (next true))
    (hfalse : Owes debt (next false)) : Owes debt (accepts test >>= next) := by
  rw [accepts, bind_assoc]
  exact bind_accept? (fun _ => htrue) hfalse

theorem expect (test : Token → Bool) (cause : SyntaxCause) : Owes 0 (expect test cause) :=
  bind_accept? (fun token => (pure token).mono (Nat.zero_le _)) (stop cause)

end Owes

/-! ## Rules that pay tokens -/

/-- A rule that lessens the load, unless it stops right where it starts. -/
def Pays (rule : Reading α) : Prop :=
  ∀ cursor : Cursor, (exec rule cursor).2.load < cursor.load ∨
    ∃ fault, exec rule cursor = (.error fault, cursor)

namespace Pays

variable {rule : Reading α} {next : α → Reading β} {test : Token → Bool}

theorem owes (h : Pays rule) : Owes 0 rule := by
  intro cursor
  rcases h cursor with hless | ⟨fault, hstop⟩
  · exact Nat.le_of_lt hless
  · rw [hstop]
    exact Nat.le_refl _

theorem stop (cause : SyntaxCause) : Pays (stop cause : Reading α) :=
  fun _ => .inr ⟨_, rfl⟩

theorem bind (h : Pays rule) (hnext : ∀ a, Owes 0 (next a)) : Pays (rule >>= next) := by
  intro cursor
  have hbefore := h cursor
  rw [exec_bind]
  rcases hexec : exec rule cursor with ⟨fault | a, between⟩
  all_goals rw [hexec] at hbefore
  · refine hbefore.imp_right ?_
    rintro ⟨_, ⟨⟩⟩
    exact ⟨fault, rfl⟩
  · rcases hbefore with hless | ⟨fault, hstop⟩
    · exact .inl (Nat.lt_of_le_of_lt (hnext a between) hless)
    · cases hstop

/-- A rule that starts with a token pays with it. -/
theorem bind_accept? {next : Option Token → Reading β}
    (hsome : ∀ token, Owes 0 (next (some token))) (hnone : Pays (next none)) :
    Pays (accept? test >>= next) := by
  intro cursor
  rcases head?_any_cases test cursor.rest with hnot | ⟨token, rest, hrest, hpasses⟩
  · rw [exec_bind_of_ok (exec_accept?_of_not hnot)]
    exact hnone cursor
  · rw [exec_bind_of_ok (exec_accept?_of_test hrest hpasses)]
    refine .inl (Nat.lt_of_le_of_lt (hsome token _) ?_)
    rw [Cursor.load_of_rest hrest]
    exact Nat.lt_succ_self _

theorem bind_accepts {next : Bool → Reading β} (htrue : Owes 0 (next true))
    (hfalse : Pays (next false)) : Pays (accepts test >>= next) := by
  rw [accepts, bind_assoc]
  exact bind_accept? (fun _ => htrue) hfalse

end Pays

/-! ## Items with commas in between -/

/-- An item too many is paid for with the comma in front of it; only the first one has none. -/
theorem owes_itemsFrom {item : Reading α} (hitem : Owes 0 item) (excess : SyntaxCause)
    (limit count : Nat) :
    Owes (if argumentLimit ≤ count then 1 else 0) (itemsFrom item excess limit count) := by
  have hcomma (rest : Reading (List α)) (first : α) (hrest : Owes 1 rest) :
      Owes 0 (accepts (·.isSymbol .comma) >>= fun found =>
        if found then rest >>= fun rest => Pure.pure (first :: rest) else Pure.pure [first]) :=
    .bind_accepts (hrest.bind fun _ => .pure _) (.pure _)
  induction limit generalizing count with
  | zero => exact (Owes.pure []).mono (Nat.zero_le _)
  | succ limit ih =>
      have hrest : Owes 1 (itemsFrom item excess limit (count + 1)) :=
        (ih (count + 1)).mono (by split <;> omega)
      have hitems := hitem.seq fun first => hcomma _ first hrest
      rw [itemsFrom]
      split
      · exact (Owes.noteHere excess).bind fun _ => hitems
      · exact hitems

theorem owes_items {item : Reading α} (hitem : Owes 0 item) (excess : SyntaxCause) :
    Owes 0 (items item excess) := by
  refine .bind_nextIs fun found => ?_
  cases found with
  | true => exact .pure []
  | false => exact .bind_remaining fun n => owes_itemsFrom hitem excess (n + 1) 0

end Reading

namespace Grammar

open Reading

/-! ## Expressions -/

section Expressions

variable {inner : Inner}

/-- Every phrase inside a nesting pays. -/
structure Inner.Pays (inner : Inner) : Prop where
  expression : Reading.Pays inner.expression
  operand : Reading.Pays inner.operand

theorem owes_operations {level : Level} {next : Reading Expr} (hnext : Owes 0 next) (limit : Nat)
    (left : Expr) : Owes 0 (operations level next limit left) := by
  induction limit generalizing left with
  | zero => exact .pure left
  | succ limit ih =>
      refine .bind_accept? (fun operator => ?_) (.pure left)
      exact (hnext.seq fun right => ih _).mono (Nat.zero_le _)

theorem pays_chain {level : Level} {next : Reading Expr} (hnext : Pays next) :
    Pays (chain level next) := by
  refine hnext.bind fun first => .bind_nextIs fun found => ?_
  cases found with
  | false => exact .pure first
  | true => exact .bind_remaining fun n => owes_operations hnext.owes n first

theorem owes_finishCall (h : inner.Pays) (callee : Expr) : Owes 0 (finishCall inner callee) := by
  refine (owes_items h.expression.owes _).seq fun arguments => ?_
  exact (Owes.expect _ _).seq fun paren => .pure _

theorem pays_primary (h : inner.Pays) : Pays (primary inner) := by
  refine .bind_accept? (fun token => .pure _) ?_
  refine .bind_accept? (fun keyword => ?_) ?_
  · refine (Owes.expect _ _).seq fun _ => (Owes.expect _ _).seq fun method => ?_
    exact (Owes.occurrence keyword).seq fun place => .pure _
  refine .bind_accept? (fun keyword => (Owes.occurrence keyword).seq fun place => .pure _) ?_
  refine .bind_accept? (fun name => (Owes.occurrence name).seq fun place => .pure _) ?_
  refine .bind_accepts ?_ (.stop _)
  exact h.expression.owes.seq fun expression => (Owes.expect _ _).seq fun _ => .pure _

theorem owes_selections (h : inner.Pays) (limit : Nat) (subject : Expr) :
    Owes 0 (selections inner limit subject) := by
  induction limit generalizing subject with
  | zero => exact .pure subject
  | succ limit ih =>
      refine .bind_accepts ?_ (.bind_accepts ?_ (.pure subject))
      · exact ((owes_finishCall h subject).seq ih).mono (Nat.zero_le _)
      · exact ((Owes.expect _ _).seq fun name => ih _).mono (Nat.zero_le _)

theorem pays_call (h : inner.Pays) : Pays (call inner) := by
  refine (pays_primary h).bind fun subject => .bind_nextIs fun found => ?_
  cases found with
  | false => exact .pure subject
  | true => exact .bind_remaining fun n => owes_selections h n subject

theorem pays_unary (h : inner.Pays) : Pays (unary inner) :=
  .bind_accept? (fun _ => h.operand.owes.seq fun _ => .pure _) (pays_call h)

theorem pays_disjunction (h : inner.Pays) : Pays (disjunction inner) :=
  pays_chain (pays_chain (pays_chain (pays_chain (pays_chain (pays_chain (pays_unary h))))))

theorem owes_assignTo (target : Expr) (equal : Token) (value : Expr) :
    Owes 1 (assignTo target equal value) := by
  cases target with
  | «variable» place =>
      exact ((Owes.occurrence place.name).seq fun place => .pure _).mono (Nat.zero_le 1)
  | get object name => exact (Owes.pure _).mono (Nat.zero_le 1)
  | _ => exact (Owes.note _).bind fun _ => .pure _

theorem pays_assignment (h : inner.Pays) : Pays (assignment inner) := by
  refine (pays_disjunction h).bind fun target => ?_
  refine .bind_accept? (fun equal => ?_) (.pure target)
  exact h.expression.owes.seq fun value => owes_assignTo target equal value

theorem Inner.pays_full : Inner.full.Pays where
  expression := .stop .nesting
  operand := .stop .nesting

theorem Inner.pays_opened (h : inner.Pays) : inner.opened.Pays where
  expression := pays_assignment h
  operand := pays_unary h

end Expressions

/-! ## Declarations and statements -/

variable {inner : Enclosed}

/-- Every phrase inside a nesting pays, and a function body owes nothing. -/
structure Enclosed.Pays (inner : Enclosed) : Prop extends inner.toInner.Pays where
  statement : Reading.Pays inner.statement
  body : Owes 0 inner.body

theorem owes_function (h : inner.Pays) (sort : FunctionSort) : Owes 0 (function inner sort) := by
  refine (Owes.expect _ _).seq fun name => (Owes.expect _ _).seq fun _ => ?_
  refine (owes_items (.expect _ _) _).seq fun params => ?_
  refine (Owes.expect _ _).seq fun _ => (Owes.expect _ _).seq fun _ => ?_
  exact h.body.seq fun body => .pure _

theorem owes_methods (h : inner.Pays) (limit : Nat) : Owes 0 (methods inner limit) := by
  induction limit with
  | zero => exact .pure []
  | succ limit ih =>
      refine .bind_check exec_bodyEnds fun ends => ?_
      cases ends with
      | true => exact .pure []
      | false => exact (owes_function h .method).seq fun method => ih.seq fun methods => .pure _

theorem owes_inheritance : Owes 0 inheritance := by
  have hname : Owes 0 (expect Token.isIdentifier .superclassName >>= fun name =>
      occurrence name >>= fun place => pure (some place)) :=
    (Owes.expect _ _).seq fun name => (Owes.occurrence name).seq fun place => .pure _
  exact .bind_accepts (hname.mono (Nat.zero_le 1)) (.pure none)

theorem owes_classDeclaration (h : inner.Pays) : Owes 0 (classDeclaration inner) := by
  refine (Owes.expect _ _).seq fun name => owes_inheritance.seq fun superclass => ?_
  refine (Owes.expect _ _).seq fun _ => .bind_remaining fun n => ?_
  exact (owes_methods h n).seq fun methods => (Owes.expect _ _).seq fun _ => .pure _

theorem owes_variableValue (h : inner.Pays) : Owes 0 (variableValue inner) :=
  .bind_accepts ((h.expression.owes.seq fun _ => .pure _).mono (Nat.zero_le 1)) (.pure none)

theorem owes_varDeclaration (h : inner.Pays) : Owes 0 (varDeclaration inner) := by
  refine (Owes.expect _ _).seq fun name => (owes_variableValue h).seq fun initializer => ?_
  exact (Owes.expect _ _).seq fun _ => .pure _

theorem pays_expressionStatement (h : inner.Pays) : Pays (expressionStatement inner) :=
  h.expression.bind fun _ => (Owes.expect _ _).seq fun _ => .pure _

theorem owes_expressionUnless (h : inner.Pays) (symbol : Symbol) :
    Owes 0 (expressionUnless inner symbol) := by
  refine .bind_nextIs fun found => ?_
  cases found with
  | true => exact .pure none
  | false => exact h.expression.owes.seq fun value => .pure _

theorem owes_loopInitializer (h : inner.Pays) : Owes 0 (loopInitializer inner) := by
  refine .bind_accepts ((Owes.pure none).mono (Nat.zero_le 1)) (.bind_accepts ?_ ?_)
  · exact ((owes_varDeclaration h).seq fun declaration => .pure _).mono (Nat.zero_le 1)
  · exact (pays_expressionStatement h).owes.seq fun statement => .pure _

theorem owes_forLoop (h : inner.Pays) : Owes 0 (forLoop inner) := by
  refine (Owes.expect _ _).seq fun _ => (owes_loopInitializer h).seq fun initializer => ?_
  refine (owes_expressionUnless h _).seq fun condition => (Owes.expect _ _).seq fun _ => ?_
  refine (owes_expressionUnless h _).seq fun increment => (Owes.expect _ _).seq fun _ => ?_
  exact h.statement.owes.seq fun body => .pure _

theorem owes_elseBranch (h : inner.Pays) : Owes 0 (elseBranch inner) :=
  .bind_accepts ((h.statement.owes.seq fun _ => .pure _).mono (Nat.zero_le 1)) (.pure none)

theorem owes_conditional (h : inner.Pays) : Owes 0 (conditional inner) := by
  refine (Owes.expect _ _).seq fun _ => h.expression.owes.seq fun condition => ?_
  refine (Owes.expect _ _).seq fun _ => h.statement.owes.seq fun thenBranch => ?_
  exact (owes_elseBranch h).seq fun elseBranch => .pure _

theorem owes_whileLoop (h : inner.Pays) : Owes 0 (whileLoop inner) := by
  refine (Owes.expect _ _).seq fun _ => h.expression.owes.seq fun condition => ?_
  exact (Owes.expect _ _).seq fun _ => h.statement.owes.seq fun body => .pure _

theorem owes_print (h : inner.Pays) : Owes 0 (print inner) :=
  h.expression.owes.seq fun _ => (Owes.expect _ _).seq fun _ => .pure _

theorem owes_returnValue (h : inner.Pays) (keyword : Token) :
    Owes 0 (returnValue inner keyword) :=
  (owes_expressionUnless h _).seq fun _ => (Owes.expect _ _).seq fun _ => .pure _

theorem pays_declarationOrFault (h : inner.Pays) : Pays (declarationOrFault inner) := by
  refine .bind_accepts (owes_classDeclaration h) (.bind_accepts ?_ ?_)
  · exact (owes_function h .function).seq fun declaration => .pure _
  · exact .bind_accepts (owes_varDeclaration h) h.statement

/-- The fault that stops a declaration is paid for with the token passed over, or at the end of the
text with one that the declaration has paid. -/
theorem load_declaration_le (h : inner.Pays) {cursor : Cursor} (hrest : cursor.rest ≠ []) :
    (exec (declaration inner) cursor).2.load ≤ cursor.load := by
  have hrule : Pays (some <$> declarationOrFault inner) := by
    rw [map_eq_pure_bind]
    exact (pays_declarationOrFault h).bind fun statement => .pure _
  rw [declaration, exec_tryCatch]
  have hpays := hrule cursor
  rcases hexec : exec (some <$> declarationOrFault inner) cursor with ⟨fault | statement, between⟩
  all_goals rw [hexec] at hpays
  · have hresume := length_resume_le between.rest
    show between.noted.length + 1 + (resume between.rest).length ≤ cursor.load
    rcases hpays with hless | ⟨fault, hstop⟩
    · replace hless : between.noted.length + between.rest.length < cursor.load := hless
      omega
    · obtain rfl : between = cursor := congrArg Prod.snd hstop
      have hpositive := List.length_pos_iff.2 hrest
      rw [Cursor.load]
      omega
  · rcases hpays with hless | ⟨fault, hstop⟩
    · exact Nat.le_of_lt hless
    · cases hstop

theorem owes_declarations (h : inner.Pays) {ends : Reading Bool} {test : List Token → Bool}
    (htest : test [])
    (hends : ∀ cursor : Cursor, exec ends cursor = (.ok (test cursor.rest), cursor))
    (limit : Nat) : Owes 0 (declarations inner ends limit) := by
  induction limit with
  | zero => exact .pure []
  | succ limit ih =>
      intro cursor
      rw [declarations, exec_bind_of_ok (hends cursor)]
      cases hend : test cursor.rest with
      | true => exact Nat.le_refl _
      | false =>
          have hrest : cursor.rest ≠ [] := by
            intro hnil
            rw [hnil, htest] at hend
            cases hend
          have hfirst := load_declaration_le h hrest
          rw [if_neg Bool.false_ne_true, exec_bind]
          rcases hexec : exec (declaration inner) cursor with ⟨fault | found, between⟩
          all_goals rw [hexec] at hfirst
          · exact hfirst
          · cases found with
            | none => exact (ih between).trans hfirst
            | some statement => exact ((ih.seq fun rest => .pure _) between).trans hfirst

theorem owes_block (h : inner.Pays) : Owes 0 (block inner) :=
  .bind_remaining fun n => (owes_declarations h rfl exec_bodyEnds n).seq fun _ =>
    (Owes.expect _ _).seq fun _ => .pure _

theorem pays_statement (h : inner.Pays) : Pays (statement inner) := by
  refine .bind_accepts (owes_forLoop h) ?_
  refine .bind_accepts (owes_conditional h) ?_
  refine .bind_accepts (owes_print h) ?_
  refine .bind_accept? (owes_returnValue h) ?_
  refine .bind_accepts (owes_whileLoop h) ?_
  refine .bind_accepts ?_ (pays_expressionStatement h)
  exact (owes_block h).seq fun body => .pure _

theorem pays_statements (n : Nat) : (statements n).Pays := by
  induction n with
  | zero =>
      exact {
        toPays := Inner.pays_full
        statement := .stop .nesting
        body := .stop .nesting }
  | succ n ih =>
      exact {
        toPays := Inner.pays_opened ih.toPays
        statement := pays_statement ih
        body := owes_block ih }

theorem owes_program : Owes 0 program :=
  .bind_remaining fun n => owes_declarations (pays_statements nestingLimit) rfl exec_atEnd n

theorem owes_wholeExpression : Owes 0 wholeExpression := by
  have hexpression := (pays_statements nestingLimit).expression
  rw [statements_toInner] at hexpression
  refine hexpression.owes.seq fun expression => .bind_check exec_atEnd fun found => ?_
  cases found with
  | true => exact .pure expression
  | false => exact .stop _

end Grammar

namespace Parsed

variable {α : Type}

/-- A rule that owes nothing finds no more faults in a text than there are tokens in it, with the
end of the text as one of them. -/
theorem length_faults_le {rule : Reading α} (h : Reading.Owes 0 rule) (tokens : List Token)
    (endLine : Nat) (nextId : NodeId) :
    (ofReading rule tokens endLine nextId).faults.length ≤ tokens.length + 1 := by
  have hload := h (start tokens endLine nextId)
  have hstart : (start tokens endLine nextId).load = tokens.length := Nat.zero_add _
  rw [ofReading_eq, faults]
  rcases hexec : Reading.exec rule (start tokens endLine nextId) with ⟨fault | tree, reached⟩
  all_goals
    rw [hexec] at hload
    replace hload : reached.noted.length + reached.rest.length ≤ tokens.length := hstart ▸ hload
    dsimp only
  · rw [List.length_reverse, List.length_cons]
    omega
  · by_cases hnoted : reached.noted.isEmpty
    · rw [if_pos hnoted]
      exact Nat.zero_le _
    · rw [if_neg hnoted, List.length_reverse]
      omega

end Parsed

end LoxLang
