import LoxLang.Proofs.Grammar.Complete.Expression

/-!
# Derivations do not look at numbers

What derives a tree derives every tree that differs from it in nothing but the numbers of its
occurrences.  So the programs that a list of tokens stands for are given up to these numbers.
-/

namespace LoxLang

namespace Grammar

variable {α γ : Type}

/-- What a relation derives does not depend on anything that the view hides. -/
def Blind (derives : List Token → α → Prop) (view : α → γ) : Prop :=
  ∀ tokens a b, derives tokens a → view b = view a → derives tokens b

/-- What stands inside a nesting is derived with any numbers. -/
structure Phrases.Unnumbered (within : Phrases) : Prop where
  expression : Blind within.expression Expr.unnumbered
  operand : Blind within.operand Expr.unnumbered
  statement : ∀ isOpen, Blind (within.statement isOpen) Stmt.unnumbered
  body : Blind within.body Stmt.unnumberedAll

/-! ## Lists of phrases -/

theorem blind_repeated {derives : List Token → α → Prop} {view : α → γ}
    (h : Blind derives view) : Blind (Repeated derives) (List.map view) := by
  intro tokens as bs has hview
  induction has generalizing bs with
  | nil =>
      rw [List.map_nil, List.map_eq_nil_iff] at hview
      exact hview ▸ .nil
  | cons ha _ ih =>
      obtain ⟨b, bs, rfl, hb, hbs⟩ := List.map_eq_cons_iff.1 hview
      exact .cons (h _ _ _ ha hb) (ih _ hbs)

theorem blind_separated {derives : List Token → α → Prop} {view : α → γ}
    (h : Blind derives view) : Blind (Separated derives) (List.map view) := by
  intro tokens as bs has hview
  induction has generalizing bs with
  | one ha =>
      obtain ⟨b, bs, rfl, hb, hbs⟩ := List.map_eq_cons_iff.1 hview
      rw [List.map_nil, List.map_eq_nil_iff] at hbs
      exact hbs ▸ .one (h _ _ _ ha hb)
  | more ha hcomma _ ih =>
      obtain ⟨b, bs, rfl, hb, hbs⟩ := List.map_eq_cons_iff.1 hview
      exact .more (h _ _ _ ha hb) hcomma (ih _ hbs)

theorem blind_listed {derives : List Token → α → Prop} {view : α → γ}
    (h : Blind derives view) : Blind (Listed derives) (List.map view) := by
  rintro tokens as bs (⟨rfl, rfl⟩ | has) hview
  · rw [List.map_nil, List.map_eq_nil_iff] at hview
    exact .inl ⟨rfl, hview⟩
  · exact .inr (blind_separated h _ _ _ has hview)

/-! ## Expressions -/

variable {within : Phrases}

theorem Tier.eq_node_of_unnumbered {tier : Tier} {operator : Token} {left right b : Expr}
    (h : b.unnumbered = (tier.node operator left right).unnumbered) :
    ∃ left' right', b = tier.node operator left' right' ∧ left'.unnumbered = left.unnumbered ∧
      right'.unnumbered = right.unnumbered := by
  rw [tier.unnumbered_node] at h
  cases tier with
  | disjunction => cases b <;> simp_all [node, Expr.unnumbered]
  | conjunction => cases b <;> simp_all [node, Expr.unnumbered]
  | _ => cases b <;> simp_all [node, Expr.unnumbered]

theorem operations_of_unnumbered {tier : Tier} {derives : List Token → Expr → Prop}
    (hderives : Blind derives Expr.unnumbered) {left result result' : Expr} {tokens : List Token}
    (h : Operations tier derives left tokens result)
    (hresult : result'.unnumbered = result.unnumbered) :
    ∃ left', left'.unnumbered = left.unnumbered ∧ Operations tier derives left' tokens result' := by
  induction h with
  | done => exact ⟨result', hresult, .done⟩
  | more hoperator hright _ ih =>
      obtain ⟨node, hnode, hmore⟩ := ih hresult
      obtain ⟨left', right', rfl, hleft, hright'⟩ := Tier.eq_node_of_unnumbered hnode
      exact ⟨left', hleft, .more hoperator (hderives _ _ _ hright hright') hmore⟩

theorem blind_chain {tier : Tier} {derives : List Token → Expr → Prop}
    (hderives : Blind derives Expr.unnumbered) : Blind (Chain tier derives) Expr.unnumbered := by
  intro tokens a b ha hview
  cases ha with
  | mk hfirst hrest =>
      obtain ⟨first', hfirst', hrest'⟩ := operations_of_unnumbered hderives hrest hview
      exact .mk (hderives _ _ _ hfirst hfirst') hrest'

theorem blind_primary (h : within.Unnumbered) : Blind (Primary within) Expr.unnumbered := by
  intro tokens a b ha hview
  cases ha with
  | constant hconstant =>
      cases b with
      | literal value =>
          simp only [Expr.unnumbered, Expr.literal.injEq] at hview
          subst hview
          exact .constant hconstant
      | _ => simp [Expr.unnumbered] at hview
  | thisRef hword =>
      cases b with
      | thisRef place =>
          rcases place with ⟨id, name⟩
          simp only [Expr.unnumbered, Occurrence.unnumbered, Expr.thisRef.injEq,
            Occurrence.mk.injEq, true_and] at hview
          subst hview
          exact .thisRef hword
      | _ => simp [Expr.unnumbered] at hview
  | name hname =>
      obtain ⟨id, rfl⟩ := eq_variable_of_unnumbered hview
      exact .name hname
  | superRef hword hdot hmethod =>
      cases b with
      | superRef place method =>
          rcases place with ⟨id, name⟩
          simp only [Expr.unnumbered, Occurrence.unnumbered, Expr.superRef.injEq,
            Occurrence.mk.injEq, true_and] at hview
          obtain ⟨rfl, rfl⟩ := hview
          exact .superRef hword hdot hmethod
      | _ => simp [Expr.unnumbered] at hview
  | grouping hopening hexpression hclosing =>
      cases b with
      | grouping inner =>
          simp only [Expr.unnumbered, Expr.grouping.injEq] at hview
          exact .grouping hopening (h.expression _ _ _ hexpression hview) hclosing
      | _ => simp [Expr.unnumbered] at hview

theorem selections_of_unnumbered (h : within.Unnumbered) {subject result result' : Expr}
    {tokens : List Token} (hselections : Selections within subject tokens result)
    (hresult : result'.unnumbered = result.unnumbered) :
    ∃ subject', subject'.unnumbered = subject.unnumbered ∧
      Selections within subject' tokens result' := by
  induction hselections with
  | done => exact ⟨result', hresult, .done⟩
  | call hopening hlist hlength hclosing _ ih =>
      obtain ⟨called, hcalled, hmore⟩ := ih hresult
      cases called with
      | call subject' closing' arguments' =>
          simp only [Expr.unnumbered, Expr.unnumberedAll_eq_map, Expr.call.injEq] at hcalled
          obtain ⟨hsubject, rfl, harguments⟩ := hcalled
          have hlength' := congrArg List.length harguments
          rw [List.length_map, List.length_map] at hlength'
          exact ⟨subject', hsubject,
            .call hopening (blind_listed h.expression _ _ _ hlist harguments)
            (hlength' ▸ hlength) hclosing hmore⟩
      | _ => simp [Expr.unnumbered] at hcalled
  | get hdot hname _ ih =>
      obtain ⟨selected, hselected, hmore⟩ := ih hresult
      obtain ⟨subject', rfl, hsubject⟩ := eq_get_of_unnumbered hselected
      exact ⟨subject', hsubject, .get hdot hname hmore⟩

theorem blind_call (h : within.Unnumbered) : Blind (Call within) Expr.unnumbered := by
  intro tokens a b ha hview
  cases ha with
  | mk hprimary hrest =>
      obtain ⟨subject', hsubject, hrest'⟩ := selections_of_unnumbered h hrest hview
      exact .mk (blind_primary h _ _ _ hprimary hsubject) hrest'

theorem blind_unary (h : within.Unnumbered) : Blind (Unary within) Expr.unnumbered := by
  intro tokens a b ha hview
  cases ha with
  | call hcall => exact .call (blind_call h _ _ _ hcall hview)
  | operator hoperator hoperand =>
      cases b with
      | unary operator operand =>
          simp only [Expr.unnumbered, Expr.unary.injEq] at hview
          obtain ⟨rfl, hview⟩ := hview
          exact .operator hoperator (h.operand _ _ _ hoperand hview)
      | _ => simp [Expr.unnumbered] at hview

theorem blind_layered (h : within.Unnumbered) (tiers : List Tier) :
    Blind (Layered within tiers) Expr.unnumbered := by
  induction tiers with
  | nil => exact blind_unary h
  | cons tier tighter ih => exact blind_chain ih

theorem blind_assignment (h : within.Unnumbered) :
    Blind (Assignment within) Expr.unnumbered := by
  intro tokens a b ha hview
  cases ha with
  | plain hplain => exact .plain (blind_layered h tiers _ _ _ hplain hview)
  | toVariable hname hequal hvalue =>
      cases b with
      | assign place value =>
          rcases place with ⟨id, name⟩
          simp only [Expr.unnumbered, Occurrence.unnumbered, Expr.assign.injEq,
            Occurrence.mk.injEq, true_and] at hview
          obtain ⟨rfl, hview⟩ := hview
          exact .toVariable hname hequal (h.expression _ _ _ hvalue hview)
      | _ => simp [Expr.unnumbered] at hview
  | toProperty hcall hdot hname hequal hvalue =>
      cases b with
      | set object name value =>
          simp only [Expr.unnumbered, Expr.set.injEq] at hview
          obtain ⟨hobject, rfl, hview⟩ := hview
          exact .toProperty (blind_call h _ _ _ hcall hobject) hdot hname hequal
            (h.expression _ _ _ hvalue hview)
      | _ => simp [Expr.unnumbered] at hview

/-! ## Declarations -/

theorem blind_function (h : within.Unnumbered) :
    Blind (Function within) FunctionDecl.unnumbered := by
  intro tokens a b ha hview
  cases ha with
  | mk hname hopening hparams hlength hclosing hbrace hbody =>
      cases b with
      | mk name params body =>
          simp only [FunctionDecl.unnumbered, FunctionDecl.mk.injEq] at hview
          obtain ⟨rfl, rfl, hview⟩ := hview
          exact .mk hname hopening hparams hlength hclosing hbrace (h.body _ _ _ hbody hview)

theorem blind_perhaps (h : within.Unnumbered) :
    Blind (Perhaps within) (Option.map Expr.unnumbered) := by
  intro tokens a b ha hview
  cases ha with
  | none =>
      rw [Option.map_none, Option.map_eq_none_iff] at hview
      exact hview ▸ .none
  | some hvalue =>
      obtain ⟨value, rfl, hvalue'⟩ := Option.map_eq_some_iff.1 hview
      exact .some (h.expression _ _ _ hvalue hvalue')

theorem blind_variable (h : within.Unnumbered) : Blind (Variable within) Stmt.unnumbered := by
  intro tokens a b ha hview
  cases ha with
  | plain hname hsemicolon =>
      cases b with
      | varDecl name value =>
          simp only [Stmt.unnumbered, Stmt.varDecl.injEq, Option.map_none,
            Option.map_eq_none_iff] at hview
          obtain ⟨rfl, rfl⟩ := hview
          exact .plain hname hsemicolon
      | _ => simp [Stmt.unnumbered] at hview
  | initialized hname hequal hvalue hsemicolon =>
      cases b with
      | varDecl name value =>
          simp only [Stmt.unnumbered, Stmt.varDecl.injEq, Option.map_some,
            Option.map_eq_some_iff] at hview
          obtain ⟨rfl, value, rfl, hvalue'⟩ := hview
          exact .initialized hname hequal (h.expression _ _ _ hvalue hvalue') hsemicolon
      | _ => simp [Stmt.unnumbered] at hview

theorem blind_terminated (h : within.Unnumbered) : Blind (Terminated within) Expr.unnumbered := by
  intro tokens a b ha hview
  cases ha with
  | mk hvalue hsemicolon => exact .mk (h.expression _ _ _ hvalue hview) hsemicolon

theorem blind_inheritance : Blind Inheritance (Option.map Occurrence.unnumbered) := by
  intro tokens a b ha hview
  cases ha with
  | none =>
      rw [Option.map_none, Option.map_eq_none_iff] at hview
      exact hview ▸ .none
  | some hless hname =>
      obtain ⟨⟨id, name⟩, rfl, hname'⟩ := Option.map_eq_some_iff.1 hview
      simp only [Occurrence.unnumbered, Occurrence.mk.injEq, true_and] at hname'
      subst hname'
      exact .some hless hname

theorem blind_expression (h : within.Unnumbered) {tokens : List Token} {value : Expr} {b : Stmt}
    (hvalue : Terminated within tokens value)
    (hview : b.unnumbered = (Stmt.expression value).unnumbered) :
    ∃ value', b = .expression value' ∧ Terminated within tokens value' := by
  cases b with
  | expression value' =>
      simp only [Stmt.unnumbered, Stmt.expression.injEq] at hview
      exact ⟨value', rfl, blind_terminated h _ _ _ hvalue hview⟩
  | _ => simp [Stmt.unnumbered] at hview

theorem blind_initializer (h : within.Unnumbered) :
    Blind (Initializer within) (Option.map Stmt.unnumbered) := by
  intro tokens a b ha hview
  cases ha with
  | none hsemicolon =>
      rw [Option.map_none, Option.map_eq_none_iff] at hview
      exact hview ▸ .none hsemicolon
  | varDecl hkeyword hvar =>
      obtain ⟨declaration, rfl, hdeclaration⟩ := Option.map_eq_some_iff.1 hview
      exact .varDecl hkeyword (blind_variable h _ _ _ hvar hdeclaration)
  | expression hvalue =>
      obtain ⟨statement, rfl, hstatement⟩ := Option.map_eq_some_iff.1 hview
      obtain ⟨value', rfl, hvalue'⟩ := blind_expression h hvalue hstatement
      exact .expression hvalue'

theorem blind_declaration (h : within.Unnumbered) :
    Blind (Declaration within) Stmt.unnumbered := by
  intro tokens a b ha hview
  cases ha with
  | classDecl hkeyword hname hinheritance hopening hmethods hclosing =>
      cases b with
      | classDecl name superclass methods =>
          simp only [Stmt.unnumbered, FunctionDecl.unnumberedAll_eq_map,
            Stmt.classDecl.injEq] at hview
          obtain ⟨rfl, hsuperclass, hmethods'⟩ := hview
          exact .classDecl hkeyword hname (blind_inheritance _ _ _ hinheritance hsuperclass)
            hopening (blind_repeated (blind_function h) _ _ _ hmethods hmethods') hclosing
      | _ => simp [Stmt.unnumbered] at hview
  | function hkeyword hfunction =>
      cases b with
      | function declaration =>
          simp only [Stmt.unnumbered, Stmt.function.injEq] at hview
          exact .function hkeyword (blind_function h _ _ _ hfunction hview)
      | _ => simp [Stmt.unnumbered] at hview
  | varDecl hkeyword hvar => exact .varDecl hkeyword (blind_variable h _ _ _ hvar hview)
  | statement hstatement => exact .statement (h.statement _ _ _ _ hstatement hview)

theorem blind_declarations (h : within.Unnumbered) :
    Blind (Repeated (Declaration within)) Stmt.unnumberedAll := by
  intro tokens a b ha hview
  rw [Stmt.unnumberedAll_eq_map, Stmt.unnumberedAll_eq_map] at hview
  exact blind_repeated (blind_declaration h) _ _ _ ha hview

theorem blind_body (h : within.Unnumbered) : Blind (Body within) Stmt.unnumberedAll := by
  intro tokens a b ha hview
  cases ha with
  | mk hbody hclosing => exact .mk (blind_declarations h _ _ _ hbody hview) hclosing

/-! ## Statements -/

theorem eq_conditional_of_unnumbered {b thenBranch : Stmt} {condition : Expr}
    {elseBranch : Option Stmt}
    (h : b.unnumbered = (Stmt.conditional condition thenBranch elseBranch).unnumbered) :
    ∃ condition' thenBranch' elseBranch', b = .conditional condition' thenBranch' elseBranch' ∧
      condition'.unnumbered = condition.unnumbered ∧
      thenBranch'.unnumbered = thenBranch.unnumbered ∧
      elseBranch'.map Stmt.unnumbered = elseBranch.map Stmt.unnumbered := by
  cases b with
  | conditional condition' thenBranch' elseBranch' =>
      rw [Stmt.unnumbered_conditional, Stmt.unnumbered_conditional, Stmt.conditional.injEq] at h
      exact ⟨_, _, _, rfl, h⟩
  | _ => simp [Stmt.unnumbered] at h

theorem eq_whileLoop_of_unnumbered {b body : Stmt} {condition : Expr}
    (h : b.unnumbered = (Stmt.whileLoop condition body).unnumbered) :
    ∃ condition' body', b = .whileLoop condition' body' ∧
      condition'.unnumbered = condition.unnumbered ∧ body'.unnumbered = body.unnumbered := by
  cases b with
  | whileLoop condition' body' =>
      rw [Stmt.unnumbered, Stmt.unnumbered, Stmt.whileLoop.injEq] at h
      exact ⟨_, _, rfl, h⟩
  | _ => simp [Stmt.unnumbered] at h

/-- A block of two statements has two statements with any numbers. -/
theorem eq_block_of_unnumbered {b first second : Stmt}
    (h : b.unnumbered = (Stmt.block [first, second]).unnumbered) :
    ∃ first' second', b = .block [first', second'] ∧ first'.unnumbered = first.unnumbered ∧
      second'.unnumbered = second.unnumbered := by
  cases b with
  | block body =>
      simp only [Stmt.unnumbered, Stmt.unnumberedAll_eq_map, Stmt.block.injEq] at h
      obtain ⟨first', rest, rfl, hfirst, hrest⟩ := List.map_eq_cons_iff.1 h
      obtain ⟨second', rest, rfl, hsecond, hnil⟩ := List.map_eq_cons_iff.1 hrest
      rw [List.map_nil, List.map_eq_nil_iff] at hnil
      exact ⟨first', second', hnil ▸ rfl, hfirst, hsecond⟩
  | _ => simp [Stmt.unnumbered] at h

/-- A counting loop without an initializer. -/
theorem eq_forLoop_none_of_unnumbered {b body : Stmt} {condition increment : Option Expr}
    (h : b.unnumbered = (Stmt.forLoop none condition increment body).unnumbered) :
    ∃ condition' increment' body', b = Stmt.forLoop none condition' increment' body' ∧
      condition'.map Expr.unnumbered = condition.map Expr.unnumbered ∧
      increment'.map Expr.unnumbered = increment.map Expr.unnumbered ∧
      body'.unnumbered = body.unnumbered := by
  obtain ⟨test, turn, rfl, htest, hturn⟩ := eq_whileLoop_of_unnumbered h
  have hcondition : ∃ condition' : Option Expr, test = condition'.getD (.literal (.bool true)) ∧
      condition'.map Expr.unnumbered = condition.map Expr.unnumbered := by
    cases condition with
    | none =>
        refine ⟨none, ?_, rfl⟩
        cases test <;> simp_all [Expr.unnumbered]
    | some condition => exact ⟨some test, rfl, congrArg some htest⟩
  obtain ⟨condition', rfl, hcondition⟩ := hcondition
  cases increment with
  | none => exact ⟨condition', none, turn, rfl, hcondition, rfl, hturn⟩
  | some increment =>
      obtain ⟨body', last, rfl, hbody, hlast⟩ := eq_block_of_unnumbered hturn
      cases last with
      | expression increment' =>
          simp only [Stmt.unnumbered, Stmt.expression.injEq] at hlast
          exact ⟨condition', some increment', body', rfl, hcondition, congrArg some hlast, hbody⟩
      | _ => simp [Stmt.unnumbered] at hlast

/-- What looks like a counting loop without its numbers is one. -/
theorem eq_forLoop_of_unnumbered {b body : Stmt} {initializer : Option Stmt}
    {condition increment : Option Expr}
    (h : b.unnumbered = (Stmt.forLoop initializer condition increment body).unnumbered) :
    ∃ initializer' condition' increment' body',
      b = Stmt.forLoop initializer' condition' increment' body' ∧
      initializer'.map Stmt.unnumbered = initializer.map Stmt.unnumbered ∧
      condition'.map Expr.unnumbered = condition.map Expr.unnumbered ∧
      increment'.map Expr.unnumbered = increment.map Expr.unnumbered ∧
      body'.unnumbered = body.unnumbered := by
  cases initializer with
  | none =>
      obtain ⟨condition', increment', body', rfl, hparts⟩ := eq_forLoop_none_of_unnumbered h
      exact ⟨none, condition', increment', body', rfl, rfl, hparts⟩
  | some initializer =>
      obtain ⟨initializer', loop, rfl, hinitializer, hloop⟩ := eq_block_of_unnumbered h
      obtain ⟨condition', increment', body', rfl, hparts⟩ := eq_forLoop_none_of_unnumbered hloop
      exact ⟨some initializer', condition', increment', body', rfl, congrArg some hinitializer,
        hparts⟩

theorem blind_statement (h : within.Unnumbered) (isOpen : Bool) :
    Blind (Statement within isOpen) Stmt.unnumbered := by
  intro tokens a b ha hview
  cases ha with
  | expression hvalue =>
      obtain ⟨value', rfl, hvalue'⟩ := blind_expression h hvalue hview
      exact .expression hvalue'
  | print hkeyword hvalue =>
      cases b with
      | print value =>
          simp only [Stmt.unnumbered, Stmt.print.injEq] at hview
          exact .print hkeyword (blind_terminated h _ _ _ hvalue hview)
      | _ => simp [Stmt.unnumbered] at hview
  | returnValue hkeyword hvalue hsemicolon =>
      cases b with
      | returnValue keyword value =>
          simp only [Stmt.unnumbered, Stmt.returnValue.injEq] at hview
          obtain ⟨rfl, hview⟩ := hview
          exact .returnValue hkeyword (blind_perhaps h _ _ _ hvalue hview) hsemicolon
      | _ => simp [Stmt.unnumbered] at hview
  | block hopening hbody =>
      cases b with
      | block body =>
          simp only [Stmt.unnumbered, Stmt.block.injEq] at hview
          exact .block hopening (blind_body h _ _ _ hbody hview)
      | _ => simp [Stmt.unnumbered] at hview
  | ifThen hkeyword hopening hcondition hclosing hthen =>
      obtain ⟨condition', thenBranch', elseBranch', rfl, hcondition', hthen', helse⟩ :=
        eq_conditional_of_unnumbered hview
      rw [Option.map_none, Option.map_eq_none_iff] at helse
      subst helse
      exact .ifThen hkeyword hopening (h.expression _ _ _ hcondition hcondition') hclosing
        (h.statement _ _ _ _ hthen hthen')
  | ifThenElse hkeyword hopening hcondition hclosing hthen hword hbranch =>
      obtain ⟨condition', thenBranch', elseBranch', rfl, hcondition', hthen', helse⟩ :=
        eq_conditional_of_unnumbered hview
      obtain ⟨branch', rfl, hbranch'⟩ := Option.map_eq_some_iff.1 helse
      exact .ifThenElse hkeyword hopening (h.expression _ _ _ hcondition hcondition') hclosing
        (h.statement _ _ _ _ hthen hthen') hword (h.statement _ _ _ _ hbranch hbranch')
  | whileLoop hkeyword hopening hcondition hclosing hbody =>
      obtain ⟨condition', body', rfl, hcondition', hbody'⟩ := eq_whileLoop_of_unnumbered hview
      exact .whileLoop hkeyword hopening (h.expression _ _ _ hcondition hcondition') hclosing
        (h.statement _ _ _ _ hbody hbody')
  | forLoop hkeyword hopening hinitializer hcondition hsemicolon hincrement hclosing hbody =>
      obtain ⟨initializer', condition', increment', body', rfl, hinitializer', hcondition',
        hincrement', hbody'⟩ := eq_forLoop_of_unnumbered hview
      exact .forLoop hkeyword hopening (blind_initializer h _ _ _ hinitializer hinitializer')
        (blind_perhaps h _ _ _ hcondition hcondition') hsemicolon
        (blind_perhaps h _ _ _ hincrement hincrement') hclosing
        (h.statement _ _ _ _ hbody hbody')

theorem unnumbered_phrases (n : Nat) : (phrases n).Unnumbered := by
  induction n with
  | zero =>
      exact {
        expression := fun _ _ _ hderives => hderives.elim
        operand := fun _ _ _ hderives => hderives.elim
        statement := fun _ _ _ _ hderives => hderives.elim
        body := fun _ _ _ hderives => hderives.elim }
  | succ n ih =>
      exact {
        expression := blind_assignment ih
        operand := blind_unary ih
        statement := blind_statement ih
        body := blind_body ih }

end Grammar

/-- The programs that a list of tokens stands for are given up to the numbers of occurrences. -/
theorem Program.Derives.renumber {tokens : List Token} {program program' : Program}
    (h : Program.Derives tokens program) (heq : program'.unnumbered = program.unnumbered) :
    Program.Derives tokens program' :=
  Grammar.blind_declarations (Grammar.unnumbered_phrases nestingLimit) _ _ _ h heq

end LoxLang
