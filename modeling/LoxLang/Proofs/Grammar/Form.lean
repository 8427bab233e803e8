import LoxLang.Proofs.Grammar.Phrase
import LoxLang.Proofs.Scope.Form

/-!
# Derived trees are well-formed

A tree that genuine tokens derive is formed from genuine tokens.  The statements follow the grammar
phrase by phrase; since a phrase is put together from shorter ones, its tree is from formed trees.
-/

namespace LoxLang

namespace Grammar

variable {genuine : Token → Prop} {within : Phrases} {tokens : List Token}

/-- All tokens of a list are genuine. -/
abbrev Genuine (genuine : Token → Prop) (tokens : List Token) : Prop :=
  ∀ token ∈ tokens, genuine token

theorem Genuine.left {first second : List Token} (h : Genuine genuine (first ++ second)) :
    Genuine genuine first :=
  fun token htoken => h token (List.mem_append_left _ htoken)

theorem Genuine.right {first second : List Token} (h : Genuine genuine (first ++ second)) :
    Genuine genuine second :=
  fun token htoken => h token (List.mem_append_right _ htoken)

theorem Genuine.head {token : Token} (h : Genuine genuine (token :: tokens)) : genuine token :=
  h token List.mem_cons_self

theorem Genuine.tail {token : Token} (h : Genuine genuine (token :: tokens)) :
    Genuine genuine tokens :=
  fun other hother => h other (List.mem_cons_of_mem _ hother)

/-- What stands inside a nesting derives formed trees. -/
structure Phrases.Forms (within : Phrases) (genuine : Token → Prop) : Prop where
  expression : ∀ {tokens : List Token} {a : Expr}, within.expression tokens a →
    Genuine genuine tokens → a.Formed genuine
  operand : ∀ {tokens : List Token} {a : Expr}, within.operand tokens a →
    Genuine genuine tokens → a.Formed genuine
  statement : ∀ {isOpen : Bool} {tokens : List Token} {a : Stmt},
    within.statement isOpen tokens a → Genuine genuine tokens →
      a.Formed genuine ∧ a.declared? = Option.none
  body : ∀ {tokens : List Token} {a : List Stmt}, within.body tokens a →
    Genuine genuine tokens → ∀ statement ∈ a, statement.Formed genuine

/-! ## Lists of phrases -/

theorem Repeated.forall {α : Type} {item : List Token → α → Prop} {post : α → Prop} {as : List α}
    (h : Repeated item tokens as)
    (hitem : ∀ {tokens : List Token} {a : α}, item tokens a → Genuine genuine tokens → post a)
    (hgenuine : Genuine genuine tokens) : ∀ a ∈ as, post a := by
  induction h with
  | nil => exact fun a ha => absurd ha List.not_mem_nil
  | cons hfirst _ ih =>
      exact List.forall_mem_cons.2 ⟨hitem hfirst hgenuine.left, ih hgenuine.right⟩

theorem Separated.forall {α : Type} {item : List Token → α → Prop} {post : α → Prop} {as : List α}
    (h : Separated item tokens as)
    (hitem : ∀ {tokens : List Token} {a : α}, item tokens a → Genuine genuine tokens → post a)
    (hgenuine : Genuine genuine tokens) : ∀ a ∈ as, post a := by
  induction h with
  | one hfirst => exact List.forall_mem_singleton.2 (hitem hfirst hgenuine)
  | more hfirst _ _ ih =>
      exact List.forall_mem_cons.2 ⟨hitem hfirst hgenuine.left, ih hgenuine.right.tail⟩

theorem Listed.forall {α : Type} {item : List Token → α → Prop} {post : α → Prop} {as : List α}
    (h : Listed item tokens as)
    (hitem : ∀ {tokens : List Token} {a : α}, item tokens a → Genuine genuine tokens → post a)
    (hgenuine : Genuine genuine tokens) : ∀ a ∈ as, post a := by
  rcases h with ⟨-, rfl⟩ | h
  · exact fun a ha => absurd ha List.not_mem_nil
  · exact h.forall hitem hgenuine

/-! ## Expressions -/

/-- All operators are binary ones but the logical ones, which may do without their right operand. -/
theorem Tier.kinds_subset {tier : Tier} (hor : tier ≠ .disjunction) (hand : tier ≠ .conjunction) :
    tier.kinds ⊆ Kind.binaryOperators := by
  cases tier with
  | disjunction => exact absurd rfl hor
  | conjunction => exact absurd rfl hand
  | _ => decide

theorem Tier.spells_node {tier : Tier} {operator : Token} (h : operator.kind ∈ tier.kinds)
    (left right : Expr) : (tier.node operator left right).Spells genuine := by
  cases tier with
  | disjunction => trivial
  | conjunction => trivial
  | _ => refine Tier.kinds_subset ?_ ?_ h <;> nofun

theorem Tier.formed_node {tier : Tier} {operator : Token} (h : operator.kind ∈ tier.kinds)
    {left right : Expr} (hleft : left.Formed genuine) (hright : right.Formed genuine) :
    (tier.node operator left right).Formed genuine := by
  have hspells : (tier.node operator left right).Spells genuine := spells_node h left right
  have hoperands : (tier.node operator left right).operands = [left, right] := by
    cases tier <;> rfl
  exact .mk hspells (by simp [hoperands, hleft, hright])

theorem Operations.formed {tier : Tier} {derives : List Token → Expr → Prop} {left result : Expr}
    (h : Operations tier derives left tokens result)
    (hderives : ∀ {tokens : List Token} {a : Expr}, derives tokens a → Genuine genuine tokens →
      a.Formed genuine)
    (hleft : left.Formed genuine) (hgenuine : Genuine genuine tokens) :
    result.Formed genuine := by
  induction h with
  | done => exact hleft
  | more hkind hright _ ih =>
      exact ih (Tier.formed_node hkind hleft (hderives hright hgenuine.tail.left))
        hgenuine.tail.right

theorem Primary.formed (hwithin : within.Forms genuine) {a : Expr} (h : Primary within tokens a)
    (hgenuine : Genuine genuine tokens) : a.Formed genuine := by
  cases h with
  | constant _ => exact .mk trivial (by simp [Expr.operands])
  | thisRef hword => exact .mk ⟨hword, hgenuine.head⟩ (by simp [Expr.operands])
  | name hname => exact .mk ⟨hname, hgenuine.head⟩ (by simp [Expr.operands])
  | superRef hword _ _ => exact .mk ⟨hword, hgenuine.head⟩ (by simp [Expr.operands])
  | grouping _ hexpression _ =>
      have hinner := hwithin.expression hexpression hgenuine.tail.left
      exact .mk trivial (by simpa [Expr.operands] using hinner)

theorem Selections.formed (hwithin : within.Forms genuine) {subject result : Expr}
    (h : Selections within subject tokens result) (hsubject : subject.Formed genuine)
    (hgenuine : Genuine genuine tokens) : result.Formed genuine := by
  induction h with
  | done => exact hsubject
  | call _ hlist _ _ _ ih =>
      have harguments := hlist.forall hwithin.expression hgenuine.tail.left
      refine ih (.mk trivial ?_) hgenuine.tail.right.tail
      exact List.forall_mem_cons.2 ⟨hsubject, harguments⟩
  | get _ _ _ ih =>
      exact ih (.mk trivial (by simpa [Expr.operands] using hsubject)) hgenuine.tail.tail

theorem Call.formed (hwithin : within.Forms genuine) {a : Expr} (h : Call within tokens a)
    (hgenuine : Genuine genuine tokens) : a.Formed genuine := by
  cases h with
  | mk hprimary hselections =>
      exact hselections.formed hwithin (hprimary.formed hwithin hgenuine.left) hgenuine.right

theorem Unary.formed (hwithin : within.Forms genuine) {a : Expr} (h : Unary within tokens a)
    (hgenuine : Genuine genuine tokens) : a.Formed genuine := by
  cases h with
  | call hcall => exact hcall.formed hwithin hgenuine
  | @operator operator _ operand hsymbol hoperand =>
      have hinner := hwithin.operand hoperand hgenuine.tail
      have hspells : (Expr.unary operator operand).Spells genuine := by
        simpa [Expr.Spells, Kind.unaryOperators, Token.isSymbol] using hsymbol
      exact .mk hspells (by simpa [Expr.operands] using hinner)

theorem Layered.formed (hwithin : within.Forms genuine) {tiers : List Tier} {a : Expr}
    (h : Layered within tiers tokens a) (hgenuine : Genuine genuine tokens) :
    a.Formed genuine := by
  induction tiers generalizing tokens a with
  | nil => exact Unary.formed hwithin h hgenuine
  | cons tier tighter ih =>
      cases h with
      | mk hfirst hoperations =>
          exact hoperations.formed ih (ih hfirst hgenuine.left) hgenuine.right

theorem Assignment.formed (hwithin : within.Forms genuine) {a : Expr}
    (h : Assignment within tokens a) (hgenuine : Genuine genuine tokens) : a.Formed genuine := by
  cases h with
  | plain hplain => exact Layered.formed hwithin hplain hgenuine
  | toVariable hname _ hvalue =>
      have hinner := hwithin.expression hvalue hgenuine.tail.tail
      exact .mk ⟨hname, hgenuine.head⟩ (by simpa [Expr.operands] using hinner)
  | toProperty hcall _ _ _ hvalue =>
      have hobject := hcall.formed hwithin hgenuine.left
      have hinner := hwithin.expression hvalue hgenuine.right.tail.tail.tail
      exact .mk trivial (by simp [Expr.operands, hobject, hinner])

/-! ## Declarations -/

theorem Function.formed (hwithin : within.Forms genuine) {a : FunctionDecl}
    (h : Function within tokens a) (hgenuine : Genuine genuine tokens) :
    a.name.Names genuine ∧ a.Spells genuine ∧
      ∀ statement ∈ a.body, statement.Formed genuine := by
  cases h with
  | mk hname _ hparams _ _ _ hbody =>
      refine ⟨⟨hname, hgenuine.head⟩, ?_, hwithin.body hbody hgenuine.tail.tail.right.tail.tail⟩
      refine hparams.forall ?_ hgenuine.tail.tail.left
      intro tokens param hparam hgenuine
      cases hparam with
      | mk hparam => exact ⟨hparam, hgenuine.head⟩

theorem Variable.formed (hwithin : within.Forms genuine) {a : Stmt} (h : Variable within tokens a)
    (hgenuine : Genuine genuine tokens) : a.Formed genuine := by
  cases h with
  | plain hname _ =>
      exact .mk ⟨hname, hgenuine.head⟩ (by simp [Stmt.expressions]) (by simp [Stmt.branches])
        (by simp [Stmt.branches]) (by simp [Stmt.enclosed])
  | initialized hname _ hvalue _ =>
      have hinner := hwithin.expression hvalue hgenuine.tail.tail.left
      exact .mk ⟨hname, hgenuine.head⟩ (by simpa [Stmt.expressions] using hinner)
        (by simp [Stmt.branches]) (by simp [Stmt.branches]) (by simp [Stmt.enclosed])

theorem Terminated.formed (hwithin : within.Forms genuine) {a : Expr}
    (h : Terminated within tokens a) (hgenuine : Genuine genuine tokens) : a.Formed genuine := by
  cases h with
  | mk hvalue _ => exact hwithin.expression hvalue hgenuine.left

theorem Perhaps.formed (hwithin : within.Forms genuine) {a : Option Expr}
    (h : Perhaps within tokens a) (hgenuine : Genuine genuine tokens) :
    ∀ value ∈ a, value.Formed genuine := by
  cases h with
  | none => exact nofun
  | some hvalue =>
      intro value hmem
      obtain rfl := Option.mem_some.1 hmem
      exact hwithin.expression hvalue hgenuine

/-- A statement that consists of one expression. -/
theorem formed_expression {value : Expr} (h : value.Formed genuine) :
    (Stmt.expression value).Formed genuine :=
  .mk trivial (by simpa [Stmt.expressions] using h) (by simp [Stmt.branches])
    (by simp [Stmt.branches]) (by simp [Stmt.enclosed])

theorem Initializer.formed (hwithin : within.Forms genuine) {a : Option Stmt}
    (h : Initializer within tokens a) (hgenuine : Genuine genuine tokens) :
    ∀ statement ∈ a, statement.Formed genuine := by
  cases h with
  | none _ => exact nofun
  | varDecl _ hvar =>
      intro statement hmem
      obtain rfl := Option.mem_some.1 hmem
      exact hvar.formed hwithin hgenuine.tail
  | expression hvalue =>
      intro statement hmem
      obtain rfl := Option.mem_some.1 hmem
      exact formed_expression (hvalue.formed hwithin hgenuine)

theorem Declaration.formed (hwithin : within.Forms genuine) {a : Stmt}
    (h : Declaration within tokens a) (hgenuine : Genuine genuine tokens) :
    a.Formed genuine := by
  cases h with
  | classDecl _ hname hinheritance _ hmethods _ =>
      have hparts := hmethods.forall (Function.formed hwithin) hgenuine.tail.tail.right.tail.left
      refine .mk
        ⟨⟨hname, hgenuine.tail.head⟩, ?_, fun method hmethod => (hparts method hmethod).2.1⟩
        (by simp [Stmt.expressions]) (by simp [Stmt.branches]) (by simp [Stmt.branches]) ?_
      · cases hinheritance with
        | none => exact nofun
        | some _ hname' =>
            intro occurrence hmem
            obtain rfl := Option.mem_some.1 hmem
            exact ⟨hname', hgenuine.tail.tail.left.tail.head⟩
      · intro inner hinner
        obtain ⟨method, hmethod, hbody⟩ := List.mem_flatMap.1 hinner
        exact (hparts method hmethod).2.2 inner hbody
  | function _ hfunction =>
      obtain ⟨hname, hspells, hbody⟩ := hfunction.formed hwithin hgenuine.tail
      exact .mk ⟨hname, hspells⟩ (by simp [Stmt.expressions]) (by simp [Stmt.branches])
        (by simp [Stmt.branches]) hbody
  | varDecl _ hvar => exact hvar.formed hwithin hgenuine.tail
  | statement hstatement => exact (hwithin.statement hstatement hgenuine).1

theorem Body.formed (hwithin : within.Forms genuine) {a : List Stmt} (h : Body within tokens a)
    (hgenuine : Genuine genuine tokens) : ∀ statement ∈ a, statement.Formed genuine := by
  cases h with
  | mk hbody _ => exact hbody.forall (Declaration.formed hwithin) hgenuine.left

/-! ## Statements -/

theorem formed_block {body : List Stmt} (h : ∀ statement ∈ body, statement.Formed genuine) :
    (Stmt.block body).Formed genuine :=
  .mk trivial (by simp [Stmt.expressions]) (by simp [Stmt.branches]) (by simp [Stmt.branches]) h

theorem formed_whileLoop {condition : Expr} {body : Stmt} (hcondition : condition.Formed genuine)
    (hbody : body.Formed genuine) (hdeclared : body.declared? = none) :
    (Stmt.whileLoop condition body).Formed genuine :=
  .mk trivial (by simpa [Stmt.expressions] using hcondition)
    (by simpa [Stmt.branches] using hdeclared) (by simpa [Stmt.branches] using hbody)
    (by simp [Stmt.enclosed])

theorem formed_conditional {condition : Expr} {thenBranch : Stmt} {elseBranch : Option Stmt}
    (hcondition : condition.Formed genuine)
    (hthen : thenBranch.Formed genuine ∧ thenBranch.declared? = none)
    (helse : ∀ branch ∈ elseBranch, branch.Formed genuine ∧ branch.declared? = none) :
    (Stmt.conditional condition thenBranch elseBranch).Formed genuine := by
  refine .mk trivial (by simpa [Stmt.expressions] using hcondition) ?_ ?_ (by simp [Stmt.enclosed])
  · refine List.forall_mem_cons.2 ⟨hthen.2, fun branch hbranch => ?_⟩
    exact (helse branch (Option.mem_toList.1 hbranch)).2
  · refine List.forall_mem_cons.2 ⟨hthen.1, fun branch hbranch => ?_⟩
    exact (helse branch (Option.mem_toList.1 hbranch)).1

theorem formed_forLoop {initializer : Option Stmt} {condition increment : Option Expr} {body : Stmt}
    (hinitializer : ∀ statement ∈ initializer, statement.Formed genuine)
    (hcondition : ∀ value ∈ condition, value.Formed genuine)
    (hincrement : ∀ value ∈ increment, value.Formed genuine)
    (hbody : body.Formed genuine ∧ body.declared? = none) :
    (Stmt.forLoop initializer condition increment body).Formed genuine ∧
      (Stmt.forLoop initializer condition increment body).declared? = none := by
  have htest : (condition.getD (.literal (.bool true))).Formed genuine := by
    cases condition with
    | none => exact .mk trivial (by simp [Expr.operands])
    | some value => exact hcondition value rfl
  have hloop : (Stmt.forLoop none condition increment body).Formed genuine := by
    cases increment with
    | none => exact formed_whileLoop htest hbody.1 hbody.2
    | some value =>
        refine formed_whileLoop htest (formed_block ?_) rfl
        simp [hbody.1, formed_expression (hincrement value rfl)]
  cases initializer with
  | none => exact ⟨hloop, rfl⟩
  | some statement =>
      refine ⟨formed_block ?_, rfl⟩
      exact List.forall_mem_cons.2 ⟨hinitializer statement rfl, List.forall_mem_singleton.2 hloop⟩

theorem Statement.formed (hwithin : within.Forms genuine) {isOpen : Bool} {a : Stmt}
    (h : Statement within isOpen tokens a) (hgenuine : Genuine genuine tokens) :
    a.Formed genuine ∧ a.declared? = none := by
  cases h with
  | expression hvalue => exact ⟨formed_expression (hvalue.formed hwithin hgenuine), rfl⟩
  | print _ hvalue =>
      have hinner := hvalue.formed hwithin hgenuine.tail
      exact ⟨.mk trivial (by simpa [Stmt.expressions] using hinner) (by simp [Stmt.branches])
        (by simp [Stmt.branches]) (by simp [Stmt.enclosed]), rfl⟩
  | returnValue _ hvalue _ =>
      have hinner := hvalue.formed hwithin hgenuine.tail.left
      exact ⟨.mk trivial (by simpa [Stmt.expressions] using hinner) (by simp [Stmt.branches])
        (by simp [Stmt.branches]) (by simp [Stmt.enclosed]), rfl⟩
  | block _ hbody => exact ⟨formed_block (hbody.formed hwithin hgenuine.tail), rfl⟩
  | ifThen _ _ hcondition _ hthen =>
      have hrest := hgenuine.tail.tail
      exact ⟨formed_conditional (hwithin.expression hcondition hrest.left)
        (hwithin.statement hthen hrest.right.tail) nofun, rfl⟩
  | ifThenElse _ _ hcondition _ hthen _ helse =>
      have hrest := hgenuine.tail.tail
      refine ⟨formed_conditional (hwithin.expression hcondition hrest.left)
        (hwithin.statement hthen hrest.right.tail.left) ?_, rfl⟩
      intro branch hmem
      obtain rfl := Option.mem_some.1 hmem
      exact hwithin.statement helse hrest.right.tail.right.tail
  | whileLoop _ _ hcondition _ hbody =>
      have hrest := hgenuine.tail.tail
      obtain ⟨hformed, hdeclared⟩ := hwithin.statement hbody hrest.right.tail
      exact ⟨formed_whileLoop (hwithin.expression hcondition hrest.left) hformed hdeclared, rfl⟩
  | forLoop _ _ hinitializer hcondition _ hincrement _ hbody =>
      have hrest := hgenuine.tail.tail
      have hrest' := hrest.right.right.tail
      exact formed_forLoop (hinitializer.formed hwithin hrest.left)
        (hcondition.formed hwithin hrest.right.left) (hincrement.formed hwithin hrest'.left)
        (hwithin.statement hbody hrest'.right.tail)

/-! ## Programs -/

theorem forms_phrases (genuine : Token → Prop) (n : Nat) : (phrases n).Forms genuine := by
  induction n with
  | zero =>
      exact {
        expression := fun hderives => hderives.elim
        operand := fun hderives => hderives.elim
        statement := fun hderives => hderives.elim
        body := fun hderives => hderives.elim }
  | succ n ih =>
      exact {
        expression := Assignment.formed ih
        operand := Unary.formed ih
        statement := Statement.formed ih
        body := Body.formed ih }

end Grammar

/-- The programs that genuine tokens stand for are formed from them. -/
theorem Program.Derives.formed {genuine : Token → Prop} {tokens : List Token} {program : Program}
    (h : Program.Derives tokens program) (hgenuine : ∀ token ∈ tokens, genuine token) :
    program.Formed genuine :=
  h.forall (Grammar.Declaration.formed (Grammar.forms_phrases genuine nestingLimit)) hgenuine

end LoxLang
