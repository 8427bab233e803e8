import LoxLang.Proofs.Grammar.Acceptance

/-!
# One expression in three settings

An expression can stand alone, in front of a semicolon or behind the word `print` too.  Whatever is
read as an expression behind `print` is also read as that expression in the other two settings
(`Program.reads_of_print`).  Inside a statement one nesting is open already, so alone an expression
may be deeper (`Grammar.phrases_le`).
-/

namespace LoxLang

namespace Grammar

/-! ## More nestings -/

theorem Separated.mono {α : Type} {item item' : List Token → α → Prop} {tokens : List Token}
    {as : List α} (hitem : ∀ {tokens a}, item tokens a → item' tokens a)
    (h : Separated item tokens as) : Separated item' tokens as := by
  induction h with
  | one hfirst => exact .one (hitem hfirst)
  | more hfirst hcomma _ ih => exact .more (hitem hfirst) hcomma ih

theorem Listed.mono {α : Type} {item item' : List Token → α → Prop} {tokens : List Token}
    {as : List α} (hitem : ∀ {tokens a}, item tokens a → item' tokens a)
    (h : Listed item tokens as) : Listed item' tokens as :=
  h.imp_right (Separated.mono hitem)

/-- All expressions that stand inside the nestings of `first` stand inside those of `second`. -/
structure Phrases.Le (first second : Phrases) : Prop where
  expression : ∀ {tokens a}, first.expression tokens a → second.expression tokens a
  operand : ∀ {tokens a}, first.operand tokens a → second.operand tokens a

section

variable {first second : Phrases} {tokens : List Token} {a : Expr}

theorem Primary.mono (hle : first.Le second) (h : Primary first tokens a) :
    Primary second tokens a := by
  cases h with
  | constant hconstant => exact .constant hconstant
  | thisRef hkeyword => exact .thisRef hkeyword
  | name hname => exact .name hname
  | superRef hkeyword hdot hmethod => exact .superRef hkeyword hdot hmethod
  | grouping hopening hexpression hclosing =>
      exact .grouping hopening (hle.expression hexpression) hclosing

theorem Selections.mono (hle : first.Le second) {subject : Expr}
    (h : Selections first subject tokens a) : Selections second subject tokens a := by
  induction h with
  | done => exact .done
  | call hopening harguments hlength hclosing _ ih =>
      exact .call hopening (harguments.mono hle.expression) hlength hclosing ih
  | get hdot hname _ ih => exact .get hdot hname ih

theorem Call.mono (hle : first.Le second) (h : Call first tokens a) : Call second tokens a := by
  cases h with
  | mk hprimary hselections => exact .mk (hprimary.mono hle) (hselections.mono hle)

theorem Unary.mono (hle : first.Le second) (h : Unary first tokens a) : Unary second tokens a := by
  cases h with
  | call hcall => exact .call (hcall.mono hle)
  | operator hoperator hoperand => exact .operator hoperator (hle.operand hoperand)

theorem Operations.mono {tier : Tier} {operand operand' : List Token → Expr → Prop} {left : Expr}
    (hoperand : ∀ {tokens a}, operand tokens a → operand' tokens a)
    (h : Operations tier operand left tokens a) : Operations tier operand' left tokens a := by
  induction h with
  | done => exact .done
  | more hoperator hright _ ih => exact .more hoperator (hoperand hright) ih

theorem Layered.mono (hle : first.Le second) {tiers : List Tier}
    (h : Layered first tiers tokens a) : Layered second tiers tokens a := by
  induction tiers generalizing tokens a with
  | nil => exact Unary.mono hle h
  | cons tier tighter ih =>
      cases h with
      | mk hfirst hrest => exact .mk (ih hfirst) (hrest.mono ih)

theorem Assignment.mono (hle : first.Le second) (h : Assignment first tokens a) :
    Assignment second tokens a := by
  cases h with
  | plain hlayered => exact .plain (Layered.mono hle hlayered)
  | toVariable hname hequal hvalue => exact .toVariable hname hequal (hle.expression hvalue)
  | toProperty hobject hdot hname hequal hvalue =>
      exact .toProperty (hobject.mono hle) hdot hname hequal (hle.expression hvalue)

end

theorem Phrases.Le.nested {first second : Phrases} (h : first.Le second) :
    first.nested.Le second.nested where
  expression := Assignment.mono h
  operand := Unary.mono h

/-- With one nesting more all is derived that was derived without it. -/
theorem phrases_le (n : Nat) : (phrases n).Le (phrases (n + 1)) := by
  induction n with
  | zero => exact ⟨False.elim, False.elim⟩
  | succ n ih => exact ih.nested

/-! ## The three settings -/

variable {tokens : List Token} {value : Expr} {endLine : Nat} {nextId : NodeId}

/-- With `n` nestings left the rule for expressions reads what `n` nestings derive. -/
theorem complete_expressions (n : Nat) : (expressions n).Complete (phrases n) := by
  rw [← statements_toInner]
  exact (complete_statements n).toComplete

theorem reads_wholeExpression (h : (phrases nestingLimit).expression tokens value) :
    Reading.Reads wholeExpression Expr.unnumbered tokens [] value := by
  have hends : ∀ cursor : Cursor,
      Reading.exec Reading.atEnd cursor = (.ok (List.isEmpty cursor.rest), cursor) :=
    fun cursor => Reading.exec_atEnd cursor
  refine .bind_last ((complete_expressions nestingLimit).expression h rfl) fun found hfound => ?_
  refine .bind_check hends ?_
  exact .pure hfound

/-- A counting loop is a block or a loop. -/
theorem forLoop_ne_print (initializer : Option Stmt) (condition increment : Option Expr)
    (body : Stmt) (value : Expr) :
    Stmt.forLoop initializer condition increment body ≠ .print value := by
  cases initializer <;> exact nofun

/-- Behind the first word of a `print` statement there is an expression with a semicolon. -/
theorem Declaration.of_print {n : Nat} {all : List Token}
    (h : Declaration (phrases (n + 1)) all (.print value)) :
    ∃ keyword tokens, all = keyword :: tokens ∧ Terminated (phrases n) tokens value := by
  generalize hprint : Stmt.print value = printed at h
  cases h with
  | classDecl _ _ _ _ _ _ => cases hprint
  | function _ _ => cases hprint
  | varDecl _ hvariable => cases hvariable <;> cases hprint
  | @statement _ _ _ hstatement =>
      replace hstatement : Statement (phrases n) _ _ printed := hstatement
      cases hstatement with
      | print _ hvalue =>
          cases hprint
          exact ⟨_, _, rfl, hvalue⟩
      | forLoop _ _ _ _ _ _ _ _ => exact absurd hprint.symm (forLoop_ne_print _ _ _ _ _)
      | _ => cases hprint

end Grammar

open Grammar

/-- A program that is one expression but for numbers is one expression. -/
theorem Program.eq_expression_of_unnumbered {program : Program}
    (h : program.unnumbered = Program.unnumbered [.expression value]) :
    ∃ stated, program = [.expression stated] ∧ stated.unnumbered = value.unnumbered := by
  rcases program with _ | ⟨statement, _ | ⟨second, rest⟩⟩
  · cases h
  · have hstatement : statement.unnumbered = .expression value.unnumbered := (List.cons.inj h).1
    cases statement with
    | expression stated => exact ⟨stated, rfl, Stmt.expression.inj hstatement⟩
    | _ => simp [Stmt.unnumbered] at hstatement
  · cases (List.cons.inj h).2

/-- What is read as an expression behind `print` is read alone, and in front of a semicolon, as the
same expression but for the numbers of its occurrences. -/
theorem Program.reads_of_print {keyword semicolon : Token}
    (h : (Program.parse (keyword :: (tokens ++ [semicolon])) endLine nextId).result =
      .ok [.print value]) (line line' : Nat) (id id' : NodeId) :
    (∃ alone, (Expr.parse tokens line id).result = .ok alone ∧
      alone.unnumbered = value.unnumbered) ∧
    ∃ stated, (Program.parse (tokens ++ [semicolon]) line' id').result = .ok [.expression stated] ∧
      stated.unnumbered = value.unnumbered := by
  obtain ⟨hderives, -⟩ := Program.derives_of_parse_eq_ok h
  obtain ⟨n, hlimit⟩ : ∃ n, nestingLimit = n + 1 := ⟨255, rfl⟩
  rw [Program.Derives, hlimit] at hderives
  -- The statement takes up all tokens, and the last of them is its semicolon.
  obtain ⟨hexpression, hterminated⟩ : (phrases n).expression tokens value ∧
      Terminated (phrases n) (tokens ++ [semicolon]) value := by
    generalize hall : keyword :: (tokens ++ [semicolon]) = all at hderives
    cases hderives with
    | @cons first rest _ _ hdeclaration hrest =>
        cases hrest
        obtain ⟨word, behind, rfl, hterminated⟩ := Declaration.of_print hdeclaration
        rw [List.append_nil] at hall
        obtain rfl := (List.cons.inj hall).2
        refine ⟨?_, hterminated⟩
        generalize hboth : tokens ++ [semicolon] = both at hterminated
        cases hterminated with
        | mk hvalue _ =>
            obtain ⟨rfl, -⟩ := List.append_inj' hboth rfl
            exact hvalue
  constructor
  · have halone : (phrases nestingLimit).expression tokens value := by
      rw [hlimit]
      exact (phrases_le n).expression hexpression
    exact Parsed.result_eq_ok_of_reads (reads_wholeExpression halone)
  · have hstatement : Declaration (phrases (n + 1)) (tokens ++ [semicolon]) (.expression value) :=
      .statement (.expression hterminated)
    have hprogram : Program.Derives (tokens ++ [semicolon]) [.expression value] := by
      rw [Program.Derives, hlimit, ← List.append_nil (tokens ++ [semicolon])]
      exact .cons hstatement .nil
    have hreads : ∃ program,
        (Program.parse (tokens ++ [semicolon]) line' id').result = .ok program ∧
          Program.unnumbered program = Program.unnumbered [.expression value] :=
      Parsed.result_eq_ok_of_reads (reads_program hprogram)
    obtain ⟨program, hparse, hview⟩ := hreads
    obtain ⟨stated, rfl, hstated⟩ := Program.eq_expression_of_unnumbered hview
    exact ⟨stated, hparse, hstated⟩

end LoxLang
