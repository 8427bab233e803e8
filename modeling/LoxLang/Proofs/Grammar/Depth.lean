import LoxLang.Proofs.Grammar.Form
import LoxLang.Proofs.Grammar.Precedence
import LoxLang.Proofs.Tree.Height

/-!
# The depth of what is read

Each nesting that is opened makes a tree deeper by no more than a fixed number of nodes, so the
limit on nestings bounds the depth of every tree that is read.  It does not bound the height:
operators, calls and properties in a row open no nesting, and make a tree as high as they are many.
-/

namespace LoxLang

namespace Grammar

/-! ## One nesting -/

/-- By how much a tree is deeper than what stands inside its nestings: operands of all tiers in one
another, and the node that opens the nesting. -/
def depthOfNesting : Nat := tiers.length + 1

/-- What stands inside a nesting is at most so deep. -/
structure Phrases.Shallow (within : Phrases) (limit : Nat) : Prop where
  expression : ∀ {tokens : List Token} {a : Expr}, within.expression tokens a → a.depth ≤ limit
  operand : ∀ {tokens : List Token} {a : Expr}, within.operand tokens a → a.depth ≤ limit
  statement : ∀ {isOpen : Bool} {tokens : List Token} {a : Stmt},
    within.statement isOpen tokens a → a.depth ≤ limit
  body : ∀ {tokens : List Token} {a : List Stmt}, within.body tokens a →
    ∀ statement ∈ a, statement.depth ≤ limit

variable {within : Phrases} {limit : Nat} {tokens : List Token}

/-- No condition on tokens, for lists of phrases in which only the trees matter. -/
theorem genuine_of_any (tokens : List Token) : Genuine (fun _ => True) tokens :=
  fun _ _ => trivial

/-! ### Expressions -/

theorem Tier.depth_node (tier : Tier) (operator : Token) (left right : Expr) :
    (tier.node operator left right).depth = max left.depth (right.depth + 1) := by
  cases tier <;> rfl

/-- Operators in a row make a tree one node deeper than their operands, however many they are. -/
theorem Operations.depth_le {tier : Tier} {derives : List Token → Expr → Prop}
    {left result : Expr} (h : Operations tier derives left tokens result)
    (hderives : ∀ {tokens : List Token} {a : Expr}, derives tokens a → a.depth ≤ limit)
    (hleft : left.depth ≤ limit + 1) : result.depth ≤ limit + 1 := by
  induction h with
  | done => exact hleft
  | more _ hright _ ih =>
      apply ih
      rw [Tier.depth_node]
      exact max_le hleft (Nat.succ_le_succ (hderives hright))

theorem Primary.depth_le (hwithin : within.Shallow limit) {a : Expr} (h : Primary within tokens a) :
    a.depth ≤ limit + 1 := by
  cases h with
  | grouping _ hexpression _ => exact Nat.succ_le_succ (hwithin.expression hexpression)
  | _ => exact Nat.le_add_left 1 limit

/-- Calls and properties in a row make a tree no deeper than their arguments ask for. -/
theorem Selections.depth_le (hwithin : within.Shallow limit) {subject result : Expr}
    (h : Selections within subject tokens result) (hsubject : subject.depth ≤ limit + 1) :
    result.depth ≤ limit + 1 := by
  induction h with
  | done => exact hsubject
  | call _ hlist _ _ _ ih =>
      have harguments := hlist.forall (fun h _ => hwithin.expression h) (genuine_of_any _)
      exact ih (max_le hsubject (Nat.succ_le_succ (Expr.extentAll_le_iff.2 harguments)))
  | get _ _ _ ih => exact ih hsubject

theorem Call.depth_le (hwithin : within.Shallow limit) {a : Expr} (h : Call within tokens a) :
    a.depth ≤ limit + 1 := by
  cases h with
  | mk hprimary hselections => exact hselections.depth_le hwithin (hprimary.depth_le hwithin)

theorem Unary.depth_le (hwithin : within.Shallow limit) {a : Expr} (h : Unary within tokens a) :
    a.depth ≤ limit + 1 := by
  cases h with
  | call hcall => exact hcall.depth_le hwithin
  | operator _ hoperand => exact Nat.succ_le_succ (hwithin.operand hoperand)

/-- Each tier of operators may make a tree one node deeper. -/
theorem Layered.depth_le (hwithin : within.Shallow limit) {tiers : List Tier} {a : Expr}
    (h : Layered within tiers tokens a) : a.depth ≤ limit + 1 + tiers.length := by
  induction tiers generalizing tokens a with
  | nil => exact Unary.depth_le hwithin h
  | cons tier tighter ih =>
      cases h with
      | mk hfirst hoperations => exact hoperations.depth_le ih ((ih hfirst).trans (Nat.le_succ _))

theorem Assignment.depth_le (hwithin : within.Shallow limit) {a : Expr}
    (h : Assignment within tokens a) : a.depth ≤ limit + depthOfNesting := by
  have hmore : limit + 1 ≤ limit + depthOfNesting := Nat.add_le_add_left (by decide) limit
  cases h with
  | plain hplain =>
      have hdepth := Layered.depth_le hwithin hplain
      rwa [Nat.add_assoc, Nat.add_comm 1] at hdepth
  | toVariable _ _ hvalue =>
      exact (Nat.succ_le_succ (hwithin.expression hvalue)).trans hmore
  | toProperty hcall _ _ _ hvalue =>
      have hvalue := Nat.succ_le_succ (hwithin.expression hvalue)
      exact (max_le (hcall.depth_le hwithin) hvalue).trans hmore

/-! ### Declarations -/

theorem Function.depth_le (hwithin : within.Shallow limit) {a : FunctionDecl}
    (h : Function within tokens a) : Stmt.extentFunction 1 Expr.depth a ≤ limit + 1 := by
  cases h with
  | mk _ _ _ _ _ _ hbody =>
      exact Nat.succ_le_succ (Stmt.extentAll_le_iff.2 (hwithin.body hbody))

theorem Variable.depth_le (hwithin : within.Shallow limit) {a : Stmt}
    (h : Variable within tokens a) : a.depth ≤ limit + 1 := by
  cases h with
  | plain _ _ => exact Nat.le_add_left 1 limit
  | initialized _ _ hvalue _ => exact Nat.succ_le_succ (hwithin.expression hvalue)

theorem Terminated.depth_le (hwithin : within.Shallow limit) {a : Expr}
    (h : Terminated within tokens a) : a.depth ≤ limit := by
  cases h with
  | mk hvalue _ => exact hwithin.expression hvalue

theorem Perhaps.depth_le (hwithin : within.Shallow limit) {a : Option Expr}
    (h : Perhaps within tokens a) : a.elim 0 Expr.depth ≤ limit := by
  cases h with
  | none => exact Nat.zero_le _
  | some hvalue => exact hwithin.expression hvalue

theorem Initializer.depth_le (hwithin : within.Shallow limit) {a : Option Stmt}
    (h : Initializer within tokens a) : a.elim 0 Stmt.depth ≤ limit + 1 := by
  cases h with
  | none _ => exact Nat.zero_le _
  | varDecl _ hvariable => exact hvariable.depth_le hwithin
  | expression hvalue => exact Nat.succ_le_succ (hvalue.depth_le hwithin)

/-- A class adds a node to its methods, which each are a node themselves. -/
theorem Declaration.depth_le (hwithin : within.Shallow limit) {a : Stmt}
    (h : Declaration within tokens a) : a.depth ≤ limit + 2 := by
  cases h with
  | classDecl _ _ hinheritance _ hmethods _ =>
      have hdepths := hmethods.forall (fun h _ => Function.depth_le hwithin h) (genuine_of_any _)
      refine Nat.succ_le_succ (max_le ?_ (Stmt.extentMethods_le_iff.2 hdepths))
      cases hinheritance with
      | none => exact Nat.zero_le _
      | some _ _ => exact Nat.le_add_left 1 limit
  | function _ hfunction => exact Nat.succ_le_succ (hfunction.depth_le hwithin)
  | varDecl _ hvariable => exact (hvariable.depth_le hwithin).trans (Nat.le_succ _)
  | statement hstatement => exact (hwithin.statement hstatement).trans (Nat.le_add_right _ _)

theorem Body.depth_le (hwithin : within.Shallow limit) {a : List Stmt} (h : Body within tokens a) :
    ∀ statement ∈ a, statement.depth ≤ limit + 2 := by
  cases h with
  | mk hbody _ => exact hbody.forall (fun h _ => Declaration.depth_le hwithin h) (genuine_of_any _)

/-! ### Statements -/

/-- A counting loop is up to four nodes deeper than its parts: a block around the loop, the loop, a
block around its body and the increment, and the statement of the increment. -/
theorem depth_forLoop_le {initializer : Option Stmt} {condition increment : Option Expr}
    {body : Stmt} (hinitializer : initializer.elim 0 Stmt.depth ≤ limit + 1)
    (hcondition : condition.elim 0 Expr.depth ≤ limit)
    (hincrement : increment.elim 0 Expr.depth ≤ limit) (hbody : body.depth ≤ limit) :
    (Stmt.forLoop initializer condition increment body).depth ≤ limit + 4 := by
  have htest : (condition.getD (.literal (.bool true))).depth ≤ limit + 2 := by
    cases condition with
    | none => exact Nat.le_add_left 1 (limit + 1)
    | some value => exact hcondition.trans (Nat.le_add_right limit 2)
  have hloop : (Stmt.forLoop none condition increment body).depth ≤ limit + 3 := by
    cases increment with
    | none => exact Nat.succ_le_succ (max_le htest (hbody.trans (Nat.le_add_right limit 2)))
    | some value =>
        have hturn : Stmt.extentAll 1 Expr.depth [body, .expression value] ≤ limit + 1 := by
          have hvalue : (Stmt.expression value).depth ≤ limit + 1 := Nat.succ_le_succ hincrement
          rw [Stmt.extentAll_le_iff]
          exact List.forall_mem_cons.2
            ⟨hbody.trans (Nat.le_succ limit), List.forall_mem_singleton.2 hvalue⟩
        exact Nat.succ_le_succ (max_le htest (Nat.succ_le_succ hturn))
  cases initializer with
  | none => exact hloop.trans (Nat.le_succ _)
  | some statement =>
      have hboth : Stmt.extentAll 1 Expr.depth
          [statement, Stmt.forLoop none condition increment body] ≤ limit + 3 := by
        rw [Stmt.extentAll_le_iff]
        exact List.forall_mem_cons.2
          ⟨hinitializer.trans (Nat.le_add_right (limit + 1) 2), List.forall_mem_singleton.2 hloop⟩
      exact Nat.succ_le_succ hboth

theorem Statement.depth_le (hwithin : within.Shallow limit) {isOpen : Bool} {a : Stmt}
    (h : Statement within isOpen tokens a) : a.depth ≤ limit + 4 := by
  have hmore : limit + 1 ≤ limit + 4 := Nat.add_le_add_left (by decide) limit
  cases h with
  | expression hvalue => exact (Nat.succ_le_succ (hvalue.depth_le hwithin)).trans hmore
  | print _ hvalue => exact (Nat.succ_le_succ (hvalue.depth_le hwithin)).trans hmore
  | returnValue _ hvalue _ => exact (Nat.succ_le_succ (hvalue.depth_le hwithin)).trans hmore
  | block _ hbody =>
      have hstatements := Stmt.extentAll_le_iff.2 (hbody.depth_le hwithin)
      exact (Nat.succ_le_succ hstatements).trans (Nat.le_succ _)
  | ifThen _ _ hcondition _ hthen =>
      have hparts := max_le (hwithin.statement hthen) (Nat.zero_le limit)
      exact (Nat.succ_le_succ (max_le (hwithin.expression hcondition) hparts)).trans hmore
  | ifThenElse _ _ hcondition _ hthen _ helse =>
      have hparts := max_le (hwithin.statement hthen) (hwithin.statement helse)
      rw [Stmt.depth, Stmt.extent_conditional]
      exact (Nat.succ_le_succ (max_le (hwithin.expression hcondition) hparts)).trans hmore
  | whileLoop _ _ hcondition _ hbody =>
      have hparts := max_le (hwithin.expression hcondition) (hwithin.statement hbody)
      exact (Nat.succ_le_succ hparts).trans hmore
  | forLoop _ _ hinitializer hcondition _ hincrement _ hbody =>
      exact depth_forLoop_le (hinitializer.depth_le hwithin) (hcondition.depth_le hwithin)
        (hincrement.depth_le hwithin) (hwithin.statement hbody)

/-! ## All nestings -/

/-- With one nesting more a tree may be deeper by what one nesting adds. -/
theorem Phrases.Shallow.nested (h : within.Shallow limit) :
    within.nested.Shallow (limit + depthOfNesting) where
  expression hderives := Assignment.depth_le h hderives
  operand hderives := (Unary.depth_le h hderives).trans (Nat.add_le_add_left (by decide) limit)
  statement hderives :=
    (Statement.depth_le h hderives).trans (Nat.add_le_add_left (by decide) limit)
  body hderives statement hstatement :=
    (Body.depth_le h hderives statement hstatement).trans (Nat.add_le_add_left (by decide) limit)

theorem shallow_phrases (n : Nat) : (phrases n).Shallow (n * depthOfNesting) := by
  induction n with
  | zero =>
      exact {
        expression := fun hderives => hderives.elim
        operand := fun hderives => hderives.elim
        statement := fun hderives => hderives.elim
        body := fun hderives => hderives.elim }
  | succ n ih =>
      rw [Nat.succ_mul]
      exact ih.nested

end Grammar

open Grammar

/-- How deep a tree that is read may be: what all nestings add, and a declaration around them. -/
def depthLimit : Nat := nestingLimit * depthOfNesting + 2

variable {tokens : List Token} {endLine : Nat} {nextId : NodeId}

theorem Program.depth_le_of_parse {program : Program}
    (h : (Program.parse tokens endLine nextId).result = .ok program) :
    ∀ statement ∈ program, statement.depth ≤ depthLimit :=
  (derives_of_parse_eq_ok h).1.forall
    (fun hderives _ => Declaration.depth_le (shallow_phrases nestingLimit) hderives)
    (genuine_of_any tokens)

theorem Expr.derives_of_parse_eq_ok {expression : Expr}
    (h : (Expr.parse tokens endLine nextId).result = .ok expression) :
    (phrases nestingLimit).expression tokens expression := by
  obtain ⟨reached, hexec, hnoted, -⟩ := Parsed.exec_of_result_eq_ok h
  obtain ⟨hend, taken, hrest, hderives, -⟩ := ensures_wholeExpression.yields hexec hnoted
  rw [hend, List.append_nil] at hrest
  obtain rfl : taken = tokens := hrest.symm
  exact hderives

theorem Expr.depth_le_of_parse {expression : Expr}
    (h : (Expr.parse tokens endLine nextId).result = .ok expression) :
    expression.depth ≤ depthLimit :=
  ((shallow_phrases nestingLimit).expression (derives_of_parse_eq_ok h)).trans
    (Nat.le_add_right _ _)

/-- The depth of every tree that is read is bounded by the nestings that may be open at once; so is
its height, if its longest chain of first operands is taken into account. -/
theorem height_le_of_parse (tokens : List Token) (endLine : Nat) (nextId : NodeId) :
    (∀ program : Program, (Program.parse tokens endLine nextId).result = .ok program →
      ∀ statement ∈ program, statement.depth ≤ depthLimit ∧
        statement.height ≤ depthLimit * (statement.longestChain + 1)) ∧
    ∀ expression : Expr, (Expr.parse tokens endLine nextId).result = .ok expression →
      expression.depth ≤ depthLimit ∧
        expression.height ≤ depthLimit * (expression.longestChain + 1) := by
  constructor
  · intro program hparse statement hstatement
    have hdepth := Program.depth_le_of_parse hparse statement hstatement
    have hheight := statement.height_le (Nat.le_refl _)
    exact ⟨hdepth, hheight.trans (Nat.mul_le_mul_right _ hdepth)⟩
  · intro expression hparse
    have hdepth := Expr.depth_le_of_parse hparse
    have hheight := expression.height_le (Nat.le_refl _)
    exact ⟨hdepth, hheight.trans (Nat.mul_le_mul_right _ hdepth)⟩

/-- `f(-x).y` -/
def selectedProperty : List Token :=
  [.named "f" 1, ⟨.symbol .leftParen, "(", 1⟩, ⟨.symbol .minus, "-", 1⟩, .named "x" 1,
    ⟨.symbol .rightParen, ")", 1⟩, ⟨.symbol .dot, ".", 1⟩, .named "y" 1]

theorem height_le_of_parse_selectedProperty :
    let semicolon : Token := ⟨.symbol .semicolon, ";", 1⟩
    let call : Expr := .call (.variable ⟨0, .named "f" 1⟩) ⟨.symbol .rightParen, ")", 1⟩
      [.unary ⟨.symbol .minus, "-", 1⟩ (.variable ⟨1, .named "x" 1⟩)]
    let expression : Expr := .get call (.named "y" 1)
    (Expr.parse selectedProperty 1 0).result = .ok expression ∧
      (Program.parse (selectedProperty ++ [semicolon]) 1 0).result = .ok [.expression expression] ∧
      (expression.depth ≤ depthLimit ∧
        expression.height ≤ depthLimit * (expression.longestChain + 1)) ∧
      (Stmt.expression expression).depth ≤ depthLimit ∧
        (Stmt.expression expression).height ≤
          depthLimit * ((Stmt.expression expression).longestChain + 1) := by
  intro semicolon call expression
  have hexpression : (Expr.parse selectedProperty 1 0).result = .ok expression := by rfl
  have hprogram : (Program.parse (selectedProperty ++ [semicolon]) 1 0).result =
      .ok [.expression expression] := by rfl
  obtain ⟨hprograms, -⟩ := height_le_of_parse (selectedProperty ++ [semicolon]) 1 0
  obtain ⟨-, hexpressions⟩ := height_le_of_parse selectedProperty 1 0
  exact ⟨hexpression, hprogram, hexpressions _ hexpression,
    hprograms _ hprogram _ List.mem_cons_self⟩

/-! ## Chains

Operators of one tier in a row open no nesting. -/

/-- `x + x + ⋯ + x`, with so many operators. -/
def repeatedSum : Nat → List Token
  | 0 => [.named "x" 1]
  | n + 1 => repeatedSum n ++ [⟨.symbol .plus, "+", 1⟩, .named "x" 1]

/-- The tree of a sum with so many operators. -/
def repeatedSumTree : Nat → Expr
  | 0 => .variable ⟨0, .named "x" 1⟩
  | n + 1 =>
      .binary ⟨.symbol .plus, "+", 1⟩ (repeatedSumTree n) (.variable ⟨0, .named "x" 1⟩)

theorem height_repeatedSumTree (n : Nat) : (repeatedSumTree n).height = n + 1 := by
  induction n with
  | zero => rfl
  | succ n ih =>
      have hleft : (repeatedSumTree n).extent 1 = n + 1 := ih
      simp [repeatedSumTree, Expr.extent, hleft]

theorem height_eq_of_unnumbered {n : Nat} {value : Expr}
    (h : value.unnumbered = (repeatedSumTree n).unnumbered) : value.height = n + 1 :=
  calc
    value.height = value.unnumbered.height := (Expr.extent_unnumbered 1 value).symm
    _ = (repeatedSumTree n).unnumbered.height := congrArg Expr.height h
    _ = (repeatedSumTree n).height := Expr.extent_unnumbered 1 _
    _ = n + 1 := height_repeatedSumTree n

theorem layered_repeatedSum (within : Phrases) (n : Nat) :
    Layered within [.term, .factor] (repeatedSum n) (repeatedSumTree n) := by
  have hname (some : List Tier) :
      Layered within some [.named "x" 1] (.variable ⟨0, .named "x" 1⟩) :=
    (Unary.call (Primary.name rfl).call).layered some
  induction n with
  | zero => exact hname _
  | succ n ih => exact ih.node (by decide) (hname _)

theorem expression_repeatedSum (limit n : Nat) :
    (phrases (limit + 1)).expression (repeatedSum n) (repeatedSumTree n) := by
  have hsuffix : [.term, .factor] <:+ tiers :=
    ⟨[.disjunction, .conjunction, .equality, .comparison], rfl⟩
  exact Assignment.plain ((layered_repeatedSum _ n).mono_suffix hsuffix)

/-- No bound holds for the heights of all trees that are read. -/
theorem not_exists_height_le :
    (¬∃ bound, ∀ (tokens : List Token) (endLine : Nat) (nextId : NodeId) (program : Program),
      (Program.parse tokens endLine nextId).result = .ok program →
        ∀ statement ∈ program, statement.height ≤ bound) ∧
    ¬∃ bound, ∀ (tokens : List Token) (endLine : Nat) (nextId : NodeId) (expression : Expr),
      (Expr.parse tokens endLine nextId).result = .ok expression → expression.height ≤ bound := by
  obtain ⟨limit, hlimit⟩ : ∃ limit, nestingLimit = limit + 2 := ⟨254, rfl⟩
  constructor
  · rintro ⟨bound, hbound⟩
    let semicolon : Token := ⟨.symbol .semicolon, ";", 1⟩
    have hterminated : Terminated (phrases (limit + 1)) (repeatedSum bound ++ [semicolon])
        (repeatedSumTree bound) := .mk (expression_repeatedSum limit bound) rfl
    have hderives : Program.Derives (repeatedSum bound ++ [semicolon] ++ [])
        [.expression (repeatedSumTree bound)] := by
      rw [Program.Derives, hlimit]
      exact .cons (.statement (.expression hterminated)) .nil
    have hreads : ∃ program : Program,
        (Program.parse (repeatedSum bound ++ [semicolon] ++ []) 1 0).result = .ok program ∧
          program.unnumbered = Program.unnumbered [.expression (repeatedSumTree bound)] :=
      Parsed.result_eq_ok_of_reads (reads_program hderives)
    obtain ⟨program, hparse, hview⟩ := hreads
    obtain ⟨value, rfl, hvalue⟩ := Program.eq_expression_of_unnumbered hview
    have hheight : value.height + 1 ≤ bound := hbound _ _ _ _ hparse _ List.mem_cons_self
    have hsum := height_eq_of_unnumbered hvalue
    omega
  · rintro ⟨bound, hbound⟩
    have hderives :
        (phrases nestingLimit).expression (repeatedSum bound) (repeatedSumTree bound) := by
      rw [hlimit]
      exact expression_repeatedSum (limit + 1) bound
    obtain ⟨value, hparse, hvalue⟩ : ∃ value : Expr,
        (Expr.parse (repeatedSum bound) 1 0).result = .ok value ∧
          value.unnumbered = (repeatedSumTree bound).unnumbered :=
      Parsed.result_eq_ok_of_reads (reads_wholeExpression hderives)
    have hheight : value.height ≤ bound := hbound _ _ _ _ hparse
    have hsum := height_eq_of_unnumbered hvalue
    omega

end LoxLang
