import LoxLang.Proofs.Grammar.Descent.Rules
import LoxLang.Proofs.Grammar.Walk.Safety

/-!
# Faults do not use up nestings

A walker reads every text to the same end as the grammar, and all the calls that it has written down
on the way are in order.  So a fault, wherever it is raised and wherever reading goes on behind it,
leaves as many nestings to be opened as there were before.
-/

namespace LoxLang

namespace Walk

variable {α : Type} {walk : Walk α} {rule : Rule} {parsed : Parsed α} {tokens : List Token}
  {endLine : Nat} {nextId : NodeId}

/-- The faults of a text are those that have been raised over it. -/
theorem faults_of_parse (h : (parse walk tokens endLine nextId).1 = .ok parsed) :
    parsed.faults = (raised (exec walk (start tokens endLine nextId)).1
      (exec walk (start tokens endLine nextId)).2.errors).reverse := by
  rw [parse] at h
  rcases hexec : exec walk (start tokens endLine nextId) with ⟨reason | tree, walker⟩
  all_goals rw [hexec] at h
  · cases reason with
    | fault fault =>
        obtain rfl := Except.ok.inj h
        rfl
    | outside => cases h
    | endless => cases h
  · dsimp only at h
    split at h
    · next hempty =>
        obtain rfl := Except.ok.inj h
        exact (congrArg List.reverse (List.isEmpty_iff.1 hempty)).symm
    · obtain rfl := Except.ok.inj h
      rfl

/-- A rule reads a list of tokens to a given end.  Each call on the way, the last of them that of
the rule itself, leaves the depth as it was, and the faults of nesting are those with which a
nesting was refused. -/
structure Balances (rule : Rule) (walk : Walk α) (tokens : List Token) (endLine : Nat)
    (nextId : NodeId) (parsed : Parsed α) : Prop where
  result : (parse walk tokens endLine nextId).1 = .ok parsed
  last : (visits walk tokens endLine nextId).head? = some ⟨rule, [], 0, 0, none⟩
  balanced : ∀ visit ∈ visits walk tokens endLine nextId, visit.Balanced
  refusals : (Visit.refusals (visits walk tokens endLine nextId)).reverse =
    nestingFaults parsed.faults

theorem poised_start (tokens : List Token) (endLine : Nat) (nextId : NodeId) :
    (start tokens endLine nextId).Poised where
  linked := .nil
  depth := rfl
  room := Nat.zero_le _
  balanced := List.forall_mem_nil _
  refusals := rfl

/-- A rule that nothing has called and that opens no nesting itself. -/
theorem balances_within (h : Regular rule walk) (hflat : rule.opensNesting = false)
    (hparse : (parse (within rule walk) tokens endLine nextId).1 = .ok parsed) :
    Balances rule (within rule walk) tokens endLine nextId parsed := by
  let first := start tokens endLine nextId
  have hpoised : first.Poised := poised_start tokens endLine nextId
  have hlinked : Rule.Linked [rule] := .singleton rule
  have hready : (first.calling rule).Poised :=
    { hpoised with
      linked := hlinked
      depth := (Rule.nestings_cons_of_not hflat []).symm }
  have hinside := h (first.calling rule) rfl hready
  obtain ⟨-, -, hbalanced, hrefusals⟩ : Restores first (exec (within rule walk) first) :=
    .within hpoised hlinked (fun _ => Nat.zero_lt_succ _) hinside
  refine ⟨hparse, ?_, hbalanced, ?_⟩
  · rw [visits, exec_within]
    exact congrArg some (congrArg (Visit.mk rule [] 0 · none) hinside.depth)
  · rw [visits, hrefusals, faults_of_parse hparse, nestingFaults, nestingFaults,
      List.filter_reverse]

end Walk

/-- Whatever faults are raised and wherever reading goes on behind them: every rule leaves the depth
as it was and never above the limit, a declaration is as deep as the statements and function bodies
around it, a nesting is refused exactly if it would be one too many, which is where a fault of
nesting is raised, and the calls inside one another are bounded. -/
theorem Grammar.reading_is_balanced (tokens : List Token) (endLine : Nat) (nextId : NodeId) :
    Walk.Balances .program Walk.program tokens endLine nextId
        (Program.parse tokens endLine nextId) ∧
      Walk.Balances .wholeExpression Walk.wholeExpression tokens endLine nextId
        (Expr.parse tokens endLine nextId) := by
  have houtermost : Walk.outermost.Regular := Walk.regular_enclosed _
  obtain ⟨_, hprogram, -⟩ :=
    Walk.parse_of_follows tokens Walk.follows_program endLine nextId
  obtain ⟨_, hexpression, -⟩ :=
    Walk.parse_of_follows tokens Walk.follows_wholeExpression endLine nextId
  constructor
  · refine Walk.balances_within (.step .rounds fun limit => ?_) rfl (congrArg Prod.fst hprogram)
    exact Walk.regular_declarations houtermost (by simp) .isAtEnd limit
  · refine Walk.balances_within (.bind (houtermost.expression (by simp)) fun expression => ?_) rfl
      (congrArg Prod.fst hexpression)
    exact .step .isAtEnd fun _ => .ite (.pure _) (.of_steady (.stop nofun))

/-- In a block, the declaration behind a faulty one is as deep as that. -/
example :
    let symbols : List Symbol := [.leftBrace, .leftParen, .semicolon, .semicolon, .rightBrace]
    let tokens : List Token := symbols.map fun symbol => ⟨.symbol symbol, "", 1⟩
    (Walk.visits Walk.program tokens 1 0).filterMap (fun visit =>
      match visit.rule with
      | .declaration => some (visit.entered, visit.left)
      | _ => none) = [(0, 0), (1, 1), (1, 1)] := by
  decide +kernel

end LoxLang
