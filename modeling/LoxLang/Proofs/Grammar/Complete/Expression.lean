import LoxLang.Proofs.Grammar.Reading
import LoxLang.Proofs.Grammar.Start
import LoxLang.Proofs.Tree.Numbering

/-!
# What is derived as an expression is read

In front of a token that does not go on with it, a derived expression is read in full and without a
fault.  Which tokens would go on with it depends on the tiers of operators that the rule reads: an
operator of a looser tier ends an expression of a tighter one.  The numbers of occurrences are not
compared.
-/

namespace LoxLang

namespace Grammar

open Reading

variable {α γ : Type}

/-! ## What comes after -/

/-- Whether the next token fails a test, or there is none. -/
def Stops (test : Token → Bool) (rest : List Token) : Prop :=
  rest.head?.any test = false

namespace Stops

variable {test test' : Token → Bool} {token : Token} {tokens rest : List Token}

theorem cons (h : test token = false) : Stops test (token :: rest) := h

theorem mono (h : Stops test rest) (himp : ∀ token, test' token → test token) :
    Stops test' rest := by
  cases rest with
  | nil => rfl
  | cons token rest =>
      cases htest : test' token with
      | false => exact htest
      | true => exact absurd (himp token htest) (by simpa [Stops] using h)

/-- A phrase that starts in one way stops what would go on in another. -/
theorem of_starts (h : Starts test tokens) (himp : ∀ token, test token → test' token = false) :
    Stops test' (tokens ++ rest) :=
  (h.append rest).not_starts himp

end Stops

theorem isSymbol_eq_false {token : Token} {symbol symbol' : Symbol} (h : token.isSymbol symbol)
    (hne : symbol ≠ symbol') : token.isSymbol symbol' = false := by
  rw [Token.isSymbol, eq_of_beq h]
  simpa using hne

theorem isKeyword_eq_false {token : Token} {keyword keyword' : Keyword}
    (h : token.isKeyword keyword) (hne : keyword ≠ keyword') :
    token.isKeyword keyword' = false := by
  rw [Token.isKeyword, eq_of_beq h]
  simpa using hne

/-- Whether a token goes on with an expression of unary operators, calls and operators of given
tiers. -/
def continues (tiers : List Tier) (token : Token) : Bool :=
  token.isSymbol .leftParen || token.isSymbol .dot || tiers.any (·.level.has token)

/-- Whether a token goes on with an expression. -/
def continuesExpression (token : Token) : Bool :=
  continues tiers token || token.isSymbol .equal

theorem Tier.eq_of_has {tier tier' : Tier} {token : Token} (h : tier.level.has token)
    (h' : tier'.level.has token) : tier = tier' := by
  rw [has_level_iff] at h h'
  cases tier <;> cases tier' <;> simp only [kinds] at h h' <;> grind

/-- An operator does not go on with an expression of other tiers. -/
theorem continues_eq_false_of_has {tier : Tier} {tiers : List Tier} {token : Token}
    (h : tier.level.has token) (hmem : tier ∉ tiers) : continues tiers token = false := by
  have hsymbol : (token.isSymbol .leftParen || token.isSymbol .dot) = false := by
    rw [Tier.has_level_iff] at h
    cases tier <;> simp only [Tier.kinds] at h <;> grind [Token.isSymbol]
  have hothers : tiers.any (·.level.has token) = false := by
    refine List.any_eq_false.2 fun tier' hmem' h' => hmem ?_
    rwa [Tier.eq_of_has h h']
  rw [continues, hsymbol, hothers, Bool.or_false]

/-! ## Operators -/

/-- The rules for what stands inside a nesting read what is derived. -/
structure Inner.Complete (inner : Inner) (within : Phrases) : Prop where
  expression : ∀ {tokens rest : List Token} {a : Expr}, within.expression tokens a →
    Stops continuesExpression rest → Reads inner.expression Expr.unnumbered tokens rest a
  operand : ∀ {tokens rest : List Token} {a : Expr}, within.operand tokens a →
    Stops (continues []) rest → Reads inner.operand Expr.unnumbered tokens rest a

theorem Tier.unnumbered_node (tier : Tier) (operator : Token) (left right : Expr) :
    (tier.node operator left right).unnumbered =
      tier.node operator left.unnumbered right.unnumbered := by
  cases tier <;> simp [node, Expr.unnumbered]

/-- Behind an operand stands an operator, or what stands behind the operators. -/
theorem Operations.stops {tier : Tier} {derives : List Token → Expr → Prop} {left result : Expr}
    {tokens rest : List Token} {stop : Token → Bool}
    (h : Operations tier derives left tokens result)
    (hstop : ∀ token, tier.level.has token → stop token = false) (hrest : Stops stop rest) :
    Stops stop (tokens ++ rest) := by
  cases h with
  | done => exact hrest
  | more hoperator _ _ => exact .cons (hstop _ ((tier.has_level_iff _).2 hoperator))

section

variable {tier : Tier} {next : Reading Expr} {derives : List Token → Expr → Prop}
  {stop : Token → Bool}
  (hnext : ∀ {tokens rest : List Token} {a : Expr}, derives tokens a → Stops stop rest →
    Reads next Expr.unnumbered tokens rest a)
  (hstop : ∀ token, tier.level.has token → stop token = false)

include hnext hstop

theorem reads_operations {left left' result : Expr} {tokens rest : List Token}
    (h : Operations tier derives left tokens result) (hleft : left'.unnumbered = left.unnumbered)
    {limit : Nat} (hlimit : tokens.length ≤ limit) (hrest : Stops stop rest)
    (hrest' : Stops tier.level.has rest) :
    Reads (operations tier.level next limit left') Expr.unnumbered tokens rest result := by
  induction h generalizing left' limit with
  | done =>
      cases limit with
      | zero => exact .pure hleft
      | succ limit => exact .bind_accept?_of_not hrest' (.pure hleft)
  | @more left right result operator tokens tokens' hoperator hright hresult ih =>
      cases limit with
      | zero => exact absurd hlimit (Nat.not_succ_le_zero _)
      | succ limit =>
          have hlimit' : tokens'.length ≤ limit := by
            simp only [List.length_cons, List.length_append] at hlimit
            omega
          refine .bind_accept? ((tier.has_level_iff _).2 hoperator)
            (.bind (hnext hright (hresult.stops hstop hrest)) fun right' hright' =>
              ih ?_ hlimit')
          rw [tier.node_level, tier.unnumbered_node, tier.unnumbered_node, hleft, hright']

theorem reads_chain {result : Expr} {tokens rest : List Token}
    (h : Chain tier derives tokens result) (hrest : Stops stop rest)
    (hrest' : Stops tier.level.has rest) :
    Reads (chain tier.level next) Expr.unnumbered tokens rest result := by
  cases h with
  | @mk tokens tokens' first result hfirst hresult =>
      refine .bind (hnext hfirst (hresult.stops hstop hrest)) fun first' hfirst' =>
        .bind_nextIs ?_
      cases hresult with
      | done =>
          have hnot : (([] : List Token) ++ rest).head?.any tier.level.has = false := hrest'
          rw [hnot]
          exact .pure hfirst'
      | more hoperator hright hresult =>
          have hhas := (tier.has_level_iff _).2 hoperator
          simp only [List.cons_append, List.head?_cons, Option.any_some, hhas]
          exact .bind_remaining (reads_operations hnext hstop (.more hoperator hright hresult)
            hfirst' (by simp) hrest hrest')

end

/-! ## Lists of phrases -/

/-- A comma or a closing parenthesis, which stand behind the items of a list. -/
def delimits (token : Token) : Bool :=
  token.isSymbol .comma || token.isSymbol .rightParen

section

variable {item : Reading α} {derives : List Token → α → Prop} {view : α → γ}
  (hitem : ∀ {tokens rest : List Token} {a : α}, derives tokens a → Starts delimits rest →
    Reads item view tokens rest a)

include hitem

theorem reads_itemsFrom {tokens rest : List Token} {as : List α}
    (h : Separated derives tokens as) (excess : SyntaxCause) {limit count : Nat}
    (hlimit : tokens.length < limit) (hcount : count + as.length ≤ argumentLimit)
    (hrest : Starts (·.isSymbol .rightParen) rest) :
    Reads (itemsFrom item excess limit count) (List.map view) tokens rest as := by
  induction h generalizing limit count with
  | @one tokens a hfirst =>
      cases limit with
      | zero => exact absurd hlimit (Nat.not_lt_zero _)
      | succ limit =>
          have hnot : ¬argumentLimit ≤ count := Nat.not_le.2 hcount
          have hdelimits : Starts delimits rest :=
            hrest.mono fun token htoken => by simp [delimits, htoken]
          have hcomma : Stops (·.isSymbol .comma) rest :=
            hrest.not_starts fun token htoken => isSymbol_eq_false htoken (by decide)
          rw [itemsFrom, if_neg hnot]
          refine .bind_last (hitem hfirst hdelimits) fun a' ha' =>
            .bind_accepts_of_not hcomma (.pure ?_)
          rw [List.map_singleton, List.map_singleton, ha']
  | @more tokens tokens' comma a as hfirst hcomma hmore ih =>
      cases limit with
      | zero => exact absurd hlimit (Nat.not_lt_zero _)
      | succ limit =>
          simp only [List.length_append, List.length_cons] at hlimit hcount
          have hnot : ¬argumentLimit ≤ count := by omega
          have hdelimits : Starts delimits (comma :: tokens' ++ rest) := by
            exact Starts.cons (by simp [delimits, hcomma])
          rw [itemsFrom, if_neg hnot]
          refine .bind (hitem hfirst hdelimits) fun a' ha' => .bind_accepts hcomma ?_
          refine .bind_last (ih (by omega) (by omega)) fun as' has' => .pure ?_
          rw [List.map_cons, List.map_cons, ha', has']

theorem reads_items (hstart : ∀ {tokens : List Token} {a : α}, derives tokens a →
      Starts (fun token => !token.isSymbol .rightParen) tokens)
    {tokens rest : List Token} {as : List α} (h : Listed derives tokens as) (excess : SyntaxCause)
    (hcount : as.length ≤ argumentLimit) (hrest : Starts (·.isSymbol .rightParen) rest) :
    Reads (items item excess) (List.map view) tokens rest as := by
  refine .bind_nextIs ?_
  rcases h with ⟨rfl, rfl⟩ | hlist
  · have hnext : (([] : List Token) ++ rest).head?.any (·.isSymbol .rightParen) = true := hrest
    rw [hnext]
    exact .pure rfl
  · have hfirst : Starts (fun token => !token.isSymbol .rightParen) tokens := by
      cases hlist with
      | one hfirst => exact hstart hfirst
      | more hfirst _ _ => exact (hstart hfirst).append _
    have hnot : (tokens ++ rest).head?.any (·.isSymbol .rightParen) = false :=
      Stops.of_starts hfirst fun token htoken => by simpa using htoken
    rw [hnot]
    exact .bind_remaining (reads_itemsFrom hitem hlist excess
      (by rw [List.length_append]; omega) (by omega) hrest)

end

/-! ## Calls, properties and unary operators -/

variable {inner : Inner} {n : Nat}

theorem starts_items {tokens : List Token} (h : Starts startsExpression tokens) :
    Starts (fun token => !token.isSymbol .rightParen) tokens := by
  refine h.mono fun token htoken => ?_
  have hnot : token.isSymbol .rightParen = false :=
    isSymbol_eq_false_of_startsExpression htoken (by decide)
  rw [hnot, Bool.not_false]

theorem stops_of_isSymbol {token : Token} {symbol : Symbol} (rest : List Token)
    (h : token.isSymbol symbol)
    (hsymbol : [Symbol.comma, .rightParen, .semicolon].contains symbol) :
    Stops continuesExpression (token :: rest) := by
  have hkind := eq_of_beq h
  cases symbol <;> first | exact absurd hsymbol (by decide) | skip
  all_goals
    simp [Stops, continuesExpression, continues, tiers, Token.isSymbol, Level.has, Tier.level,
      Level.disjunction, Level.conjunction, Level.equality, Level.comparison, Level.term,
      Level.factor, hkind]

theorem stops_of_delimits {rest : List Token} (h : Starts delimits rest) :
    Stops continuesExpression rest := by
  cases rest with
  | nil => rfl
  | cons token rest =>
      have hdelimits : delimits token := h
      rw [delimits, Bool.or_eq_true] at hdelimits
      rcases hdelimits with hcomma | hparen
      · exact stops_of_isSymbol rest hcomma (by decide)
      · exact stops_of_isSymbol rest hparen (by decide)

theorem literal?_of_constant {token : Token} {value : Literal} (h : Constant token value) :
    literal? token.kind = some value := by
  cases h with
  | nil h => rw [eq_of_beq h]; rfl
  | true h => rw [eq_of_beq h]; rfl
  | false h => rw [eq_of_beq h]; rfl
  | number h => rw [h]; rfl
  | string h => rw [h]; rfl

theorem reads_primary (h : inner.Complete (phrases n)) {tokens rest : List Token} {a : Expr}
    (ha : Primary (phrases n) tokens a) : Reads (primary inner) Expr.unnumbered tokens rest a := by
  cases ha with
  | @constant token value hconstant =>
      have hliteral := literal?_of_constant hconstant
      refine .bind_accept? (by simp [hliteral]) (.pure ?_)
      rw [hliteral, Option.getD_some]
  | @thisRef keyword id hword =>
      have hkind := eq_of_beq hword
      refine .bind_accept?_of_not (by simp [hkind, literal?]) <|
        .bind_accept?_of_not (by simp [hkind, Token.isKeyword]) <|
        .bind_accept? hword <| .bind_occurrence fun id' => .pure ?_
      rfl
  | @name name id hname =>
      have hkind := eq_of_beq hname
      refine .bind_accept?_of_not (by simp [hkind, literal?]) <|
        .bind_accept?_of_not (by simp [hkind, Token.isKeyword]) <|
        .bind_accept?_of_not (by simp [hkind, Token.isKeyword]) <|
        .bind_accept? hname <| .bind_occurrence fun id' => .pure ?_
      rfl
  | @superRef keyword dot method id hword hdot hmethod =>
      have hkind := eq_of_beq hword
      refine .bind_accept?_of_not (by simp [hkind, literal?]) <| .bind_accept? hword <|
        .bind_expect hdot _ <| .bind_expect hmethod _ <| .bind_occurrence fun id' => .pure ?_
      rfl
  | @grouping opening closing tokens expression hopening hexpression hclosing =>
      have hkind := eq_of_beq hopening
      refine .bind_accept?_of_not (by simp [hkind, literal?]) <|
        .bind_accept?_of_not (by simp [hkind, Token.isKeyword]) <|
        .bind_accept?_of_not (by simp [hkind, Token.isKeyword]) <|
        .bind_accept?_of_not (by simp [hkind, Token.isIdentifier]) <|
        .bind_accepts hopening <|
        .bind (h.expression hexpression (stops_of_isSymbol rest hclosing (by decide)))
          fun expression' hexpression' => .bind_expect hclosing _ <| .pure ?_
      rw [Expr.unnumbered, Expr.unnumbered, hexpression']

theorem reads_finishCall (h : inner.Complete (phrases n)) {callee callee' : Expr}
    {closing : Token} {tokens rest : List Token} {arguments : List Expr}
    (hlist : Listed (phrases n).expression tokens arguments)
    (hlength : arguments.length ≤ argumentLimit) (hclosing : closing.isSymbol .rightParen)
    (hcallee : callee'.unnumbered = callee.unnumbered) :
    Reads (finishCall inner callee') Expr.unnumbered (tokens ++ [closing]) rest
      (.call callee closing arguments) := by
  refine .bind (reads_items (fun ha hrest => h.expression ha (stops_of_delimits hrest))
    (fun ha => starts_items (starts_expression ha)) hlist _ hlength hclosing)
    fun arguments' harguments =>
      .bind_expect hclosing _ <| .pure ?_
  simp only [Expr.unnumbered, Expr.unnumberedAll_eq_map, harguments, hcallee]

/-- Calls and properties stop an expression without them from going on. -/
theorem reads_selections (h : inner.Complete (phrases n)) {subject subject' result : Expr}
    {tokens rest : List Token} (hresult : Selections (phrases n) subject tokens result)
    (hsubject : subject'.unnumbered = subject.unnumbered) {limit : Nat}
    (hlimit : tokens.length ≤ limit) (hrest : Stops (continues []) rest) :
    Reads (selections inner limit subject') Expr.unnumbered tokens rest result := by
  induction hresult generalizing subject' limit with
  | done =>
      cases limit with
      | zero => exact .pure hsubject
      | succ limit =>
          refine .bind_accepts_of_not (hrest.mono fun token htoken => ?_) <|
            .bind_accepts_of_not (hrest.mono fun token htoken => ?_) <| .pure hsubject
          · simp [continues, htoken]
          · simp [continues, htoken]
  | @call subject result opening closing tokens tokens' arguments hopening hlist hlength hclosing
      _ ih =>
      cases limit with
      | zero => exact absurd hlimit (Nat.not_succ_le_zero _)
      | succ limit =>
          have hlimit' : tokens'.length ≤ limit := by
            simp only [List.length_cons, List.length_append] at hlimit
            omega
          rw [List.append_cons]
          refine .bind_accepts hopening <| .bind (reads_finishCall h hlist hlength hclosing
            hsubject) fun called hcalled => ih hcalled hlimit'
  | @get subject result dot name tokens hdot hname _ ih =>
      cases limit with
      | zero => exact absurd hlimit (Nat.not_succ_le_zero _)
      | succ limit =>
          have hlimit' : tokens.length ≤ limit := by
            simp only [List.length_cons] at hlimit
            omega
          have hparen : dot.isSymbol .leftParen = false := isSymbol_eq_false hdot (by decide)
          refine .bind_accepts_of_not hparen <| .bind_accepts hdot <| .bind_expect hname _ <|
            ih ?_ hlimit'
          rw [Expr.unnumbered, Expr.unnumbered, hsubject]

/-- Behind a primary expression stands a call or a property, or what stands behind them. -/
theorem Selections.head?_any {within : Phrases} {subject result : Expr} {tokens rest : List Token}
    (h : Selections within subject tokens result) (hrest : Stops (continues []) rest) :
    (tokens = [] ∧ result = subject ∧ (tokens ++ rest).head?.any
        (fun token => token.isSymbol .leftParen || token.isSymbol .dot) = false) ∨
      (tokens ++ rest).head?.any
        (fun token => token.isSymbol .leftParen || token.isSymbol .dot) = true := by
  cases h with
  | done =>
      refine .inl ⟨rfl, rfl, hrest.mono fun token htoken => ?_⟩
      rw [continues, htoken, Bool.true_or]
  | call hopening _ _ _ _ => exact .inr (by simp [hopening])
  | get hdot _ _ => exact .inr (by simp [hdot])

theorem reads_call (h : inner.Complete (phrases n)) {tokens rest : List Token} {a : Expr}
    (ha : Call (phrases n) tokens a) (hrest : Stops (continues []) rest) :
    Reads (call inner) Expr.unnumbered tokens rest a := by
  cases ha with
  | mk hprimary hresult =>
      refine .bind (reads_primary h hprimary) fun subject' hsubject => .bind_nextIs ?_
      rcases hresult.head?_any hrest with ⟨rfl, rfl, hnot⟩ | hnext
      · rw [hnot]
        exact .pure hsubject
      · rw [hnext]
        exact .bind_remaining (reads_selections h hresult hsubject (by simp) hrest)

theorem reads_unary (h : inner.Complete (phrases n)) {tokens rest : List Token} {a : Expr}
    (ha : Unary (phrases n) tokens a) (hrest : Stops (continues []) rest) :
    Reads (unary inner) Expr.unnumbered tokens rest a := by
  cases ha with
  | call hcall =>
      have hnot : Stops (fun token => token.isSymbol .bang || token.isSymbol .minus)
          (tokens ++ rest) := .of_starts hcall.starts fun _ => isUnary_eq_false_of_startsCall
      exact .bind_accept?_of_not hnot (reads_call h hcall hrest)
  | operator hoperator hoperand =>
      refine .bind_accept? (by simpa using hoperator) <|
        .bind_last (h.operand hoperand hrest) fun operand' hoperand' => .pure ?_
      rw [Expr.unnumbered, Expr.unnumbered, hoperand']

/-- Binary operators over unary expressions, of given tiers. -/
def layered (inner : Inner) : List Tier → Reading Expr
  | [] => unary inner
  | tier :: tighter => chain tier.level (layered inner tighter)

/-- An operator of one tier ends the operands of the tighter ones. -/
theorem reads_layered (h : inner.Complete (phrases n)) {tiers : List Tier} (htiers : tiers.Nodup)
    {tokens rest : List Token} {a : Expr} (ha : Layered (phrases n) tiers tokens a)
    (hrest : Stops (continues tiers) rest) :
    Reads (layered inner tiers) Expr.unnumbered tokens rest a := by
  induction tiers generalizing tokens rest a with
  | nil => exact reads_unary h ha hrest
  | cons tier tighter ih =>
      obtain ⟨hmem, htighter⟩ := List.nodup_cons.1 htiers
      refine reads_chain (ih htighter) (fun _ hhas => continues_eq_false_of_has hhas hmem) ha
        (hrest.mono fun token htoken => ?_) (hrest.mono fun token htoken => ?_)
      · simp only [continues, List.any_cons, Bool.or_eq_true] at htoken ⊢
        tauto
      · simp [continues, htoken]

/-! ## Assignments -/

theorem Unary.layered {within : Phrases} {tokens : List Token} {a : Expr}
    (h : Unary within tokens a) (tiers : List Tier) : Layered within tiers tokens a := by
  induction tiers with
  | nil => exact h
  | cons tier tighter ih =>
      have hchain : Chain tier (Layered within tighter) (tokens ++ []) a := .mk ih .done
      rwa [List.append_nil] at hchain

/-- A property can be selected behind a call. -/
theorem Selections.append_get {within : Phrases} {subject object : Expr} {tokens : List Token}
    {dot name : Token} (h : Selections within subject tokens object) (hdot : dot.isSymbol .dot)
    (hname : name.isIdentifier) :
    Selections within subject (tokens ++ [dot, name]) (.get object name) := by
  induction h with
  | done => exact .get hdot hname .done
  | call hopening hlist hlength hclosing _ ih =>
      simpa using Selections.call hopening hlist hlength hclosing ih
  | get hdot' hname' _ ih => exact .get hdot' hname' ih

theorem eq_variable_of_unnumbered {target : Expr} {place : Occurrence}
    (h : target.unnumbered = (Expr.variable place).unnumbered) :
    ∃ id, target = .variable ⟨id, place.name⟩ := by
  cases target with
  | «variable» place' =>
      simp only [Expr.unnumbered, Occurrence.unnumbered, Expr.variable.injEq,
        Occurrence.mk.injEq, true_and] at h
      exact ⟨place'.id, h ▸ rfl⟩
  | _ => simp [Expr.unnumbered] at h

theorem eq_get_of_unnumbered {target object : Expr} {name : Token}
    (h : target.unnumbered = (Expr.get object name).unnumbered) :
    ∃ object', target = .get object' name ∧ object'.unnumbered = object.unnumbered := by
  cases target with
  | get object' name' =>
      simp only [Expr.unnumbered, Expr.get.injEq] at h
      exact ⟨object', h.2 ▸ rfl, h.1⟩
  | _ => simp [Expr.unnumbered] at h

theorem stops_of_equal {equal : Token} (h : equal.isSymbol .equal) (rest : List Token) :
    Stops (continues tiers) (equal :: rest) := by
  simp [Stops, continues, tiers, Token.isSymbol, Level.has, Tier.level, Level.disjunction,
    Level.conjunction, Level.equality, Level.comparison, Level.term, Level.factor, eq_of_beq h]

theorem reads_assignment (h : inner.Complete (phrases n)) {tokens rest : List Token} {a : Expr}
    (ha : Assignment (phrases n) tokens a) (hrest : Stops continuesExpression rest) :
    Reads (assignment inner) Expr.unnumbered tokens rest a := by
  have htiers : tiers.Nodup := by simp [tiers]
  cases ha with
  | plain hplain =>
      refine .bind_last (reads_layered h htiers hplain (hrest.mono fun token htoken => ?_))
        fun target htarget => .bind_accept?_of_not (hrest.mono fun token htoken => ?_) <|
          .pure htarget
      · rw [continuesExpression, htoken, Bool.true_or]
      · rw [continuesExpression, htoken, Bool.or_true]
  | @toVariable name equal id tokens value hname hequal hvalue =>
      have htarget : Layered (phrases n) tiers [name] (.variable ⟨id, name⟩) :=
        Unary.layered (.call (.mk (.name hname) .done)) tiers
      have htokens : name :: equal :: tokens = [name] ++ equal :: tokens := rfl
      rw [htokens]
      refine .bind (reads_layered h htiers htarget (stops_of_equal hequal _))
        fun target htarget => .bind_accept? hequal <| .bind_last (h.expression hvalue hrest)
          fun value' hvalue' => ?_
      obtain ⟨id', rfl⟩ := eq_variable_of_unnumbered htarget
      refine .bind_occurrence fun id'' => .pure ?_
      rw [Expr.unnumbered, Expr.unnumbered, hvalue']
      rfl
  | @toProperty object value dot name equal tokens tokens' hcall hdot hname hequal hvalue =>
      have htarget : Layered (phrases n) tiers (tokens ++ [dot, name]) (.get object name) := by
        cases hcall with
        | mk hprimary hresult =>
            rw [List.append_assoc]
            exact Unary.layered (.call (.mk hprimary (hresult.append_get hdot hname))) tiers
      have htokens : tokens ++ dot :: name :: equal :: tokens' =
          (tokens ++ [dot, name]) ++ equal :: tokens' := by simp
      rw [htokens]
      refine .bind (reads_layered h htiers htarget (stops_of_equal hequal _))
        fun target htarget => .bind_accept? hequal <| .bind_last (h.expression hvalue hrest)
          fun value' hvalue' => ?_
      obtain ⟨object', rfl, hobject⟩ := eq_get_of_unnumbered htarget
      refine .pure ?_
      rw [Expr.unnumbered, Expr.unnumbered, hvalue', hobject]

theorem Inner.complete_opened (h : inner.Complete (phrases n)) :
    inner.opened.Complete (phrases (n + 1)) where
  expression := reads_assignment h
  operand := reads_unary h

end Grammar

end LoxLang
