import LoxLang.Proofs.Grammar.Phrase
import LoxLang.Proofs.Grammar.Reading
import LoxLang.Proofs.Tree.Numbering

/-!
# What is read is derived

If a rule yields a tree and notes no fault, then the tokens that it has taken off derive that tree,
and the occurrences in the tree have got numbers of their own.  The statements follow the rules one
by one; the knot is tied by induction on the nestings that may still be opened.
-/

namespace LoxLang

namespace Grammar

open Reading

variable {α : Type}

/-! ## Expressions -/

theorem Tier.ids_node (tier : Tier) (operator : Token) (left right : Expr) :
    (tier.node operator left right).ids = left.ids ++ right.ids := by
  cases tier <;> simp [node, Expr.ids]

/-- A tree is derived by the tokens that have been taken off, and its numbers are those that have
been given out. -/
def Yields (derives : List Token → α → Prop) (ids : α → List NodeId) (cursor : Cursor) (a : α)
    (reached : Cursor) : Prop :=
  ∃ tokens, cursor.rest = tokens ++ reached.rest ∧ derives tokens a ∧
    Fresh cursor.nextId reached.nextId (ids a)

/-- The rules for what stands inside a nesting yield what is derived. -/
structure Inner.Sound (inner : Inner) (within : Phrases) : Prop where
  expression : Ensures inner.expression (Yields within.expression Expr.ids)
  operand : Ensures inner.operand (Yields within.operand Expr.ids)

theorem ensures_operations (tier : Tier) {next : Reading Expr}
    {derives : List Token → Expr → Prop} (hnext : Ensures next (Yields derives Expr.ids))
    (limit : Nat) (left : Expr) :
    Ensures (operations tier.level next limit left) fun cursor result reached =>
      ∃ tokens ids, cursor.rest = tokens ++ reached.rest ∧
        Operations tier derives left tokens result ∧ result.ids = left.ids ++ ids ∧
        Fresh cursor.nextId reached.nextId ids := by
  induction limit generalizing left with
  | zero =>
      refine (Ensures.pure left).mono ?_
      rintro cursor result reached ⟨rfl, rfl⟩
      exact ⟨[], [], rfl, .done, by simp, .nil _ _⟩
  | succ limit ih =>
      refine (Ensures.bind_accept? (Ensures.pure left) fun operator =>
        hnext.bind fun right => ih (tier.level.node operator left right)).mono ?_
      rintro cursor result reached (⟨-, rfl, rfl⟩ | ⟨operator, first, hoperator, hpasses, -, right,
        second, hfirst, hsecond, ⟨tokens, hrest, hright, hfresh⟩, tokens', ids, hrest', hresult,
        hids, hfresh'⟩)
      · exact ⟨[], [], rfl, .done, by simp, .nil _ _⟩
      · rw [Tier.node_level] at hresult hids
        rw [hpasses.nextId] at hfresh
        refine ⟨operator :: (tokens ++ tokens'), right.ids ++ ids, ?_, ?_, ?_, ?_⟩
        · simp [hpasses.rest, hrest, hrest']
        · exact .more ((tier.has_level_iff operator).1 hoperator) hright hresult
        · rw [hids, Tier.ids_node, List.append_assoc]
        · exact hfresh.append hfresh' (hpasses.nextId ▸ hfirst.nextId) hsecond.nextId

theorem ensures_chain (tier : Tier) {next : Reading Expr} {derives : List Token → Expr → Prop}
    (hnext : Ensures next (Yields derives Expr.ids)) :
    Ensures (chain tier.level next) (Yields (Chain tier derives) Expr.ids) := by
  refine (hnext.bind fun first => Ensures.bind_nextIs (Ensures.pure first)
    (Ensures.remaining.bind fun limit => ensures_operations tier hnext limit first)).mono ?_
  rintro cursor result reached ⟨first, between, hbetween, hreached, ⟨tokens, hrest, hfirst, hfresh⟩,
    ⟨-, rfl, rfl⟩ | ⟨-, limit, start, -, -, ⟨-, rfl⟩, tokens', ids, hrest', hresult, hids, hfresh'⟩⟩
  · refine ⟨tokens ++ [], by simpa using hrest, .mk hfirst .done, hfresh⟩
  · refine ⟨tokens ++ tokens', ?_, .mk hfirst hresult, ?_⟩
    · simp [hrest, hrest']
    · rw [hids]
      exact hfresh.append hfresh' hbetween.nextId hreached.nextId

/-- The tokens of constants, and the constants that they denote. -/
theorem constant_of_literal? {token : Token} (h : (literal? token.kind).isSome) :
    Constant token ((literal? token.kind).getD .nil) := by
  rcases token with ⟨kind, lexeme, line⟩
  cases kind with
  | symbol symbol => simp [literal?] at h
  | identifier => simp [literal?] at h
  | number value => exact .number rfl
  | string value => exact .string rfl
  | keyword keyword =>
      cases keyword <;> first
        | exact .nil rfl
        | exact .true rfl
        | exact .false rfl
        | simp [literal?] at h

/-! ## Lists of phrases -/

theorem ensures_itemsFrom {item : Reading α} {derives : List Token → α → Prop}
    {ids : α → List NodeId} (hitem : Ensures item (Yields derives ids)) (excess : SyntaxCause)
    (limit count : Nat) :
    Ensures (itemsFrom item excess limit count) fun cursor as reached =>
      cursor.rest.length < limit →
        count + as.length ≤ argumentLimit ∧
          Yields (Separated derives) (List.flatMap ids) cursor as reached := by
  induction limit generalizing count with
  | zero =>
      refine (Ensures.pure []).mono ?_
      intro cursor as reached _ hlimit
      exact absurd hlimit (Nat.not_lt_zero _)
  | succ limit ih =>
      refine (Ensures.noteWhen (hitem.bind fun first => Ensures.bind_accepts
        (Ensures.pure [first])
        ((ih (count + 1)).bind fun rest => Ensures.pure (first :: rest))) excess).mono ?_
      rintro cursor as reached ⟨hcount, first, between, hbetween, -,
        ⟨tokens, hrest, hfirst, hfresh⟩, ⟨-, rfl, rfl⟩ | ⟨comma, second, hcomma, hpasses, -, rest,
        third, hthird, -, hlist, rfl, rfl⟩⟩ hlimit
      · refine ⟨Nat.lt_of_not_le hcount, tokens, hrest, .one hfirst, ?_⟩
        simpa using hfresh
      · have hlength : second.rest.length < limit := by
          have hsuffix := congrArg List.length hrest
          rw [hpasses.rest] at hsuffix
          simp only [List.length_append, List.length_cons] at hsuffix
          omega
        obtain ⟨hcount', tokens', hrest', hrest'', hfresh'⟩ := hlist hlength
        rw [hpasses.nextId] at hfresh'
        refine ⟨?_, tokens ++ comma :: tokens', ?_, .more hfirst hcomma hrest'', ?_⟩
        · rw [List.length_cons]
          omega
        · simp [hrest, hpasses.rest, hrest']
        · exact hfresh.append hfresh' hbetween.nextId (hpasses.nextId ▸ hthird.nextId)

theorem ensures_items {item : Reading α} {derives : List Token → α → Prop}
    {ids : α → List NodeId} (hitem : Ensures item (Yields derives ids)) (excess : SyntaxCause) :
    Ensures (items item excess) fun cursor as reached =>
      as.length ≤ argumentLimit ∧
        Yields (Listed derives) (List.flatMap ids) cursor as reached := by
  refine (Ensures.bind_nextIs
    (Ensures.remaining.bind fun limit => ensures_itemsFrom hitem excess (limit + 1) 0)
    (Ensures.pure [])).mono ?_
  rintro cursor as reached (⟨-, limit, start, -, -, ⟨rfl, rfl⟩, hlist⟩ | ⟨-, rfl, rfl⟩)
  · obtain ⟨hcount, tokens, hrest, hlist, hfresh⟩ := hlist (Nat.lt_succ_self _)
    exact ⟨by omega, tokens, hrest, .inr hlist, hfresh⟩
  · exact ⟨Nat.zero_le _, [], rfl, .inl ⟨rfl, rfl⟩, .nil _ _⟩

/-! ## Calls, properties and unary operators -/

variable {inner : Inner} {within : Phrases}

theorem ensures_primary (h : inner.Sound within) :
    Ensures (primary inner) (Yields (Primary within) Expr.ids) := by
  refine (Ensures.bind_accept?
    (Ensures.bind_accept?
      (Ensures.bind_accept?
        (Ensures.bind_accept?
          (Ensures.bind_accepts (Ensures.stop .expression)
            (h.expression.bind fun expression =>
              (Ensures.expect _ .parenAfterExpression).bind fun _ =>
                Ensures.pure (Expr.grouping expression)))
          fun name => (Ensures.occurrence name).bind fun place =>
            Ensures.pure (Expr.variable place))
        fun keyword => (Ensures.occurrence keyword).bind fun place =>
          Ensures.pure (Expr.thisRef place))
      fun keyword => (Ensures.expect _ .dotAfterSuper).bind fun _ =>
        (Ensures.expect _ .superclassMethodName).bind fun method =>
          (Ensures.occurrence keyword).bind fun place =>
            Ensures.pure (Expr.superRef place method))
    fun token => Ensures.pure (Expr.literal ((literal? token.kind).getD .nil))).mono ?_
  rintro cursor result reached
    (⟨-, ⟨-, ⟨-, ⟨-, ⟨-, hfalse⟩ | hgrouping⟩ | hname⟩ | hthis⟩ | hsuper⟩ | hconstant)
  · exact hfalse.elim
  · obtain ⟨opening, first, hopening, hpasses, -, expression, second, -, hsecond,
      ⟨tokens, hrest, hexpression, hfresh⟩, closing, third, -, -, ⟨hclosing, hpasses'⟩, rfl,
      rfl⟩ := hgrouping
    rw [hpasses.nextId] at hfresh
    refine ⟨opening :: (tokens ++ [closing]), ?_, .grouping hopening hexpression hclosing, ?_⟩
    · simp [hpasses.rest, hrest, hpasses'.rest]
    · exact hfresh.mono (Nat.le_refl _) hsecond.nextId
  · obtain ⟨name, first, hname, hpasses, -, place, second, -, -, ⟨rfl, rfl⟩, rfl, rfl⟩ := hname
    refine ⟨[name], hpasses.rest, .name hname, ?_⟩
    exact hpasses.nextId ▸ Fresh.singleton first.nextId
  · obtain ⟨word, first, hword, hpasses, -, place, second, -, -, ⟨rfl, rfl⟩, rfl, rfl⟩ := hthis
    refine ⟨[word], hpasses.rest, .thisRef hword, ?_⟩
    exact hpasses.nextId ▸ Fresh.singleton first.nextId
  · obtain ⟨word, first, hword, hpasses, -, dot, second, -, -, ⟨hdot, hpasses'⟩, method, third,
      -, -, ⟨hmethod, hpasses''⟩, place, fourth, -, -, ⟨rfl, rfl⟩, rfl, rfl⟩ := hsuper
    refine ⟨[word, dot, method], ?_, .superRef hword hdot hmethod, ?_⟩
    · simp [hpasses.rest, hpasses'.rest, hpasses''.rest]
    · have hids := (hpasses''.nextId.trans hpasses'.nextId).trans hpasses.nextId
      exact hids ▸ Fresh.singleton third.nextId
  · obtain ⟨token, first, hliteral, hpasses, -, rfl, rfl⟩ := hconstant
    exact ⟨[token], hpasses.rest, .constant (constant_of_literal? hliteral), .nil _ _⟩

/-- A call that is finished goes on behind its closing parenthesis. -/
theorem ensures_finishCall (h : inner.Sound within) (callee : Expr) :
    Ensures (finishCall inner callee) fun cursor result reached =>
      ∃ tokens closing arguments, cursor.rest = tokens ++ closing :: reached.rest ∧
        Listed within.expression tokens arguments ∧ arguments.length ≤ argumentLimit ∧
        closing.isSymbol .rightParen ∧ result = .call callee closing arguments ∧
        Fresh cursor.nextId reached.nextId (Expr.idsAll arguments) := by
  refine ((ensures_items h.expression .tooManyArguments).bind fun arguments =>
    (Ensures.expect _ .parenAfterArguments).bind fun closing =>
      Ensures.pure (Expr.call callee closing arguments)).mono ?_
  rintro cursor result reached ⟨arguments, first, -, -, ⟨hlength, tokens, hrest, hlist, hfresh⟩,
    closing, second, -, -, ⟨hclosing, hpasses⟩, rfl, rfl⟩
  rw [← Expr.idsAll_eq_flatMap, ← hpasses.nextId] at hfresh
  exact ⟨tokens, closing, arguments, hpasses.rest ▸ hrest, hlist, hlength, hclosing, rfl, hfresh⟩

theorem ensures_selections (h : inner.Sound within) (limit : Nat) (subject : Expr) :
    Ensures (selections inner limit subject) fun cursor result reached =>
      ∃ tokens ids, cursor.rest = tokens ++ reached.rest ∧
        Selections within subject tokens result ∧ result.ids = subject.ids ++ ids ∧
        Fresh cursor.nextId reached.nextId ids := by
  induction limit generalizing subject with
  | zero =>
      refine (Ensures.pure subject).mono ?_
      rintro cursor result reached ⟨rfl, rfl⟩
      exact ⟨[], [], rfl, .done, by simp, .nil _ _⟩
  | succ limit ih =>
      refine (Ensures.bind_accepts
        (Ensures.bind_accepts (Ensures.pure subject)
          ((Ensures.expect _ .propertyName).bind fun name => ih (.get subject name)))
        ((ensures_finishCall h subject).bind ih)).mono ?_
      rintro cursor result reached (⟨-, ⟨-, rfl, rfl⟩ | hget⟩ | hcall)
      · exact ⟨[], [], rfl, .done, by simp, .nil _ _⟩
      · obtain ⟨dot, first, hdot, hpasses, -, name, second, -, -, ⟨hname, hpasses'⟩, tokens, ids,
          hrest, hresult, hids, hfresh⟩ := hget
        rw [hpasses'.nextId, hpasses.nextId] at hfresh
        refine ⟨dot :: name :: tokens, ids, ?_, .get hdot hname hresult, hids, hfresh⟩
        simp [hpasses.rest, hpasses'.rest, hrest]
      · obtain ⟨opening, first, hopening, hpasses, -, called, second, hsecond, hreached,
          ⟨tokens, closing, arguments, hrest, hlist, hlength, hclosing, rfl, hfresh⟩, tokens',
          ids, hrest', hresult, hids, hfresh'⟩ := hcall
        rw [hpasses.nextId] at hfresh
        refine ⟨opening :: (tokens ++ closing :: tokens'), Expr.idsAll arguments ++ ids, ?_,
          .call hopening hlist hlength hclosing hresult, ?_, ?_⟩
        · simp [hpasses.rest, hrest, hrest']
        · rw [hids, Expr.ids, List.append_assoc]
        · exact hfresh.append hfresh' (hpasses.nextId ▸ hsecond.nextId) hreached.nextId

theorem ensures_call (h : inner.Sound within) :
    Ensures (call inner) (Yields (Call within) Expr.ids) := by
  refine ((ensures_primary h).bind fun subject => Ensures.bind_nextIs (Ensures.pure subject)
    (Ensures.remaining.bind fun limit => ensures_selections h limit subject)).mono ?_
  rintro cursor result reached ⟨subject, between, hbetween, hreached,
    ⟨tokens, hrest, hsubject, hfresh⟩, ⟨-, rfl, rfl⟩ | ⟨-, limit, start, -, -, ⟨-, rfl⟩, tokens',
    ids, hrest', hresult, hids, hfresh'⟩⟩
  · exact ⟨tokens ++ [], by simpa using hrest, .mk hsubject .done, hfresh⟩
  · refine ⟨tokens ++ tokens', ?_, .mk hsubject hresult, ?_⟩
    · simp [hrest, hrest']
    · rw [hids]
      exact hfresh.append hfresh' hbetween.nextId hreached.nextId

theorem ensures_unary (h : inner.Sound within) :
    Ensures (unary inner) (Yields (Unary within) Expr.ids) := by
  refine (Ensures.bind_accept? (ensures_call h) fun operator =>
    h.operand.bind fun operand => Ensures.pure (Expr.unary operator operand)).mono ?_
  rintro cursor result reached (⟨-, tokens, hrest, hcall, hfresh⟩ | ⟨operator, first, hoperator,
    hpasses, -, operand, second, -, -, ⟨tokens, hrest, hoperand, hfresh⟩, rfl, rfl⟩)
  · exact ⟨tokens, hrest, .call hcall, hfresh⟩
  · rw [hpasses.nextId] at hfresh
    refine ⟨operator :: tokens, ?_, .operator ?_ hoperand, hfresh⟩
    · simp [hpasses.rest, hrest]
    · simpa using hoperator

theorem ensures_disjunction (h : inner.Sound within) :
    Ensures (disjunction inner) (Yields (Layered within tiers) Expr.ids) :=
  ensures_chain .disjunction <| ensures_chain .conjunction <| ensures_chain .equality <|
    ensures_chain .comparison <| ensures_chain .term <| ensures_chain .factor <| ensures_unary h

/-! ## Assignments -/

/-- Operators make a tree of their own tier. -/
theorem Operations.eq_nil_or_node {tier : Tier} {derives : List Token → Expr → Prop}
    {left result : Expr} {tokens : List Token} (h : Operations tier derives left tokens result) :
    (tokens = [] ∧ result = left) ∨ ∃ operator a b, result = tier.node operator a b := by
  induction h with
  | done => exact .inl ⟨rfl, rfl⟩
  | more _ _ _ ih =>
      rcases ih with ⟨-, rfl⟩ | hnode
      · exact .inr ⟨_, _, _, rfl⟩
      · exact .inr hnode

/-- A tree that no binary operator makes is derived by a unary expression. -/
theorem Layered.unary {tiers : List Tier} {tokens : List Token} {result : Expr}
    (h : Layered within tiers tokens result)
    (hresult : ∀ (tier : Tier) operator a b, result ≠ tier.node operator a b) :
    Unary within tokens result := by
  induction tiers generalizing tokens with
  | nil => exact h
  | cons tier tighter ih =>
      cases h with
      | mk hfirst hrest =>
          rcases hrest.eq_nil_or_node with ⟨rfl, rfl⟩ | ⟨operator, a, b, heq⟩
          · rw [List.append_nil]
            exact ih hfirst
          · exact absurd heq (hresult _ _ _ _)

/-- Only a name by itself derives a variable. -/
theorem Selections.eq_nil_of_variable {subject : Expr} {tokens : List Token} {place : Occurrence}
    (h : Selections within subject tokens (.variable place)) :
    tokens = [] ∧ subject = .variable place := by
  generalize hresult : Expr.variable place = result at h
  induction h with
  | done => exact ⟨rfl, rfl⟩
  | call _ _ _ _ _ ih => cases hresult.trans (ih hresult).2.symm
  | get _ _ _ ih => cases hresult.trans (ih hresult).2.symm

/-- A property that is selected last. -/
theorem Selections.eq_append_of_get {subject object : Expr} {tokens : List Token} {name : Token}
    (h : Selections within subject tokens (.get object name)) :
    (tokens = [] ∧ subject = .get object name) ∨
      ∃ before dot, tokens = before ++ [dot, name] ∧ dot.isSymbol .dot ∧ name.isIdentifier ∧
        Selections within subject before object := by
  generalize hresult : Expr.get object name = result at h
  induction h with
  | done => exact .inl ⟨rfl, rfl⟩
  | call hopening hlist hlength hclosing _ ih =>
      rcases ih hresult with ⟨-, heq⟩ | ⟨before, dot, rfl, hdot, hname, hbefore⟩
      · cases hresult.trans heq.symm
      · refine .inr ⟨_, dot, ?_, hdot, hname, .call hopening hlist hlength hclosing hbefore⟩
        simp
  | get hdot hname _ ih =>
      rcases ih hresult with ⟨rfl, heq⟩ | ⟨before, dot', rfl, hdot', hname', hbefore⟩
      · cases hresult.trans heq.symm
        exact .inr ⟨[], _, rfl, hdot, hname, .done⟩
      · exact .inr ⟨_, dot', rfl, hdot', hname', .get hdot hname hbefore⟩

theorem Layered.eq_singleton_of_variable {tokens : List Token} {place : Occurrence}
    (h : Layered within tiers tokens (.variable place)) :
    tokens = [place.name] ∧ place.name.isIdentifier := by
  cases h.unary (by intro tier _ _ _; cases tier <;> simp [Tier.node]) with
  | call hcall =>
      cases hcall with
      | mk hprimary hrest =>
          obtain ⟨rfl, rfl⟩ := hrest.eq_nil_of_variable
          cases hprimary with
          | name hname => exact ⟨rfl, hname⟩

theorem Layered.eq_append_of_get {tokens : List Token} {object : Expr} {name : Token}
    (h : Layered within tiers tokens (.get object name)) :
    ∃ before dot, tokens = before ++ [dot, name] ∧ dot.isSymbol .dot ∧ name.isIdentifier ∧
      Call within before object := by
  cases h.unary (by intro tier _ _ _; cases tier <;> simp [Tier.node]) with
  | call hcall =>
      cases hcall with
      | mk hprimary hrest =>
          rcases hrest.eq_append_of_get with ⟨-, rfl⟩ | ⟨before, dot, rfl, hdot, hname, hbefore⟩
          · cases hprimary
          · exact ⟨_, dot, by simp, hdot, hname, .mk hprimary hbefore⟩

/-- Where nothing is noted, the value has been assigned to a variable or to a property. -/
theorem ensures_assignTo (target : Expr) (equal : Token) (value : Expr) :
    Ensures (assignTo target equal value) fun cursor result reached =>
      (∃ place, target = .variable place ∧ result = .assign ⟨cursor.nextId, place.name⟩ value ∧
        reached = { cursor with nextId := cursor.nextId + 1 }) ∨
      ∃ object name, target = .get object name ∧ result = .set object name value ∧
        reached = cursor := by
  have hother : Ensures (do
      note ⟨.assignmentTarget, .token equal⟩
      return target) fun _ _ _ => False := by
    refine ((Ensures.note _).bind fun _ => Ensures.pure target).mono ?_
    rintro cursor result reached ⟨-, between, -, -, hfalse, -⟩
    exact hfalse
  cases target with
  | «variable» place =>
      refine ((Ensures.occurrence place.name).bind fun place =>
        Ensures.pure (Expr.assign place value)).mono ?_
      rintro cursor result reached ⟨place', between, -, -, ⟨rfl, rfl⟩, rfl, rfl⟩
      exact .inl ⟨place, rfl, rfl, rfl⟩
  | get object name =>
      refine (Ensures.pure (Expr.set object name value)).mono ?_
      rintro cursor result reached ⟨rfl, rfl⟩
      exact .inr ⟨object, name, rfl, rfl, rfl⟩
  | _ => exact hother.mono fun _ _ _ hfalse => hfalse.elim

theorem ensures_assignment (h : inner.Sound within) :
    Ensures (assignment inner) (Yields (Assignment within) Expr.ids) := by
  refine ((ensures_disjunction h).bind fun target => Ensures.bind_accept? (Ensures.pure target)
    fun equal => h.expression.bind fun value => ensures_assignTo target equal value).mono ?_
  rintro cursor result reached ⟨target, first, hfirst, -, ⟨tokens, hrest, hderives, hfresh⟩,
    ⟨-, rfl, rfl⟩ | ⟨equal, second, hequal, hpasses, -, value, third, hthird, hreached,
    ⟨tokens', hrest', hvalue, hfresh'⟩, hresult⟩⟩
  · exact ⟨tokens, hrest, .plain hderives, hfresh⟩
  · rw [hpasses.nextId] at hfresh'
    have hids : first.nextId ≤ third.nextId := hpasses.nextId ▸ hthird.nextId
    rcases hresult with ⟨place, rfl, rfl, rfl⟩ | ⟨object, name, rfl, rfl, rfl⟩
    · obtain ⟨rfl, hname⟩ := hderives.eq_singleton_of_variable
      refine ⟨place.name :: equal :: tokens', ?_, .toVariable hname hequal hvalue, ?_⟩
      · simp [hrest, hpasses.rest, hrest']
      · exact (hfresh'.append (.singleton _) hids (Nat.le_succ _)).mono hfirst.nextId
          (Nat.le_refl _)
    · obtain ⟨before, dot, rfl, hdot, hname, hcall⟩ := hderives.eq_append_of_get
      refine ⟨before ++ dot :: name :: equal :: tokens', ?_,
        .toProperty hcall hdot hname hequal hvalue, ?_⟩
      · simp [hrest, hpasses.rest, hrest']
      · exact (hfresh.append hfresh' hfirst.nextId hids).swap

theorem Inner.sound_opened (h : inner.Sound within) : inner.opened.Sound within.nested where
  expression := ensures_assignment h
  operand := ensures_unary h

end Grammar

end LoxLang
