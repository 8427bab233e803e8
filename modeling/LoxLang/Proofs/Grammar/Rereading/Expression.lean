import LoxLang.Proofs.Grammar.Rereading.Basic

/-!
# Reading expressions again

The rules for expressions go the same way on a text that is read again.  None of them is over before
the token behind the expression has been looked at.
-/

namespace LoxLang

namespace Grammar

open Reading

variable {again : Rereading} {limit : Nat}

/-- The rules for what stands inside a nesting go the same way. -/
structure Inner.Retraces (again : Rereading) (inner : Inner) : Prop where
  expression : ∀ limit, Reading.Retraces again False limit (Expr.relabel again.labels)
    inner.expression inner.expression
  operand : ∀ limit, Reading.Retraces again False limit (Expr.relabel again.labels)
    inner.operand inner.operand

/-! ## Operators -/

theorem retraces_operations {level : Level} {next : Reading Expr}
    (hnode : ∀ operator left right, (level.node operator left right).relabel again.labels =
      level.node (again.labels.token operator) (left.relabel again.labels)
        (right.relabel again.labels))
    (hnext : ∀ limit, Retraces again False limit (Expr.relabel again.labels) next next)
    (limit : Nat) (left : Expr) :
    Retraces again False limit (Expr.relabel again.labels) (operations level next limit left)
      (operations level next (limit + again.more.length) (left.relabel again.labels)) := by
  induction limit generalizing left with
  | zero =>
      refine .of_end (Ensures.pure left) fun hmore => ?_
      rw [hmore]
      exact .pure rfl
  | succ limit ih =>
      rw [Nat.succ_add]
      refine .bind_accept? (fun _ => rfl) (fun operator => ?_) (.pure rfl) False.elim
      refine .bind (hnext limit) fun right => ?_
      rw [← hnode]
      exact ih _

theorem retraces_chain {level : Level} {next : Reading Expr}
    (hnode : ∀ operator left right, (level.node operator left right).relabel again.labels =
      level.node (again.labels.token operator) (left.relabel again.labels)
        (right.relabel again.labels))
    (hnext : ∀ limit, Retraces again False limit (Expr.relabel again.labels) next next)
    (limit : Nat) :
    Retraces again False limit (Expr.relabel again.labels) (chain level next)
      (chain level next) := by
  refine .bind (hnext limit) fun first => .bind (.nextIs fun _ => rfl) fun found => ?_
  cases found with
  | false => exact .pure rfl
  | true => exact .bind_remaining fun n => retraces_operations hnode hnext n first

/-! ## Lists of phrases -/

theorem retraces_itemsFrom {α β : Type} {f : α → β} {item : Reading α} {item' : Reading β}
    (hitem : ∀ limit, Retraces again False limit f item item') (excess : SyntaxCause)
    (limit count : Nat) :
    Retraces again False limit (List.map f) (itemsFrom item excess limit count)
      (itemsFrom item' excess (limit + again.more.length) count) := by
  induction limit generalizing count with
  | zero =>
      refine .of_end (Ensures.pure []) fun hmore => ?_
      rw [hmore]
      exact .pure rfl
  | succ limit ih =>
      rw [Nat.succ_add]
      refine .noteWhen (.bind (hitem _) fun first => ?_) excess
      refine .bind_accepts (fun _ => rfl) ?_ (.pure rfl) False.elim
      exact .bind (ih (count + 1)) fun rest => .pure rfl

theorem retraces_items {α β : Type} {f : α → β} {item : Reading α} {item' : Reading β}
    (hitem : ∀ limit, Retraces again False limit f item item') (excess : SyntaxCause)
    (limit : Nat) :
    Retraces again False limit (List.map f) (items item excess) (items item' excess) := by
  refine .bind (.nextIs fun _ => rfl) fun found => ?_
  cases found with
  | true => exact .pure rfl
  | false =>
      refine .bind_remaining fun n => ?_
      have hitems := retraces_itemsFrom hitem excess (n + 1) 0
      rw [Nat.succ_add] at hitems
      exact hitems.mono_limit (Nat.le_succ n)

/-! ## Calls, properties and unary operators -/

variable {inner : Inner}

theorem retraces_finishCall (h : inner.Retraces again) (callee : Expr) (limit : Nat) :
    Retraces again False limit (Expr.relabel again.labels) (finishCall inner callee)
      (finishCall inner (callee.relabel again.labels)) := by
  refine .bind_expect (retraces_items h.expression _ limit) (fun _ => rfl) _ ?_
  intro arguments paren
  exact .pure (by rw [Expr.relabel, Expr.relabelAll_eq_map])

theorem retraces_primary (h : inner.Retraces again) (limit : Nat) :
    Retraces again False limit (Expr.relabel again.labels) (primary inner) (primary inner) := by
  refine .bind_accept? (fun _ => rfl) (fun token => .pure rfl) ?_ False.elim
  refine .bind_accept? (fun _ => rfl) (fun keyword => ?_) ?_ False.elim
  · refine .bind (.expect (fun _ => rfl) _) fun _ => ?_
    refine .bind (.expect (fun _ => rfl) _) fun method => ?_
    exact .bind (.occurrence keyword) fun place => .pure rfl
  refine .bind_accept? (fun _ => rfl) (fun keyword => ?_) ?_ False.elim
  · exact .bind (.occurrence keyword) fun place => .pure rfl
  refine .bind_accept? (fun _ => rfl) (fun name => ?_) ?_ False.elim
  · exact .bind (.occurrence name) fun place => .pure rfl
  refine .bind_accepts (fun _ => rfl) ?_ (.stop _) False.elim
  exact .bind_expect (h.expression _) (fun _ => rfl) _ fun expression _ => .pure rfl

theorem retraces_selections (h : inner.Retraces again) (limit : Nat) (subject : Expr) :
    Retraces again False limit (Expr.relabel again.labels) (selections inner limit subject)
      (selections inner (limit + again.more.length) (subject.relabel again.labels)) := by
  induction limit generalizing subject with
  | zero =>
      refine .of_end (Ensures.pure subject) fun hmore => ?_
      rw [hmore]
      exact .pure rfl
  | succ limit ih =>
      rw [Nat.succ_add]
      refine .bind_accepts (fun _ => rfl) ?_ ?_ False.elim
      · exact .bind (retraces_finishCall h subject limit) ih
      refine .bind_accepts (fun _ => rfl) ?_ (.pure rfl) False.elim
      exact .bind (.expect (fun _ => rfl) _) fun name => ih (.get subject name)

theorem retraces_call (h : inner.Retraces again) (limit : Nat) :
    Retraces again False limit (Expr.relabel again.labels) (call inner) (call inner) := by
  refine .bind (retraces_primary h limit) fun subject =>
    .bind (.nextIs fun _ => rfl) fun found => ?_
  cases found with
  | false => exact .pure rfl
  | true => exact .bind_remaining fun n => retraces_selections h n subject

theorem retraces_unary (h : inner.Retraces again) (limit : Nat) :
    Retraces again False limit (Expr.relabel again.labels) (unary inner) (unary inner) := by
  refine .bind_accept? (fun _ => rfl) (fun operator => ?_) (retraces_call h limit) False.elim
  exact .bind (h.operand _) fun operand => .pure rfl

theorem retraces_disjunction (h : inner.Retraces again) (limit : Nat) :
    Retraces again False limit (Expr.relabel again.labels) (disjunction inner)
      (disjunction inner) :=
  retraces_chain (fun _ _ _ => rfl) (retraces_chain (fun _ _ _ => rfl)
    (retraces_chain (fun _ _ _ => rfl) (retraces_chain (fun _ _ _ => rfl)
      (retraces_chain (fun _ _ _ => rfl) (retraces_chain (fun _ _ _ => rfl)
        (retraces_unary h)))))) limit

/-! ## Assignments -/

theorem retraces_assignTo (target : Expr) (equal : Token) (value : Expr) (limit : Nat) :
    Retraces again False limit (Expr.relabel again.labels) (assignTo target equal value)
      (assignTo (target.relabel again.labels) (again.labels.token equal)
        (value.relabel again.labels)) := by
  cases target with
  | «variable» place => exact .bind (.occurrence place.name) fun place => .pure rfl
  | get object name => exact .pure rfl
  | _ => exact .bind (.note _) fun _ => .pure rfl

theorem retraces_assignment (h : inner.Retraces again) (limit : Nat) :
    Retraces again False limit (Expr.relabel again.labels) (assignment inner)
      (assignment inner) := by
  refine .bind (retraces_disjunction h limit) fun target => ?_
  refine .bind_accept? (fun _ => rfl) (fun equal => ?_) (.pure rfl) False.elim
  exact .bind (h.expression _) fun value => retraces_assignTo target equal value _

theorem Inner.retraces_full : Inner.full.Retraces again where
  expression _ := .stop .nesting
  operand _ := .stop .nesting

theorem Inner.retraces_opened (h : inner.Retraces again) : inner.opened.Retraces again where
  expression := retraces_assignment h
  operand := retraces_unary h

end Grammar

end LoxLang
