import LoxLang.Proofs.Grammar.Descent.Calls
import LoxLang.Proofs.Grammar.Descent.Steady

/-!
# Regular walks

A part of a rule is regular if it leaves a walker as deep as it was and what has been written down
in order: every call leaves the depth as it was, which is the number of nestings that the calls
around have opened, a nesting is refused only where as many are open as may be, and the faults of
nesting are those of the calls that were refused.  There is one lemma for each way in which rules
are put together.
-/

namespace LoxLang

/-- A call that has left the depth as it was, which is the number of nestings that its callers have
opened. -/
structure Visit.Balanced (visit : Visit) : Prop where
  linked : Rule.Linked (visit.rule :: visit.callers)
  restored : visit.left = visit.entered
  counted : visit.entered = Rule.nestings visit.callers
  bounded : visit.entered ≤ nestingLimit
  /-- Around a declaration only nestings of statements and function bodies are open. -/
  declared : visit.rule = .declaration → visit.entered = Rule.statementNestings visit.callers
  /-- A nesting is refused exactly if it would be one more than may be open. -/
  refused : visit.refusal.isSome ↔
    visit.rule.opensNesting ∧ Rule.nestings visit.callers = nestingLimit
  /-- The calls inside one another are bounded by a multiple of the nestings that may be open. -/
  shallow : visit.callers.length ≤ Rule.callsPerNesting * (nestingLimit + 1)

/-- The faults with which nestings were refused. -/
def Visit.refusals (visits : List Visit) : List SyntaxFault :=
  visits.filterMap Visit.refusal

theorem Visit.Balanced.of_linked {visit : Visit}
    (hlinked : Rule.Linked (visit.rule :: visit.callers))
    (hcounted : visit.entered = Rule.nestings visit.callers)
    (hbounded : visit.entered ≤ nestingLimit) (hleft : visit.left = visit.entered)
    (hrefused : visit.refusal.isSome ↔
      visit.rule.opensNesting ∧ Rule.nestings visit.callers = nestingLimit) :
    visit.Balanced where
  linked := hlinked
  restored := hleft
  counted := hcounted
  bounded := hbounded
  declared := by
    intro hrule
    rw [hrule] at hlinked
    exact hcounted.trans (hlinked.statementNestings_eq rfl).symm
  refused := hrefused
  shallow := by
    have hcallers : Rule.Linked visit.callers := hlinked.tail
    exact hcallers.length_le.trans
      (Nat.mul_le_mul_left _ (Nat.succ_le_succ (hcounted ▸ hbounded)))

/-- A walker ready to go on: what is written down is in order so far, and so is the depth. -/
structure Walker.Poised (walker : Walker) : Prop where
  linked : Rule.Linked walker.calls
  depth : walker.depth = Rule.nestings walker.calls
  room : walker.depth ≤ nestingLimit
  balanced : ∀ visit ∈ walker.visits, visit.Balanced
  refusals : Visit.refusals walker.visits = nestingFaults walker.errors

/-- A walker that is as deep as before and stands in the same calls is ready to go on. -/
theorem Walker.Poised.again {walker reached : Walker} (h : walker.Poised)
    (hdepth : reached.depth = walker.depth) (hcalls : reached.calls = walker.calls)
    (hbalanced : ∀ visit ∈ reached.visits, visit.Balanced)
    (hrefusals : Visit.refusals reached.visits = nestingFaults reached.errors) :
    reached.Poised where
  linked := hcalls ▸ h.linked
  depth := by rw [hdepth, hcalls, h.depth]
  room := hdepth.trans_le h.room
  balanced := hbalanced
  refusals := hrefusals

namespace Walk

variable {α β : Type} {caller rule : Rule} {walker : Walker} {walk : Walk α}

/-! ## Outcomes in order -/

/-- What has become of a walker: it is as deep as before and stands in the same calls, and what is
written down is in order. -/
structure Restores (walker : Walker) (walked : Except Break α × Walker) : Prop where
  depth : walked.2.depth = walker.depth
  calls : walked.2.calls = walker.calls
  balanced : ∀ visit ∈ walked.2.visits, visit.Balanced
  refusals : Visit.refusals walked.2.visits = nestingFaults (raised walked.1 walked.2.errors)

namespace Restores

variable {walked : Except Break α × Walker}

/-- An outcome further on, at the same depth and in the same calls. -/
theorem onward {between : Walker} (h : Restores between walked)
    (hdepth : between.depth = walker.depth) (hcalls : between.calls = walker.calls) :
    Restores walker walked :=
  { h with
    depth := h.depth.trans hdepth
    calls := h.calls.trans hcalls }

theorem of_stays (hpoised : walker.Poised) (h : Stays walker walked) : Restores walker walked where
  depth := h.depth
  calls := h.calls
  balanced := h.visits ▸ hpoised.balanced
  refusals := by rw [h.visits, hpoised.refusals, h.raised]

/-- The outcome of a rule that is called, and not refused to open a nesting, is written down. -/
theorem within (hpoised : walker.Poised) (hlinked : Rule.Linked (rule :: walker.calls))
    (hopens : rule.opensNesting → walker.depth < nestingLimit)
    (h : Restores (walker.calling rule) (exec walk (walker.calling rule))) :
    Restores walker (exec (within rule walk) walker) := by
  rw [exec_within]
  have hvisit : Visit.Balanced ⟨rule, walker.calls, walker.depth,
      (exec walk (walker.calling rule)).2.depth, none⟩ := by
    refine .of_linked hlinked hpoised.depth hpoised.room h.depth
      (iff_of_false Bool.false_ne_true ?_)
    rintro ⟨hrule, hfull⟩
    exact absurd (hpoised.depth.trans hfull) (hopens hrule).ne
  exact ⟨h.depth, rfl, List.forall_mem_cons.2 ⟨hvisit, h.balanced⟩, h.refusals⟩

/-- What is done one nesting deeper leaves the depth as it was. -/
theorem deepened (h : Restores walker.deeper (exec walk walker.deeper)) :
    Restores walker (exec (deepened walk) walker) := by
  rw [exec_deepened]
  exact ⟨Nat.sub_eq_of_eq_add h.depth, h.calls, h.balanced, h.refusals⟩

/-- Where as many nestings are open as may be, one more is refused, and its fault is raised. -/
theorem nested_of_full {nesting : Nesting} (hpoised : walker.Poised)
    (hlinked : Rule.Linked (.nested nesting :: walker.calls))
    (hfull : nestingLimit ≤ walker.depth) :
    Restores walker (exec (nested nesting walk) walker) := by
  obtain ⟨hdepth, hcalls, hvisits, hraised⟩ := Steady.place walker
  rw [exec_nested_of_full nesting walk hfull]
  rcases hplace : exec place walker with ⟨reason | place, reached⟩
  all_goals rw [hplace] at hdepth hcalls hvisits hraised
  · exact .of_stays hpoised ⟨hdepth, hcalls, hvisits, by cases reason <;> exact hraised⟩
  · have hvisit : Visit.Balanced ⟨.nested nesting, walker.calls, walker.depth, reached.depth,
        some ⟨.nesting, place⟩⟩ := by
      refine .of_linked hlinked hpoised.depth hpoised.room hdepth (iff_of_true rfl ⟨rfl, ?_⟩)
      exact hpoised.depth ▸ Nat.le_antisymm hpoised.room hfull
    have hbefore : Restores walker (.ok place, reached) :=
      .of_stays hpoised ⟨hdepth, hcalls, hvisits, hraised⟩
    exact ⟨hdepth, rfl, List.forall_mem_cons.2 ⟨hvisit, hbefore.balanced⟩,
      congrArg (List.cons _) hbefore.refusals⟩

end Restores

/-! ## Regular walks -/

/-- A part of a rule that restores every walker that is ready in a call of the rule. -/
def Regular (caller : Rule) (walk : Walk α) : Prop :=
  ∀ walker : Walker, walker.calls.head? = some caller → walker.Poised →
    Restores walker (exec walk walker)

namespace Regular

variable {next : α → Walk β}

theorem bind (h : Regular caller walk) (hnext : ∀ a, Regular caller (next a)) :
    Regular caller (walk >>= next) := by
  intro walker hcaller hpoised
  obtain ⟨hdepth, hcalls, hbalanced, hrefusals⟩ := h walker hcaller hpoised
  rw [exec_bind]
  rcases hwalk : exec walk walker with ⟨reason | a, reached⟩
  all_goals rw [hwalk] at hdepth hcalls hbalanced hrefusals
  · exact ⟨hdepth, hcalls, hbalanced, by cases reason <;> exact hrefusals⟩
  · have hready : reached.Poised := hpoised.again hdepth hcalls hbalanced hrefusals
    have hcaller' : reached.calls.head? = some caller := (congrArg List.head? hcalls).trans hcaller
    exact (hnext a reached hcaller' hready).onward hdepth hcalls

/-- What calls no rule may be a part of any. -/
theorem of_steady (h : Steady walk) : Regular caller walk :=
  fun walker _ hpoised => .of_stays hpoised (h walker)

/-- Behind a part that calls no rule. -/
theorem step (h : Steady walk) (hnext : ∀ a, Regular caller (next a)) :
    Regular caller (walk >>= next) :=
  .bind (.of_steady h) hnext

theorem pure (a : α) : Regular caller (pure a) :=
  .of_steady (.pure a)

theorem endless : Regular caller (throw .endless : Walk α) :=
  .of_steady .endless

theorem ite {condition : Prop} [Decidable condition] {walk' : Walk α}
    (h : Regular caller walk) (h' : Regular caller walk') :
    Regular caller (if condition then walk else walk') := by
  split
  · exact h
  · exact h'

/-- A part of a rule in front of which a fault may be noted. -/
theorem noteWhen {condition : Prop} [Decidable condition] {cause : SyntaxCause}
    (hcause : cause ≠ .nesting) (h : Regular caller walk) :
    Regular caller (if condition then Walk.noteHere cause >>= fun _ => walk else walk) :=
  .ite (.step (.noteHere hcause) fun _ => h) h

/-- A rule that is called and opens no nesting itself. -/
theorem within (hflat : rule.opensNesting = false) (hcall : rule ∈ caller.callees)
    (h : Regular rule walk) : Regular caller (within rule walk) := by
  intro walker hcaller hpoised
  have hlinked := hpoised.linked.cons hcaller hcall
  have hready : (walker.calling rule).Poised :=
    { hpoised with
      linked := hlinked
      depth := hpoised.depth.trans (Rule.nestings_cons_of_not hflat _).symm }
  have hopens : rule.opensNesting → walker.depth < nestingLimit :=
    fun hopens => absurd hopens (Bool.eq_false_iff.1 hflat)
  exact .within hpoised hlinked hopens (h _ rfl hready)

/-- A nesting that the caller opens, if it may. -/
theorem nested {nesting : Nesting} (hcall : .nested nesting ∈ caller.callees)
    (h : Regular (.nested nesting) walk) : Regular caller (nested nesting walk) := by
  intro walker hcaller hpoised
  have hlinked := hpoised.linked.cons hcaller hcall
  -- Only behind the comparison with the limit is the nesting open, and counted.
  rcases Nat.lt_or_ge walker.depth nestingLimit with hroom | hfull
  · have hready : (walker.calling (.nested nesting)).deeper.Poised :=
      { linked := hlinked
        depth := (congrArg Nat.succ hpoised.depth).trans
          (Rule.nestings_cons_of_opensNesting rfl _).symm
        room := hroom
        balanced := hpoised.balanced
        refusals := hpoised.refusals }
    rw [exec_nested_of_room nesting walk hroom]
    exact .within hpoised hlinked (fun _ => hroom) (.deepened (h _ rfl hready))
  · exact .nested_of_full hpoised hlinked hfull

/-- Where a rule is stopped by a fault, the fault is noted and the caller goes on. -/
theorem recover {resume : Walk α} (h : Regular caller walk) (hresume : Regular caller resume) :
    Regular caller
      (tryCatch walk fun
        | .fault fault => do
            note fault
            resume
        | reason => throw reason) := by
  intro walker hcaller hpoised
  have hrestores := h walker hcaller hpoised
  rw [exec_tryCatch]
  rcases hwalk : exec walk walker with ⟨reason | a, reached⟩
  all_goals rw [hwalk] at hrestores
  · cases reason with
    | fault fault =>
        -- The fault that has just been raised is the latest of those that are noted.
        let noted : Walker := { reached with errors := fault :: reached.errors }
        have hready : noted.Poised :=
          hpoised.again hrestores.depth hrestores.calls hrestores.balanced hrestores.refusals
        have hcaller' : noted.calls.head? = some caller :=
          (congrArg List.head? hrestores.calls).trans hcaller
        exact (hresume noted hcaller' hready).onward hrestores.depth hrestores.calls
    | outside => exact hrestores
    | endless => exact hrestores
  · exact hrestores

/-! ### Items with commas in between -/

variable {item : Walk α} {cause : SyntaxCause}

theorem itemsFrom (hitem : Regular caller item) (h : cause ≠ .nesting) (limit count : Nat) :
    Regular caller (itemsFrom item cause limit count) := by
  induction limit generalizing count with
  | zero => exact .endless
  | succ limit ih =>
      refine .noteWhen h (.bind hitem fun first => ?_)
      refine .step (.accepts _) fun _ => .ite ?_ (.pure _)
      exact .bind (ih (count + 1)) fun rest => .pure _

theorem items (hitem : Regular caller item) (h : cause ≠ .nesting) :
    Regular caller (items item cause) := by
  refine .step (.check _) fun _ => .ite (.pure _) ?_
  exact .step .rounds fun limit => itemsFrom hitem h limit 0

end Regular

end Walk

end LoxLang
