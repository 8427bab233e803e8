import LoxLang.Proofs.Grammar.Walk.Following

/-!
# Walks that call no rule

A walk is steady if it leaves the walker as deep as before, calls no rule and raises no fault of
nesting, whatever comes of it.  Looking at the next token, going past it, giving numbers, noting a
fault and going on behind one are steady.
-/

namespace LoxLang

/-- The faults of nesting among given ones. -/
def nestingFaults (faults : List SyntaxFault) : List SyntaxFault :=
  faults.filter (·.cause = .nesting)

theorem nestingFaults_cons_of_ne {fault : SyntaxFault} (h : fault.cause ≠ .nesting)
    (faults : List SyntaxFault) : nestingFaults (fault :: faults) = nestingFaults faults :=
  List.filter_cons_of_neg (by simpa using h)

namespace Walk

variable {α β : Type}

/-- The faults raised so far, the latest first: those that have been noted, and in front of them the
one that has just stopped a rule. -/
def raised : Except Break α → (noted : List SyntaxFault) → List SyntaxFault
  | .error (.fault fault), noted => fault :: noted
  | _, noted => noted

/-- A walker that is as deep as before and has called no rule, and no fault of nesting has been
raised. -/
structure Stays (walker : Walker) (walked : Except Break α × Walker) : Prop where
  depth : walked.2.depth = walker.depth
  calls : walked.2.calls = walker.calls
  visits : walked.2.visits = walker.visits
  raised : nestingFaults (raised walked.1 walked.2.errors) = nestingFaults walker.errors

/-- A walk that calls no rule. -/
def Steady (walk : Walk α) : Prop :=
  ∀ walker : Walker, Stays walker (exec walk walker)

namespace Steady

variable {walk : Walk α} {next : α → Walk β}

/-! ## Putting walks together -/

theorem pure (a : α) : Steady (pure a) :=
  fun _ => ⟨rfl, rfl, rfl, rfl⟩

theorem bind (h : Steady walk) (hnext : ∀ a, Steady (next a)) : Steady (walk >>= next) := by
  intro walker
  obtain ⟨hdepth, hcalls, hvisits, hraised⟩ := h walker
  rw [exec_bind]
  rcases hwalk : exec walk walker with ⟨reason | a, reached⟩
  all_goals rw [hwalk] at hdepth hcalls hvisits hraised
  · exact ⟨hdepth, hcalls, hvisits, by cases reason <;> exact hraised⟩
  · have hstays := hnext a reached
    exact ⟨hstays.depth.trans hdepth, hstays.calls.trans hcalls, hstays.visits.trans hvisits,
      hstays.raised.trans hraised⟩

theorem ite {condition : Prop} [Decidable condition] {walk walk' : Walk α}
    (h : Steady walk) (h' : Steady walk') : Steady (if condition then walk else walk') := by
  split
  · exact h
  · exact h'

theorem get : Steady get :=
  fun _ => ⟨rfl, rfl, rfl, rfl⟩

theorem modify {change : Walker → Walker} (hdepth : ∀ walker, (change walker).depth = walker.depth)
    (hcalls : ∀ walker, (change walker).calls = walker.calls)
    (hvisits : ∀ walker, (change walker).visits = walker.visits)
    (herrors : ∀ walker, (change walker).errors = walker.errors) : Steady (modify change) :=
  fun walker => ⟨hdepth walker, hcalls walker, hvisits walker,
    congrArg nestingFaults (herrors walker)⟩

theorem outside : Steady (throw .outside : Walk α) :=
  fun _ => ⟨rfl, rfl, rfl, rfl⟩

theorem endless : Steady (throw .endless : Walk α) :=
  fun _ => ⟨rfl, rfl, rfl, rfl⟩

/-! ## Steps -/

variable (test : Token → Bool) {cause : SyntaxCause}

theorem tokenAt (index : Nat) : Steady (tokenAt index) :=
  .bind .get fun _ => .ite (.pure _) .outside

theorem peek : Steady peek :=
  .bind .get fun walker => .tokenAt walker.current

theorem previous : Steady previous := by
  refine .bind .get fun walker => ?_
  cases walker.current with
  | zero => exact .outside
  | succ index => exact .tokenAt index

theorem isAtEnd : Steady isAtEnd :=
  .bind .peek fun _ => .pure _

theorem check : Steady (check test) :=
  .bind .isAtEnd fun _ => .ite (.pure _) (.bind .peek fun _ => .pure _)

theorem advance : Steady advance := by
  refine .bind .isAtEnd fun _ => .ite .previous ?_
  exact .bind (.modify (fun _ => rfl) (fun _ => rfl) (fun _ => rfl) fun _ => rfl) fun _ => .previous

theorem accept? : Steady (accept? test) :=
  .bind (.check test) fun _ => .ite .advance (.pure _)

theorem accepts : Steady (accepts test) :=
  .bind (.accept? test) fun _ => .pure _

theorem place : Steady place := by
  refine .bind .peek fun next => ?_
  cases next with
  | none => exact .bind .get fun _ => .pure _
  | some token => exact .pure _

/-- A rule may be stopped by any fault but one of nesting. -/
theorem stop (h : cause ≠ .nesting) : Steady (stop cause : Walk α) :=
  .bind .place fun _ _ => ⟨rfl, rfl, rfl, nestingFaults_cons_of_ne h _⟩

theorem note {fault : SyntaxFault} (h : fault.cause ≠ .nesting) : Steady (note fault) :=
  fun _ => ⟨rfl, rfl, rfl, nestingFaults_cons_of_ne h _⟩

theorem noteHere (h : cause ≠ .nesting) : Steady (noteHere cause) :=
  .bind .place fun _ => .note h

theorem expect (h : cause ≠ .nesting) : Steady (expect test cause) := by
  refine .bind (.accept? test) fun found => ?_
  cases found with
  | none => exact .stop h
  | some token => exact .pure token

theorem occurrence (name : Token) : Steady (occurrence name) :=
  fun _ => ⟨rfl, rfl, rfl, rfl⟩

theorem rounds : Steady rounds :=
  .bind .get fun _ => .pure _

theorem bodyEnds : Steady bodyEnds :=
  .bind (.check _) fun _ => .bind .isAtEnd fun _ => .pure _

/-! ## Parts of rules -/

theorem assignTo (target : Expr) (equal : Token) (value : Expr) :
    Steady (assignTo target equal value) := by
  cases target with
  | «variable» place => exact .bind (.occurrence place.name) fun _ => .pure _
  | get object name => exact .pure _
  | _ => exact .bind (.note nofun) fun _ => .pure _

theorem inheritance : Steady inheritance := by
  refine .bind (.accepts _) fun _ => .ite ?_ (.pure _)
  exact .bind (.expect _ nofun) fun name => .bind (.occurrence name) fun _ => .pure _

theorem skip (limit : Nat) : Steady (skip limit) := by
  induction limit with
  | zero => exact .endless
  | succ limit ih =>
      refine .bind .isAtEnd fun _ => .ite (.pure _) (.bind .previous fun _ => .ite (.pure _) ?_)
      exact .bind .peek fun _ => .ite (.pure _) (.bind .advance fun _ => ih)

theorem synchronize : Steady synchronize :=
  .bind .advance fun _ => .bind .rounds fun limit => .skip limit

end Steady

end Walk

end LoxLang
