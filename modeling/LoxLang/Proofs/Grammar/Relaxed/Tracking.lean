import LoxLang.Proofs.Grammar.Relaxed.Basic
import LoxLang.Proofs.Grammar.Rereading.Program

/-!
# Reading and what may come next

Of a text that is read from left to right, a set of continuations is left at each point: what may
still come.  A rule *tracks* two such sets if the tokens that it takes off lead from the first to
the second, as far as one token of lookahead can tell.  Where the rule stops instead, no
continuation starts with the next token, although there are continuations.  Only the first fault
that stops a rule is accounted for; of what is read after it nothing is said, nor if that fault is
that phrases are nested too deeply.
-/

namespace LoxLang

/-- Whether a fault stops the rule that it comes up in.  Others are noted on the way. -/
def SyntaxCause.stops : SyntaxCause → Bool
  | .tooManyParameters | .tooManyArguments | .assignmentTarget => false
  | _ => true

namespace Grammar

open Reading

/-! ## Sets of continuations -/

/-- What may come next. -/
abbrev Continuation := List Token → Prop

/-- The tokens between `start` and `reached` lead from one set of continuations to another.  That
what comes after them is in the second set is known only if its first token is the next one. -/
def Leads (before : Continuation) (start : List Token) (after : Continuation)
    (reached : List Token) : Prop :=
  ∃ tokens, start = tokens ++ reached ∧ (∀ next, after next → before (tokens ++ next)) ∧
    ∀ next, next.head? = reached.head? → before (tokens ++ next) → after next

/-- Behind the tokens between `start` and `reached` something may come, but not the next token. -/
def Blocked (before : Continuation) (start reached : List Token) : Prop :=
  ∃ after, Leads before start after reached ∧ (∃ next, after next) ∧
    ∀ next, next.head? = reached.head? → ¬after next

namespace Leads

variable {before between after : Continuation} {start middle reached : List Token}

theorem refl (before : Continuation) (start : List Token) : Leads before start before start :=
  ⟨[], rfl, fun _ => id, fun _ _ => id⟩

/-- The next token leads to what may come behind it. -/
theorem token (before : Continuation) (token : Token) (rest : List Token) :
    Leads before (token :: rest) (fun next => before (token :: next)) rest :=
  ⟨[token], rfl, fun _ => id, fun _ _ => id⟩

theorem trans (h : Leads before start between middle) (h' : Leads between middle after reached) :
    Leads before start after reached := by
  obtain ⟨tokens, rfl, hback, hforth⟩ := h
  obtain ⟨tokens', rfl, hback', hforth'⟩ := h'
  refine ⟨tokens ++ tokens', (List.append_assoc ..).symm, fun next hnext => ?_,
    fun next hhead hnext => ?_⟩
  · rw [List.append_assoc]
    exact hback _ (hback' next hnext)
  · rw [List.append_assoc] at hnext
    refine hforth' next hhead (hforth _ ?_ hnext)
    rw [List.head?_append, List.head?_append, hhead]

/-- Continuations that do not start with the next token can be left out. -/
theorem restrict (hsub : ∀ next, after next → before next)
    (hhead : ∀ next, next.head? = start.head? → before next → after next) :
    Leads before start after start :=
  ⟨[], rfl, hsub, hhead⟩

theorem suffix (h : Leads before start after reached) : reached <:+ start := by
  obtain ⟨tokens, rfl, -⟩ := h
  exact List.suffix_append _ _

end Leads

theorem Blocked.of_leads {before between : Continuation} {start middle reached : List Token}
    (h : Blocked between middle reached) (hleads : Leads before start between middle) :
    Blocked before start reached := by
  obtain ⟨after, hafter, hblocked⟩ := h
  exact ⟨after, hleads.trans hafter, hblocked⟩

/-! ## Accounts of faults -/

variable {α β : Type}

/-- The faults that come up in a rule, from what it noted, the latest first, and its result. -/
def raised (noted : List SyntaxFault) : Except SyntaxFault α → List SyntaxFault
  | .ok _ => noted.reverse
  | .error fault => (fault :: noted).reverse

/-- Where a fault that stops a rule comes up the next token is to blame, unless phrases are nested
too deeply. -/
structure Blames (before : Continuation) (cursor : Cursor) (fault : SyntaxFault)
    (rest : List Token) : Prop where
  place : fault.place = { cursor with rest := rest }.place
  blocked : fault.cause ≠ .nesting → Blocked before cursor.rest rest

/-- What the faults that came up say about the continuations: the first one that stops a rule blames
the next token, and if there is none, the tokens lead on. -/
def Accounts (before : Continuation) (cursor : Cursor) (after : Continuation)
    (outcome : Except SyntaxFault α × Cursor) (noted : List SyntaxFault) : Prop :=
  ((raised noted outcome.1).find? (·.cause.stops) = none ∧ (∃ a, outcome.1 = .ok a) ∧
      Leads before cursor.rest after outcome.2.rest) ∨
    ∃ fault rest, (raised noted outcome.1).find? (·.cause.stops) = some fault ∧
      rest <:+ cursor.rest ∧ Blames before cursor fault rest

/-- What becomes of the continuations when a rule comes to an outcome. -/
structure Tracked (before : Continuation) (cursor : Cursor) (after : Continuation)
    (outcome : Except SyntaxFault α × Cursor) : Prop where
  reaches : cursor.Reaches outcome.2
  /-- The rule is stopped by the next token. -/
  place : ∀ fault, outcome.1 = .error fault → fault.place = outcome.2.place
  account : ∃ noted, outcome.2.noted = noted ++ cursor.noted ∧
    Accounts before cursor after outcome noted

/-- A rule leads from one set of continuations to another, and where it stops first the next token
is to blame. -/
def Tracks (before : Continuation) (rule : Reading α) (after : Continuation)
    (cursor : Cursor) : Prop :=
  Tracked before cursor after (exec rule cursor)

theorem raised_append (noted noted' : List SyntaxFault) (result : Except SyntaxFault α) :
    raised (noted' ++ noted) result = noted.reverse ++ raised noted' result := by
  cases result <;> simp [raised]

namespace Accounts

variable {before between after : Continuation} {cursor middle reached : Cursor}
  {noted noted' : List SyntaxFault}

/-- What is said of a rule that stops is said of any rule that starts with it. -/
theorem error {fault : SyntaxFault}
    (h : Accounts before cursor between ((.error fault, reached) : Except SyntaxFault α × Cursor)
      noted) :
    Accounts before cursor after ((.error fault, reached) : Except SyntaxFault β × Cursor)
      noted := by
  rcases h with ⟨-, ⟨a, ha⟩, -⟩ | h
  · cases ha
  · exact .inr h

theorem bind {a : α} {outcome : Except SyntaxFault β × Cursor}
    (h : Accounts before cursor between (.ok a, middle) noted)
    (hnext : Accounts between middle after outcome noted') (hreaches : cursor.Reaches middle) :
    Accounts before cursor after outcome (noted' ++ noted) := by
  unfold Accounts
  rw [raised_append, List.find?_append]
  rcases h with ⟨hnone, -, hleads⟩ | ⟨fault, rest, hsome, h⟩
  · have hnone' : noted.reverse.find? (·.cause.stops) = none := hnone
    rw [hnone', Option.none_or]
    rcases hnext with ⟨hfind, hok, hleads'⟩ | ⟨fault, rest, hfind, hsuffix, hblames⟩
    · exact .inl ⟨hfind, hok, hleads.trans hleads'⟩
    · refine .inr ⟨fault, rest, hfind, hsuffix.trans hleads.suffix, ?_, fun hcause =>
        (hblames.blocked hcause).of_leads hleads⟩
      rw [hblames.place, Cursor.place, Cursor.place, hreaches.endLine]
  · have hsome' : noted.reverse.find? (·.cause.stops) = some fault := hsome
    rw [hsome', Option.some_or]
    exact .inr ⟨fault, rest, rfl, h⟩

end Accounts

namespace Tracked

variable {before between after : Continuation} {cursor middle reached : Cursor}

/-- A rule that notes nothing leads on. -/
theorem of_leads {a : α} (h : Leads before cursor.rest after reached.rest)
    (hreaches : cursor.Reaches reached) (hnoted : reached.noted = cursor.noted) :
    Tracked before cursor after (.ok a, reached) where
  reaches := hreaches
  place fault hfault := by cases hfault
  account := ⟨[], hnoted, .inl ⟨rfl, ⟨a, rfl⟩, h⟩⟩

/-- A rule that notes a fault and goes on. -/
theorem of_note {a : α} {fault : SyntaxFault} (hcause : fault.cause.stops = false) :
    Tracked before cursor before (.ok a, { cursor with noted := fault :: cursor.noted }) where
  reaches := ⟨List.suffix_rfl, List.suffix_cons _ _, Nat.le_refl _, rfl⟩
  place fault hfault := by cases hfault
  account := by
    refine ⟨[fault], rfl, .inl ⟨?_, ⟨a, rfl⟩, .refl _ _⟩⟩
    simp [raised, hcause]

/-- A rule that stops at once. -/
theorem of_stop {fault : SyntaxFault} (hcause : fault.cause.stops)
    (h : Blames before cursor fault cursor.rest) :
    Tracked before cursor after ((.error fault, cursor) : Except SyntaxFault α × Cursor) where
  reaches := .refl cursor
  place fault' hfault := by
    cases hfault
    exact h.place
  account := by
    refine ⟨[], rfl, .inr ⟨fault, cursor.rest, ?_, List.suffix_rfl, h⟩⟩
    simp [raised, hcause]

theorem error {fault : SyntaxFault}
    (h : Tracked before cursor between ((.error fault, reached) : Except SyntaxFault α × Cursor)) :
    Tracked before cursor after ((.error fault, reached) : Except SyntaxFault β × Cursor) where
  reaches := h.reaches
  place fault' hfault := by
    cases hfault
    exact h.place fault rfl
  account := by
    obtain ⟨noted, hnoted, haccount⟩ := h.account
    exact ⟨noted, hnoted, haccount.error⟩

theorem bind {a : α} {outcome : Except SyntaxFault β × Cursor}
    (h : Tracked before cursor between (.ok a, middle))
    (hnext : Tracked between middle after outcome) : Tracked before cursor after outcome where
  reaches := h.reaches.trans hnext.reaches
  place := hnext.place
  account := by
    obtain ⟨noted, hnoted, haccount⟩ := h.account
    obtain ⟨noted', hnoted', haccount'⟩ := hnext.account
    refine ⟨noted' ++ noted, ?_, haccount.bind haccount' h.reaches⟩
    rw [hnoted', hnoted, List.append_assoc]

end Tracked

namespace Tracks

variable {before between after : Continuation} {rule : Reading α} {next : α → Reading β}
  {cursor : Cursor}

theorem pure (a : α) : Tracks before (pure a) before cursor :=
  .of_leads (.refl _ _) (.refl cursor) rfl

theorem bind (h : Tracks before rule between cursor)
    (hnext : ∀ a middle, exec rule cursor = (.ok a, middle) →
      Tracks between (next a) after middle) :
    Tracks before (rule >>= next) after cursor := by
  unfold Tracks at h ⊢
  rw [exec_bind]
  rcases hexec : exec rule cursor with ⟨fault | a, middle⟩
  · rw [hexec] at h
    exact h.error
  · rw [hexec] at h
    exact Tracked.bind h (hnext a middle hexec)

/-- One rule after the other, wherever the first one comes to. -/
theorem seq (h : Tracks before rule between cursor)
    (hnext : ∀ a middle, Tracks between (next a) after middle) :
    Tracks before (rule >>= next) after cursor :=
  h.bind fun a middle _ => hnext a middle

theorem map {f : α → β} (h : Tracks before rule after cursor) :
    Tracks before (f <$> rule) after cursor := by
  rw [map_eq_pure_bind]
  exact h.seq fun a _ => .pure (f a)

/-- The continuations that matter are those that start with the next token. -/
theorem of_leads (hleads : Leads before cursor.rest between cursor.rest)
    (h : Tracks between rule after cursor) : Tracks before rule after cursor :=
  Tracked.bind (a := ()) (.of_leads hleads (.refl cursor) rfl) h

theorem congr (hiff : ∀ next, before next ↔ between next)
    (h : Tracks between rule after cursor) : Tracks before rule after cursor :=
  h.of_leads (.restrict (fun next => (hiff next).2) fun next _ => (hiff next).1)

/-- A rule that only looks. -/
theorem bind_of_exec {a : α} (hexec : exec rule cursor = (.ok a, cursor))
    (h : Tracks before (next a) after cursor) : Tracks before (rule >>= next) after cursor := by
  unfold Tracks
  rw [exec_bind_of_ok hexec]
  exact h

theorem bind_nextIs {test : Token → Bool} {next : Bool → Reading α}
    (h : Tracks before (next (cursor.rest.head?.any test)) after cursor) :
    Tracks before (nextIs test >>= next) after cursor :=
  bind_of_exec (exec_nextIs test cursor) h

theorem bind_remaining {next : Nat → Reading α}
    (h : Tracks before (next cursor.rest.length) after cursor) :
    Tracks before (remaining >>= next) after cursor :=
  bind_of_exec (exec_remaining cursor) h

theorem bind_occurrence {name : Token} {next : Occurrence → Reading α}
    (h : ∀ place middle, Tracks before (next place) after middle) :
    Tracks before (occurrence name >>= next) after cursor := by
  have hreaches : cursor.Reaches { cursor with nextId := cursor.nextId + 1 } :=
    ⟨List.suffix_rfl, List.suffix_rfl, Nat.le_succ _, rfl⟩
  have hfirst : Tracks before (occurrence name) before cursor :=
    Tracked.of_leads (.refl _ _) hreaches rfl
  exact hfirst.seq h

/-- Some token is taken off if it passes a test. -/
theorem bind_accept? {test : Token → Bool} {next : Option Token → Reading α}
    (hsome : ∀ token middle, test token → cursor.Passes token middle →
      Tracks (fun tokens => before (token :: tokens)) (next (some token)) after middle)
    (hnone : cursor.rest.head?.any test = false → Tracks before (next none) after cursor) :
    Tracks before (accept? test >>= next) after cursor := by
  rcases head?_any_cases test cursor.rest with hnot | ⟨token, rest, hrest, hpasses⟩
  · exact bind_of_exec (exec_accept?_of_not hnot) (hnone hnot)
  · have hmiddle : cursor.Passes token { cursor with rest := rest } := ⟨hrest, rfl, rfl, rfl⟩
    unfold Tracks
    rw [exec_bind_of_ok (exec_accept?_of_test hrest hpasses)]
    refine Tracked.bind (a := ()) (.of_leads ?_ hmiddle.reaches rfl)
      (hsome token _ hpasses hmiddle)
    rw [hrest]
    exact .token before token rest

theorem bind_accepts {test : Token → Bool} {next : Bool → Reading α}
    (htrue : ∀ token middle, test token → cursor.Passes token middle →
      Tracks (fun tokens => before (token :: tokens)) (next true) after middle)
    (hfalse : cursor.rest.head?.any test = false → Tracks before (next false) after cursor) :
    Tracks before (accepts test >>= next) after cursor := by
  rw [accepts, bind_assoc]
  exact bind_accept? htrue hfalse

/-- A fault is noted that stops nothing. -/
theorem noteHere {cause : SyntaxCause} (hcause : cause.stops = false) :
    Tracks before (noteHere cause) before cursor :=
  have hfault : (SyntaxFault.mk cause cursor.place).cause.stops = false := hcause
  .of_note hfault

theorem note {fault : SyntaxFault} (hcause : fault.cause.stops = false) :
    Tracks before (note fault) before cursor :=
  .of_note hcause

/-- Too deep a nesting says nothing about the continuations. -/
theorem stop_nesting : Tracks before (stop .nesting : Reading α) after cursor :=
  have hfault : (SyntaxFault.mk .nesting cursor.place).cause.stops := rfl
  .of_stop hfault ⟨rfl, fun h => absurd rfl h⟩

/-- A rule stops where no continuation starts with the next token. -/
theorem stop {cause : SyntaxCause} (hcause : cause.stops) (hpossible : ∃ next, before next)
    (hblocked : ∀ next, next.head? = cursor.rest.head? → ¬before next) :
    Tracks before (stop cause : Reading α) after cursor :=
  have hfault : (SyntaxFault.mk cause cursor.place).cause.stops := hcause
  .of_stop hfault ⟨rfl, fun _ => ⟨before, .refl _ _, hpossible, hblocked⟩⟩

/-- A token that has to come next. -/
theorem expect {terminal : Relaxed.Terminal} {stack : List Relaxed.Part} {cause : SyntaxCause}
    (hcause : cause.stops) :
    Tracks (Relaxed.Derives (.token terminal :: stack)) (expect terminal.test cause)
      (Relaxed.Derives stack) cursor := by
  refine bind_accept? (fun token middle htest _ => ?_) fun htest => ?_
  · refine (Tracks.pure token).congr fun tokens => ?_
    rw [Relaxed.derives_token_cons_iff, and_iff_right htest]
  · refine Tracks.stop hcause (Relaxed.exists_derives _) fun tokens hhead h => ?_
    have hstarts : tokens.head?.any terminal.test := Relaxed.starts_token h
    rw [hhead, htest] at hstarts
    cases hstarts

/-- A rule whose faults are noted. -/
theorem tryCatch {handler : SyntaxFault → Reading α} (h : Tracks before rule after cursor)
    (hhandler : ∀ fault reached, ∃ a reached', exec (handler fault) reached = (.ok a, reached') ∧
      reached.Reaches reached' ∧ reached'.noted = fault :: reached.noted) :
    Tracks before (tryCatch rule handler) after cursor := by
  unfold Tracks at h ⊢
  rw [exec_tryCatch]
  rcases hexec : exec rule cursor with ⟨fault | a, middle⟩
  · rw [hexec] at h
    obtain ⟨a, reached, hexec', hreaches, hfault⟩ := hhandler fault middle
    obtain ⟨noted, hnoted, haccount⟩ := h.account
    show Tracked before cursor after (exec (handler fault) middle)
    rw [hexec']
    refine ⟨h.reaches.trans hreaches, ?_, fault :: noted, ?_, ?_⟩
    · intro fault' hfault'
      cases hfault'
    · show reached.noted = _
      rw [hfault]
      exact congrArg (fault :: ·) hnoted
    · rcases haccount with ⟨-, ⟨a, ha⟩, -⟩ | haccount
      · cases ha
      · exact .inr haccount
  · rwa [hexec] at h

end Tracks

end Grammar

end LoxLang
