import Mathlib.Data.List.Infix
import LoxLang.Grammar.Program

/-!
# What rules do to the cursor

Every rule moves the cursor forward, forgets no fault that has been noted and never takes a number
back (`Cursor.Reaches`), whether it yields a tree or stops.  `Ensures` says this together with what
holds when a rule yields a tree, and `Reads` says that a rule does yield a given tree.  Both come
with one lemma for each way in which rules are put together; so the account of a rule is read off
its definition.
-/

namespace LoxLang

/-- The first token does not pass a test, or there is one and it does. -/
theorem head?_any_cases (test : Token → Bool) (tokens : List Token) :
    tokens.head?.any test = false ∨ ∃ token rest, tokens = token :: rest ∧ test token := by
  cases tokens with
  | nil => exact .inl rfl
  | cons token rest =>
      cases htest : test token with
      | false => exact .inl htest
      | true => exact .inr ⟨token, rest, rfl, htest⟩

namespace Reading

variable {α β : Type}

/-- What a rule makes of a cursor. -/
def exec (rule : Reading α) (cursor : Cursor) : Except SyntaxFault α × Cursor :=
  rule.run.run cursor

/-! ## Running the parts of a rule -/

@[simp] theorem exec_pure (a : α) (cursor : Cursor) :
    exec (pure a : Reading α) cursor = (.ok a, cursor) := rfl

theorem exec_bind (rule : Reading α) (next : α → Reading β) (cursor : Cursor) :
    exec (rule >>= next) cursor =
      match exec rule cursor with
      | (.ok a, reached) => exec (next a) reached
      | (.error fault, reached) => (.error fault, reached) := by
  show (ExceptT.bindCont next (exec rule cursor).1 : StateM Cursor _)
    (exec rule cursor).2 = _
  rcases exec rule cursor with ⟨_ | _, reached⟩ <;> rfl

theorem exec_bind_of_ok {rule : Reading α} {cursor reached : Cursor} {a : α}
    (h : exec rule cursor = (.ok a, reached)) (next : α → Reading β) :
    exec (rule >>= next) cursor = exec (next a) reached := by
  rw [exec_bind, h]

theorem exec_tryCatch (rule : Reading α) (handler : SyntaxFault → Reading α) (cursor : Cursor) :
    exec (tryCatch rule handler) cursor =
      match exec rule cursor with
      | (.ok a, reached) => (.ok a, reached)
      | (.error fault, reached) => exec (handler fault) reached := by
  unfold exec
  rw [ExceptT.run_tryCatch, StateT.run_bind]
  rcases rule.run.run cursor with ⟨_ | _, reached⟩ <;> rfl

@[simp] theorem exec_stop (cause : SyntaxCause) (cursor : Cursor) :
    exec (stop cause : Reading α) cursor = (.error ⟨cause, cursor.place⟩, cursor) := rfl

@[simp] theorem exec_noteHere (cause : SyntaxCause) (cursor : Cursor) :
    exec (noteHere cause) cursor =
      (.ok (), { cursor with noted := ⟨cause, cursor.place⟩ :: cursor.noted }) := rfl

@[simp] theorem exec_modify (change : Cursor → Cursor) (cursor : Cursor) :
    exec (modify change) cursor = (.ok (), change cursor) := rfl

@[simp] theorem exec_atEnd (cursor : Cursor) :
    exec atEnd cursor = (.ok cursor.rest.isEmpty, cursor) := rfl

@[simp] theorem exec_remaining (cursor : Cursor) :
    exec remaining cursor = (.ok cursor.rest.length, cursor) := rfl

@[simp] theorem exec_nextIs (test : Token → Bool) (cursor : Cursor) :
    exec (nextIs test) cursor = (.ok (cursor.rest.head?.any test), cursor) := by
  rcases cursor with ⟨_ | ⟨token, rest⟩, endLine, noted, nextId⟩ <;> rfl

@[simp] theorem exec_occurrence (name : Token) (cursor : Cursor) :
    exec (occurrence name) cursor =
      (.ok ⟨cursor.nextId, name⟩, { cursor with nextId := cursor.nextId + 1 }) := rfl

theorem exec_accept?_of_test {test : Token → Bool} {cursor : Cursor} {token : Token}
    {rest : List Token} (hrest : cursor.rest = token :: rest) (htest : test token) :
    exec (accept? test) cursor = (.ok (some token), { cursor with rest := rest }) := by
  rcases cursor with ⟨tokens, endLine, noted, nextId⟩
  obtain rfl : tokens = token :: rest := hrest
  show exec (if test token then _ else _) _ = _
  rw [if_pos htest]
  rfl

theorem exec_accept?_of_not {test : Token → Bool} {cursor : Cursor}
    (h : cursor.rest.head?.any test = false) :
    exec (accept? test) cursor = (.ok none, cursor) := by
  rcases cursor with ⟨_ | ⟨token, rest⟩, endLine, noted, nextId⟩
  · rfl
  · have htest : test token = false := h
    show exec (if test token then _ else _) _ = _
    rw [htest]
    rfl

theorem exec_accepts_of_test {test : Token → Bool} {cursor : Cursor} {token : Token}
    {rest : List Token} (hrest : cursor.rest = token :: rest) (htest : test token) :
    exec (accepts test) cursor = (.ok true, { cursor with rest := rest }) := by
  rw [accepts, exec_bind_of_ok (exec_accept?_of_test hrest htest)]
  rfl

theorem exec_accepts_of_not {test : Token → Bool} {cursor : Cursor}
    (h : cursor.rest.head?.any test = false) :
    exec (accepts test) cursor = (.ok false, cursor) := by
  rw [accepts, exec_bind_of_ok (exec_accept?_of_not h)]
  rfl

theorem exec_expect_of_test {test : Token → Bool} {cursor : Cursor} {token : Token}
    {rest : List Token} (hrest : cursor.rest = token :: rest) (htest : test token)
    (cause : SyntaxCause) :
    exec (expect test cause) cursor = (.ok token, { cursor with rest := rest }) := by
  rw [expect, exec_bind_of_ok (exec_accept?_of_test hrest htest)]
  rfl

theorem exec_expect_of_not {test : Token → Bool} {cursor : Cursor}
    (h : cursor.rest.head?.any test = false) (cause : SyntaxCause) :
    exec (expect test cause) cursor = (.error ⟨cause, cursor.place⟩, cursor) := by
  rw [expect, exec_bind_of_ok (exec_accept?_of_not h)]
  rfl

end Reading

/-! ## Moving forward -/

/-- Where reading can get from a cursor: on through the tokens, with more faults noted and more
numbers given. -/
structure Cursor.Reaches (cursor reached : Cursor) : Prop where
  rest : reached.rest <:+ cursor.rest
  noted : cursor.noted <:+ reached.noted
  nextId : cursor.nextId ≤ reached.nextId
  endLine : reached.endLine = cursor.endLine

namespace Cursor.Reaches

theorem refl (cursor : Cursor) : cursor.Reaches cursor :=
  ⟨List.suffix_rfl, List.suffix_rfl, Nat.le_refl _, rfl⟩

theorem trans {first second third : Cursor} (h : first.Reaches second)
    (h' : second.Reaches third) : first.Reaches third where
  rest := h'.rest.trans h.rest
  noted := h.noted.trans h'.noted
  nextId := h.nextId.trans h'.nextId
  endLine := h'.endLine.trans h.endLine

/-- If nothing is noted all the way, then nothing is noted in the first part of it. -/
theorem noted_eq_left {first second third : Cursor} (h : first.Reaches second)
    (h' : second.Reaches third) (heq : third.noted = first.noted) :
    second.noted = first.noted :=
  (h.noted.eq_of_length_le (heq ▸ h'.noted).length_le).symm

/-- If nothing is noted all the way, then nothing is noted in the second part of it. -/
theorem noted_eq_right {first second third : Cursor} (h : first.Reaches second)
    (h' : second.Reaches third) (heq : third.noted = first.noted) :
    third.noted = second.noted := by
  rw [heq, h.noted_eq_left h' heq]

end Cursor.Reaches

/-- Where a cursor is when it has gone past one token. -/
structure Cursor.Passes (cursor : Cursor) (token : Token) (reached : Cursor) : Prop where
  rest : cursor.rest = token :: reached.rest
  noted : reached.noted = cursor.noted
  nextId : reached.nextId = cursor.nextId
  endLine : reached.endLine = cursor.endLine

theorem Cursor.Passes.reaches {cursor reached : Cursor} {token : Token}
    (h : cursor.Passes token reached) : cursor.Reaches reached where
  rest := h.rest ▸ List.suffix_cons _ _
  noted := h.noted ▸ List.suffix_rfl
  nextId := Nat.le_of_eq h.nextId.symm
  endLine := h.endLine

namespace Reading

variable {α β : Type}

/-- A rule only moves forward, and what it yields without noting a fault meets a postcondition. -/
structure Ensures (rule : Reading α) (post : Cursor → α → Cursor → Prop) : Prop where
  reaches : ∀ cursor : Cursor, cursor.Reaches (exec rule cursor).2
  yields : ∀ {cursor reached : Cursor} {a : α}, exec rule cursor = (.ok a, reached) →
    reached.noted = cursor.noted → post cursor a reached

namespace Ensures

variable {rule : Reading α} {post post' : Cursor → α → Cursor → Prop}

theorem mono (h : Ensures rule post)
    (himp : ∀ cursor a reached, post cursor a reached → post' cursor a reached) :
    Ensures rule post' where
  reaches := h.reaches
  yields hexec hnoted := himp _ _ _ (h.yields hexec hnoted)

theorem pure (a : α) :
    Ensures (pure a : Reading α) fun cursor b reached => b = a ∧ reached = cursor where
  reaches cursor := .refl cursor
  yields hexec _ := by
    cases hexec
    exact ⟨rfl, rfl⟩

/-- One rule after the other.  If both together note nothing, neither of them does. -/
theorem bind {next : α → Reading β} {rest : α → Cursor → β → Cursor → Prop}
    (h : Ensures rule post) (hnext : ∀ a, Ensures (next a) (rest a)) :
    Ensures (rule >>= next) fun cursor b reached =>
      ∃ a between, cursor.Reaches between ∧ between.Reaches reached ∧
        post cursor a between ∧ rest a between b reached where
  reaches cursor := by
    have hreaches := h.reaches cursor
    rw [exec_bind]
    rcases hexec : exec rule cursor with ⟨fault | a, between⟩
    · rwa [hexec] at hreaches
    · rw [hexec] at hreaches
      exact hreaches.trans ((hnext a).reaches between)
  yields := by
    intro cursor reached b hexec hnoted
    have hbefore := h.reaches cursor
    rw [exec_bind] at hexec
    rcases hrule : exec rule cursor with ⟨fault | a, between⟩
    · rw [hrule] at hexec
      cases hexec
    · rw [hrule] at hexec hbefore
      replace hexec : exec (next a) between = (.ok b, reached) := hexec
      have hafter := (hnext a).reaches between
      rw [hexec] at hafter
      exact ⟨a, between, hbefore, hafter,
        h.yields hrule (hbefore.noted_eq_left hafter hnoted),
        (hnext a).yields hexec (hbefore.noted_eq_right hafter hnoted)⟩

theorem map {f : α → β} (h : Ensures rule post) :
    Ensures (f <$> rule) fun cursor b reached => ∃ a, b = f a ∧ post cursor a reached := by
  rw [map_eq_pure_bind]
  refine (h.bind fun a => Ensures.pure (f a)).mono ?_
  rintro cursor b reached ⟨a, between, -, -, hpost, rfl, rfl⟩
  exact ⟨a, rfl, hpost⟩

theorem stop (cause : SyntaxCause) : Ensures (stop cause : Reading α) fun _ _ _ => False where
  reaches cursor := .refl cursor
  yields hexec _ := by cases hexec

theorem note (fault : SyntaxFault) : Ensures (note fault) fun _ _ _ => False where
  reaches cursor := ⟨List.suffix_rfl, List.suffix_cons _ _, Nat.le_refl _, rfl⟩
  yields hexec hnoted := by
    cases hexec
    exact List.cons_ne_self _ _ hnoted

theorem noteHere (cause : SyntaxCause) : Ensures (noteHere cause) fun _ _ _ => False where
  reaches cursor := ⟨List.suffix_rfl, List.suffix_cons _ _, Nat.le_refl _, rfl⟩
  yields hexec hnoted := by
    cases hexec
    exact List.cons_ne_self _ _ hnoted

theorem atEnd :
    Ensures atEnd fun cursor b reached => b = cursor.rest.isEmpty ∧ reached = cursor where
  reaches cursor := .refl cursor
  yields hexec _ := by
    cases hexec
    exact ⟨rfl, rfl⟩

theorem remaining :
    Ensures remaining fun cursor n reached => n = cursor.rest.length ∧ reached = cursor where
  reaches cursor := .refl cursor
  yields hexec _ := by
    cases hexec
    exact ⟨rfl, rfl⟩

theorem nextIs (test : Token → Bool) :
    Ensures (nextIs test) fun cursor b reached =>
      b = cursor.rest.head?.any test ∧ reached = cursor where
  reaches cursor := by
    rw [exec_nextIs]
    exact .refl cursor
  yields hexec _ := by
    rw [exec_nextIs] at hexec
    cases hexec
    exact ⟨rfl, rfl⟩

theorem occurrence (name : Token) :
    Ensures (occurrence name) fun cursor place reached =>
      place = ⟨cursor.nextId, name⟩ ∧ reached = { cursor with nextId := cursor.nextId + 1 } where
  reaches cursor := ⟨List.suffix_rfl, List.suffix_rfl, Nat.le_succ _, rfl⟩
  yields hexec _ := by
    cases hexec
    exact ⟨rfl, rfl⟩

/-- A token that passes the test has been read, or the next token does not pass it. -/
theorem accept? (test : Token → Bool) :
    Ensures (accept? test) fun cursor found reached =>
      match found with
      | some token => test token ∧ cursor.Passes token reached
      | none => cursor.rest.head?.any test = false ∧ reached = cursor where
  reaches cursor := by
    cases htest : cursor.rest.head?.any test with
    | false =>
        rw [exec_accept?_of_not htest]
        exact .refl cursor
    | true =>
        obtain ⟨token, htoken, hpasses⟩ := (Option.any_eq_true _ _).1 htest
        obtain ⟨rest, hrest⟩ := List.head?_eq_some_iff.1 htoken
        rw [exec_accept?_of_test hrest hpasses]
        exact ⟨hrest ▸ List.suffix_cons _ _, List.suffix_rfl, Nat.le_refl _, rfl⟩
  yields := by
    intro cursor reached found hexec _
    cases htest : cursor.rest.head?.any test with
    | false =>
        rw [exec_accept?_of_not htest] at hexec
        cases hexec
        exact ⟨rfl, rfl⟩
    | true =>
        obtain ⟨token, htoken, hpasses⟩ := (Option.any_eq_true _ _).1 htest
        obtain ⟨rest, hrest⟩ := List.head?_eq_some_iff.1 htoken
        rw [exec_accept?_of_test hrest hpasses] at hexec
        cases hexec
        exact ⟨hpasses, hrest, rfl, rfl, rfl⟩

theorem accepts (test : Token → Bool) :
    Ensures (accepts test) fun cursor found reached =>
      match found with
      | true => ∃ token, test token ∧ cursor.Passes token reached
      | false => cursor.rest.head?.any test = false ∧ reached = cursor := by
  refine ((accept? test).bind fun found => pure found.isSome).mono ?_
  rintro cursor b reached ⟨found, between, -, -, hfound, rfl, rfl⟩
  cases found with
  | none => exact hfound
  | some token => exact ⟨token, hfound⟩

theorem expect (test : Token → Bool) (cause : SyntaxCause) :
    Ensures (expect test cause) fun cursor token reached =>
      test token ∧ cursor.Passes token reached where
  reaches cursor := by
    have hreaches := (accept? test).reaches cursor
    rw [Reading.expect, exec_bind]
    rcases haccept : exec (Reading.accept? test) cursor with ⟨fault | found, reached⟩
    · rwa [haccept] at hreaches
    · rw [haccept] at hreaches
      cases found <;> exact hreaches
  yields := by
    intro cursor reached token hexec hnoted
    rw [Reading.expect, exec_bind] at hexec
    rcases haccept : exec (Reading.accept? test) cursor with ⟨fault | found, between⟩
    · rw [haccept] at hexec
      cases hexec
    · rw [haccept] at hexec
      cases found with
      | none => cases hexec
      | some found =>
          cases hexec
          exact (accept? test).yields haccept hnoted

/-- A rule whose faults are handled.  If the handler always notes something, then what is yielded
without noting a fault comes from the rule. -/
theorem tryCatch {handler : SyntaxFault → Reading α} (h : Ensures rule post)
    (hhandler : ∀ fault, Ensures (handler fault) fun _ _ _ => False) :
    Ensures (tryCatch rule handler) post where
  reaches cursor := by
    have hreaches := h.reaches cursor
    rw [exec_tryCatch]
    rcases hexec : exec rule cursor with ⟨fault | a, between⟩
    · rw [hexec] at hreaches
      exact hreaches.trans ((hhandler fault).reaches between)
    · rwa [hexec] at hreaches
  yields := by
    intro cursor reached a hexec hnoted
    have hbefore := h.reaches cursor
    rw [exec_tryCatch] at hexec
    rcases hrule : exec rule cursor with ⟨fault | b, between⟩
    · rw [hrule] at hexec hbefore
      replace hexec : exec (handler fault) between = (.ok a, reached) := hexec
      have hafter := (hhandler fault).reaches between
      rw [hexec] at hafter
      exact ((hhandler fault).yields hexec (hbefore.noted_eq_right hafter hnoted)).elim
    · rw [hrule] at hexec
      cases hexec
      exact h.yields hrule hnoted

/-- A rule in front of which a fault may be noted. -/
theorem noteWhen {condition : Prop} [Decidable condition] (h : Ensures rule post)
    (cause : SyntaxCause) :
    Ensures (if condition then Reading.noteHere cause >>= fun _ => rule else rule)
      fun cursor a reached => ¬condition ∧ post cursor a reached := by
  split
  · refine ((noteHere cause).bind fun _ => h).mono ?_
    rintro cursor a reached ⟨-, between, -, -, hfalse, -⟩
    exact hfalse.elim
  · next hcondition => exact h.mono fun _ _ _ hpost => ⟨hcondition, hpost⟩

/-- A choice by whether a rule yields something. -/
theorem bind_option {γ : Type} {rule : Reading (Option γ)} {next : Option γ → Reading β}
    {found : Cursor → Option γ → Cursor → Prop} {post : Cursor → β → Cursor → Prop}
    {rest : γ → Cursor → β → Cursor → Prop} (h : Ensures rule found)
    (hnone : Ensures (next none) post) (hsome : ∀ c, Ensures (next (some c)) (rest c)) :
    Ensures (rule >>= next) fun cursor b reached => ∃ result between, cursor.Reaches between ∧
      between.Reaches reached ∧ found cursor result between ∧
        result.elim post rest between b reached := by
  refine h.bind fun result => ?_
  cases result with
  | none => exact hnone
  | some c => exact hsome c

/-- A choice by whether a token can be read. -/
theorem bind_accept? {test : Token → Bool} {next : Option Token → Reading β}
    {post : Cursor → β → Cursor → Prop} {rest : Token → Cursor → β → Cursor → Prop}
    (hnone : Ensures (next none) post) (hsome : ∀ token, Ensures (next (some token)) (rest token)) :
    Ensures (Reading.accept? test >>= next) fun cursor b reached =>
      (cursor.rest.head?.any test = false ∧ post cursor b reached) ∨
        ∃ token between, test token ∧ cursor.Passes token between ∧ between.Reaches reached ∧
          rest token between b reached := by
  refine (bind_option (accept? test) hnone hsome).mono ?_
  rintro cursor b reached ⟨found, between, -, hafter, hfound, hrest⟩
  cases found with
  | none =>
      obtain ⟨htest, rfl⟩ := hfound
      exact .inl ⟨htest, hrest⟩
  | some token => exact .inr ⟨token, between, hfound.1, hfound.2, hafter, hrest⟩

/-- A choice by whether a token can be read that need not be remembered. -/
theorem bind_accepts {test : Token → Bool} {next : Bool → Reading β}
    {post post' : Cursor → β → Cursor → Prop}
    (hfalse : Ensures (next false) post) (htrue : Ensures (next true) post') :
    Ensures (Reading.accepts test >>= next) fun cursor b reached =>
      (cursor.rest.head?.any test = false ∧ post cursor b reached) ∨
        ∃ token between, test token ∧ cursor.Passes token between ∧ between.Reaches reached ∧
          post' between b reached := by
  have hnext : ∀ found, Ensures (next found) (bif found then post' else post) := by
    intro found
    cases found with
    | false => exact hfalse
    | true => exact htrue
  refine ((accepts test).bind hnext).mono ?_
  rintro cursor b reached ⟨found, between, -, hafter, hfound, hrest⟩
  cases found with
  | false =>
      obtain ⟨htest, rfl⟩ := hfound
      exact .inl ⟨htest, hrest⟩
  | true =>
      obtain ⟨token, htest, hpasses⟩ := hfound
      exact .inr ⟨token, between, htest, hpasses, hafter, hrest⟩

/-- A choice by a test that reads nothing. -/
theorem bind_check {check : Reading Bool} {test : List Token → Bool}
    (hcheck : Ensures check fun cursor b reached => b = test cursor.rest ∧ reached = cursor)
    {next : Bool → Reading β} {post post' : Cursor → β → Cursor → Prop}
    (hfalse : Ensures (next false) post) (htrue : Ensures (next true) post') :
    Ensures (check >>= next) fun cursor b reached =>
      (test cursor.rest = false ∧ post cursor b reached) ∨
        (test cursor.rest ∧ post' cursor b reached) := by
  have hnext : ∀ found, Ensures (next found) (bif found then post' else post) := by
    intro found
    cases found with
    | false => exact hfalse
    | true => exact htrue
  refine (hcheck.bind hnext).mono ?_
  rintro cursor b reached ⟨found, between, -, -, ⟨hfound, rfl⟩, hrest⟩
  cases found with
  | false => exact .inl ⟨hfound.symm, hrest⟩
  | true => exact .inr ⟨hfound.symm, hrest⟩

/-- A choice by what the next token is. -/
theorem bind_nextIs {test : Token → Bool} {next : Bool → Reading β}
    {post post' : Cursor → β → Cursor → Prop}
    (hfalse : Ensures (next false) post) (htrue : Ensures (next true) post') :
    Ensures (Reading.nextIs test >>= next) fun cursor b reached =>
      (cursor.rest.head?.any test = false ∧ post cursor b reached) ∨
        (cursor.rest.head?.any test ∧ post' cursor b reached) := by
  let passes : List Token → Bool := fun rest => rest.head?.any test
  have hcheck : Ensures (Reading.nextIs test) fun cursor b reached =>
      b = passes cursor.rest ∧ reached = cursor := nextIs test
  exact bind_check hcheck hfalse htrue

end Ensures

/-! ## Reading a given phrase -/

/-- In front of `rest` a rule takes off the given tokens and notes nothing, and what it yields looks
like the tree given. -/
def Reads {γ : Type} (rule : Reading α) (view : α → γ) (tokens rest : List Token) (a : α) : Prop :=
  ∀ cursor : Cursor, cursor.rest = tokens ++ rest → ∃ b reached,
    exec rule cursor = (.ok b, reached) ∧ view b = view a ∧ reached.rest = rest ∧
      reached.noted = cursor.noted

namespace Reads

variable {γ δ : Type} {view : α → γ} {view' : β → δ} {rule : Reading α} {next : α → Reading β}
  {test : Token → Bool} {token : Token} {tokens tokens' rest : List Token} {a : α} {b : β}

theorem pure {result : α} (h : view result = view a) :
    Reads (pure result) view [] rest a := by
  intro cursor hrest
  exact ⟨result, cursor, rfl, h, hrest, rfl⟩

theorem bind (h : Reads rule view tokens (tokens' ++ rest) a)
    (hnext : ∀ a', view a' = view a → Reads (next a') view' tokens' rest b) :
    Reads (rule >>= next) view' (tokens ++ tokens') rest b := by
  intro cursor hrest
  rw [List.append_assoc] at hrest
  obtain ⟨a', between, hexec, hview, hrest', hnoted⟩ := h cursor hrest
  obtain ⟨b', reached, hexec', hview', hrest'', hnoted'⟩ := hnext a' hview between hrest'
  refine ⟨b', reached, ?_, hview', hrest'', hnoted'.trans hnoted⟩
  rw [exec_bind_of_ok hexec, hexec']

/-- A rule behind which nothing is left of a phrase. -/
theorem bind_last (h : Reads rule view tokens rest a)
    (hnext : ∀ a', view a' = view a → Reads (next a') view' [] rest b) :
    Reads (rule >>= next) view' tokens rest b := by
  rw [← List.append_nil tokens]
  exact bind h hnext

/-- A rule that takes off nothing and goes on in the same way from each cursor. -/
theorem bind_of_exec {rule : Reading α}
    (h : ∀ cursor : Cursor, cursor.rest = tokens ++ rest → exec rule cursor = (.ok a, cursor))
    (hnext : Reads (next a) view' tokens rest b) : Reads (rule >>= next) view' tokens rest b := by
  intro cursor hrest
  rw [exec_bind_of_ok (h cursor hrest)]
  exact hnext cursor hrest

theorem bind_remaining {next : Nat → Reading β}
    (hnext : Reads (next (tokens ++ rest).length) view' tokens rest b) :
    Reads (remaining >>= next) view' tokens rest b := by
  refine bind_of_exec ?_ hnext
  intro cursor hrest
  rw [exec_remaining, hrest]

/-- A choice by a test that reads nothing. -/
theorem bind_check {check : Reading Bool} {test : List Token → Bool} {next : Bool → Reading β}
    (hcheck : ∀ cursor : Cursor, exec check cursor = (.ok (test cursor.rest), cursor))
    (hnext : Reads (next (test (tokens ++ rest))) view' tokens rest b) :
    Reads (check >>= next) view' tokens rest b := by
  refine bind_of_exec ?_ hnext
  intro cursor hrest
  rw [hcheck, hrest]

theorem bind_nextIs {next : Bool → Reading β}
    (hnext : Reads (next ((tokens ++ rest).head?.any test)) view' tokens rest b) :
    Reads (nextIs test >>= next) view' tokens rest b := by
  refine bind_of_exec ?_ hnext
  intro cursor hrest
  rw [exec_nextIs, hrest]

theorem bind_occurrence {name : Token} {next : Occurrence → Reading β}
    (hnext : ∀ id, Reads (next ⟨id, name⟩) view' tokens rest b) :
    Reads (occurrence name >>= next) view' tokens rest b := by
  intro cursor hrest
  rw [exec_bind_of_ok (exec_occurrence name cursor)]
  exact hnext _ _ hrest

theorem bind_expect {next : Token → Reading β} (htest : test token) (cause : SyntaxCause)
    (hnext : Reads (next token) view' tokens rest b) :
    Reads (expect test cause >>= next) view' (token :: tokens) rest b := by
  intro cursor hrest
  rw [exec_bind_of_ok (exec_expect_of_test hrest htest cause)]
  exact hnext _ rfl

theorem bind_accept? {next : Option Token → Reading β} (htest : test token)
    (hnext : Reads (next (some token)) view' tokens rest b) :
    Reads (accept? test >>= next) view' (token :: tokens) rest b := by
  intro cursor hrest
  rw [exec_bind_of_ok (exec_accept?_of_test hrest htest)]
  exact hnext _ rfl

theorem bind_accept?_of_not {next : Option Token → Reading β}
    (htest : (tokens ++ rest).head?.any test = false)
    (hnext : Reads (next none) view' tokens rest b) :
    Reads (accept? test >>= next) view' tokens rest b := by
  refine bind_of_exec ?_ hnext
  intro cursor hrest
  exact exec_accept?_of_not (hrest ▸ htest)

theorem bind_accepts {next : Bool → Reading β} (htest : test token)
    (hnext : Reads (next true) view' tokens rest b) :
    Reads (accepts test >>= next) view' (token :: tokens) rest b := by
  intro cursor hrest
  rw [exec_bind_of_ok (exec_accepts_of_test hrest htest)]
  exact hnext _ rfl

theorem bind_accepts_of_not {next : Bool → Reading β}
    (htest : (tokens ++ rest).head?.any test = false)
    (hnext : Reads (next false) view' tokens rest b) :
    Reads (accepts test >>= next) view' tokens rest b := by
  refine bind_of_exec ?_ hnext
  intro cursor hrest
  exact exec_accepts_of_not (hrest ▸ htest)

/-- Where a rule does not stop, nothing is handled. -/
theorem tryCatch {handler : SyntaxFault → Reading α} (h : Reads rule view tokens rest a) :
    Reads (tryCatch rule handler) view tokens rest a := by
  intro cursor hrest
  obtain ⟨a', reached, hexec, hreads⟩ := h cursor hrest
  refine ⟨a', reached, ?_, hreads⟩
  rw [exec_tryCatch, hexec]

end Reads

end Reading

end LoxLang
