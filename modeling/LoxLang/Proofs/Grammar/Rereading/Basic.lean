import LoxLang.Proofs.Grammar.Reading
import LoxLang.Proofs.Tree.Relabeling

/-!
# Reading a text again

A rule does not look at the lines of tokens, it gives numbers out one by one, and it looks at no
more than the first token behind those that it takes.  So when a text is read again with other
labels, and with more tokens behind it, the rules go the same way, up to the place where they see
that the text does not end any more (`Retraces`).
-/

namespace LoxLang

/-- A place on another line. -/
def Place.mapLine (lines : Nat → Nat) : Place → Place
  | token found => token (found.mapLine lines)
  | textEnd line => textEnd (lines line)

/-- A fault on another line. -/
def SyntaxFault.mapLine (lines : Nat → Nat) (fault : SyntaxFault) : SyntaxFault :=
  { fault with place := fault.place.mapLine lines }

/-- What is different when a text is read again: the labels of its tokens and of the tree, the
tokens behind it, and the line on which all of them end. -/
structure Rereading where
  labels : Relabeling
  more : List Token
  endLine : Nat

namespace Rereading

variable (again : Rereading) {α β : Type}

/-- The cursor at the same place. -/
def cursor (cursor : Cursor) : Cursor where
  rest := cursor.rest.map again.labels.token ++ again.more
  endLine := again.endLine
  noted := cursor.noted.map (SyntaxFault.mapLine again.labels.lines)
  nextId := again.labels.ids cursor.nextId

/-- The same outcome of a rule. -/
def outcome (f : α → β) : Except SyntaxFault α × Cursor → Except SyntaxFault β × Cursor
  | (.ok a, reached) => (.ok (f a), again.cursor reached)
  | (.error fault, reached) => (.error (fault.mapLine again.labels.lines), again.cursor reached)

/-- From a cursor on numbers keep following one another. -/
def Counts (cursor : Cursor) : Prop :=
  ∀ id, cursor.nextId ≤ id → again.labels.ids (id + 1) = again.labels.ids id + 1

/-- The text ends as before. -/
def KeepsEnd (cursor : Cursor) : Prop :=
  again.more = [] ∧ again.endLine = again.labels.lines cursor.endLine

/-- An outcome that does not depend on whether the text ends.  Either it does, or some of the text
is left, or a `whole` phrase has been read without a fault, which is over without a look at what
follows. -/
def Settles (whole : Prop) (cursor : Cursor) (outcome : Except SyntaxFault α × Cursor) : Prop :=
  again.KeepsEnd cursor ∨ outcome.2.rest ≠ [] ∨
    (whole ∧ outcome.1.isOk ∧ outcome.2.noted = cursor.noted)

variable {again} {cursor reached : Cursor}

theorem Counts.reaches (h : again.Counts cursor) (hreaches : cursor.Reaches reached) :
    again.Counts reached :=
  fun id hid => h id (Nat.le_trans hreaches.nextId hid)

theorem KeepsEnd.reaches (h : again.KeepsEnd cursor) (hreaches : cursor.Reaches reached) :
    again.KeepsEnd reached :=
  ⟨h.1, by rw [hreaches.endLine, h.2]⟩

/-- A cursor in front of the end of the text is not there when something is left behind it. -/
theorem rest_ne_nil (h : cursor.Reaches reached) (hrest : reached.rest ≠ []) :
    cursor.rest ≠ [] := by
  intro hnil
  have hsuffix := h.rest
  rw [hnil, List.suffix_nil] at hsuffix
  exact hrest hsuffix

/-- The next token passes a test that does not look at labels as it did before, if there was one or
nothing has changed about that. -/
theorem head?_any_cursor {test : Token → Bool} (htest : ∀ token, test (again.labels.token token) =
    test token) (h : again.more = [] ∨ cursor.rest ≠ []) :
    (again.cursor cursor).rest.head?.any test = cursor.rest.head?.any test := by
  rcases cursor with ⟨_ | ⟨token, rest⟩, endLine, noted, nextId⟩
  · rcases h with hmore | hrest
    · rw [Rereading.cursor, hmore]
      rfl
    · exact absurd rfl hrest
  · exact htest token

theorem place_cursor (h : again.KeepsEnd cursor ∨ cursor.rest ≠ []) :
    (again.cursor cursor).place = cursor.place.mapLine again.labels.lines := by
  rcases cursor with ⟨_ | ⟨token, rest⟩, endLine, noted, nextId⟩
  · rcases h with ⟨hmore, hend⟩ | hrest
    · rw [Rereading.cursor, hmore, hend]
      rfl
    · exact absurd rfl hrest
  · rfl

end Rereading

namespace Reading

variable {α β γ δ : Type}

/-! ## Rules that read something -/

/-- A rule takes at least one token off when it yields something. -/
def Consumes (rule : Reading α) : Prop :=
  ∀ (cursor reached : Cursor) (a : α), exec rule cursor = (.ok a, reached) →
    reached.rest.length < cursor.rest.length

/-- A rule takes at least one token off when it yields something, if there is a token left. -/
def Progresses (rule : Reading α) : Prop :=
  ∀ (cursor reached : Cursor) (a : α), exec rule cursor = (.ok a, reached) →
    reached.rest.length ≤ cursor.rest.length - 1

namespace Consumes

variable {rule : Reading α} {next : α → Reading β} {test : Token → Bool}

theorem progresses (h : Consumes rule) : Progresses rule := by
  intro cursor reached a hexec
  exact Nat.le_sub_one_of_lt (h cursor reached a hexec)

theorem stop (cause : SyntaxCause) : Consumes (stop cause : Reading α) := by
  intro cursor reached a hexec
  cases hexec

theorem expect (test : Token → Bool) (cause : SyntaxCause) : Consumes (expect test cause) := by
  intro cursor reached token hexec
  cases htest : cursor.rest.head?.any test with
  | false =>
      rw [exec_expect_of_not htest] at hexec
      cases hexec
  | true =>
      obtain ⟨found, hfound, hpasses⟩ := (Option.any_eq_true _ _).1 htest
      obtain ⟨rest, hrest⟩ := List.head?_eq_some_iff.1 hfound
      rw [exec_expect_of_test hrest hpasses] at hexec
      cases hexec
      rw [hrest]
      exact Nat.lt_succ_self _

theorem bind_left {post : α → Cursor → β → Cursor → Prop} (h : Consumes rule)
    (hnext : ∀ a, Ensures (next a) (post a)) : Consumes (rule >>= next) := by
  intro cursor reached b hexec
  rw [exec_bind] at hexec
  rcases hrule : exec rule cursor with ⟨fault | a, between⟩
  · rw [hrule] at hexec
    cases hexec
  · rw [hrule] at hexec
    have hafter := ((hnext a).reaches between).rest.length_le
    replace hexec : exec (next a) between = (.ok b, reached) := hexec
    rw [hexec] at hafter
    exact Nat.lt_of_le_of_lt hafter (h _ _ _ hrule)

theorem bind_right {post : Cursor → α → Cursor → Prop} (h : Ensures rule post)
    (hnext : ∀ a, Consumes (next a)) : Consumes (rule >>= next) := by
  intro cursor reached b hexec
  have hbefore := (h.reaches cursor).rest.length_le
  rw [exec_bind] at hexec
  rcases hrule : exec rule cursor with ⟨fault | a, between⟩
  · rw [hrule] at hexec
    cases hexec
  · rw [hrule] at hexec hbefore
    exact Nat.lt_of_lt_of_le (hnext a _ _ _ hexec) hbefore

/-- A rule that reads something else if it does not read a token first. -/
theorem bind_accept? {next : Option Token → Reading β}
    {post : Token → Cursor → β → Cursor → Prop}
    (hsome : ∀ token, Ensures (next (some token)) (post token)) (hnone : Consumes (next none)) :
    Consumes (accept? test >>= next) := by
  intro cursor reached b hexec
  cases htest : cursor.rest.head?.any test with
  | false =>
      rw [exec_bind_of_ok (exec_accept?_of_not htest)] at hexec
      exact hnone _ _ _ hexec
  | true =>
      obtain ⟨found, hfound, hpasses⟩ := (Option.any_eq_true _ _).1 htest
      obtain ⟨rest, hrest⟩ := List.head?_eq_some_iff.1 hfound
      rw [exec_bind_of_ok (exec_accept?_of_test hrest hpasses)] at hexec
      have hafter := ((hsome found).reaches { cursor with rest := rest }).rest.length_le
      rw [hexec] at hafter
      rw [hrest]
      exact Nat.lt_succ_of_le hafter

end Consumes

/-! ## Going the same way -/

/-- On the changed text a rule goes the way that another rule goes on the text as it was, if at most
`limit` tokens are left and the outcome does not depend on the end of the text. -/
structure Retraces (again : Rereading) (whole : Prop) (limit : Nat) (f : α → β) (rule : Reading α)
    (rule' : Reading β) : Prop where
  ensures : Ensures rule fun _ _ _ => True
  exec_eq : ∀ cursor : Cursor, cursor.rest.length ≤ limit → again.Counts cursor →
    again.Settles whole cursor (exec rule cursor) →
      exec rule' (again.cursor cursor) = again.outcome f (exec rule cursor)

namespace Retraces

variable {again : Rereading} {whole whole' : Prop} {limit : Nat} {f : α → β} {g : γ → δ}
  {rule : Reading α} {rule' : Reading β} {next : α → Reading γ} {next' : β → Reading δ}
  {test : Token → Bool}

theorem mono (h : Retraces again whole limit f rule rule') (himp : whole' → whole) :
    Retraces again whole' limit f rule rule' where
  ensures := h.ensures
  exec_eq cursor hlimit hcounts hsettles := by
    refine h.exec_eq cursor hlimit hcounts ?_
    exact hsettles.imp_right <| Or.imp_right <| And.imp_left himp

theorem mono_limit (h : Retraces again whole limit f rule rule') {limit' : Nat}
    (hle : limit' ≤ limit) : Retraces again whole limit' f rule rule' where
  ensures := h.ensures
  exec_eq cursor hlimit := h.exec_eq cursor (Nat.le_trans hlimit hle)

/-- At the end of the text nothing but the end itself can be seen, so there only remains the case
that nothing stands behind it. -/
theorem of_end {post : Cursor → α → Cursor → Prop} (hensures : Ensures rule post)
    (h : again.more = [] → Retraces again False 0 f rule rule') :
    Retraces again False 0 f rule rule' where
  ensures := hensures.mono fun _ _ _ _ => trivial
  exec_eq cursor hlimit hcounts hsettles := by
    have hmore : again.more = [] := by
      rcases hsettles with hend | hrest | hwhole
      · exact hend.1
      · have hne := Rereading.rest_ne_nil (hensures.reaches cursor) hrest
        exact absurd (List.eq_nil_of_length_eq_zero (Nat.le_zero.1 hlimit)) hne
      · exact hwhole.1.elim
    exact (h hmore).exec_eq cursor hlimit hcounts hsettles

theorem pure {a : α} {b : β} (h : b = f a) :
    Retraces again whole limit f (pure a) (pure b) where
  ensures := (Ensures.pure a).mono fun _ _ _ _ => trivial
  exec_eq cursor _ _ _ := by
    rw [exec_pure, exec_pure, h]
    rfl

/-- One rule after the other.  The first one may look at what follows if the second one reads it. -/
theorem bind_of {limit' : Nat} (h : Retraces again whole' limit f rule rule')
    (hlength : ∀ cursor reached a, exec rule cursor = (.ok a, reached) →
      cursor.rest.length ≤ limit → reached.rest.length ≤ limit')
    (hnext : ∀ a, Retraces again whole limit' g (next a) (next' (f a)))
    (hwhole : whole → whole' ∨ ∀ a, Consumes (next a)) :
    Retraces again whole limit g (rule >>= next) (rule' >>= next') where
  ensures := (h.ensures.bind fun a => (hnext a).ensures).mono fun _ _ _ _ => trivial
  exec_eq cursor hlimit hcounts hsettles := by
    have hbefore := h.ensures.reaches cursor
    have hfirst := h.exec_eq cursor hlimit hcounts
    rw [exec_bind] at hsettles
    rw [exec_bind, exec_bind]
    rcases hexec : exec rule cursor with ⟨fault | a, between⟩
    · rw [hexec] at hsettles hfirst
      rw [hfirst (hsettles.imp_right <| Or.imp_right fun hwhole => by cases hwhole.2.1)]
      rfl
    · rw [hexec] at hsettles hfirst hbefore
      replace hsettles : again.Settles whole cursor (exec (next a) between) := hsettles
      have hafter := (hnext a).ensures.reaches between
      have hsecond := (hnext a).exec_eq between (hlength _ _ _ hexec hlimit)
        (hcounts.reaches hbefore)
      rcases hsettles with hend | hrest | ⟨hisWhole, hok, hnoted⟩
      · rw [hfirst (.inl hend)]
        exact hsecond (.inl (hend.reaches hbefore))
      · rw [hfirst (.inr <| .inl <| Rereading.rest_ne_nil hafter hrest)]
        exact hsecond (.inr <| .inl hrest)
      · have hleft := hbefore.noted_eq_left hafter hnoted
        have hright := hbefore.noted_eq_right hafter hnoted
        have hsettled : again.Settles whole' cursor (.ok a, between) := by
          refine .inr ?_
          rcases hwhole hisWhole with hwhole' | hconsumes
          · exact .inr ⟨hwhole', rfl, hleft⟩
          · rcases hnextExec : exec (next a) between with ⟨fault | b, reached⟩
            · rw [hnextExec] at hok
              cases hok
            · have hlength := hconsumes a _ _ _ hnextExec
              exact .inl (List.ne_nil_of_length_pos (Nat.zero_lt_of_lt hlength))
        rw [hfirst hsettled]
        exact hsecond (.inr <| .inr ⟨hisWhole, hok, hright⟩)

/-- A rule leaves no more tokens than there were. -/
theorem length_le (h : Retraces again whole limit f rule rule') (cursor reached : Cursor) (a : α)
    (hexec : exec rule cursor = (.ok a, reached)) (hlimit : cursor.rest.length ≤ limit) :
    reached.rest.length ≤ limit := by
  have hreaches := h.ensures.reaches cursor
  rw [hexec] at hreaches
  exact Nat.le_trans hreaches.rest.length_le hlimit

theorem bind (h : Retraces again whole limit f rule rule')
    (hnext : ∀ a, Retraces again whole limit g (next a) (next' (f a))) :
    Retraces again whole limit g (rule >>= next) (rule' >>= next') :=
  bind_of h h.length_le hnext .inl

/-- A rule that leaves fewer tokens for the next one. -/
theorem bind_progressing (h : Retraces again whole (limit + 1) f rule rule')
    (hprogresses : Progresses rule)
    (hnext : ∀ a, Retraces again whole limit g (next a) (next' (f a))) :
    Retraces again whole (limit + 1) g (rule >>= next) (rule' >>= next') := by
  refine bind_of h ?_ hnext .inl
  intro cursor reached a hexec hlimit
  have hlength := hprogresses cursor reached a hexec
  omega

theorem stop (cause : SyntaxCause) :
    Retraces again whole limit f (stop cause : Reading α) (stop cause : Reading β) where
  ensures := (Ensures.stop cause).mono fun _ _ _ hfalse => hfalse.elim
  exec_eq cursor _ _ hsettles := by
    rw [exec_stop] at hsettles
    have hplace : again.KeepsEnd cursor ∨ cursor.rest ≠ [] :=
      hsettles.imp_right <| Or.rec id fun hwhole => by cases hwhole.2.1
    rw [exec_stop, exec_stop, Rereading.place_cursor hplace]
    rfl

theorem note (fault : SyntaxFault) :
    Retraces again whole limit id (note fault)
      (note (fault.mapLine again.labels.lines)) where
  ensures := (Ensures.note fault).mono fun _ _ _ hfalse => hfalse.elim
  exec_eq _ _ _ _ := rfl

theorem noteHere (cause : SyntaxCause) :
    Retraces again whole limit id (noteHere cause) (noteHere cause) where
  ensures := (Ensures.noteHere cause).mono fun _ _ _ hfalse => hfalse.elim
  exec_eq cursor _ _ hsettles := by
    rw [exec_noteHere] at hsettles
    have hplace : again.KeepsEnd cursor ∨ cursor.rest ≠ [] :=
      hsettles.imp_right <| Or.rec id fun hwhole => absurd hwhole.2.2 (List.cons_ne_self _ _)
    rw [exec_noteHere, exec_noteHere, Rereading.place_cursor hplace]
    rfl

theorem occurrence (name : Token) :
    Retraces again whole limit again.labels.occurrence (occurrence name)
      (occurrence (again.labels.token name)) where
  ensures := (Ensures.occurrence name).mono fun _ _ _ _ => trivial
  exec_eq cursor _ hcounts _ := by
    have hnext := hcounts cursor.nextId (Nat.le_refl _)
    rw [exec_occurrence, exec_occurrence]
    simp only [Rereading.outcome, Rereading.cursor, hnext]
    rfl

/-- A rule in front of which a fault may be noted. -/
theorem noteWhen {condition : Prop} [Decidable condition]
    (h : Retraces again whole limit f rule rule') (cause : SyntaxCause) :
    Retraces again whole limit f
      (if condition then Reading.noteHere cause >>= fun _ => rule else rule)
      (if condition then Reading.noteHere cause >>= fun _ => rule' else rule') := by
  split
  · exact (noteHere cause).bind fun _ => h
  · exact h

/-! ### Looking at the next token -/

theorem nextIs (htest : ∀ token, test (again.labels.token token) = test token) :
    Retraces again False limit id (nextIs test) (nextIs test) where
  ensures := (Ensures.nextIs test).mono fun _ _ _ _ => trivial
  exec_eq cursor _ _ hsettles := by
    rw [exec_nextIs] at hsettles
    have hnext : again.more = [] ∨ cursor.rest ≠ [] :=
      hsettles.imp And.left <| Or.rec id fun hwhole => hwhole.1.elim
    rw [exec_nextIs, exec_nextIs, Rereading.head?_any_cursor htest hnext]
    rfl

theorem atEnd : Retraces again False limit id atEnd atEnd where
  ensures := Ensures.atEnd.mono fun _ _ _ _ => trivial
  exec_eq cursor _ _ hsettles := by
    rw [exec_atEnd] at hsettles
    have hend : (again.cursor cursor).rest.isEmpty = cursor.rest.isEmpty := by
      rcases cursor with ⟨_ | ⟨token, rest⟩, endLine, noted, nextId⟩
      · rcases hsettles with hend | hrest | hwhole
        · rw [Rereading.cursor, hend.1]
          rfl
        · exact absurd rfl hrest
        · exact hwhole.1.elim
      · rfl
    rw [exec_atEnd, exec_atEnd, hend]
    rfl

/-- As many tokens as are left bound a repetition, in both texts. -/
theorem bind_remaining {next : Nat → Reading γ} {next' : Nat → Reading δ}
    (hnext : ∀ n, Retraces again whole n g (next n) (next' (n + again.more.length))) :
    Retraces again whole limit g (remaining >>= next) (remaining >>= next') where
  ensures := (Ensures.remaining.bind fun n => (hnext n).ensures).mono fun _ _ _ _ => trivial
  exec_eq cursor _ hcounts hsettles := by
    have hlength : (again.cursor cursor).rest.length =
        cursor.rest.length + again.more.length := by
      rw [Rereading.cursor, List.length_append, List.length_map]
    rw [exec_bind_of_ok (exec_remaining _)] at hsettles
    rw [exec_bind_of_ok (exec_remaining _), exec_bind_of_ok (exec_remaining _), hlength]
    exact (hnext _).exec_eq cursor (Nat.le_refl _) hcounts hsettles

/-- A choice by whether a token can be read.  If none is read then the next token is looked at; so
either it is not one of those in question, or it is read by what follows. -/
theorem bind_accept? {next : Option Token → Reading γ} {next' : Option Token → Reading δ}
    (htest : ∀ token, test (again.labels.token token) = test token)
    (hsome : ∀ token, Retraces again whole (limit - 1) g (next (some token))
      (next' (some (again.labels.token token))))
    (hnone : Retraces again whole limit g (next none) (next' none))
    (hwhole : whole → again.more.head?.any test = false ∨ Consumes (next none)) :
    Retraces again whole limit g (accept? test >>= next) (accept? test >>= next') where
  ensures := (Ensures.bind_accept? hnone.ensures fun token => (hsome token).ensures).mono
    fun _ _ _ _ => trivial
  exec_eq cursor hlimit hcounts hsettles := by
    cases hnext : cursor.rest.head?.any test with
    | true =>
        obtain ⟨token, htoken, hpasses⟩ := (Option.any_eq_true _ _).1 hnext
        obtain ⟨rest, hrest⟩ := List.head?_eq_some_iff.1 htoken
        have hpassed : cursor.Reaches { cursor with rest := rest } :=
          ⟨hrest ▸ List.suffix_cons _ _, List.suffix_rfl, Nat.le_refl _, rfl⟩
        have hrest' : (again.cursor cursor).rest =
            again.labels.token token :: (rest.map again.labels.token ++ again.more) := by
          rw [Rereading.cursor, hrest]
          rfl
        have hlimit' : rest.length ≤ limit - 1 := by
          rw [hrest, List.length_cons] at hlimit
          omega
        rw [exec_bind_of_ok (exec_accept?_of_test hrest hpasses)] at hsettles
        rw [exec_bind_of_ok (exec_accept?_of_test hrest hpasses),
          exec_bind_of_ok (exec_accept?_of_test hrest' ((htest token).trans hpasses))]
        exact (hsome token).exec_eq _ hlimit' (hcounts.reaches hpassed) hsettles
    | false =>
        have hafter := hnone.ensures.reaches cursor
        rw [exec_bind_of_ok (exec_accept?_of_not hnext)] at hsettles
        have hnext' : (again.cursor cursor).rest.head?.any test = false := by
          rcases hsettles with hend | hrest | ⟨hisWhole, hok, -⟩
          · rw [Rereading.head?_any_cursor htest (.inl hend.1), hnext]
          · have hne := Rereading.rest_ne_nil hafter hrest
            rw [Rereading.head?_any_cursor htest (.inr hne), hnext]
          · by_cases hnil : cursor.rest = []
            · rcases hwhole hisWhole with hmore | hconsumes
              · rw [Rereading.cursor, hnil]
                exact hmore
              · rcases hexec : exec (next none) cursor with ⟨fault | b, reached⟩
                · rw [hexec] at hok
                  cases hok
                · have hlength := hconsumes _ _ _ hexec
                  rw [hnil] at hlength
                  exact absurd hlength (Nat.not_lt_zero _)
            · rw [Rereading.head?_any_cursor htest (.inr hnil), hnext]
        rw [exec_bind_of_ok (exec_accept?_of_not hnext),
          exec_bind_of_ok (exec_accept?_of_not hnext')]
        exact hnone.exec_eq cursor hlimit hcounts hsettles

theorem bind_accepts {next : Bool → Reading γ} {next' : Bool → Reading δ}
    (htest : ∀ token, test (again.labels.token token) = test token)
    (htrue : Retraces again whole (limit - 1) g (next true) (next' true))
    (hfalse : Retraces again whole limit g (next false) (next' false))
    (hwhole : whole → again.more.head?.any test = false ∨ Consumes (next false)) :
    Retraces again whole limit g (accepts test >>= next) (accepts test >>= next') := by
  rw [accepts, bind_assoc, bind_assoc]
  exact bind_accept? htest (fun _ => htrue) hfalse hwhole

theorem expect (htest : ∀ token, test (again.labels.token token) = test token)
    (cause : SyntaxCause) :
    Retraces again whole limit again.labels.token (expect test cause) (expect test cause) := by
  refine bind_accept? htest (fun token => pure rfl) (stop cause) fun _ => .inr ?_
  exact Consumes.stop cause

/-- A rule up to a token that has to follow. -/
theorem bind_expect {next : α → Token → Reading γ} {next' : β → Token → Reading δ}
    (h : Retraces again False limit f rule rule')
    (htest : ∀ token, test (again.labels.token token) = test token) (cause : SyntaxCause)
    (hnext : ∀ a token, Retraces again whole limit g (next a token)
      (next' (f a) (again.labels.token token))) :
    Retraces again whole limit g (rule >>= fun a => Reading.expect test cause >>= next a)
      (rule' >>= fun b => Reading.expect test cause >>= next' b) := by
  refine bind_of h h.length_le (fun a => (expect htest cause).bind (hnext a)) fun _ => .inr ?_
  intro a
  exact (Consumes.expect test cause).bind_left fun token => (hnext a token).ensures

/-- A rule whose faults are handled, by noting them in any case. -/
theorem tryCatch {handler : SyntaxFault → Reading α} {handler' : SyntaxFault → Reading β}
    (h : Retraces again whole limit f rule rule')
    (hnotes : ∀ fault, Ensures (handler fault) fun _ _ _ => False)
    (hhandler : ∀ fault, Retraces again False limit f (handler fault)
      (handler' (fault.mapLine again.labels.lines))) :
    Retraces again whole limit f (tryCatch rule handler) (tryCatch rule' handler') where
  ensures := Ensures.tryCatch h.ensures hnotes
  exec_eq cursor hlimit hcounts hsettles := by
    have hbefore := h.ensures.reaches cursor
    have hfirst := h.exec_eq cursor hlimit hcounts
    rw [exec_tryCatch] at hsettles
    rw [exec_tryCatch, exec_tryCatch]
    rcases hexec : exec rule cursor with ⟨fault | a, between⟩
    · rw [hexec] at hsettles hfirst hbefore
      replace hsettles : again.Settles whole cursor (exec (handler fault) between) := hsettles
      have hafter := (hnotes fault).reaches between
      have hlength : between.rest.length ≤ limit := Nat.le_trans hbefore.rest.length_le hlimit
      have hsettled : again.KeepsEnd cursor ∨ (exec (handler fault) between).2.rest ≠ [] := by
        refine hsettles.imp_right <| Or.rec id fun ⟨_, hok, hnoted⟩ => ?_
        rcases hhandled : exec (handler fault) between with ⟨fault' | a, reached⟩
        · rw [hhandled] at hok
          cases hok
        · rw [hhandled] at hafter hnoted
          exact ((hnotes fault).yields hhandled (hbefore.noted_eq_right hafter hnoted)).elim
      rw [hfirst (hsettled.imp_right fun hrest => .inl (Rereading.rest_ne_nil hafter hrest))]
      exact (hhandler fault).exec_eq between hlength (hcounts.reaches hbefore)
        (hsettled.imp (·.reaches hbefore) .inl)
    · rw [hexec] at hsettles hfirst
      rw [hfirst hsettles]
      rfl

end Retraces

/-- A rule that goes the same way and reads something. -/
structure Advances (again : Rereading) (whole : Prop) (limit : Nat) (f : α → β) (rule : Reading α)
    (rule' : Reading β) : Prop extends Retraces again whole limit f rule rule' where
  consumes : Consumes rule

namespace Advances

variable {again : Rereading} {whole : Prop} {limit : Nat} {f : α → β} {rule : Reading α}
  {rule' : Reading β} {test : Token → Bool}

theorem bind {next : α → Reading γ} {next' : β → Reading δ} {g : γ → δ}
    (h : Advances again whole limit f rule rule')
    (hnext : ∀ a, Retraces again whole limit g (next a) (next' (f a))) :
    Advances again whole limit g (rule >>= next) (rule' >>= next') where
  toRetraces := h.toRetraces.bind hnext
  consumes := h.consumes.bind_left fun a => (hnext a).ensures

/-- A phrase that is told apart by its first token, or is another one. -/
theorem branch? {next : Option Token → Reading α} {next' : Option Token → Reading β}
    (htest : ∀ token, test (again.labels.token token) = test token)
    (hsome : ∀ token, Retraces again whole (limit - 1) f (next (some token))
      (next' (some (again.labels.token token))))
    (hnone : Advances again whole limit f (next none) (next' none)) :
    Advances again whole limit f (accept? test >>= next) (accept? test >>= next') where
  toRetraces := .bind_accept? htest hsome hnone.toRetraces fun _ => .inr hnone.consumes
  consumes := .bind_accept? (fun token => (hsome token).ensures) hnone.consumes

theorem branch {next : Bool → Reading α} {next' : Bool → Reading β}
    (htest : ∀ token, test (again.labels.token token) = test token)
    (htrue : Retraces again whole (limit - 1) f (next true) (next' true))
    (hfalse : Advances again whole limit f (next false) (next' false)) :
    Advances again whole limit f (accepts test >>= next) (accepts test >>= next') := by
  rw [accepts, bind_assoc, bind_assoc]
  exact branch? htest (fun _ => htrue) hfalse

end Advances

end Reading

end LoxLang
