import LoxLang.Proofs.Grammar.Rereading.Basic
import LoxLang.Proofs.Grammar.Walk.Basic

/-!
# Following a reading

A walker stands where a cursor stands if the tokens from its index on are those left to read
(`Walker.cursor`).  A walk follows a reading if it makes of every orderly walker what the reading
makes of its cursor: so it never looks outside the list, is over within its rounds, leaves the
walker orderly and does not go back.  There is one lemma for each way in which rules are put
together.
-/

namespace LoxLang

namespace Walker

/-- The cursor in front of the next token. -/
def cursor (walker : Walker) : Cursor where
  rest := walker.tokens.drop walker.current
  endLine := walker.endLine
  noted := walker.errors
  nextId := walker.nextId

/-- A walker inside the list of tokens, whose trail leads to its place and never goes back, and
whose declarations have taken it past a token each, unless they were made at the end. -/
structure Orderly (walker : Walker) : Prop where
  inside : walker.current ≤ walker.tokens.length
  arrival : walker.trail.head? = some walker.current
  onward : walker.trail.Pairwise (· ≥ ·)
  progress : ∀ span ∈ walker.declarations, span.1 < walker.tokens.length → span.1 < span.2

/-- A walker one token further on. -/
def step (walker : Walker) : Walker :=
  { walker with
    current := walker.current + 1
    trail := (walker.current + 1) :: walker.trail }

variable {walker : Walker} {token : Token} {rest : List Token}

theorem length_rest (walker : Walker) :
    walker.cursor.rest.length = walker.tokens.length - walker.current :=
  List.length_drop

/-- The next token is the first one left to read. -/
theorem getElem?_current (walker : Walker) :
    walker.tokens[walker.current]? = walker.cursor.rest.head? :=
  List.head?_drop.symm

theorem current_lt_length (hrest : walker.cursor.rest = token :: rest) :
    walker.current < walker.tokens.length := by
  have hlength := walker.length_rest
  rw [hrest, List.length_cons] at hlength
  omega

theorem cursor_step (hrest : walker.cursor.rest = token :: rest) :
    walker.step.cursor = { walker.cursor with rest := rest } := by
  have hdrop : walker.tokens.drop (walker.current + 1) = rest := by
    rw [← List.tail_drop]
    exact congrArg List.tail hrest
  simp [cursor, step, hdrop]

/-- One token further on, that token is the last one passed. -/
theorem getElem?_step (hrest : walker.cursor.rest = token :: rest) :
    walker.step.tokens[walker.current]? = token :=
  walker.getElem?_current.trans (by rw [hrest, List.head?_cons])

theorem length_rest_step_lt {n : Nat} (hrest : walker.cursor.rest = token :: rest)
    (h : walker.cursor.rest.length < n + 1) : walker.step.cursor.rest.length < n := by
  rw [cursor_step hrest]
  rw [hrest, List.length_cons] at h
  exact Nat.lt_of_succ_lt_succ h

namespace Orderly

theorem trail_le (h : walker.Orderly) : ∀ index ∈ walker.trail, index ≤ walker.current := by
  obtain ⟨earlier, htrail⟩ := List.head?_eq_some_iff.1 h.arrival
  have honward := h.onward
  rw [htrail, List.pairwise_cons] at honward
  intro index hindex
  rw [htrail, List.mem_cons] at hindex
  rcases hindex with rfl | hindex
  · exact Nat.le_refl _
  · exact honward.1 index hindex

/-- Where the walker is nested and what it has called makes no difference. -/
theorem of_eq {other : Walker} (h : walker.Orderly) (htokens : other.tokens = walker.tokens)
    (hcurrent : other.current = walker.current) (htrail : other.trail = walker.trail)
    (hdeclarations : other.declarations = walker.declarations) : other.Orderly where
  inside := hcurrent ▸ htokens ▸ h.inside
  arrival := hcurrent ▸ htrail ▸ h.arrival
  onward := htrail ▸ h.onward
  progress := htokens ▸ hdeclarations ▸ h.progress

theorem step (h : walker.Orderly) (hrest : walker.cursor.rest = token :: rest) :
    walker.step.Orderly where
  inside := current_lt_length hrest
  arrival := rfl
  onward := List.pairwise_cons.2
    ⟨fun index hindex => Nat.le_succ_of_le (h.trail_le index hindex), h.onward⟩
  progress := h.progress

end Orderly

end Walker

namespace Walk

variable {α β : Type} {walker : Walker} {token : Token} {rest : List Token} {test : Token → Bool}

/-! ## Running the parts of a walk -/

@[simp] theorem exec_pure (a : α) (walker : Walker) :
    exec (pure a : Walk α) walker = (.ok a, walker) := rfl

theorem exec_bind (walk : Walk α) (next : α → Walk β) (walker : Walker) :
    exec (walk >>= next) walker =
      match exec walk walker with
      | (.ok a, reached) => exec (next a) reached
      | (.error reason, reached) => (.error reason, reached) := by
  show (ExceptT.bindCont next (exec walk walker).1 : StateM Walker _) (exec walk walker).2 = _
  rcases exec walk walker with ⟨_ | _, reached⟩ <;> rfl

theorem exec_bind_of_ok {walk : Walk α} {reached : Walker} {a : α}
    (h : exec walk walker = (.ok a, reached)) (next : α → Walk β) :
    exec (walk >>= next) walker = exec (next a) reached := by
  rw [exec_bind, h]

theorem exec_tryCatch (walk : Walk α) (handler : Break → Walk α) (walker : Walker) :
    exec (tryCatch walk handler) walker =
      match exec walk walker with
      | (.ok a, reached) => (.ok a, reached)
      | (.error reason, reached) => exec (handler reason) reached := by
  unfold exec
  rw [ExceptT.run_tryCatch, StateT.run_bind]
  rcases walk.run.run walker with ⟨_ | _, reached⟩ <;> rfl

@[simp] theorem exec_get (walker : Walker) : exec get walker = (.ok walker, walker) := rfl

@[simp] theorem exec_modify (change : Walker → Walker) (walker : Walker) :
    exec (modify change) walker = (.ok (), change walker) := rfl

@[simp] theorem exec_rounds (walker : Walker) :
    exec rounds walker = (.ok (walker.tokens.length + 1), walker) := rfl

theorem exec_tokenAt {index : Nat} (h : index ≤ walker.tokens.length) :
    exec (tokenAt index) walker = (.ok walker.tokens[index]?, walker) := by
  show exec (if index ≤ walker.tokens.length then _ else _) walker = _
  rw [if_pos h]
  rfl

theorem exec_peek (h : walker.Orderly) :
    exec peek walker = (.ok walker.cursor.rest.head?, walker) := by
  rw [← walker.getElem?_current]
  exact exec_tokenAt h.inside

/-- Once a token has been passed, the last one passed can be looked at. -/
theorem exec_previous (h : walker.Orderly) {index : Nat} (hindex : walker.current = index + 1) :
    exec previous walker = (.ok walker.tokens[index]?, walker) := by
  have hinside := h.inside
  rw [previous, exec_bind_of_ok (exec_get walker), hindex]
  exact exec_tokenAt (by omega)

theorem exec_isAtEnd (h : walker.Orderly) :
    exec isAtEnd walker = (.ok walker.cursor.rest.isEmpty, walker) := by
  rw [isAtEnd, exec_bind_of_ok (exec_peek h), exec_pure]
  cases walker.cursor.rest <;> rfl

theorem exec_check (h : walker.Orderly) (test : Token → Bool) :
    exec (check test) walker = (.ok (walker.cursor.rest.head?.any test), walker) := by
  rw [check, exec_bind_of_ok (exec_isAtEnd h)]
  cases hrest : walker.cursor.rest with
  | nil => rfl
  | cons token rest =>
      rw [List.isEmpty_cons, if_neg Bool.false_ne_true, exec_bind_of_ok (exec_peek h), hrest,
        exec_pure]

theorem exec_advance_of_cons (h : walker.Orderly) (hrest : walker.cursor.rest = token :: rest) :
    exec advance walker = (.ok (some token), walker.step) := by
  have hprevious : exec previous walker.step = _ := exec_previous (h.step hrest) rfl
  rw [advance, exec_bind_of_ok (exec_isAtEnd h), hrest, List.isEmpty_cons,
    if_neg Bool.false_ne_true, exec_bind_of_ok (exec_modify _ walker)]
  exact hprevious.trans (by rw [Walker.getElem?_step hrest])

/-- At the end the walker stays where it is and looks back. -/
theorem exec_advance_of_nil (h : walker.Orderly) (hrest : walker.cursor.rest = []) {index : Nat}
    (hindex : walker.current = index + 1) :
    exec advance walker = (.ok walker.tokens[index]?, walker) := by
  rw [advance, exec_bind_of_ok (exec_isAtEnd h), hrest]
  exact exec_previous h hindex

theorem exec_accept?_of_test (h : walker.Orderly) (hrest : walker.cursor.rest = token :: rest)
    (htest : test token) : exec (accept? test) walker = (.ok (some token), walker.step) := by
  rw [accept?, exec_bind_of_ok (exec_check h test), hrest, List.head?_cons, Option.any_some, htest]
  exact exec_advance_of_cons h hrest

theorem exec_accept?_of_not (h : walker.Orderly)
    (hnot : walker.cursor.rest.head?.any test = false) :
    exec (accept? test) walker = (.ok none, walker) := by
  rw [accept?, exec_bind_of_ok (exec_check h test), hnot]
  rfl

theorem exec_accepts_of_not (h : walker.Orderly)
    (hnot : walker.cursor.rest.head?.any test = false) :
    exec (accepts test) walker = (.ok false, walker) := by
  rw [accepts, exec_bind_of_ok (exec_accept?_of_not h hnot)]
  rfl

theorem exec_place (h : walker.Orderly) :
    exec place walker = (.ok walker.cursor.place, walker) := by
  rw [place, exec_bind_of_ok (exec_peek h), Cursor.place]
  cases walker.cursor.rest <;> rfl

theorem exec_stop (h : walker.Orderly) (cause : SyntaxCause) :
    exec (stop cause : Walk α) walker =
      (.error (.fault ⟨cause, walker.cursor.place⟩), walker) := by
  rw [stop, exec_bind_of_ok (exec_place h)]
  rfl

theorem exec_within (rule : Rule) (walk : Walk α) (walker : Walker) :
    exec (within rule walk) walker =
      match exec walk (walker.calling rule) with
      | (result, reached) => (result, reached.leaving rule walker none) := by
  show exec (tryCatch walk _ >>= _) (walker.calling rule) = _
  rw [exec_bind, exec_tryCatch]
  rcases exec walk (walker.calling rule) with ⟨_ | _, reached⟩ <;> rfl

theorem exec_deepened (walk : Walk α) (walker : Walker) :
    exec (deepened walk) walker =
      match exec walk walker.deeper with
      | (result, reached) => (result, reached.higher) := by
  show exec (tryCatch walk _ >>= _) walker.deeper = _
  rw [exec_bind, exec_tryCatch]
  rcases exec walk walker.deeper with ⟨_ | _, reached⟩ <;> rfl

theorem exec_nested_of_room (nesting : Nesting) (walk : Walk α)
    (hroom : walker.depth < nestingLimit) :
    exec (nested nesting walk) walker = exec (within (.nested nesting) (deepened walk)) walker := by
  rw [nested, exec_bind_of_ok (exec_get walker), if_neg (Nat.not_le_of_lt hroom)]

/-- Where too many nestings are open, it is written down that one more is refused. -/
theorem exec_nested_of_full (nesting : Nesting) (walk : Walk α)
    (hfull : nestingLimit ≤ walker.depth) :
    exec (nested nesting walk) walker =
      match exec place walker with
      | (.ok place, reached) => (.error (.fault ⟨.nesting, place⟩),
          reached.leaving (.nested nesting) walker (some ⟨.nesting, place⟩))
      | (.error reason, reached) => (.error reason, reached) := by
  rw [nested, exec_bind_of_ok (exec_get walker), if_pos hfull, exec_bind]
  rcases exec place walker with ⟨_ | _, reached⟩ <;> rfl

/-! ## Outcomes that agree -/

/-- What a walk has made of a walker is what a reading has made of its cursor.  The walker is in
order again, as deep as before and not further back. -/
structure Agrees (walker : Walker) (walked : Except Break α × Walker)
    (read : Except SyntaxFault α × Cursor) : Prop where
  result : walked.1 = read.1.mapError .fault
  cursor : walked.2.cursor = read.2
  orderly : walked.2.Orderly
  tokens : walked.2.tokens = walker.tokens
  depth : walked.2.depth = walker.depth
  current : walker.current ≤ walked.2.current

namespace Agrees

variable {walk : Walk α} {rule : Reading α} {next : α → Walk β} {next' : α → Reading β}

/-- An outcome right here. -/
theorem here (h : walker.Orderly) (result : Except SyntaxFault α) :
    Agrees walker (result.mapError .fault, walker) (result, walker.cursor) :=
  ⟨rfl, rfl, h, rfl, rfl, Nat.le_refl _⟩

theorem note (h : walker.Orderly) (fault : SyntaxFault) :
    Agrees walker (exec (Walk.note fault) walker)
      (Reading.exec (Reading.note fault) walker.cursor) :=
  ⟨rfl, rfl, h.of_eq rfl rfl rfl rfl, rfl, rfl, Nat.le_refl _⟩

/-- An outcome from a place further on. -/
theorem onward {between : Walker} {walked : Except Break β × Walker}
    {read : Except SyntaxFault β × Cursor} (h : Agrees between walked read)
    (htokens : between.tokens = walker.tokens) (hdepth : between.depth = walker.depth)
    (hcurrent : walker.current ≤ between.current) : Agrees walker walked read where
  result := h.result
  cursor := h.cursor
  orderly := h.orderly
  tokens := h.tokens.trans htokens
  depth := h.depth.trans hdepth
  current := hcurrent.trans h.current

/-- The outcome of a rule that is called. -/
theorem within {called : Rule} {read : Except SyntaxFault α × Cursor}
    (h : Agrees (walker.calling called) (exec walk (walker.calling called)) read) :
    Agrees walker (exec (Walk.within called walk) walker) read := by
  rw [exec_within]
  exact ⟨h.result, h.cursor, h.orderly.of_eq rfl rfl rfl rfl, h.tokens, h.depth, h.current⟩

theorem bind (h : Agrees walker (exec walk walker) (Reading.exec rule walker.cursor))
    (hnext : ∀ a (between : Walker), between.Orderly → between.tokens = walker.tokens →
      between.depth = walker.depth → walker.current ≤ between.current →
      Reading.exec rule walker.cursor = (.ok a, between.cursor) →
        Agrees between (exec (next a) between) (Reading.exec (next' a) between.cursor)) :
    Agrees walker (exec (walk >>= next) walker)
      (Reading.exec (rule >>= next') walker.cursor) := by
  rw [exec_bind, Reading.exec_bind]
  rcases hwalk : exec walk walker with ⟨result, between⟩
  rcases hread : Reading.exec rule walker.cursor with ⟨fault | a, cursor⟩
  all_goals
    rw [hwalk, hread] at h
    obtain ⟨hresult, hcursor, horderly, htokens, hdepth, hcurrent⟩ := h
  · obtain rfl : result = .error (.fault fault) := hresult
    exact ⟨rfl, hcursor, horderly, htokens, hdepth, hcurrent⟩
  · obtain rfl : result = .ok a := hresult
    obtain rfl : between.cursor = cursor := hcursor
    exact (hnext a between horderly htokens hdepth hcurrent hread).onward htokens hdepth hcurrent

/-- An outcome whose faults are handled. -/
theorem tryCatch {handler : Break → Walk α} {handler' : SyntaxFault → Reading α}
    (h : Agrees walker (exec walk walker) (Reading.exec rule walker.cursor))
    (hhandler : ∀ fault (between : Walker), between.Orderly → between.tokens = walker.tokens →
      Agrees between (exec (handler (.fault fault)) between)
        (Reading.exec (handler' fault) between.cursor)) :
    Agrees walker (exec (tryCatch walk handler) walker)
      (Reading.exec (tryCatch rule handler') walker.cursor) := by
  rw [exec_tryCatch, Reading.exec_tryCatch]
  rcases hwalk : exec walk walker with ⟨result, between⟩
  rcases hread : Reading.exec rule walker.cursor with ⟨fault | a, cursor⟩
  all_goals
    rw [hwalk, hread] at h
    obtain ⟨hresult, hcursor, horderly, htokens, hdepth, hcurrent⟩ := h
    obtain rfl : between.cursor = cursor := hcursor
  · obtain rfl : result = .error (.fault fault) := hresult
    exact (hhandler fault between horderly htokens).onward htokens hdepth hcurrent
  · obtain rfl : result = .ok a := hresult
    exact ⟨rfl, rfl, horderly, htokens, hdepth, hcurrent⟩

end Agrees

/-! ## Walks that follow a reading -/

/-- A walk makes of every orderly walker what a reading makes of its cursor, if `room` nestings may
still be opened and at most `limit` tokens are left. -/
def Follows (room limit : Nat) (walk : Walk α) (rule : Reading α) : Prop :=
  ∀ walker : Walker, walker.Orderly → walker.depth + room = nestingLimit →
    walker.cursor.rest.length ≤ limit →
      Agrees walker (exec walk walker) (Reading.exec rule walker.cursor)

namespace Follows

variable {room limit : Nat} {walk : Walk α} {rule : Reading α} {next : α → Walk β}
  {next' : α → Reading β}

theorem pure (a : α) : Follows room limit (pure a) (pure a) :=
  fun _ horderly _ _ => .here horderly (.ok a)

/-- One rule after the other, if the first one leaves at most `limit'` tokens. -/
theorem bind_of {limit' : Nat} (h : Follows room limit walk rule)
    (hlength : ∀ cursor reached a, Reading.exec rule cursor = (.ok a, reached) →
      cursor.rest.length ≤ limit → reached.rest.length ≤ cursor.rest.length →
        reached.rest.length ≤ limit')
    (hnext : ∀ a, Follows room limit' (next a) (next' a)) :
    Follows room limit (walk >>= next) (rule >>= next') := by
  intro walker horderly hroom hlimit
  refine (h walker horderly hroom hlimit).bind ?_
  intro a between hbetween htokens hdepth hcurrent hread
  have hle : between.cursor.rest.length ≤ walker.cursor.rest.length := by
    rw [between.length_rest, walker.length_rest, htokens]
    exact Nat.sub_le_sub_left hcurrent _
  exact hnext a between hbetween (hdepth ▸ hroom) (hlength _ _ a hread hlimit hle)

theorem bind (h : Follows room limit walk rule)
    (hnext : ∀ a, Follows room limit (next a) (next' a)) :
    Follows room limit (walk >>= next) (rule >>= next') :=
  h.bind_of (fun _ _ _ _ hlimit hle => hle.trans hlimit) hnext

/-- A rule that leaves fewer tokens for the next one. -/
theorem bind_progressing (h : Follows room (limit + 1) walk rule)
    (hprogresses : Reading.Progresses rule)
    (hnext : ∀ a, Follows room limit (next a) (next' a)) :
    Follows room (limit + 1) (walk >>= next) (rule >>= next') := by
  refine h.bind_of ?_ hnext
  intro cursor reached a hexec hlimit _
  have hlength := hprogresses cursor reached a hexec
  omega

theorem stop (cause : SyntaxCause) :
    Follows room limit (stop cause : Walk α) (Reading.stop cause) := by
  intro walker horderly _ _
  rw [exec_stop horderly, Reading.exec_stop]
  exact .here horderly (.error _)

theorem note (fault : SyntaxFault) : Follows room limit (note fault) (Reading.note fault) :=
  fun _ horderly _ _ => .note horderly fault

theorem noteHere (cause : SyntaxCause) :
    Follows room limit (noteHere cause) (Reading.noteHere cause) := by
  intro walker horderly _ _
  rw [Walk.noteHere, exec_bind_of_ok (exec_place horderly)]
  exact .note horderly ⟨cause, walker.cursor.place⟩

/-- A rule in front of which a fault may be noted. -/
theorem noteWhen {condition : Prop} [Decidable condition] (h : Follows room limit walk rule)
    (cause : SyntaxCause) :
    Follows room limit (if condition then Walk.noteHere cause >>= fun _ => walk else walk)
      (if condition then Reading.noteHere cause >>= fun _ => rule else rule) := by
  split
  · exact (noteHere cause).bind fun _ => h
  · exact h

theorem occurrence (name : Token) :
    Follows room limit (occurrence name) (Reading.occurrence name) :=
  fun _ h _ _ => ⟨rfl, rfl, h.of_eq rfl rfl rfl rfl, rfl, rfl, Nat.le_refl _⟩

/-- Where as many tokens as are left bound a reading, the rounds of a walk are one more at least. -/
theorem bind_rounds {next : Nat → Walk β} {next' : Nat → Reading β}
    (hnext : ∀ n m, n < m → Follows room n (next m) (next' n)) :
    Follows room limit (rounds >>= next) (Reading.remaining >>= next') := by
  intro walker horderly hroom _
  have hlt : walker.cursor.rest.length < walker.tokens.length + 1 := by
    rw [walker.length_rest]
    omega
  rw [exec_bind_of_ok (exec_rounds walker), Reading.exec_bind_of_ok (Reading.exec_remaining _)]
  exact hnext _ _ hlt walker horderly hroom (Nat.le_refl _)

/-- What is called is followed like the rule itself. -/
theorem within (called : Rule) (h : Follows room limit walk rule) :
    Follows room limit (within called walk) rule :=
  fun walker horderly hroom hlimit =>
    .within (h (walker.calling called) (horderly.of_eq rfl rfl rfl rfl) hroom hlimit)

/-- One nesting deeper there is room for one nesting less. -/
theorem deepened (h : Follows room limit walk rule) :
    Follows (room + 1) limit (deepened walk) rule := by
  intro walker horderly hroom hlimit
  obtain ⟨hresult, hcursor, hreached, htokens, hdepth, hcurrent⟩ := h walker.deeper
    (horderly.of_eq rfl rfl rfl rfl) ((Nat.succ_add_eq_add_succ _ _).trans hroom) hlimit
  rw [exec_deepened]
  exact ⟨hresult, hcursor, hreached.of_eq rfl rfl rfl rfl, htokens, Nat.sub_eq_of_eq_add hdepth,
    hcurrent⟩

theorem nested (nesting : Nesting) (h : Follows room limit walk rule) :
    Follows (room + 1) limit (nested nesting walk) rule := by
  intro walker horderly hroom hlimit
  rw [exec_nested_of_room nesting walk (by omega)]
  exact h.deepened.within (.nested nesting) walker horderly hroom hlimit

/-- Where there is no room, a nesting is a fault. -/
theorem nested_full (nesting : Nesting) (walk : Walk α) :
    Follows 0 limit (Walk.nested nesting walk) (Reading.stop .nesting) := by
  intro walker horderly hroom hlimit
  rw [exec_nested_of_full nesting walk (Nat.le_of_eq hroom.symm), exec_place horderly,
    Reading.exec_stop]
  exact ⟨rfl, rfl, horderly.of_eq rfl rfl rfl rfl, rfl, rfl, Nat.le_refl _⟩

/-! ### Looking at the next token -/

/-- A choice that a walk and a reading make by the tokens that are left. -/
theorem bind_check {check : Walk Bool} {check' : Reading Bool} {choice : List Token → Bool}
    {next : Bool → Walk β} {next' : Bool → Reading β}
    (hcheck : ∀ {walker : Walker}, walker.Orderly →
      exec check walker = (.ok (choice walker.cursor.rest), walker))
    (hcheck' : ∀ cursor : Cursor,
      Reading.exec check' cursor = (.ok (choice cursor.rest), cursor))
    (hnext : ∀ found, Follows room limit (next found) (next' found)) :
    Follows room limit (check >>= next) (check' >>= next') := by
  intro walker horderly hroom hlimit
  rw [exec_bind_of_ok (hcheck horderly), Reading.exec_bind_of_ok (hcheck' walker.cursor)]
  exact hnext _ walker horderly hroom hlimit

theorem bind_nextIs {next : Bool → Walk β} {next' : Bool → Reading β}
    (hnext : ∀ found, Follows room limit (next found) (next' found)) :
    Follows room limit (check test >>= next) (Reading.nextIs test >>= next') := by
  let choice (rest : List Token) : Bool := rest.head?.any test
  have hcheck : ∀ {walker : Walker}, walker.Orderly →
      exec (check test) walker = (.ok (choice walker.cursor.rest), walker) :=
    fun horderly => exec_check horderly test
  exact bind_check hcheck (Reading.exec_nextIs test) hnext

/-- At the end a choice by the tokens that are left is made. -/
theorem bind_check_of_end {check : Walk Bool} {choice : List Token → Bool} {next : Bool → Walk β}
    {rule : Reading β} (hcheck : ∀ {walker : Walker}, walker.Orderly →
      exec check walker = (.ok (choice walker.cursor.rest), walker))
    (h : Follows room 0 (next (choice [])) rule) : Follows room 0 (check >>= next) rule := by
  intro walker horderly hroom hlimit
  have hnil := List.eq_nil_of_length_eq_zero (Nat.le_zero.1 hlimit)
  rw [exec_bind_of_ok (hcheck horderly), hnil]
  exact h walker horderly hroom hlimit

theorem bind_accept? {next : Option Token → Walk β} {next' : Option Token → Reading β}
    (hsome : ∀ token fewer, limit = fewer + 1 →
      Follows room fewer (next (some token)) (next' (some token)))
    (hnone : Follows room limit (next none) (next' none)) :
    Follows room limit (accept? test >>= next) (Reading.accept? test >>= next') := by
  intro walker horderly hroom hlimit
  rcases head?_any_cases test walker.cursor.rest with hnot | ⟨token, rest, hrest, hpasses⟩
  · rw [exec_bind_of_ok (exec_accept?_of_not horderly hnot),
      Reading.exec_bind_of_ok (Reading.exec_accept?_of_not hnot)]
    exact hnone walker horderly hroom hlimit
  · rw [hrest, List.length_cons] at hlimit
    obtain ⟨fewer, rfl⟩ : ∃ fewer, limit = fewer + 1 := ⟨limit - 1, by omega⟩
    have hstep : walker.step.cursor.rest.length ≤ fewer := by
      rw [Walker.cursor_step hrest]
      exact Nat.le_of_succ_le_succ hlimit
    have hafter := hsome token fewer rfl walker.step (horderly.step hrest) hroom hstep
    rw [Walker.cursor_step hrest] at hafter
    rw [exec_bind_of_ok (exec_accept?_of_test horderly hrest hpasses),
      Reading.exec_bind_of_ok (Reading.exec_accept?_of_test hrest hpasses)]
    exact hafter.onward rfl rfl (Nat.le_succ _)

/-- At the end no token is accepted. -/
theorem bind_accept?_of_end {next : Option Token → Walk β} {rule : Reading β}
    (h : Follows room 0 (next none) rule) : Follows room 0 (accept? test >>= next) rule := by
  intro walker horderly hroom hlimit
  have hnil := List.eq_nil_of_length_eq_zero (Nat.le_zero.1 hlimit)
  have hnot : walker.cursor.rest.head?.any test = false := by
    rw [hnil]
    rfl
  rw [exec_bind_of_ok (exec_accept?_of_not horderly hnot)]
  exact h walker horderly hroom hlimit

theorem bind_accepts {next : Bool → Walk β} {next' : Bool → Reading β}
    (htrue : ∀ fewer, limit = fewer + 1 → Follows room fewer (next true) (next' true))
    (hfalse : Follows room limit (next false) (next' false)) :
    Follows room limit (accepts test >>= next) (Reading.accepts test >>= next') := by
  rw [accepts, Reading.accepts, bind_assoc, bind_assoc]
  exact bind_accept? (fun _ => htrue) hfalse

theorem bind_accepts_of_end {next : Bool → Walk β} {rule : Reading β}
    (h : Follows room 0 (next false) rule) : Follows room 0 (accepts test >>= next) rule := by
  rw [accepts, bind_assoc]
  exact bind_accept?_of_end h

theorem expect (test : Token → Bool) (cause : SyntaxCause) :
    Follows room limit (expect test cause) (Reading.expect test cause) :=
  bind_accept? (fun token _ _ => pure token) (stop cause)

/-- A choice that makes no difference to the walk, since without a token that passes the test it
comes to nothing. -/
theorem of_nextIs {a : α} (h : Follows room limit walk rule)
    (hnot : ∀ {walker : Walker}, walker.Orderly → walker.cursor.rest.head?.any test = false →
      exec walk walker = (.ok a, walker)) :
    Follows room limit walk
      (Reading.nextIs test >>= fun found => if found then rule else Pure.pure a) := by
  intro walker horderly hroom hlimit
  rw [Reading.exec_bind_of_ok (Reading.exec_nextIs test _)]
  cases hnext : walker.cursor.rest.head?.any test with
  | true => exact h walker horderly hroom hlimit
  | false =>
      rw [hnot horderly hnext]
      exact .here horderly (.ok a)

end Follows

end Walk

end LoxLang
