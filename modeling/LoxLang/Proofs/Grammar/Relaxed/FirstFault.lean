import LoxLang.Proofs.Grammar.Relaxed.Program

/-!
# The first fault

The first fault that stops a rule is reported at the first token that cannot come at its place, if
it is not that phrases are nested too deeply: the tokens in front of it start a program of the
relaxed grammar, and together with it they start none.  The end of the text counts as a token.
-/

namespace LoxLang

namespace Grammar

namespace Relaxed

/-- The tokens of a text, and its end. -/
def ended (tokens : List Token) : List (Option Token) :=
  tokens.map some ++ [none]

/-- Some program starts like this. -/
def Viable (front : List (Option Token)) : Prop :=
  ∃ program, IsProgram program ∧ front <+: ended program

theorem Viable.mono {front front' : List (Option Token)} (h : Viable front')
    (hbegins : front <+: front') : Viable front := by
  obtain ⟨program, hprogram, hfront⟩ := h
  exact ⟨program, hprogram, hbegins.trans hfront⟩

theorem viable_of_append {front next : List Token} (h : IsProgram (front ++ next)) :
    Viable (front.map some) := by
  refine ⟨front ++ next, h, next.map some ++ [none], ?_⟩
  rw [ended, List.map_append, List.append_assoc]

/-- A text that starts like this goes on with the token given, or ends. -/
theorem exists_append_of_prefix {front program : List Token} {token : Option Token}
    (h : front.map some ++ [token] <+: ended program) :
    ∃ next, program = front ++ next ∧ next.head? = token := by
  induction front generalizing program with
  | nil =>
      obtain ⟨more, hmore⟩ := h
      cases program with
      | nil => exact ⟨[], rfl, (List.cons_eq_cons.1 hmore).1.symm⟩
      | cons first rest => exact ⟨first :: rest, rfl, (List.cons_eq_cons.1 hmore).1.symm⟩
  | cons first front ih =>
      cases program with
      | nil =>
          obtain ⟨more, hmore⟩ := h
          cases (List.cons_eq_cons.1 hmore).1
      | cons first' rest =>
          obtain ⟨hfirst, hrest⟩ := List.cons_prefix_cons.1 h
          obtain ⟨next, rfl, hnext⟩ := ih hrest
          cases hfirst
          exact ⟨next, rfl, hnext⟩

/-- Where nothing more can come than what has been read, reading further does not help. -/
theorem viable_take_iff {front rest : List Token} (hviable : ∃ next, IsProgram (front ++ next))
    (hblocked : ∀ next, next.head? = rest.head? → ¬IsProgram (front ++ next)) (j : Nat) :
    Viable ((ended (front ++ rest)).take j) ↔ j ≤ front.length := by
  constructor
  · intro h
    by_contra hlt
    have hsplit : ended (front ++ rest) =
        (front.map some ++ [rest.head?]) ++ (ended rest).tail := by
      cases rest <;> simp [ended]
    have hbegins : front.map some ++ [rest.head?] <+: (ended (front ++ rest)).take j := by
      rw [hsplit]
      refine List.prefix_take_iff.2 ⟨List.prefix_append _ _, ?_⟩
      rw [List.length_append, List.length_map, List.length_singleton]
      omega
    obtain ⟨program, hprogram, hfront⟩ := h.mono hbegins
    obtain ⟨next, rfl, hnext⟩ := exists_append_of_prefix hfront
    exact hblocked next hnext hprogram
  · intro hle
    obtain ⟨next, hnext⟩ := hviable
    refine (viable_of_append hnext).mono ?_
    rw [ended, List.map_append, List.append_assoc,
      List.take_append_of_le_length (by simpa using hle)]
    exact List.take_prefix _ _

end Relaxed

end Grammar

open Grammar Relaxed

/-- The place of the token with a given index, or of the end. -/
def Place.atIndex (tokens : List Token) (endLine i : Nat) : Place :=
  match tokens[i]? with
  | some found => .token found
  | none => .textEnd endLine

theorem Place.atIndex_length_append (front rest : List Token) (endLine : Nat) (cursor : Cursor)
    (hline : cursor.endLine = endLine) :
    Place.atIndex (front ++ rest) endLine front.length = { cursor with rest := rest }.place := by
  rw [atIndex, List.getElem?_append_right (Nat.le_refl _), Nat.sub_self]
  cases rest with
  | nil => exact congrArg Place.textEnd hline.symm
  | cons token rest => rfl

namespace Program

variable {tokens : List Token} {endLine : Nat} {nextId : NodeId} {faults : List SyntaxFault}
  {fault : SyntaxFault}

/-- The faults that are reported are those that come up. -/
theorem raised_of_parse_eq_error (h : (parse tokens endLine nextId).result = .error faults) :
    raised (Reading.exec program (Parsed.start tokens endLine nextId)).2.noted
      (Reading.exec program (Parsed.start tokens endLine nextId)).1 = faults := by
  rw [parse, Parsed.ofReading_eq] at h
  rcases hexec : program.exec (Parsed.start tokens endLine nextId) with ⟨fault | a, reached⟩
  · rw [hexec] at h
    exact Except.error.inj h
  · rw [hexec] at h
    simp only at h
    split at h
    · cases h
    · exact Except.error.inj h

/-- The first fault that stops a rule, unless it is that phrases are nested too deeply, is at the
first token that cannot come at its place: exactly the parts of the text in front of it can be the
start of a program. -/
theorem first_fault_at_first_offending_token
    (hparse : (parse tokens endLine nextId).result = .error faults)
    (hfirst : faults.find? (·.cause.stops) = some fault) (hcause : fault.cause ≠ .nesting) :
    ∃ i ≤ tokens.length, fault.place = Place.atIndex tokens endLine i ∧
      ∀ j, Viable ((ended tokens).take j) ↔ j ≤ i := by
  have htracks : Tracks IsProgram Grammar.program (Relaxed.Derives [])
    (Parsed.start tokens endLine nextId) := tracks_program
  obtain ⟨noted, hnoted, haccount⟩ := htracks.account
  have hraised := raised_of_parse_eq_error hparse
  have hnil : (Parsed.start tokens endLine nextId).noted = [] := rfl
  rw [hnoted, hnil, List.append_nil] at hraised
  rw [Accounts, hraised, hfirst] at haccount
  rcases haccount with ⟨hnone, -⟩ | ⟨fault', rest, hsome, -, hblames⟩
  · cases hnone
  · obtain rfl := Option.some.inj hsome
    obtain ⟨after, ⟨front, hstart, hback, hforth⟩, ⟨next, hnext⟩, hblocked⟩ :=
      hblames.blocked hcause
    obtain rfl : tokens = front ++ rest := hstart
    refine ⟨front.length, by simp, ?_, viable_take_iff ⟨next, hback next hnext⟩
      fun next hhead hprogram => hblocked next hhead (hforth next hhead hprogram)⟩
    rw [hblames.place]
    exact (Place.atIndex_length_append front rest endLine _ rfl).symm

/-- `print ( ;` -/
def unfinishedPrint : List Token :=
  [⟨.keyword .printKw, "print", 1⟩, ⟨.symbol .leftParen, "(", 1⟩, ⟨.symbol .semicolon, ";", 1⟩]

theorem first_fault_unfinishedPrint :
    ∃ faults fault, (parse unfinishedPrint 1 0).result = .error faults ∧
      faults.find? (·.cause.stops) = some fault ∧ fault.cause ≠ .nesting ∧
      ∃ i ≤ unfinishedPrint.length, fault.place = Place.atIndex unfinishedPrint 1 i ∧
        ∀ j, Viable ((ended unfinishedPrint).take j) ↔ j ≤ i := by
  have hparse : (parse unfinishedPrint 1 0).result =
      .error [⟨.expression, .token ⟨.symbol .semicolon, ";", 1⟩⟩] := by rfl
  refine ⟨_, _, hparse, rfl, by decide, ?_⟩
  exact first_fault_at_first_offending_token hparse rfl (by decide)

end Program

/-! ## Phrases that are nested too deeply

What is read after a fault about nesting need not fit together with what was read before, so nothing
can be said about the faults after it. -/

namespace Grammar.Relaxed

variable {stack : List Part} {tokens : List Token}

theorem Derives.operation_of_unary (h : Derives (.phrase .unary :: stack) tokens)
    (tiers : List Tier) : Derives (.phrase (.operation tiers) :: stack) tokens := by
  induction tiers generalizing stack with
  | nil => exact (derives_phrase_of_singleton rfl).2 h
  | cons tier tighter ih =>
      have hfirst : Derives ([.phrase .unary] ++ stack) tokens := h
      exact (derives_phrase_of_singleton rfl).2 (ih hfirst.insert_done)

theorem Derives.expression_of_unary (h : Derives (.phrase .unary :: stack) tokens) :
    Derives (.phrase .expression :: stack) tokens := by
  have hfirst : Derives ([.phrase .unary] ++ stack) tokens := h
  exact (derives_phrase_of_singleton rfl).2 (hfirst.insert_missing.operation_of_unary tiers)

theorem derives_unary_name {name : Token} (hname : name.isIdentifier) (h : Derives stack tokens) :
    Derives (.phrase .unary :: stack) (name :: tokens) := by
  have hprimary : Derives ([.phrase .primary] ++ stack) (name :: tokens) :=
    derives_primary_iff.2 (.inr (.inr (.inl (.token hname h))))
  exact derives_unary_iff.2 (.inr ((derives_phrase_of_singleton rfl).2 hprimary.insert_done))

/-- A name with any number of signs in front of it. -/
theorem derives_unary_replicate {sign name : Token} (hsign : sign.isSymbol .minus)
    (hname : name.isIdentifier) (h : Derives stack tokens) (n : Nat) :
    Derives (.phrase .unary :: stack) (List.replicate n sign ++ name :: tokens) := by
  induction n with
  | zero => exact derives_unary_name hname h
  | succ n ih => exact derives_unary_iff.2 (.inl (.token (by simp [hsign]) ih))

theorem derives_print {word name semicolon : Token} (hword : word.isKeyword .printKw)
    (hname : name.isIdentifier) (hsemicolon : semicolon.isSymbol .semicolon)
    (h : Derives stack tokens) :
    Derives (.phrase .statement :: stack) (word :: name :: semicolon :: tokens) := by
  have hend : Derives (.symbol .semicolon :: stack) (semicolon :: tokens) := .token hsemicolon h
  have hvalue := (derives_unary_name hname hend).expression_of_unary
  exact derives_statement_token_iff.2 (.inr (.inr (.inr (.inl ⟨hword, hvalue⟩))))

/-- `if (-x) print y; else print z;` with so many signs that they are nested too deeply. -/
def deepConditional : List Token :=
  ⟨.keyword .ifKw, "if", 1⟩ :: ⟨.symbol .leftParen, "(", 1⟩ ::
    (List.replicate nestingLimit ⟨.symbol .minus, "-", 1⟩ ++ .named "x" 1 ::
      [⟨.symbol .rightParen, ")", 1⟩, ⟨.keyword .printKw, "print", 1⟩, .named "y" 1,
        ⟨.symbol .semicolon, ";", 1⟩, ⟨.keyword .elseKw, "else", 1⟩,
        ⟨.keyword .printKw, "print", 1⟩, .named "z" 1, ⟨.symbol .semicolon, ";", 1⟩])

theorem isProgram_deepConditional : IsProgram deepConditional := by
  have helse : Derives
      [.optional [.keyword .elseKw, .phrase .statement], .repeated [.phrase .declaration]]
      [⟨.keyword .elseKw, "else", 1⟩, ⟨.keyword .printKw, "print", 1⟩, .named "z" 1,
        ⟨.symbol .semicolon, ";", 1⟩] :=
    .present (.token rfl (derives_print rfl rfl rfl (.done .nil)))
  have hthen : Derives [.symbol .rightParen, .phrase .statement,
      .optional [.keyword .elseKw, .phrase .statement], .repeated [.phrase .declaration]]
      (⟨.symbol .rightParen, ")", 1⟩ :: ⟨.keyword .printKw, "print", 1⟩ :: .named "y" 1 ::
        ⟨.symbol .semicolon, ";", 1⟩ :: _) :=
    .token rfl (derives_print rfl rfl rfl helse)
  have hsign : Token.isSymbol ⟨.symbol .minus, "-", 1⟩ .minus := rfl
  have hname : Token.isIdentifier (.named "x" 1) := rfl
  have hcondition :=
    (derives_unary_replicate hsign hname hthen nestingLimit).expression_of_unary
  have hstatement : Derives [.phrase .statement, .repeated [.phrase .declaration]]
      deepConditional :=
    derives_statement_token_iff.2 (.inr (.inr (.inl ⟨rfl, .token rfl hcondition⟩)))
  exact (derives_phrase_of_singleton rfl).2
    (.again (derives_declaration_iff.2 (.inr (.inr (.inr hstatement)))))

end Grammar.Relaxed

/-- Behind a fault about nesting a fault is reported at the `else` of a conditional, which does come
there in a program. -/
theorem Program.not_first_shallow_fault_at_offending_token :
    ¬∀ (tokens : List Token) (endLine : Nat) (nextId : NodeId) (faults : List SyntaxFault)
      (fault : SyntaxFault), (parse tokens endLine nextId).result = .error faults →
      faults.find? (fun fault => fault.cause.stops && fault.cause != .nesting) = some fault →
      ∃ i ≤ tokens.length, fault.place = Place.atIndex tokens endLine i ∧
        ∀ j, Viable ((ended tokens).take j) ↔ j ≤ i := by
  intro h
  have hfaults : (parse deepConditional 1 0).faults.find?
      (fun fault => fault.cause.stops && fault.cause != .nesting) =
        some ⟨.expression, .token ⟨.keyword .elseKw, "else", 1⟩⟩ := by decide +kernel
  rw [Parsed.faults] at hfaults
  cases hparse : (parse deepConditional 1 0).result with
  | ok program =>
      rw [hparse] at hfaults
      cases hfaults
  | error faults =>
      rw [hparse] at hfaults
      obtain ⟨i, -, -, hviable⟩ := h _ _ _ _ _ hparse hfaults
      have hnot : ¬Viable ((ended deepConditional).take (i + 1)) :=
        fun hviable' => absurd ((hviable (i + 1)).1 hviable') (Nat.not_succ_le_self i)
      exact hnot ⟨deepConditional, isProgram_deepConditional, List.take_prefix _ _⟩

end LoxLang
