import LoxLang.Proofs.Grammar.Complete.Expression
import LoxLang.Proofs.Grammar.Sound.Expression

/-!
# The relaxed grammar

The grammar without what is not context-free about it: any expression built from binary operators
may stand left of an equals sign, calls and functions may have any number of arguments and
parameters, and phrases may stand in one another to any depth.  It is given as a table,
`Phrase.alternatives`, and a list of tokens is derived by taking the parts that are still to come
one after the other (`Derives`).
-/

namespace LoxLang

namespace Grammar

namespace Relaxed

/-! ## The grammar as a table -/

/-- A sort of tokens.  There are tokens of each sort. -/
structure Terminal where
  test : Token → Bool
  possible : ∃ token, test token

/-- The phrases that have a name.  Expressions built from binary operators of given tiers have an
operand of the first tier on the outside. -/
inductive Phrase where
  | program
  | declaration
  | classDeclaration
  | functionDeclaration
  | variableDeclaration
  | function
  | parameters
  | statement
  | expressionStatement
  | forStatement
  | forInitializer
  | ifStatement
  | printStatement
  | returnStatement
  | whileStatement
  | block
  | expression
  | operation (tiers : List Tier)
  | unary
  | call
  | selection
  | arguments
  | primary

/-- A part of a phrase. -/
inductive Part where
  | token (terminal : Terminal)
  | phrase (phrase : Phrase)
  /-- Parts that may be missing. -/
  | optional (parts : List Part)
  /-- Parts that stand there any number of times. -/
  | repeated (parts : List Part)

namespace Part

/-- A given symbol. -/
abbrev symbol (symbol : Symbol) : Part :=
  .token ⟨(·.isSymbol symbol), ⟨⟨.symbol symbol, "", 0⟩, by simp [Token.isSymbol]⟩⟩

/-- A given reserved word. -/
abbrev keyword (keyword : Keyword) : Part :=
  .token ⟨(·.isKeyword keyword), ⟨⟨.keyword keyword, "", 0⟩, by simp [Token.isKeyword]⟩⟩

/-- An identifier. -/
abbrev identifier : Part :=
  .token ⟨Token.isIdentifier, ⟨⟨.identifier, "", 0⟩, rfl⟩⟩

/-- A number, a text, or one of the words `true`, `false` and `nil`. -/
abbrev constant : Part :=
  .token ⟨fun token => (literal? token.kind).isSome, ⟨⟨.keyword .nilKw, "", 0⟩, rfl⟩⟩

/-- A binary operator of a given tier. -/
abbrev operator (tier : Tier) : Part :=
  .token ⟨tier.level.has, by
    cases tier
    · exact ⟨⟨.keyword .orKw, "", 0⟩, rfl⟩
    · exact ⟨⟨.keyword .andKw, "", 0⟩, rfl⟩
    · exact ⟨⟨.symbol .equalEqual, "", 0⟩, rfl⟩
    · exact ⟨⟨.symbol .less, "", 0⟩, rfl⟩
    · exact ⟨⟨.symbol .plus, "", 0⟩, rfl⟩
    · exact ⟨⟨.symbol .star, "", 0⟩, rfl⟩⟩

/-- A unary operator. -/
abbrev unaryOperator : Part :=
  .token ⟨fun token => token.isSymbol .bang || token.isSymbol .minus,
    ⟨⟨.symbol .bang, "", 0⟩, rfl⟩⟩

end Part

open Relaxed.Part in
/-- What each phrase consists of. -/
def Phrase.alternatives : Phrase → List (List Part)
  | program => [[repeated [phrase declaration]]]
  | declaration =>
      [[phrase classDeclaration], [phrase functionDeclaration], [phrase variableDeclaration],
        [phrase statement]]
  | classDeclaration =>
      [[keyword .classKw, identifier, optional [symbol .less, identifier], symbol .leftBrace,
        repeated [phrase function], symbol .rightBrace]]
  | functionDeclaration => [[keyword .funKw, phrase function]]
  | variableDeclaration =>
      [[keyword .varKw, identifier, optional [symbol .equal, phrase expression],
        symbol .semicolon]]
  | function =>
      [[identifier, symbol .leftParen, optional [phrase parameters], symbol .rightParen,
        phrase block]]
  | parameters => [[identifier, repeated [symbol .comma, identifier]]]
  | statement =>
      [[phrase expressionStatement], [phrase forStatement], [phrase ifStatement],
        [phrase printStatement], [phrase returnStatement], [phrase whileStatement],
        [phrase block]]
  | expressionStatement => [[phrase expression, symbol .semicolon]]
  | forStatement =>
      [[keyword .forKw, symbol .leftParen, phrase forInitializer, optional [phrase expression],
        symbol .semicolon, optional [phrase expression], symbol .rightParen, phrase statement]]
  | forInitializer =>
      [[phrase variableDeclaration], [phrase expressionStatement], [symbol .semicolon]]
  | ifStatement =>
      [[keyword .ifKw, symbol .leftParen, phrase expression, symbol .rightParen,
        phrase statement, optional [keyword .elseKw, phrase statement]]]
  | printStatement => [[keyword .printKw, phrase expression, symbol .semicolon]]
  | returnStatement => [[keyword .returnKw, optional [phrase expression], symbol .semicolon]]
  | whileStatement =>
      [[keyword .whileKw, symbol .leftParen, phrase expression, symbol .rightParen,
        phrase statement]]
  | block => [[symbol .leftBrace, repeated [phrase declaration], symbol .rightBrace]]
  | expression =>
      [[phrase (operation tiers), optional [symbol .equal, phrase expression]]]
  | operation (tier :: tighter) =>
      [[phrase (operation tighter), repeated [operator tier, phrase (operation tighter)]]]
  | operation [] => [[phrase unary]]
  | unary => [[unaryOperator, phrase unary], [phrase call]]
  | call => [[phrase primary, repeated [phrase selection]]]
  | selection =>
      [[symbol .leftParen, optional [phrase arguments], symbol .rightParen],
        [symbol .dot, identifier]]
  | arguments => [[phrase expression, repeated [symbol .comma, phrase expression]]]
  | primary =>
      [[constant], [keyword .thisKw], [identifier],
        [symbol .leftParen, phrase expression, symbol .rightParen],
        [keyword .superKw, symbol .dot, identifier]]

/-! ## Derivations -/

/-- The parts that are still to come derive a list of tokens. -/
inductive Derives : List Part → List Token → Prop
  | nil : Derives [] []
  | token {terminal : Terminal} {stack : List Part} {token : Token} {tokens : List Token} :
      terminal.test token → Derives stack tokens →
      Derives (.token terminal :: stack) (token :: tokens)
  | phrase {phrase : Phrase} {alternative stack : List Part} {tokens : List Token} :
      alternative ∈ phrase.alternatives → Derives (alternative ++ stack) tokens →
      Derives (.phrase phrase :: stack) tokens
  | missing {parts stack : List Part} {tokens : List Token} :
      Derives stack tokens → Derives (.optional parts :: stack) tokens
  | present {parts stack : List Part} {tokens : List Token} :
      Derives (parts ++ stack) tokens → Derives (.optional parts :: stack) tokens
  | done {parts stack : List Part} {tokens : List Token} :
      Derives stack tokens → Derives (.repeated parts :: stack) tokens
  | again {parts stack : List Part} {tokens : List Token} :
      Derives (parts ++ .repeated parts :: stack) tokens →
      Derives (.repeated parts :: stack) tokens

/-- The programs of the relaxed grammar. -/
def IsProgram (tokens : List Token) : Prop :=
  Derives [.phrase .program] tokens

variable {terminal : Terminal} {parts stack : List Part} {tokens : List Token}

theorem derives_token_cons_iff {token : Token} :
    Derives (.token terminal :: stack) (token :: tokens) ↔
      terminal.test token ∧ Derives stack tokens := by
  constructor
  · intro h
    cases h with
    | token htest h => exact ⟨htest, h⟩
  · rintro ⟨htest, h⟩
    exact .token htest h

theorem derives_phrase_iff (phrase : Phrase) :
    Derives (.phrase phrase :: stack) tokens ↔
      ∃ alternative ∈ phrase.alternatives, Derives (alternative ++ stack) tokens := by
  constructor
  · intro h
    cases h with
    | phrase hmem h => exact ⟨_, hmem, h⟩
  · rintro ⟨alternative, hmem, h⟩
    exact .phrase hmem h

/-- A phrase that consists of the same parts in each case. -/
theorem derives_phrase_of_singleton {phrase : Phrase} {alternative : List Part}
    (h : phrase.alternatives = [alternative]) :
    Derives (.phrase phrase :: stack) tokens ↔ Derives (alternative ++ stack) tokens := by
  simp [derives_phrase_iff, h]

/-- A phrase that starts with a token of a given sort in each case. -/
theorem derives_phrase_token_iff (phrase : Phrase) {token : Token}
    (h : phrase.alternatives = [.token terminal :: parts]) :
    Derives (.phrase phrase :: stack) (token :: tokens) ↔
      terminal.test token ∧ Derives (parts ++ stack) tokens := by
  rw [derives_phrase_of_singleton h, List.cons_append, derives_token_cons_iff]

theorem derives_optional_iff :
    Derives (.optional parts :: stack) tokens ↔
      Derives stack tokens ∨ Derives (parts ++ stack) tokens := by
  constructor
  · intro h
    cases h with
    | missing h => exact .inl h
    | present h => exact .inr h
  · rintro (h | h)
    · exact .missing h
    · exact .present h

theorem derives_repeated_iff :
    Derives (.repeated parts :: stack) tokens ↔
      Derives stack tokens ∨ Derives (parts ++ .repeated parts :: stack) tokens := by
  constructor
  · intro h
    cases h with
    | done h => exact .inl h
    | again h => exact .inr h
  · rintro (h | h)
    · exact .done h
    · exact .again h

theorem Derives.append {parts' : List Part} {tokens' : List Token} (h : Derives parts tokens)
    (h' : Derives parts' tokens') : Derives (parts ++ parts') (tokens ++ tokens') := by
  induction h with
  | nil => exact h'
  | token htest _ ih => exact .token htest ih
  | phrase hmem _ ih => exact .phrase hmem (List.append_assoc .. ▸ ih)
  | missing _ ih => exact .missing ih
  | present _ ih => exact .present (List.append_assoc .. ▸ ih)
  | done _ ih => exact .done ih
  | again _ ih =>
      rw [List.append_assoc] at ih
      exact .again ih

/-- What parts derive is derived by the first of them and the others. -/
theorem derives_append_iff :
    Derives (parts ++ stack) tokens ↔
      ∃ first rest, tokens = first ++ rest ∧ Derives parts first ∧ Derives stack rest := by
  constructor
  · intro h
    generalize hwhole : parts ++ stack = whole at h
    induction h generalizing parts with
    | nil =>
        obtain ⟨rfl, rfl⟩ := List.append_eq_nil_iff.1 hwhole
        exact ⟨[], [], rfl, .nil, .nil⟩
    | token htest h ih =>
        rcases parts with _ | ⟨part, parts⟩ <;> cases hwhole
        · exact ⟨[], _, rfl, .nil, .token htest h⟩
        · obtain ⟨first, rest, rfl, hfirst, hrest⟩ := ih rfl
          exact ⟨_ :: first, rest, rfl, .token htest hfirst, hrest⟩
    | phrase hmem h ih =>
        rcases parts with _ | ⟨part, parts⟩ <;> cases hwhole
        · exact ⟨[], _, rfl, .nil, .phrase hmem h⟩
        · obtain ⟨first, rest, rfl, hfirst, hrest⟩ := ih (List.append_assoc ..)
          exact ⟨first, rest, rfl, .phrase hmem hfirst, hrest⟩
    | missing h ih =>
        rcases parts with _ | ⟨part, parts⟩ <;> cases hwhole
        · exact ⟨[], _, rfl, .nil, .missing h⟩
        · obtain ⟨first, rest, rfl, hfirst, hrest⟩ := ih rfl
          exact ⟨first, rest, rfl, .missing hfirst, hrest⟩
    | present h ih =>
        rcases parts with _ | ⟨part, parts⟩ <;> cases hwhole
        · exact ⟨[], _, rfl, .nil, .present h⟩
        · obtain ⟨first, rest, rfl, hfirst, hrest⟩ := ih (List.append_assoc ..)
          exact ⟨first, rest, rfl, .present hfirst, hrest⟩
    | done h ih =>
        rcases parts with _ | ⟨part, parts⟩ <;> cases hwhole
        · exact ⟨[], _, rfl, .nil, .done h⟩
        · obtain ⟨first, rest, rfl, hfirst, hrest⟩ := ih rfl
          exact ⟨first, rest, rfl, .done hfirst, hrest⟩
    | @again parts' stack' tokens h ih =>
        rcases parts with _ | ⟨part, parts⟩ <;> cases hwhole
        · exact ⟨[], _, rfl, .nil, .again h⟩
        · have hparts : (parts' ++ .repeated parts' :: parts) ++ stack =
              parts' ++ .repeated parts' :: parts.append stack := List.append_assoc ..
          obtain ⟨first, rest, rfl, hfirst, hrest⟩ := ih hparts
          exact ⟨first, rest, rfl, .again hfirst, hrest⟩
  · rintro ⟨first, rest, rfl, hfirst, hrest⟩
    exact hfirst.append hrest

/-- Parts may be missing behind other parts. -/
theorem Derives.insert_missing {parts' : List Part} (h : Derives (parts ++ stack) tokens) :
    Derives (parts ++ .optional parts' :: stack) tokens := by
  obtain ⟨first, rest, rfl, hfirst, hrest⟩ := derives_append_iff.1 h
  exact hfirst.append (.missing hrest)

theorem Derives.insert_done {parts' : List Part} (h : Derives (parts ++ stack) tokens) :
    Derives (parts ++ .repeated parts' :: stack) tokens := by
  obtain ⟨first, rest, rfl, hfirst, hrest⟩ := derives_append_iff.1 h
  exact hfirst.append (.done hrest)

/-! ## Something is derived from all parts -/

/-- Parts that derive something in front of any parts that do. -/
def Derivable (parts : List Part) : Prop :=
  ∀ (stack : List Part) (tokens : List Token), Derives stack tokens →
    ∃ tokens' : List Token, Derives (parts ++ stack) tokens'

namespace Derivable

theorem nil : Derivable [] := fun _ tokens h => ⟨tokens, h⟩

theorem consToken (h : Derivable parts) : Derivable (.token terminal :: parts) := by
  intro stack tokens hstack
  obtain ⟨tokens', h'⟩ := h stack tokens hstack
  obtain ⟨token, htest⟩ := terminal.possible
  exact ⟨token :: tokens', .token htest h'⟩

theorem consOptional (h : Derivable parts) {parts' : List Part} :
    Derivable (.optional parts' :: parts) := by
  intro stack tokens hstack
  obtain ⟨tokens', h'⟩ := h stack tokens hstack
  exact ⟨tokens', .missing h'⟩

theorem consRepeated (h : Derivable parts) {parts' : List Part} :
    Derivable (.repeated parts' :: parts) := by
  intro stack tokens hstack
  obtain ⟨tokens', h'⟩ := h stack tokens hstack
  exact ⟨tokens', .done h'⟩

theorem consPhrase (h : Derivable parts) {phrase : Phrase} (hphrase : Derivable [.phrase phrase]) :
    Derivable (.phrase phrase :: parts) := by
  intro stack tokens hstack
  obtain ⟨tokens', h'⟩ := h stack tokens hstack
  exact hphrase _ _ h'

/-- A phrase one alternative of which derives something. -/
theorem phrase {phrase : Phrase} {alternative : List Part} (h : Derivable alternative)
    (hmem : alternative ∈ phrase.alternatives) : Derivable [.phrase phrase] := by
  intro stack tokens hstack
  obtain ⟨tokens', h'⟩ := h stack tokens hstack
  exact ⟨tokens', .phrase hmem h'⟩

theorem call : Derivable [.phrase .call] := by
  have hprimary : Derivable [.phrase .primary] :=
    nil.consToken.phrase (List.mem_cons_of_mem _ (List.mem_cons_of_mem _ (List.mem_cons_self ..)))
  exact (nil.consRepeated.consPhrase hprimary).phrase (List.mem_cons_self ..)

theorem unary : Derivable [.phrase .unary] :=
  (nil.consPhrase call).phrase (List.mem_cons_of_mem _ (List.mem_cons_self ..))

theorem operation (tiers : List Tier) : Derivable [.phrase (.operation tiers)] := by
  induction tiers with
  | nil => exact (nil.consPhrase unary).phrase (List.mem_cons_self ..)
  | cons tier tighter ih => exact (nil.consRepeated.consPhrase ih).phrase (List.mem_cons_self ..)

theorem expression : Derivable [.phrase .expression] :=
  (nil.consOptional.consPhrase (operation tiers)).phrase (List.mem_cons_self ..)

theorem expressionStatement : Derivable [.phrase .expressionStatement] :=
  (nil.consToken.consPhrase expression).phrase (List.mem_cons_self ..)

theorem statement : Derivable [.phrase .statement] :=
  (nil.consPhrase expressionStatement).phrase (List.mem_cons_self ..)

theorem block : Derivable [.phrase .block] :=
  nil.consToken.consRepeated.consToken.phrase (List.mem_cons_self ..)

theorem function : Derivable [.phrase .function] :=
  (nil.consPhrase block).consToken.consOptional.consToken.consToken.phrase (List.mem_cons_self ..)

theorem variableDeclaration : Derivable [.phrase .variableDeclaration] :=
  nil.consToken.consOptional.consToken.consToken.phrase (List.mem_cons_self ..)

theorem classDeclaration : Derivable [.phrase .classDeclaration] :=
  nil.consToken.consRepeated.consToken.consOptional.consToken.consToken.phrase
    (List.mem_cons_self ..)

theorem forInitializer : Derivable [.phrase .forInitializer] :=
  (nil.consPhrase variableDeclaration).phrase (List.mem_cons_self ..)

end Derivable

/-- Each phrase derives something: some alternative of it ends without coming back to it. -/
theorem derivable_phrase (phrase : Phrase) : Derivable [.phrase phrase] := by
  have hnil : Derivable [] := .nil
  cases phrase with
  | program => exact hnil.consRepeated.phrase (List.mem_cons_self ..)
  | declaration => exact (hnil.consPhrase .classDeclaration).phrase (List.mem_cons_self ..)
  | classDeclaration => exact .classDeclaration
  | functionDeclaration =>
      exact (hnil.consPhrase .function).consToken.phrase (List.mem_cons_self ..)
  | variableDeclaration => exact .variableDeclaration
  | function => exact .function
  | parameters => exact hnil.consRepeated.consToken.phrase (List.mem_cons_self ..)
  | statement => exact .statement
  | expressionStatement => exact .expressionStatement
  | forStatement =>
      exact ((hnil.consPhrase .statement).consToken.consOptional.consToken.consOptional.consPhrase
        .forInitializer).consToken.consToken.phrase (List.mem_cons_self ..)
  | forInitializer => exact .forInitializer
  | ifStatement =>
      exact ((hnil.consOptional.consPhrase .statement).consToken.consPhrase
        .expression).consToken.consToken.phrase (List.mem_cons_self ..)
  | printStatement =>
      exact (hnil.consToken.consPhrase .expression).consToken.phrase (List.mem_cons_self ..)
  | returnStatement =>
      exact hnil.consToken.consOptional.consToken.phrase (List.mem_cons_self ..)
  | whileStatement =>
      exact ((hnil.consPhrase .statement).consToken.consPhrase
        .expression).consToken.consToken.phrase (List.mem_cons_self ..)
  | block => exact .block
  | expression => exact .expression
  | operation tiers => exact .operation tiers
  | unary => exact .unary
  | call => exact .call
  | selection =>
      exact hnil.consToken.consOptional.consToken.phrase (List.mem_cons_self ..)
  | arguments => exact (hnil.consRepeated.consPhrase .expression).phrase (List.mem_cons_self ..)
  | primary =>
      exact hnil.consToken.phrase (List.mem_cons_self ..)

/-- Whatever parts are still to come, they can come. -/
theorem exists_derives (stack : List Part) : ∃ tokens, Derives stack tokens := by
  have hderivable : Derivable stack := by
    induction stack with
    | nil => exact .nil
    | cons part stack ih =>
        cases part with
        | token => exact ih.consToken
        | phrase phrase => exact ih.consPhrase (derivable_phrase phrase)
        | optional => exact ih.consOptional
        | repeated => exact ih.consRepeated
  simpa using hderivable [] [] .nil

/-! ## First tokens -/

theorem starts_token (h : Derives (.token terminal :: stack) tokens) :
    Starts terminal.test tokens := by
  cases h with
  | token htest _ => exact htest

theorem starts_primary (h : Derives (.phrase .primary :: stack) tokens) :
    Starts startsCall tokens := by
  obtain ⟨alternative, hmem, h⟩ := (derives_phrase_iff _).1 h
  simp only [Phrase.alternatives, List.mem_cons, List.not_mem_nil, or_false] at hmem
  rcases hmem with rfl | rfl | rfl | rfl | rfl
  · exact (starts_token h).mono fun _ hconstant => (constant_of_literal? hconstant).starts
  · exact (starts_token h).mono fun _ hword => startsCall_of_isKeyword hword rfl
  · exact (starts_token h).mono fun _ hname => startsCall_of_isIdentifier hname
  · refine (starts_token h).mono fun _ hparen => ?_
    rw [startsCall, eq_of_beq hparen]
    rfl
  · exact (starts_token h).mono fun _ hword => startsCall_of_isKeyword hword rfl

theorem starts_call (h : Derives (.phrase .call :: stack) tokens) : Starts startsCall tokens :=
  starts_primary ((derives_phrase_of_singleton rfl).1 h)

theorem starts_unary (h : Derives (.phrase .unary :: stack) tokens) :
    Starts startsExpression tokens := by
  obtain ⟨alternative, hmem, h⟩ := (derives_phrase_iff _).1 h
  simp only [Phrase.alternatives, List.mem_cons, List.not_mem_nil, or_false] at hmem
  rcases hmem with rfl | rfl
  · refine (starts_token h).mono fun token htoken => ?_
    have hoperator : (token.isSymbol .bang || token.isSymbol .minus) = true := htoken
    rw [startsExpression, Bool.or_assoc, hoperator, Bool.or_true]
  · exact (starts_call h).mono fun _ => startsExpression_of_startsCall

theorem starts_operation {tiers : List Tier}
    (h : Derives (.phrase (.operation tiers) :: stack) tokens) :
    Starts startsExpression tokens := by
  induction tiers generalizing stack with
  | nil => exact starts_unary ((derives_phrase_of_singleton rfl).1 h)
  | cons tier tighter ih => exact ih ((derives_phrase_of_singleton rfl).1 h)

theorem starts_expression (h : Derives (.phrase .expression :: stack) tokens) :
    Starts startsExpression tokens :=
  starts_operation ((derives_phrase_of_singleton rfl).1 h)

theorem starts_function (h : Derives (.phrase .function :: stack) tokens) :
    Starts Token.isIdentifier tokens :=
  starts_token ((derives_phrase_of_singleton rfl).1 h)

theorem starts_statement (h : Derives (.phrase .statement :: stack) tokens) :
    Starts opensStatement tokens := by
  obtain ⟨alternative, hmem, h⟩ := (derives_phrase_iff _).1 h
  simp only [Phrase.alternatives, List.mem_cons, List.not_mem_nil, or_false] at hmem
  rcases hmem with rfl | rfl | rfl | rfl | rfl | rfl | rfl
  · have hstarts := starts_expression ((derives_phrase_of_singleton rfl).1 h)
    exact hstarts.mono fun _ => opensStatement_of_startsExpression
  iterate 5
    · exact (starts_token ((derives_phrase_of_singleton rfl).1 h)).mono fun _ hword =>
        opensStatement_of_isKeyword hword rfl
  · refine (starts_token ((derives_phrase_of_singleton rfl).1 h)).mono fun _ hbrace => ?_
    rw [opensStatement, eq_of_beq hbrace]
    rfl

theorem starts_declaration (h : Derives (.phrase .declaration :: stack) tokens) :
    Starts startsDeclaration tokens := by
  obtain ⟨alternative, hmem, h⟩ := (derives_phrase_iff _).1 h
  simp only [Phrase.alternatives, List.mem_cons, List.not_mem_nil, or_false] at hmem
  rcases hmem with rfl | rfl | rfl | rfl
  iterate 3
    · exact (starts_token ((derives_phrase_of_singleton rfl).1 h)).mono fun _ hword =>
        startsDeclaration_of_isKeyword hword rfl
  · exact (starts_statement h).mono fun _ => startsDeclaration_of_opensStatement

end Relaxed

end Grammar

end LoxLang
