import LoxLang.Proofs.Decimal.Layout
import LoxLang.Proofs.Scope.Form
import LoxLang.Proofs.Token.Splitting
import LoxLang.Proofs.Tree.Relabeling

/-!
# Reading an outline

The outline of a compound expression is a heading and a row of slots between parentheses; every
other outline is a word or a number.  Behind an outline there is a space, a closing parenthesis, a
point or nothing, and none of these goes on with a word or with a number.  So it is seen where the
outline ends, the heading and the slots are found again, and they tell what expression it is, up
to the numbers of its occurrences and the lines of its tokens (`Expr.Legible.recovers`).
-/

namespace LoxLang

/-- A token whose text is one that tokens of its kind have. -/
def Token.Proper (token : Token) : Prop :=
  Lexeme token.kind token.lexeme.toList

/-- A constant that is seen from its outline: no string, and no number that is not finite. -/
def Literal.Plain : Literal → Prop
  | .number value => value.isNaN = false ∧ value.isInf = false
  | .string _ => False
  | _ => True

/-- The operators that may do without their right operand. -/
def Kind.logicalOperators : List Kind :=
  [.keyword .andKw, .keyword .orKw]

namespace Expr

/-- The tokens of an expression are what they should be, and a constant can be told from its
outline. -/
def Readable : Expr → Prop
  | .literal value => value.Plain
  | .grouping _ => True
  | .unary operator _ => operator.kind ∈ Kind.unaryOperators ∧ operator.Proper
  | .binary operator _ _ => operator.kind ∈ Kind.binaryOperators ∧ operator.Proper
  | .logical operator _ _ => operator.kind ∈ Kind.logicalOperators ∧ operator.Proper
  | .variable occurrence => occurrence.name.Names Token.Proper
  | .assign target _ => target.name.Names Token.Proper
  | .call _ paren _ => paren.isSymbol .rightParen ∧ paren.Proper
  | .get _ name => name.Names Token.Proper
  | .set _ name _ => name.Names Token.Proper
  | .thisRef occurrence => occurrence.name.isKeyword .thisKw ∧ occurrence.name.Proper
  | .superRef occurrence method =>
      (occurrence.name.isKeyword .superKw ∧ occurrence.name.Proper) ∧ method.Names Token.Proper

/-- All parts of an expression are readable. -/
def Legible (expression : Expr) : Prop :=
  ∀ part : Expr, part.Inside expression → part.Readable

/-- An expression without the numbers of its occurrences and the lines of its tokens. -/
def unlabelled (expression : Expr) : Expr :=
  expression.relabel ⟨fun _ => 0, fun _ => 0⟩

end Expr

/-- A token without its line. -/
def Token.unlabelled (token : Token) : Token :=
  ⟨token.kind, token.lexeme, 0⟩

/-- The text and the kind of a token are all that there is besides its line. -/
theorem Token.unlabelled_eq {token token' : Token} (hkind : token.kind = token'.kind)
    (hlexeme : token.lexeme = token'.lexeme) : token.unlabelled = token'.unlabelled := by
  rw [unlabelled, unlabelled, hkind, hlexeme]

/-- A name is a word. -/
theorem Token.Names.isWord {token : Token} (h : token.Names Token.Proper) :
    token.kind = .identifier ∧ IsWord token.lexeme.toList := by
  obtain ⟨hidentifier, hproper⟩ := h
  have hkind : token.kind = .identifier := eq_of_beq hidentifier
  rw [Token.Proper, hkind] at hproper
  cases hproper with
  | identifier hword _ => exact ⟨hkind, hword⟩

/-! ## Headings and slots -/

/-- The first word between the parentheses of an outline. -/
inductive Heading where
  | group
  | call
  | super
  | get
  | put
  | operator (kind : Kind)
deriving DecidableEq

namespace Heading

/-- The text of a heading. -/
def text : Heading → List Char
  | group => "group".toList
  | call => "call".toList
  | super => "super".toList
  | get => ['.']
  | put => ['=']
  | operator (.symbol symbol) => symbol.spelling
  | operator (.keyword keyword) => keyword.spelling.toList
  | operator _ => []

/-- Every heading; the minus sign is among the operators with two operands. -/
def all : List Heading :=
  [group, call, super, get, put] ++
    (.symbol .bang :: (Kind.binaryOperators ++ Kind.logicalOperators)).map operator

theorem map_text_all : all.map text =
    [['g', 'r', 'o', 'u', 'p'], ['c', 'a', 'l', 'l'], ['s', 'u', 'p', 'e', 'r'], ['.'], ['='],
      ['!'],
      ['!', '='], ['=', '='], ['>'], ['>', '='], ['<'], ['<', '='], ['-'], ['+'], ['/'], ['*'],
      ['a', 'n', 'd'], ['o', 'r']] := by
  decide

/-- No two headings have the same text. -/
theorem text_injective {first second : Heading} (hfirst : first ∈ all) (hsecond : second ∈ all)
    (h : first.text = second.text) : first = second := by
  have hnodup : (all.map text).Nodup := by
    rw [map_text_all]
    decide
  exact List.inj_on_of_nodup_map hnodup hfirst hsecond h

/-- There is no space in a heading. -/
theorem space_notMem_text {heading : Heading} (h : heading ∈ all) : ' ' ∉ heading.text := by
  have hall : ∀ letters ∈ all.map text, ' ' ∉ letters := by
    rw [map_text_all]
    simp
  exact hall _ (List.mem_map_of_mem h)

end Heading

/-- What stands behind a space in an outline. -/
inductive Slot where
  | whole (expression : Expr)
  /-- The property that is set. -/
  | property (object : Expr) (name : Token)

namespace Slot

/-- A name is written like the variable of that name. -/
def name (token : Token) : Slot :=
  whole (.variable ⟨0, token⟩)

/-- The expression that a slot starts with. -/
def front : Slot → Expr
  | whole expression => expression
  | property object _ => object

/-- The text of a slot. -/
def text : Slot → List Char
  | whole expression => expression.outline.toList
  | property object name => object.outline.toList ++ '.' :: name.lexeme.toList

def unlabelled : Slot → Slot
  | whole expression => whole expression.unlabelled
  | property object name => property object.unlabelled name.unlabelled

/-- The expression of a slot and the name in it are legible. -/
def Legible : Slot → Prop
  | whole expression => expression.Legible
  | property object name => object.Legible ∧ name.Names Token.Proper

theorem Legible.front {slot : Slot} (h : slot.Legible) : slot.front.Legible := by
  cases slot with
  | whole expression => exact h
  | property object name => exact h.1

/-- The text of several slots. -/
def row (slots : List Slot) : List Char :=
  slots.flatMap fun slot => ' ' :: slot.text

end Slot

namespace Expr

/-- The heading and the slots of a compound expression. -/
def compound? : Expr → Option (Heading × List Slot)
  | .literal _ => none
  | .grouping inner => some (.group, [.whole inner])
  | .unary operator operand => some (.operator operator.kind, [.whole operand])
  | .binary operator left right => some (.operator operator.kind, [.whole left, .whole right])
  | .logical operator left right => some (.operator operator.kind, [.whole left, .whole right])
  | .variable _ => none
  | .assign target value => some (.put, [.name target.name, .whole value])
  | .call callee _ arguments => some (.call, .whole callee :: arguments.map .whole)
  | .get object name => some (.get, [.whole object, .name name])
  | .set object name value => some (.put, [.property object name, .whole value])
  | .thisRef _ => none
  | .superRef _ method => some (.super, [.name method])

variable {expression : Expr} {heading : Heading} {slots : List Slot}

theorem toList_outlineAll (arguments : List Expr) :
    (outlineAll arguments).toList = Slot.row (arguments.map .whole) := by
  induction arguments with
  | nil => rfl
  | cons argument rest ih =>
      rw [outlineAll, String.toList_append, String.toList_append, ih]
      rfl

/-- An operator is written as its kind says. -/
theorem text_operator {operator : Token}
    (hkind : operator.kind ∈
      Kind.unaryOperators ++ Kind.binaryOperators ++ Kind.logicalOperators)
    (hproper : operator.Proper) :
    (Heading.operator operator.kind).text = operator.lexeme.toList := by
  unfold Token.Proper at hproper
  cases hcase : operator.kind with
  | symbol symbol =>
      rw [hcase] at hproper
      exact hproper.spelling_symbol
  | keyword keyword =>
      rw [hcase] at hproper
      exact hproper.spelling_keyword
  | _ =>
      rw [hcase] at hkind
      simp [Kind.unaryOperators, Kind.binaryOperators, Kind.logicalOperators] at hkind

/-- The outline of a compound expression. -/
theorem toList_outline (hreadable : expression.Readable)
    (h : expression.compound? = some (heading, slots)) :
    expression.outline.toList = '(' :: (heading.text ++ (Slot.row slots ++ [')'])) := by
  cases expression with
  | unary operator operand =>
      cases h
      rw [text_operator (by simp [hreadable.1]) hreadable.2]
      simp [outline, Slot.row, Slot.text]
  | binary operator left right =>
      cases h
      rw [text_operator (by simp [hreadable.1]) hreadable.2]
      simp [outline, Slot.row, Slot.text]
  | logical operator left right =>
      cases h
      rw [text_operator (by simp [hreadable.1]) hreadable.2]
      simp [outline, Slot.row, Slot.text]
  | literal value => cases h
  | «variable» occurrence => cases h
  | thisRef occurrence => cases h
  | _ =>
      cases h
      simp [outline, toList_outlineAll, Slot.row, Slot.text, Slot.name, Heading.text]

end Expr

/-! ## Reading back -/

/-- The expression that a heading and slots without labels belong to. -/
def Heading.compose? : Heading → List Slot → Option Expr
  | .group, [.whole inner] => some (.grouping inner)
  | .operator kind, [.whole operand] =>
      some (.unary ⟨kind, String.ofList (operator kind).text, 0⟩ operand)
  | .operator kind, [.whole left, .whole right] =>
      let token : Token := ⟨kind, String.ofList (operator kind).text, 0⟩
      if kind ∈ Kind.logicalOperators then some (.logical token left right)
      else some (.binary token left right)
  | .put, [.whole (.variable target), .whole value] => some (.assign target value)
  | .put, [.property object name, .whole value] => some (.set object name value)
  | .call, .whole callee :: arguments =>
      some (.call callee ⟨.symbol .rightParen, ")", 0⟩ (arguments.map Slot.front))
  | .get, [.whole object, .whole (.variable name)] => some (.get object name.name)
  | .super, [.whole (.variable method)] =>
      some (.superRef ⟨0, ⟨.keyword .superKw, "super", 0⟩⟩ method.name)
  | _, _ => none

namespace Expr

variable {expression : Expr} {heading : Heading} {slots : List Slot}

theorem unlabelled_symbol {token : Token} {symbol : Symbol} (hsymbol : token.isSymbol symbol)
    (hproper : token.Proper) :
    token.unlabelled = ⟨.symbol symbol, String.ofList symbol.spelling, 0⟩ := by
  have hkind : token.kind = .symbol symbol := eq_of_beq hsymbol
  rw [Token.Proper, hkind] at hproper
  rw [Token.unlabelled, hkind, hproper.spelling_symbol, String.ofList_toList]

theorem unlabelled_keyword {token : Token} {keyword : Keyword} (hkeyword : token.isKeyword keyword)
    (hproper : token.Proper) : token.unlabelled = ⟨.keyword keyword, keyword.spelling, 0⟩ := by
  have hkind : token.kind = .keyword keyword := eq_of_beq hkeyword
  rw [Token.Proper, hkind] at hproper
  rw [Token.unlabelled, hkind, String.toList_injective hproper.spelling_keyword]

theorem unlabelled_operator {operator : Token}
    (hkind : operator.kind ∈
      Kind.unaryOperators ++ Kind.binaryOperators ++ Kind.logicalOperators)
    (hproper : operator.Proper) :
    operator.unlabelled =
      ⟨operator.kind, String.ofList (Heading.operator operator.kind).text, 0⟩ := by
  rw [text_operator hkind hproper, String.ofList_toList]
  rfl

/-- A compound expression without labels is known from its heading and its slots. -/
theorem compose?_compound (hreadable : expression.Readable)
    (h : expression.compound? = some (heading, slots)) :
    heading.compose? (slots.map Slot.unlabelled) = some expression.unlabelled := by
  cases expression with
  | literal value => cases h
  | «variable» occurrence => cases h
  | thisRef occurrence => cases h
  | grouping inner =>
      cases h
      rfl
  | unary operator operand =>
      cases h
      have htoken := unlabelled_operator (by simp [hreadable.1]) hreadable.2
      show some (Expr.unary _ operand.unlabelled) = some (.unary operator.unlabelled _)
      rw [htoken]
      rfl
  | binary operator left right =>
      cases h
      have htoken := unlabelled_operator (by simp [hreadable.1]) hreadable.2
      have hkind : operator.kind ∉ Kind.logicalOperators := by
        intro hlogical
        have hdisjoint : ∀ kind ∈ Kind.binaryOperators, kind ∉ Kind.logicalOperators := by
          decide
        exact hdisjoint _ hreadable.1 hlogical
      show (if _ then _ else some _) = some (Expr.binary operator.unlabelled _ _)
      rw [if_neg hkind, htoken]
      rfl
  | logical operator left right =>
      cases h
      have htoken := unlabelled_operator (by simp [hreadable.1]) hreadable.2
      show (if _ then some _ else _) = some (Expr.logical operator.unlabelled _ _)
      rw [if_pos hreadable.1, htoken]
      rfl
  | assign target value =>
      cases h
      rfl
  | call callee paren arguments =>
      cases h
      have harguments : (((arguments.map Slot.whole).map Slot.unlabelled).map Slot.front) =
          Expr.relabelAll ⟨fun _ => 0, fun _ => 0⟩ arguments := by
        rw [Expr.relabelAll_eq_map, List.map_map, List.map_map]
        rfl
      have hparen : paren.unlabelled = ⟨.symbol .rightParen, ")", 0⟩ :=
        unlabelled_symbol hreadable.1 hreadable.2
      show some (Expr.call callee.unlabelled _ _) = some (.call _ paren.unlabelled _)
      rw [harguments, hparen]
      rfl
  | get object name =>
      cases h
      rfl
  | set object name value =>
      cases h
      rfl
  | superRef occurrence method =>
      cases h
      have hword : occurrence.name.unlabelled = ⟨.keyword .superKw, "super", 0⟩ :=
        unlabelled_keyword hreadable.1.1 hreadable.1.2
      show some (Expr.superRef _ method.unlabelled) =
        some (.superRef ⟨0, occurrence.name.unlabelled⟩ _)
      rw [hword]
      rfl

/-! ## Words and numbers -/

/-- The expression without labels that a word is. -/
def ofWord : Kind → String → Expr
  | .keyword .nilKw, _ => .literal .nil
  | .keyword .trueKw, _ => .literal (.bool true)
  | .keyword .falseKw, _ => .literal (.bool false)
  | .identifier, text => .variable ⟨0, ⟨.identifier, text, 0⟩⟩
  | kind, text => .thisRef ⟨0, ⟨kind, text, 0⟩⟩

/-- An expression whose outline is a word or a number. -/
inductive Atom : Expr → Prop
  | word {expression : Expr} {kind : Kind} :
      Lexeme kind expression.outline.toList → IsWord expression.outline.toList →
      expression.unlabelled = ofWord kind expression.outline → Atom expression
  | number {value : Float} :
      value.isNaN = false ∧ value.isInf = false → Atom (.literal (.number value))

theorem Atom.of_keyword {expression : Expr} (keyword : Keyword)
    (htext : expression.outline = keyword.spelling)
    (h : expression.unlabelled = ofWord (.keyword keyword) keyword.spelling) : Atom expression := by
  rw [← htext] at h
  have hlexeme : Lexeme (.keyword keyword) expression.outline.toList := by
    rw [htext]
    exact .keyword keyword
  refine .word hlexeme ?_ h
  rw [htext]
  exact Lexeme.isWord_keyword keyword

theorem atom_of_compound?_eq_none (hreadable : expression.Readable)
    (h : expression.compound? = none) : Atom expression := by
  cases expression with
  | literal value =>
      cases value with
      | nil => exact .of_keyword .nilKw rfl rfl
      | bool value =>
          cases value with
          | true => exact .of_keyword .trueKw rfl rfl
          | false => exact .of_keyword .falseKw rfl rfl
      | number value => exact .number hreadable
      | string value => exact hreadable.elim
  | «variable» occurrence =>
      obtain ⟨hkind, hword⟩ := hreadable.isWord
      have hproper := hreadable.2
      rw [Token.Proper, hkind] at hproper
      refine .word hproper hword ?_
      show Expr.variable ⟨0, occurrence.name.unlabelled⟩ = .variable ⟨0, _⟩
      rw [Token.unlabelled, hkind]
      rfl
  | thisRef occurrence =>
      refine .of_keyword .thisKw rfl ?_
      show Expr.thisRef ⟨0, occurrence.name.unlabelled⟩ = _
      rw [unlabelled_keyword hreadable.1 hreadable.2]
      rfl
  | _ => cases h

/-- What comes behind an outline goes on neither with a word nor with a number. -/
def Ends (rest : List Char) : Prop :=
  ∀ char ∈ rest.head?, char ∈ [' ', ')', '.']

namespace Ends

variable {rest : List Char}

theorem continuesWord (h : Ends rest) : ∀ char ∈ rest.head?, continuesWord char = false := by
  intro char hchar
  have hmem := h char hchar
  simp only [List.mem_cons, List.not_mem_nil, or_false] at hmem
  rcases hmem with rfl | rfl | rfl <;> rfl

theorem isDigit (h : Ends rest) : ∀ char ∈ rest.head?, char.isDigit = false := by
  intro char hchar
  have hmem := h char hchar
  simp only [List.mem_cons, List.not_mem_nil, or_false] at hmem
  rcases hmem with rfl | rfl | rfl <;> rfl

theorem nil : Ends [] := nofun

theorem of_mem {char : Char} {rest : List Char} (h : char ∈ [' ', ')', '.']) :
    Ends (char :: rest) := by
  intro char' hchar'
  cases hchar'
  exact h

end Ends

/-- An outline and what comes behind it tell which expression it is, but for its labels. -/
def Recovers (expression : Expr) : Prop :=
  ∀ ⦃other : Expr⦄ ⦃rest rest' : List Char⦄, other.Legible → Ends rest → Ends rest' →
    expression.outline.toList ++ rest = other.outline.toList ++ rest' →
      expression.unlabelled = other.unlabelled ∧ rest = rest'

/-- A word starts otherwise than a number, and neither starts like a compound expression. -/
theorem first_of_atom (h : Atom expression) :
    ∃ first more, expression.outline.toList = first :: more ∧ first ≠ '(' := by
  cases h with
  | word _ hword _ =>
      generalize expression.outline.toList = text at hword
      cases text with
      | nil => exact hword.elim
      | cons first more =>
          refine ⟨first, more, rfl, ?_⟩
          rintro rfl
          rcases hword.1 with halpha | heq
          · cases halpha
          · cases heq
  | @number value hfinite =>
      obtain ⟨first, more, htext, hfirst⟩ := exists_first_write hfinite.1 hfinite.2
      refine ⟨first, more, htext, ?_⟩
      rintro rfl
      rcases hfirst with hdigit | heq
      · cases hdigit
      · cases heq

/-- No word starts like a number. -/
theorem word_append_ne_number {text rest rest' : List Char} {value : Float} (hword : IsWord text)
    (hfinite : value.isNaN = false ∧ value.isInf = false) :
    text ++ rest ≠ (outlineLayout.write value).toList ++ rest' := by
  obtain ⟨first, more, htext, hfirst⟩ := exists_first_write hfinite.1 hfinite.2
  cases text with
  | nil => exact hword.elim
  | cons start letters =>
      intro heq
      rw [htext] at heq
      obtain rfl : start = first := (List.cons.inj heq).1
      rcases hfirst with hdigit | rfl
      · rcases hword.1 with halpha | rfl
        · rw [Opens.not_isAlpha_of_isDigit hdigit] at halpha
          cases halpha
        · cases hdigit
      · rcases hword.1 with halpha | heq
        · cases halpha
        · cases heq

theorem Atom.eq_of_append {other : Expr} {rest rest' : List Char} (h : Atom expression)
    (h' : Atom other) (hrest : Ends rest) (hrest' : Ends rest')
    (heq : expression.outline.toList ++ rest = other.outline.toList ++ rest') :
    expression.unlabelled = other.unlabelled ∧ rest = rest' := by
  cases h with
  | word hlexeme hword hunlabelled =>
      cases h' with
      | word hlexeme' hword' hunlabelled' =>
          obtain ⟨htext, rfl⟩ := eq_of_append_of_all _ hword.continuesWord hword'.continuesWord
            hrest.continuesWord hrest'.continuesWord heq
          rw [htext] at hlexeme
          rw [hunlabelled, hunlabelled', hlexeme.kind_unique hlexeme',
            String.toList_injective htext]
          exact ⟨rfl, rfl⟩
      | number hfinite => exact absurd heq (word_append_ne_number hword hfinite)
  | number hfinite =>
      cases h' with
      | word _ hword' _ => exact absurd heq.symm (word_append_ne_number hword' hfinite)
      | number hfinite' =>
          obtain ⟨rfl, rfl⟩ :=
            eq_of_write_append hfinite hfinite' hrest.isDigit hrest'.isDigit heq
          exact ⟨rfl, rfl⟩

/-! ## Slots -/

theorem Legible.readable (h : expression.Legible) : expression.Readable :=
  h expression .refl

theorem Legible.operand {operand : Expr} (h : expression.Legible)
    (hoperand : operand ∈ expression.operands) : operand.Legible :=
  fun part hpart => h part (.operand hoperand hpart)

theorem legible_variable {occurrence : Occurrence} (h : occurrence.name.Names Token.Proper) :
    (Expr.variable occurrence).Legible := by
  intro part hpart
  cases hpart with
  | refl => exact h
  | operand hoperand _ => cases hoperand

theorem Legible.slot (hlegible : expression.Legible)
    (h : expression.compound? = some (heading, slots)) : ∀ slot ∈ slots, slot.Legible := by
  have hreadable := hlegible.readable
  have hoperand : ∀ operand ∈ expression.operands, operand.Legible :=
    fun _ => hlegible.operand
  cases expression with
  | literal value => cases h
  | «variable» occurrence => cases h
  | thisRef occurrence => cases h
  | call callee paren arguments =>
      cases h
      obtain ⟨hcallee, harguments⟩ := List.forall_mem_cons.1 hoperand
      refine List.forall_mem_cons.2 ⟨hcallee, fun slot hslot => ?_⟩
      obtain ⟨argument, hargument, rfl⟩ := List.mem_map.1 hslot
      exact harguments argument hargument
  | superRef occurrence method =>
      cases h
      exact List.forall_mem_singleton.2 (legible_variable hreadable.2)
  | assign target value =>
      cases h
      have hvalue := hoperand value List.mem_cons_self
      exact List.forall_mem_cons.2
        ⟨legible_variable hreadable, List.forall_mem_singleton.2 hvalue⟩
  | get object name =>
      cases h
      have hobject := hoperand object List.mem_cons_self
      exact List.forall_mem_cons.2
        ⟨hobject, List.forall_mem_singleton.2 (legible_variable hreadable)⟩
  | set object name value =>
      cases h
      obtain ⟨hobject, hvalue⟩ := List.forall_mem_cons.1 hoperand
      exact List.forall_mem_cons.2
        ⟨⟨hobject, hreadable⟩, List.forall_mem_singleton.2 (hvalue value List.mem_cons_self)⟩
  | grouping inner =>
      cases h
      exact List.forall_mem_singleton.2 (hoperand inner List.mem_cons_self)
  | unary operator operand =>
      cases h
      exact List.forall_mem_singleton.2 (hoperand operand List.mem_cons_self)
  | binary operator left right =>
      cases h
      obtain ⟨hleft, hright⟩ := List.forall_mem_cons.1 hoperand
      exact List.forall_mem_cons.2
        ⟨hleft, List.forall_mem_singleton.2 (hright right List.mem_cons_self)⟩
  | logical operator left right =>
      cases h
      obtain ⟨hleft, hright⟩ := List.forall_mem_cons.1 hoperand
      exact List.forall_mem_cons.2
        ⟨hleft, List.forall_mem_singleton.2 (hright right List.mem_cons_self)⟩

theorem heading_mem_all (hreadable : expression.Readable)
    (h : expression.compound? = some (heading, slots)) : heading ∈ Heading.all := by
  cases expression with
  | literal value => cases h
  | «variable» occurrence => cases h
  | thisRef occurrence => cases h
  | unary operator operand =>
      cases h
      have hsub : ∀ kind ∈ Kind.unaryOperators, Heading.operator kind ∈ Heading.all := by
        decide
      exact hsub _ hreadable.1
  | binary operator left right =>
      cases h
      have hsub : ∀ kind ∈ Kind.binaryOperators, Heading.operator kind ∈ Heading.all := by
        decide
      exact hsub _ hreadable.1
  | logical operator left right =>
      cases h
      have hsub : ∀ kind ∈ Kind.logicalOperators, Heading.operator kind ∈ Heading.all := by
        decide
      exact hsub _ hreadable.1
  | _ =>
      cases h
      decide

/-- There is at least one slot. -/
theorem slots_ne_nil (h : expression.compound? = some (heading, slots)) : slots ≠ [] := by
  cases expression <;> cases h <;> exact nofun

theorem head?_row (h : expression.compound? = some (heading, slots)) (rest : List Char) :
    ∀ char ∈ (Slot.row slots ++ ')' :: rest).head?, (char != ' ') = false := by
  obtain ⟨first, more, rfl⟩ := List.exists_cons_of_ne_nil (slots_ne_nil h)
  intro char hchar
  cases hchar
  rfl

end Expr

namespace Slot

variable {slot other : Slot} {rest rest' : List Char}

/-- What comes behind a slot is no property of it. -/
def Closes (rest : List Char) : Prop :=
  ∀ char ∈ rest.head?, char ∈ [' ', ')']

theorem Closes.ends (h : Closes rest) : Expr.Ends rest := by
  intro char hchar
  have hmem := h char hchar
  simp only [List.mem_cons, List.not_mem_nil, or_false] at hmem ⊢
  exact hmem.imp_right .inl

theorem closes_row (slots : List Slot) (rest : List Char) : Closes (row slots ++ ')' :: rest) := by
  intro char hchar
  cases slots with
  | nil =>
      cases hchar
      decide
  | cons slot more =>
      cases hchar
      decide

theorem eq_of_append (hrecovers : slot.front.Recovers) (hlegible : slot.Legible)
    (hother : other.Legible) (hrest : Closes rest) (hrest' : Closes rest')
    (heq : slot.text ++ rest = other.text ++ rest') :
    slot.unlabelled = other.unlabelled ∧ rest = rest' := by
  have hpoint (behind : List Char) : Expr.Ends ('.' :: behind) := .of_mem (by decide)
  have hopen {behind : List Char} {rest : List Char} (h : Closes rest) : rest ≠ '.' :: behind := by
    rintro rfl
    have hmem := h '.' rfl
    simp at hmem
  cases slot with
  | whole expression =>
      cases other with
      | whole expression' =>
          obtain ⟨hsame, rfl⟩ := hrecovers hother hrest.ends hrest'.ends heq
          exact ⟨congrArg whole hsame, rfl⟩
      | property object name =>
          rw [text, text, List.append_assoc] at heq
          obtain ⟨-, hbehind⟩ := hrecovers hother.1 hrest.ends (hpoint _) heq
          exact absurd hbehind (hopen hrest)
  | property object name =>
      cases other with
      | whole expression' =>
          rw [text, text, List.append_assoc] at heq
          obtain ⟨-, hbehind⟩ := hrecovers hother (hpoint _) hrest'.ends heq
          exact absurd hbehind.symm (hopen hrest')
      | property object' name' =>
          rw [text, text, List.append_assoc, List.append_assoc] at heq
          obtain ⟨hsame, hbehind⟩ := hrecovers hother.1 (hpoint _) (hpoint _) heq
          obtain ⟨hkind, hword⟩ := hlegible.2.isWord
          obtain ⟨hkind', hword'⟩ := hother.2.isWord
          obtain ⟨hname, hrests⟩ := eq_of_append_of_all _ hword.continuesWord hword'.continuesWord
            hrest.ends.continuesWord hrest'.ends.continuesWord (List.cons.inj hbehind).2
          have hsameName := Token.unlabelled_eq (hkind.trans hkind'.symm)
            (String.toList_injective hname)
          exact ⟨congrArg₂ property hsame hsameName, hrests⟩

/-- Rows of slots are told apart by their texts. -/
theorem eq_of_row_append {slots others : List Slot}
    (hrecovers : ∀ slot ∈ slots, slot.front.Recovers)
    (hlegible : ∀ slot ∈ slots, slot.Legible) (hothers : ∀ slot ∈ others, slot.Legible)
    (heq : row slots ++ ')' :: rest = row others ++ ')' :: rest') :
    slots.map unlabelled = others.map unlabelled ∧ rest = rest' := by
  induction slots generalizing others with
  | nil =>
      cases others with
      | nil => exact ⟨rfl, (List.cons.inj heq).2⟩
      | cons other more => exact absurd (List.cons.inj heq).1 (by decide)
  | cons slot slots ih =>
      cases others with
      | nil => exact absurd (List.cons.inj heq).1 (by decide)
      | cons other others =>
          obtain ⟨hslotRecovers, hrecovers⟩ := List.forall_mem_cons.1 hrecovers
          obtain ⟨hslot, hlegible⟩ := List.forall_mem_cons.1 hlegible
          obtain ⟨hother, hothers⟩ := List.forall_mem_cons.1 hothers
          rw [row, row, List.flatMap_cons, List.flatMap_cons, List.append_assoc,
            List.append_assoc] at heq
          obtain ⟨hfirst, hbehind⟩ := eq_of_append hslotRecovers hslot hother
            (closes_row slots rest) (closes_row others rest') (List.cons.inj heq).2
          obtain ⟨hmore, hrests⟩ := ih hrecovers hlegible hothers hbehind
          exact ⟨congrArg₂ List.cons hfirst hmore, hrests⟩

/-- An slot is no longer than its row. -/
theorem length_front_le {slots : List Slot} (h : slot ∈ slots) :
    slot.front.outline.toList.length ≤ (row slots).length := by
  have hfront : slot.front.outline.toList.length ≤ slot.text.length := by
    cases slot with
    | whole expression => exact Nat.le_refl _
    | property object name =>
        rw [text, List.length_append]
        exact Nat.le_add_right _ _
  have hmem : ' ' :: slot.text ∈ slots.map fun slot => ' ' :: slot.text :=
    List.mem_map_of_mem h
  have hrow : (' ' :: slot.text).length ≤ (row slots).length := by
    rw [row, List.flatMap_def]
    exact (List.sublist_flatten_of_mem hmem).length_le
  exact hfront.trans ((Nat.le_succ _).trans hrow)

end Slot

namespace Expr

variable {expression other : Expr}

/-- A compound expression is recovered if what its slots start with is. -/
theorem recovers_of_slots {heading : Heading} {slots : List Slot}
    (hlegible : expression.Legible) (h : expression.compound? = some (heading, slots))
    (hslots : ∀ slot ∈ slots, slot.front.Recovers) : expression.Recovers := by
  intro other rest rest' hother hrest hrest' heq
  rw [toList_outline hlegible.readable h] at heq
  cases h' : other.compound? with
  | none =>
      obtain ⟨first, more, htext, hfirst⟩ :=
        first_of_atom (atom_of_compound?_eq_none hother.readable h')
      rw [htext] at heq
      exact absurd (List.cons.inj heq).1.symm hfirst
  | some found =>
      obtain ⟨heading', slots'⟩ := found
      rw [toList_outline hother.readable h'] at heq
      have hmem := heading_mem_all hlegible.readable h
      have hmem' := heading_mem_all hother.readable h'
      -- The heading ends at the first space.
      have hsplit : heading.text = heading'.text ∧
          Slot.row slots ++ ')' :: rest = Slot.row slots' ++ ')' :: rest' := by
        refine eq_of_append_of_all (· != ' ') ?_ ?_ ?_ ?_ ?_
        · exact fun char hchar => bne_iff_ne.2 (ne_of_mem_of_not_mem hchar
            (Heading.space_notMem_text hmem))
        · exact fun char hchar => bne_iff_ne.2 (ne_of_mem_of_not_mem hchar
            (Heading.space_notMem_text hmem'))
        · exact head?_row h rest
        · exact head?_row h' rest'
        · simpa using heq
      obtain rfl := Heading.text_injective hmem hmem' hsplit.1
      obtain ⟨hsame, rfl⟩ := Slot.eq_of_row_append hslots (hlegible.slot h) (hother.slot h')
        hsplit.2
      have hcompose := compose?_compound hlegible.readable h
      rw [hsame, compose?_compound hother.readable h'] at hcompose
      exact ⟨(Option.some.inj hcompose).symm, rfl⟩

/-- Which expression an outline belongs to, but for its labels, and where the outline ends. -/
theorem Legible.recovers (h : expression.Legible) : expression.Recovers := by
  generalize hlength : expression.outline.toList.length = length
  induction length using Nat.strong_induction_on generalizing expression with
  | h length ih =>
      cases hcompound : expression.compound? with
      | none =>
          have hatom := atom_of_compound?_eq_none h.readable hcompound
          intro other rest rest' hother hrest hrest' heq
          cases hcompound' : other.compound? with
          | none =>
              exact hatom.eq_of_append (atom_of_compound?_eq_none hother.readable hcompound')
                hrest hrest' heq
          | some found =>
              obtain ⟨first, more, htext, hfirst⟩ := first_of_atom hatom
              rw [htext, toList_outline hother.readable hcompound'] at heq
              exact absurd (List.cons.inj heq).1 hfirst
      | some found =>
          obtain ⟨heading, slots⟩ := found
          refine recovers_of_slots h hcompound fun slot hslot => ?_
          have hlt : slot.front.outline.toList.length < length := by
            have htext := congrArg List.length (toList_outline h.readable hcompound)
            have hle := Slot.length_front_le hslot
            rw [hlength] at htext
            simp only [List.length_cons, List.length_append] at htext
            omega
          exact ih _ hlt (h.slot hcompound slot hslot).front rfl

end Expr

end LoxLang
