import LoxLang.Proofs.Token.Splitting
import LoxLang.Proofs.Token.Words
import LoxLang.Token.Listing

/-!
# Lexemes with space between them

Lexemes that are written out with a blank behind each of them, and more blanks and comments where
one likes, are found again: a blank ends the longest lexeme, whatever the two lexemes around it are.
So the tokens of a text are those of every text that has the same lexemes with other space between
them.
-/

namespace LoxLang

/-! ## Space -/

/-- Blanks, and comments with the newlines that end them. -/
inductive Filler : List Char → Prop
  | nil : Filler []
  | blank {char : Char} {rest : List Char} : isBlank char → Filler rest → Filler (char :: rest)
  | comment {line rest : List Char} :
      '\n' ∉ line → Filler rest → Filler ('/' :: '/' :: line ++ '\n' :: rest)

/-- What can stand between two lexemes: a filler that starts with a blank. -/
structure Separator (text : List Char) : Prop where
  filler : Filler text
  blank : ∃ char ∈ text.head?, isBlank char

/-- A text that consists of given lexemes, each with a separator behind it; behind the last one
there need be none. -/
inductive Spaced : List (List Char) → List Char → Prop
  | nil : Spaced [] []
  | last {lexeme : List Char} : Spaced [lexeme] lexeme
  | cons {lexeme separator text : List Char} {rest : List (List Char)} :
      Separator separator → Spaced rest text →
      Spaced (lexeme :: rest) (lexeme ++ (separator ++ text))

/-! ## Lexemes before a blank -/

namespace Lexeme

variable {kind : Kind} {text after : List Char}

/-- A blank ends the longest lexeme. -/
theorem longest_of_blank (h : Lexeme kind text) (hafter : ∀ char ∈ after.head?, isBlank char) :
    Longest kind text (text ++ after) := by
  refine h.longest_of_not_append ?_
  rintro other char more ⟨rest, rfl⟩ hlonger
  have hblank := hafter char rfl
  rw [h.isBlank_eq_false_of_append hlonger char List.mem_cons_self] at hblank
  cases hblank

/-- No lexeme before a blank starts a comment. -/
theorem not_comment_of_blank (h : Lexeme kind text)
    (hafter : ∀ char ∈ after.head?, isBlank char) : ¬['/', '/'] <+: text ++ after := by
  intro hcomment
  obtain ⟨first, rest, rfl, hopens⟩ := h.exists_opens
  obtain ⟨rfl, hrest⟩ := List.cons_prefix_cons.1 hcomment
  obtain ⟨symbol, rfl⟩ := hopens.symbol_of_not (by decide) rfl (by decide)
  have hspelling := h.spelling_symbol
  rcases Piece.spelling_cases symbol with ⟨char, heq, -⟩ | ⟨char, heq, -⟩ <;>
    rw [heq] at hspelling <;> cases hspelling
  · -- The lexeme is a single slash, and the other one would have to come after it.
    obtain ⟨more, rfl⟩ := hrest
    cases hafter '/' rfl
  · cases (List.cons_prefix_cons.1 hrest).1

theorem munches_of_blank (h : Lexeme kind text) (hafter : ∀ char ∈ after.head?, isBlank char) :
    (Piece.lexeme kind text).Munches after :=
  .lexeme (h.longest_of_blank hafter) (h.not_comment_of_blank hafter)

end Lexeme

/-! ## Pieces of spaced lexemes -/

namespace Piece

/-- Fillers fall apart into pieces that show nothing. -/
theorem exists_splits_of_filler {front : List Char} (h : Filler front) :
    ∃ pieces, pieces.filterMap (item? 0) = [] ∧
      ∀ text rest, Splits text rest → Splits (front ++ text) (pieces ++ rest) := by
  induction h with
  | nil => exact ⟨[], rfl, fun _ _ hsplits => hsplits⟩
  | @blank char rest hblank _ ih =>
      obtain ⟨pieces, hnone, hsplits⟩ := ih
      refine ⟨.blank char :: pieces, hnone, ?_⟩
      intro text more hmore
      exact .cons (.blank ((isBlank_iff char).1 hblank)) (hsplits text more hmore)
  | @comment line rest hline _ ih =>
      obtain ⟨pieces, hnone, hsplits⟩ := ih
      refine ⟨.comment ('/' :: '/' :: line) :: .blank '\n' :: pieces, hnone, ?_⟩
      intro text more hmore
      have hnewline : Splits ('\n' :: (rest ++ text)) (.blank '\n' :: (pieces ++ more)) :=
        .cons (.blank (by decide)) (hsplits text more hmore)
      have hafter : ∀ char ∈ ('\n' :: (rest ++ text)).head?, char = '\n' := by
        simp
      have hcomment := Splits.cons (.comment hline hafter) hnewline
      rw [List.append_assoc]
      exact hcomment

/-- Spaced lexemes fall apart into pieces that show them. -/
theorem exists_splits_of_spaced {lexemes : List (Kind × List Char)} {text : List Char}
    (h : Spaced (lexemes.map Prod.snd) text)
    (hlexemes : ∀ lexeme ∈ lexemes, Lexeme lexeme.1 lexeme.2) :
    ∃ pieces, Splits text pieces ∧ pieces.filterMap (item? 0) =
      lexemes.map fun lexeme => .token ⟨lexeme.1, String.ofList lexeme.2, 0⟩ := by
  generalize htexts : lexemes.map Prod.snd = texts at h
  induction h generalizing lexemes with
  | nil =>
      obtain rfl := List.map_eq_nil_iff.1 htexts
      exact ⟨[], .nil, rfl⟩
  | @last text =>
      obtain ⟨⟨kind, text⟩, rfl, rfl⟩ := List.map_eq_singleton_iff.1 htexts
      have hlexeme : Lexeme kind text := hlexemes _ List.mem_cons_self
      have hend : ∀ char ∈ ([] : List Char).head?, isBlank char := by
        simp
      have hsplits := Splits.cons (hlexeme.munches_of_blank hend) .nil
      rw [List.append_nil] at hsplits
      exact ⟨[.lexeme kind text], hsplits, rfl⟩
  | @cons text separator after texts hseparator _ ih =>
      obtain ⟨⟨kind, text⟩, rest, rfl, rfl, hrest⟩ := List.map_eq_cons_iff.1 htexts
      obtain ⟨hlexeme, hlexemes⟩ := List.forall_mem_cons.1 hlexemes
      obtain ⟨later, hlater, hshown⟩ := ih hlexemes hrest
      obtain ⟨fillers, hnone, hfillers⟩ := exists_splits_of_filler hseparator.filler
      have hblank : ∀ char ∈ (separator ++ after).head?, isBlank char := by
        obtain ⟨char, hchar, hblank⟩ := hseparator.blank
        obtain ⟨more, rfl⟩ := List.head?_eq_some_iff.1 hchar
        simpa using hblank
      refine ⟨.lexeme kind text :: (fillers ++ later),
        .cons (hlexeme.munches_of_blank hblank) (hfillers after later hlater), ?_⟩
      rw [List.filterMap_cons, List.filterMap_append, hnone, hshown]
      rfl

end Piece

namespace TokenStream

/-! ## Tokens of spaced lexemes -/

theorem tokens_map_token (found : List Token) (endLine : Nat) :
    tokens ⟨found.map .token, endLine⟩ = found := by
  rw [tokens, List.filterMap_map]
  exact List.filterMap_some

theorem faults_map_token (found : List Token) (endLine : Nat) :
    faults ⟨found.map .token, endLine⟩ = [] := by
  rw [faults, List.filterMap_map]
  exact List.filterMap_eq_nil_iff.2 fun _ _ => rfl

/-- Without faults the items are the tokens. -/
theorem items_eq_of_faults_eq_nil {stream : TokenStream} (h : stream.faults = []) :
    stream.items = stream.tokens.map .token := by
  obtain ⟨items, endLine⟩ := stream
  induction items with
  | nil => rfl
  | cons item items ih =>
      cases item with
      | token token => exact congrArg (_ :: ·) (ih h)
      | fault fault => cases h

theorem lexeme_of_mem_tokens {source : String} {token : Token}
    (h : token ∈ (ofSource source).tokens) : Lexeme token.kind token.lexeme.toList := by
  obtain ⟨item, hitem, heq⟩ := List.mem_filterMap.1 h
  cases item with
  | fault fault => cases heq
  | token found =>
      cases heq
      obtain ⟨kind, text, line, hmem, rfl⟩ := exists_piece hitem
      rw [String.toList_ofList]
      exact (Piece.splits_pieces source.toList).lexeme_of_mem hmem

variable {front text : List Char} {lexemes : List (Kind × List Char)}

/-- Spaced lexemes are all that their text shows. -/
theorem items_of_spaced (hfront : Filler front) (h : Spaced (lexemes.map Prod.snd) text)
    (hlexemes : ∀ lexeme ∈ lexemes, Lexeme lexeme.1 lexeme.2) :
    (ofSource (String.ofList (front ++ text))).items.map (Item.mapLine fun _ => 0) =
      (lexemes.map fun lexeme => ⟨lexeme.1, String.ofList lexeme.2, 0⟩).map .token := by
  obtain ⟨fillers, hnone, hfillers⟩ := Piece.exists_splits_of_filler hfront
  obtain ⟨pieces, hsplits, hshown⟩ := Piece.exists_splits_of_spaced h hlexemes
  rw [ofSource, ofChars, String.toList_ofList, ← (hfillers text pieces hsplits).eq_pieces,
    map_itemsFrom_const, List.filterMap_append, hnone, List.nil_append, hshown,
    List.map_map]
  rfl

theorem faults_of_spaced (hfront : Filler front) (h : Spaced (lexemes.map Prod.snd) text)
    (hlexemes : ∀ lexeme ∈ lexemes, Lexeme lexeme.1 lexeme.2) :
    (ofSource (String.ofList (front ++ text))).faults = [] := by
  have hfaults := faults_map_mapLine (ofSource (String.ofList (front ++ text))) fun _ => 0
  rw [items_of_spaced hfront h hlexemes, faults_map_token] at hfaults
  exact List.map_eq_nil_iff.1 hfaults

theorem tokens_of_spaced (hfront : Filler front) (h : Spaced (lexemes.map Prod.snd) text)
    (hlexemes : ∀ lexeme ∈ lexemes, Lexeme lexeme.1 lexeme.2) :
    (ofSource (String.ofList (front ++ text))).tokens.map (Token.mapLine fun _ => 0) =
      lexemes.map fun lexeme => ⟨lexeme.1, String.ofList lexeme.2, 0⟩ := by
  rw [tokens_map_mapLine, items_of_spaced hfront h hlexemes, tokens_map_token]

/-- Lexemes written out with separators between them are scanned as the tokens that they are, and as
nothing else.  So a text with the lexemes of another one has the tokens of the other one. -/
theorem spaced_lexemes_found (hfront : Filler front) :
    let stream := ofSource (String.ofList (front ++ text))
    (∀ lexemes : List (Kind × List Char), (∀ lexeme ∈ lexemes, Lexeme lexeme.1 lexeme.2) →
      Spaced (lexemes.map Prod.snd) text →
        stream.faults = [] ∧
        stream.tokens.map (fun token => (token.kind, token.lexeme)) =
          lexemes.map (fun lexeme => (lexeme.1, String.ofList lexeme.2)) ∧
        stream.listing = stream.tokens.map (fun token => .ok (Entry.ofToken token)) ++
          [.ok (Entry.atEnd stream.endLine)]) ∧
    (∀ source : String, Spaced ((ofSource source).tokens.map (·.lexeme.toList)) text →
      stream.faults = [] ∧
      stream.tokens.map (Token.mapLine fun _ => 0) =
        (ofSource source).tokens.map (Token.mapLine fun _ => 0)) := by
  intro stream
  constructor
  · intro lexemes hlexemes hspaced
    have hfaults : stream.faults = [] := faults_of_spaced hfront hspaced hlexemes
    refine ⟨hfaults, ?_, ?_⟩
    · have htokens := congrArg (List.map fun token => (token.kind, token.lexeme))
        (tokens_of_spaced hfront hspaced hlexemes)
      rw [List.map_map, List.map_map] at htokens
      exact htokens
    · rw [listing, items_eq_of_faults_eq_nil hfaults, List.map_map]
      rfl
  · intro source hspaced
    let lexemes := (ofSource source).tokens.map fun token => (token.kind, token.lexeme.toList)
    have hlexemes : ∀ lexeme ∈ lexemes, Lexeme lexeme.1 lexeme.2 := by
      intro lexeme hlexeme
      obtain ⟨token, htoken, rfl⟩ := List.mem_map.1 hlexeme
      exact lexeme_of_mem_tokens htoken
    have htexts : lexemes.map Prod.snd = (ofSource source).tokens.map (·.lexeme.toList) :=
      List.map_map
    rw [← htexts] at hspaced
    refine ⟨faults_of_spaced hfront hspaced hlexemes, ?_⟩
    rw [tokens_of_spaced hfront hspaced hlexemes, List.map_map]
    refine List.map_congr_left fun token _ => ?_
    show (⟨token.kind, String.ofList token.lexeme.toList, 0⟩ : Token) = _
    rw [String.ofList_toList]
    rfl

/-- A comment with a quotation mark between two symbols that would be one without it, a number with
a fraction, a string with a blank in it, and a reserved word before a word that starts like it. -/
theorem spaced_lexemes_found_orbit :
    let lexemes : List (Kind × List Char) :=
      [(.symbol .bang, ['!']), (.symbol .equal, ['=']), (.number 1.5, ['1', '.', '5']),
        (.string "a b", ['"', 'a', ' ', 'b', '"']), (.keyword .orKw, ['o', 'r']),
        (.identifier, ['o', 'r', 'b', 'i', 't'])]
    let text := ['!'] ++ ([' ', '/', '/', '"', '\n'] ++ (['='] ++ ([' '] ++ (['1', '.', '5'] ++
      (['\n'] ++ (['"', 'a', ' ', 'b', '"'] ++ ([' '] ++ (['o', 'r'] ++ ([' '] ++
        ['o', 'r', 'b', 'i', 't'])))))))))
    let stream := ofSource (String.ofList (['\n'] ++ text))
    Filler ['\n'] ∧ (∀ lexeme ∈ lexemes, Lexeme lexeme.1 lexeme.2) ∧
    Spaced (lexemes.map Prod.snd) text ∧ stream.faults = [] ∧
    stream.tokens.map (fun token => (token.kind, token.lexeme)) =
      [(.symbol .bang, "!"), (.symbol .equal, "="), (.number 1.5, "1.5"),
        (.string "a b", "\"a b\""),
        (.keyword .orKw, "or"), (.identifier, "orbit")] := by
  intro lexemes text stream
  have hfront : Filler ['\n'] := .blank rfl .nil
  have hnumber : Lexeme (.number 1.5) ['1', '.', '5'] :=
    @Lexeme.fraction ['1'] ['5'] _ (by simp [IsDigits]) (by simp [IsDigits])
      (nearest_decimalValue ['1'] ['5'])
  have hstring : Lexeme (.string "a b") ['"', 'a', ' ', 'b', '"'] :=
    @Lexeme.string ['a', ' ', 'b'] (by decide)
  have hword : Lexeme (.keyword .orKw) ['o', 'r'] := Lexeme.keyword .orKw
  have hidentifier : Lexeme .identifier ['o', 'r', 'b', 'i', 't'] :=
    .identifier (by simp [IsWord]) fun keyword => by cases keyword <;> decide
  have hlexemes : ∀ lexeme ∈ lexemes, Lexeme lexeme.1 lexeme.2 := by
    simp only [lexemes, List.forall_mem_cons]
    exact ⟨.symbol .bang, .symbol .equal, hnumber, hstring, hword, hidentifier,
      List.forall_mem_nil _⟩
  have hcomment : Filler [' ', '/', '/', '"', '\n'] :=
    .blank rfl (@Filler.comment ['"'] [] (by decide) .nil)
  have hblank {char : Char} (h : isBlank char) : Separator [char] := ⟨.blank h .nil, char, rfl, h⟩
  have hspaced : Spaced (lexemes.map Prod.snd) text :=
    .cons ⟨hcomment, ' ', rfl, rfl⟩ <| .cons (hblank rfl) <| .cons (hblank rfl) <|
      .cons (hblank rfl) <| .cons (hblank rfl) .last
  obtain ⟨hfaults, htokens, -⟩ := (spaced_lexemes_found hfront).1 lexemes hlexemes hspaced
  exact ⟨hfront, hlexemes, hspaced, hfaults, htokens⟩

end TokenStream

end LoxLang
