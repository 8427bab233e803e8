import LoxLang.Token.Stream

/-!
# Lines of tokens

Tokens and faults whose lines are changed and which stay the same otherwise.  What a text shows
depends on the line on which it starts in no other way.
-/

namespace LoxLang

/-- A token on another line. -/
def Token.mapLine (lines : Nat → Nat) (token : Token) : Token :=
  { token with line := lines token.line }

/-- A fault on another line. -/
def LexicalFault.mapLine (lines : Nat → Nat) (fault : LexicalFault) : LexicalFault :=
  { fault with line := lines fault.line }

/-- A token or fault on another line. -/
def Item.mapLine (lines : Nat → Nat) : Item → Item
  | token found => token (found.mapLine lines)
  | fault found => fault (found.mapLine lines)

theorem Piece.map_item? (lines : Nat → Nat) (line : Nat) (piece : Piece) :
    (piece.item? line).map (Item.mapLine lines) = piece.item? (lines line) := by
  cases piece <;> rfl

namespace TokenStream

theorem itemsFrom_cons (line : Nat) (piece : Piece) (rest : List Piece) :
    itemsFrom line (piece :: rest) =
      (piece.item? (line + newlines piece.text)).toList ++
        itemsFrom (line + newlines piece.text) rest := by
  rw [itemsFrom]
  cases piece.item? (line + newlines piece.text) <;> rfl

/-- Apart from the lines the items are those of the pieces, in order. -/
theorem map_itemsFrom_const (line other : Nat) (pieces : List Piece) :
    (itemsFrom line pieces).map (Item.mapLine fun _ => other) =
      pieces.filterMap (Piece.item? other) := by
  induction pieces generalizing line with
  | nil => rfl
  | cons piece rest ih =>
      have hitem := piece.map_item? (fun _ => other) (line + newlines piece.text)
      rw [itemsFrom_cons, List.map_append, ih, List.filterMap_cons, ← hitem]
      cases piece.item? (line + newlines piece.text) <;> rfl

theorem tokens_map_mapLine (stream : TokenStream) (lines : Nat → Nat) :
    stream.tokens.map (Token.mapLine lines) =
      tokens ⟨stream.items.map (Item.mapLine lines), stream.endLine⟩ := by
  rw [tokens, tokens, List.map_filterMap, List.filterMap_map]
  congr 1
  funext item
  cases item <;> rfl

theorem faults_map_mapLine (stream : TokenStream) (lines : Nat → Nat) :
    stream.faults.map (LexicalFault.mapLine lines) =
      faults ⟨stream.items.map (Item.mapLine lines), stream.endLine⟩ := by
  rw [faults, faults, List.map_filterMap, List.filterMap_map]
  congr 1
  funext item
  cases item <;> rfl

end TokenStream

end LoxLang
