import LoxLang.Proofs.Grammar.Rereading.Program
import LoxLang.Proofs.Scope.Relabeling
import LoxLang.Proofs.Token.Joining

/-!
# Reading texts one below the other

A text with another one below it is read as the declarations of both, under the numbers that they
get when they are read one after the other.  Those of the second text are further down.
-/

namespace LoxLang

open TokenStream

/-! ## Lines -/

/-- By how many lines a text moves down when it is put below another one. -/
def linesAbove (first : String) : Nat :=
  newlines first.toList + 1

/-- The line in a text of its own for a line of a text that is below `above` others. -/
def ownLine (above line : Nat) : Nat :=
  if line ≤ above then line else line - above

theorem ownLine_of_le {above line : Nat} (h : line ≤ above) : ownLine above line = line :=
  if_pos h

theorem ownLine_add {above line : Nat} (h : 1 ≤ line) : ownLine above (line + above) = line := by
  rw [ownLine, if_neg (by omega), Nat.add_sub_cancel]

theorem line_le_linesAbove {source : String} {token : Token}
    (h : token ∈ (ofSource source).tokens) : token.line ≤ linesAbove source :=
  (line_of_mem_tokens h).2.trans_eq (Nat.add_comm _ _)

/-- The tokens of a text that has moved down are moved back. -/
theorem map_ownLine_tokens_below (source : String) (above : Nat) :
    ((ofSource source).tokens.map (Token.mapLine (· + above))).map
        (Token.mapLine (ownLine above)) = (ofSource source).tokens := by
  rw [List.map_map]
  refine (List.map_congr_left fun token htoken => ?_).trans (List.map_id _)
  have hline : ownLine above (token.line + above) = token.line :=
    ownLine_add (line_of_mem_tokens htoken).1
  rw [Function.comp, Token.mapLine, Token.mapLine, hline]
  rfl

/-! ## Programs on other lines -/

namespace Program

/-- A program on other lines. -/
def mapLine (lines : Nat → Nat) (program : Program) : Program :=
  program.relabel (.ofLines lines)

theorem findings_mapLine (lines : Nat → Nat) (program : Program) :
    (program.mapLine lines).findings = program.findings.map (Finding.relabel (.ofLines lines)) :=
  program.findings_relabel _

theorem staticFaults_append_mapLine {first second : Program} (hfirst : first.staticFaults = [])
    (hsecond : second.staticFaults = []) (lines : Nat → Nat) :
    staticFaults (first ++ second.mapLine lines) = [] := by
  have happend : staticFaults (first ++ second.mapLine lines) =
      first.staticFaults ++ (second.mapLine lines).staticFaults := by
    rw [staticFaults, findings_append, List.filterMap_append]
    rfl
  rw [happend, hfirst, mapLine, staticFaults_relabel, hsecond]
  rfl

theorem parse_mapLine {tokens : List Token} {endLine : Nat} {nextId last : NodeId}
    {program : Program} (h : parse tokens endLine nextId = ⟨.ok program, last⟩)
    (lines : Nat → Nat) :
    parse (tokens.map (Token.mapLine lines)) (lines endLine) nextId =
      ⟨.ok (program.mapLine lines), last⟩ := by
  refine (parse_relabel (.ofLines lines) tokens endLine fun id _ => rfl).trans ?_
  rw [h]
  rfl

/-- What is read from a source text. -/
def readFrom (nextId : NodeId) (source : String) : Parsed Program :=
  parse (ofSource source).tokens (ofSource source).endLine nextId

variable {source first second : String} {program program' : Program} {nextId middle last : NodeId}

/-- Where its tokens stay, a program stays. -/
theorem mapLine_eq_self (h : readFrom nextId source = ⟨.ok program, last⟩) {lines : Nat → Nat}
    (hlines : ∀ token ∈ (ofSource source).tokens, lines token.line = token.line) :
    program.mapLine lines = program := by
  have htokens : (ofSource source).tokens.map (Token.mapLine lines) = (ofSource source).tokens := by
    refine (List.map_congr_left fun token htoken => ?_).trans (List.map_id _)
    rw [Token.mapLine, hlines token htoken]
    rfl
  -- Where the text ends makes no difference for a program without faults.
  have hnone : parse [] (lines (ofSource source).endLine) last = ⟨.ok [], last⟩ := rfl
  have hparse := parse_append h hnone
  rw [List.append_nil, List.append_nil, ← htokens, parse_mapLine h] at hparse
  exact Except.ok.inj (congrArg Parsed.result hparse)

/-- A program that has moved down is moved back. -/
theorem mapLine_ownLine_below (h : readFrom nextId source = ⟨.ok program, last⟩) (above : Nat) :
    (program.mapLine (· + above)).mapLine (ownLine above) = program := by
  have hend : ownLine above ((ofSource source).endLine + above) = (ofSource source).endLine :=
    ownLine_add (Nat.le_add_right _ _)
  have hparse := parse_mapLine (parse_mapLine h (· + above)) (ownLine above)
  rw [map_ownLine_tokens_below, hend] at hparse
  exact (Except.ok.inj (congrArg Parsed.result (h.symm.trans hparse))).symm

/-- A text with another one below it is read as the declarations of both. -/
theorem readFrom_join (hlexical : (ofSource first).faults = [])
    (h : readFrom nextId first = ⟨.ok program, middle⟩)
    (h' : readFrom middle second = ⟨.ok program', last⟩) :
    readFrom nextId (first ++ "\n" ++ second) =
      ⟨.ok (program ++ program'.mapLine (· + linesAbove first)), last⟩ := by
  obtain ⟨htokens, -, hend⟩ := ofSource_join second hlexical
  rw [readFrom, htokens, hend]
  exact parse_append h (parse_mapLine h' _)

end Program

end LoxLang
