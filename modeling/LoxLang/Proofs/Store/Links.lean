import LoxLang.Store

/-!
# Following links

A scope is linked to the scope around it, and a class to its superclass.  A search asks a scope or
class, and as long as there is no answer the one to which it is linked (`climb`).  This may go on
for ever.  It does not where all links lead to older scopes or classes: then there is a list of all
that lie on the way (`Trail`), the search takes no more steps than there are older ones, and its
answer is the first one that is found in the list.
-/

namespace LoxLang

/-! ## Searches -/

section

variable {Node Answer : Type} {next : Node → Option Node}

/-- Asks a node, and as long as there is no answer the one to which it is linked.  There is no
result if neither an answer nor an end of the links is reached within the budget. -/
def climb (next : Node → Option Node) (ask : Node → Option Answer) :
    (budget : Nat) → Node → Option (Option Answer)
  | 0, _ => none
  | budget + 1, node =>
      match ask node with
      | some answer => some (some answer)
      | none =>
          match next node with
          | some linked => climb next ask budget linked
          | none => some none

/-- The nodes on the way from one node to the end of the links. -/
inductive Trail (next : Node → Option Node) : List Node → Prop
  | last {node : Node} : next node = none → Trail next [node]
  | link {node linked : Node} {rest : List Node} : next node = some linked →
      Trail next (linked :: rest) → Trail next (node :: linked :: rest)

namespace Trail

theorem ne_nil {nodes : List Node} (h : Trail next nodes) : nodes ≠ [] := by
  cases h with
  | last _ => exact List.cons_ne_nil _ _
  | link _ _ => exact List.cons_ne_nil _ _

/-- There is one way from a node. -/
theorem unique {node : Node} {rest rest' : List Node} (h : Trail next (node :: rest))
    (h' : Trail next (node :: rest')) : rest = rest' := by
  generalize hnodes : node :: rest = nodes at h
  induction h generalizing node rest rest' with
  | last hlast =>
      cases hnodes
      cases h' with
      | last _ => rfl
      | link hlink _ => cases hlast.symm.trans hlink
  | link hlink _ ih =>
      cases hnodes
      cases h' with
      | last hlast => cases hlast.symm.trans hlink
      | link hlink' hrest' =>
          obtain rfl := Option.some.inj (hlink.symm.trans hlink')
          rw [ih hrest' rfl]

/-- The way stays the same if the links of the nodes on it do. -/
theorem congr {next' : Node → Option Node} {nodes : List Node} (h : Trail next nodes)
    (hsame : ∀ node ∈ nodes, next' node = next node) : Trail next' nodes := by
  induction h with
  | last hlast => exact .last ((hsame _ List.mem_cons_self).trans hlast)
  | link hlink _ ih =>
      refine .link ((hsame _ List.mem_cons_self).trans hlink) (ih fun node hnode => ?_)
      exact hsame node (List.mem_cons_of_mem _ hnode)

variable {nodes : List Node}

/-- A way on which all links lead to older nodes does not come back to where it has been. -/
theorem pairwise (h : Trail next nodes) (rank : Node → Nat)
    (hrank : ∀ node ∈ nodes, ∀ linked, next node = some linked → rank linked < rank node) :
    nodes.Pairwise fun node later => rank later < rank node := by
  induction h with
  | last _ => exact List.pairwise_singleton _ _
  | @link node linked rest hlink _ ih =>
      have hrest := ih fun other hother => hrank other (List.mem_cons_of_mem _ hother)
      have hfirst : rank linked < rank node := hrank node List.mem_cons_self linked hlink
      refine List.pairwise_cons.2 ⟨fun later hlater => ?_, hrest⟩
      rcases List.mem_cons.1 hlater with rfl | hmem
      · exact hfirst
      · exact Nat.lt_trans ((List.pairwise_cons.1 hrest).1 later hmem) hfirst

/-- A search on such a way comes to an end, and finds what the first node on it answers that has an
answer. -/
theorem climb_eq {node : Node} {rest : List Node} (h : Trail next (node :: rest))
    (rank : Node → Nat)
    (hrank : ∀ other ∈ node :: rest, ∀ linked, next other = some linked →
      rank linked < rank other)
    (ask : Node → Option Answer) {budget : Nat} (hbudget : rank node < budget) :
    climb next ask budget node = some ((node :: rest).findSome? ask) := by
  induction rest generalizing node budget with
  | nil =>
      obtain ⟨budget, rfl⟩ := Nat.exists_eq_succ_of_ne_zero (Nat.ne_zero_of_lt hbudget)
      cases h with
      | last hlast =>
          rw [climb, List.findSome?_cons, hlast]
          cases ask node <;> rfl
  | cons linked rest ih =>
      obtain ⟨budget, rfl⟩ := Nat.exists_eq_succ_of_ne_zero (Nat.ne_zero_of_lt hbudget)
      cases h with
      | link hlink hrest =>
          have hlt : rank linked < rank node := hrank node List.mem_cons_self linked hlink
          have hsearch : climb next ask budget linked =
              some ((linked :: rest).findSome? ask) :=
            ih hrest (fun _ hother => hrank _ (List.mem_cons_of_mem _ hother)) (by omega)
          rw [climb, List.findSome?_cons, hlink]
          cases ask node with
          | some answer => rfl
          | none => exact hsearch

end Trail

end

/-! ## Scopes -/

/-- The scope around each scope, if there is one, in the order in which the scopes were made. -/
abbrev Links := List (Option ScopeId)

namespace Links

/-- The scope around a scope. -/
def next (links : Links) (scope : ScopeId) : Option ScopeId :=
  links[scope]?.join

/-- The scope that is so many scopes out. -/
def ancestor? (links : Links) : ScopeId → (distance : Nat) → Option ScopeId
  | scope, 0 => some scope
  | scope, distance + 1 => (links.next scope).bind fun outer => links.ancestor? outer distance

/-- All scopes but that of the globals are in scopes that were there before. -/
structure Founded (links : Links) : Prop where
  older : ∀ {scope outer : ScopeId}, links[scope]? = some (some outer) → outer < scope
  root : ∀ {scope : ScopeId}, links[scope]? = some none ↔ scope = Store.globalScope

/-- An environment lists the scopes from its first one outward, up to the globals. -/
structure Ascends (links : Links) (env : Env) : Prop where
  trail : Trail links.next env
  globals : env.getLast? = some Store.globalScope

variable {links : Links}

theorem getElem?_of_next {scope outer : ScopeId} (h : links.next scope = some outer) :
    links[scope]? = some (some outer) :=
  Option.join_eq_some_iff.1 h

theorem Founded.next_lt (h : links.Founded) {scope outer : ScopeId}
    (hnext : links.next scope = some outer) : outer < scope :=
  h.older (getElem?_of_next hnext)

theorem Founded.next_globalScope (h : links.Founded) :
    links.next Store.globalScope = none := by
  rw [next, h.root.2 rfl]
  rfl

theorem Founded.ascends_globalEnv (h : links.Founded) : links.Ascends Store.globalEnv :=
  ⟨.last h.next_globalScope, rfl⟩

/-- The link of a scope stays the same when there are more. -/
theorem next_of_prefix {links' : Links} (h : links <+: links') {scope : ScopeId}
    (hlt : scope < links.length) : links'.next scope = links.next scope := by
  obtain ⟨more, rfl⟩ := h
  rw [next, List.getElem?_append_left hlt, next]

namespace Ascends

variable {env : Env}

theorem lt_length (h : links.Ascends env) (hlinks : links.Founded) {scope : ScopeId}
    (hscope : scope ∈ env) : scope < links.length := by
  obtain ⟨htrail, hglobals⟩ := h
  induction htrail with
  | last _ =>
      obtain rfl := List.mem_singleton.1 hscope
      obtain rfl := Option.some.inj hglobals
      exact (List.getElem?_eq_some_iff.1 (hlinks.root.2 rfl)).1
  | link hlink _ ih =>
      rcases List.mem_cons.1 hscope with rfl | hmem
      · exact (List.getElem?_eq_some_iff.1 (getElem?_of_next hlink)).1
      · exact ih hmem (by rwa [List.getLast?_cons_cons] at hglobals)

theorem mono (h : links.Ascends env) (hlinks : links.Founded) {links' : Links}
    (hgrown : links <+: links') : links'.Ascends env :=
  ⟨h.trail.congr fun _ hscope => next_of_prefix hgrown (h.lt_length hlinks hscope), h.globals⟩

/-- An environment with a new scope inside it. -/
theorem inside (h : links.Ascends env) {scope : ScopeId}
    (hscope : links[scope]? = some env.head?) : links.Ascends (scope :: env) := by
  obtain ⟨htrail, hglobals⟩ := h
  cases env with
  | nil => exact absurd rfl htrail.ne_nil
  | cons outer rest =>
      refine ⟨.link ?_ htrail, hglobals⟩
      rw [next, hscope]
      rfl

theorem exists_cons (h : links.Ascends env) : ∃ scope outer, env = scope :: outer :=
  List.exists_cons_of_ne_nil h.trail.ne_nil

/-- No scope encloses itself. -/
theorem pairwise (h : links.Ascends env) (hlinks : links.Founded) :
    env.Pairwise fun inner outer => outer < inner :=
  h.trail.pairwise id fun _ _ _ hnext => hlinks.next_lt hnext

variable {scope : ScopeId} {outer : Env}

theorem climb_eq {Answer : Type} (h : links.Ascends (scope :: outer)) (hlinks : links.Founded)
    (ask : ScopeId → Option Answer) {budget : Nat} (hbudget : scope < budget) :
    climb links.next ask budget scope = some ((scope :: outer).findSome? ask) :=
  h.trail.climb_eq id (fun _ _ _ hnext => hlinks.next_lt hnext) ask hbudget

theorem ancestor?_eq (h : links.Ascends (scope :: outer)) (distance : Nat) :
    links.ancestor? scope distance = (scope :: outer)[distance]? := by
  obtain ⟨htrail, -⟩ := h
  induction distance generalizing scope outer with
  | zero => rfl
  | succ distance ih =>
      cases htrail with
      | last hlast =>
          rw [ancestor?, hlast]
          rfl
      | link hlink hrest =>
          rw [ancestor?, hlink]
          exact ih hrest

end Ascends

/-! ### New scopes -/

theorem getElem?_concat_eq_some {link found : Option ScopeId} {scope : ScopeId} :
    (links ++ [link])[scope]? = some found ↔
      links[scope]? = some found ∨ scope = links.length ∧ link = found := by
  rcases Nat.lt_trichotomy scope links.length with hlt | rfl | hgt
  · rw [List.getElem?_append_left hlt]
    simp [Nat.ne_of_lt hlt]
  · rw [List.getElem?_concat_length]
    simp
  · have hlength : (links ++ [link]).length ≤ scope := by
      rw [List.length_append]
      exact hgt
    rw [List.getElem?_eq_none hlength, List.getElem?_eq_none (Nat.le_of_lt hgt)]
    simp [Nat.ne_of_gt hgt]

theorem Founded.concat (h : links.Founded) {env : Env} (henv : links.Ascends env) :
    (links ++ [env.head?]).Founded := by
  obtain ⟨first, rest, rfl⟩ := henv.exists_cons
  constructor
  · intro scope outer hscope
    rcases getElem?_concat_eq_some.1 hscope with hbefore | ⟨rfl, hlink⟩
    · exact h.older hbefore
    · obtain rfl : first = outer := Option.some.inj hlink
      exact henv.lt_length h List.mem_cons_self
  · intro scope
    rw [getElem?_concat_eq_some, h.root]
    exact or_iff_left fun hnew => Option.some_ne_none first hnew.2

end Links

/-! ## Classes -/

namespace Class

/-- A class, its superclass, and so on. -/
def lineage : Class → List Class
  | ⟨identity, name, none, methods⟩ => [⟨identity, name, none, methods⟩]
  | ⟨identity, name, some above, methods⟩ =>
      ⟨identity, name, some above, methods⟩ :: above.lineage

theorem lineage_eq_cons (ownClass : Class) :
    ∃ rest, ownClass.lineage = ownClass :: rest := by
  obtain ⟨identity, name, superclass, methods⟩ := ownClass
  cases superclass with
  | none => exact ⟨[], rfl⟩
  | some above => exact ⟨above.lineage, rfl⟩

theorem trail_lineage : (ownClass : Class) → Trail superclass ownClass.lineage
  | ⟨_, _, none, _⟩ => .last rfl
  | ⟨_, _, some above, _⟩ => by
      have habove := above.trail_lineage
      obtain ⟨rest, hrest⟩ := above.lineage_eq_cons
      rw [lineage, hrest]
      rw [hrest] at habove
      exact .link rfl habove

theorem findMethod?_eq (name : String) : (ownClass : Class) →
    ownClass.findMethod? name = ownClass.lineage.findSome? fun holder => holder.methods.lookup name
  | ⟨_, _, none, methods⟩ => by
      rw [findMethod?, lineage, List.findSome?_cons]
      cases methods.lookup name <;> rfl
  | ⟨_, _, some above, methods⟩ => by
      rw [findMethod?, lineage, List.findSome?_cons]
      cases methods.lookup name with
      | some method => rfl
      | none => exact above.findMethod?_eq name

/-- A property that classes hand on to their superclasses. -/
theorem forall_lineage {P : Class → Prop}
    (habove : ∀ ownClass above, P ownClass → ownClass.superclass = some above → P above) :
    (ownClass : Class) → P ownClass → ∀ other ∈ ownClass.lineage, P other
  | ⟨_, _, none, _⟩, h, other, hother => by
      obtain rfl := List.mem_singleton.1 hother
      exact h
  | ⟨_, _, some above, _⟩, h, other, hother => by
      rcases List.mem_cons.1 hother with rfl | hmem
      · exact h
      · exact above.forall_lineage habove (habove _ above h rfl) other hmem

end Class

end LoxLang
