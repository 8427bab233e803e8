import Mathlib.Data.List.Flatten
import LoxLang.Proofs.Run.Consulting
import LoxLang.Proofs.Session.Reply

/-!
# The numbers of a session

The occurrences in all trees that are read in a session have different numbers, whatever becomes of
the trees.  Resolution comes past each of them at most once, so what is recorded about one of them
is recorded once, and neither another tree nor a later text touches it; and when an occurrence is
evaluated, what is looked up is what was recorded about it.
-/

namespace LoxLang

/-! ## What has been read -/

/-- The trees that have been read in a session, and the ones among them that have been resolved. -/
structure Archive where
  read : List Program
  resolved : List Program

namespace Archive

/-- Nothing has been read. -/
def empty : Archive :=
  ⟨[], []⟩

/-- The numbers of the occurrences in the trees that have been read. -/
def ids (archive : Archive) : List NodeId :=
  archive.read.flatMap Stmt.idsAll

/-- What has been found in the trees that have been resolved. -/
def findings (archive : Archive) : List Finding :=
  archive.resolved.flatMap Program.findings

end Archive

namespace Session

/-- The tree of a text, if the text can be read. -/
def tree? (session : Session) (source : String) : Option Program :=
  let stream := TokenStream.ofSource source
  (Program.parse stream.tokens stream.endLine session.nextId).result.toOption

/-- The tree of a text, if it is resolved. -/
def resolved? (session : Session) (source : String) : Option Program :=
  if session.hadError || !(TokenStream.ofSource source).faults.isEmpty then none
  else session.tree? source

end Session

/-- The archive of a session that has read another text. -/
def Archive.reading (archive : Archive) (session : Session) (source : String) : Archive where
  read := archive.read ++ (session.tree? source).toList
  resolved := archive.resolved ++ (session.resolved? source).toList

/-- What may become of a session and its archive: texts are read, and resolved if nothing keeps them
from it, and those without faults may be run; faults are forgotten; and what was written is taken
away or added to. -/
inductive Session.ComesTo (session : Session) (archive : Archive) : Session → Archive → Prop
  | refl : ComesTo session archive session archive
  | compile {later compiled : Session} {filed : Archive} {source : String}
      {diagnostics : List Diagnostic} {program? : Option Program} :
      ComesTo session archive later filed →
      later.compile source = (compiled, diagnostics, program?) →
      ComesTo session archive compiled (filed.reading later source)
  | step {later next : Session} {filed : Archive} {budget : Nat} {prepare : Program → Program}
      {source : String} {diagnostics : List Diagnostic} :
      ComesTo session archive later filed → Prepares prepare →
      later.step budget prepare source = some (next, diagnostics) →
      ComesTo session archive next (filed.reading later source)
  | forget {later : Session} {filed : Archive} :
      ComesTo session archive later filed → ComesTo session archive later.forget filed
  | write {later : Session} {filed : Archive} (output : Output) :
      ComesTo session archive later filed →
      ComesTo session archive { later with world := { later.world with output := output } } filed

/-- The sessions that there can be, with their archives. -/
def Session.Archived (session : Session) (archive : Archive) : Prop :=
  ∃ capacity reading, (initial capacity reading).ComesTo .empty session archive

/-! ## Reading one text -/

namespace Session

variable {session next : Session} {source : String}

/-- What is resolved is what has been read. -/
theorem resolved?_sublist (session : Session) (source : String) :
    (session.resolved? source).toList.Sublist (session.tree? source).toList := by
  rw [resolved?]
  split
  · exact List.nil_sublist _
  · exact List.Sublist.refl _

section

variable {parsed : Parsed Program}
  (hparse : Program.parse (TokenStream.ofSource source).tokens
    (TokenStream.ofSource source).endLine session.nextId = parsed)

include hparse

theorem tree?_of_error {faults : List SyntaxFault} (h : parsed.result = .error faults) :
    session.tree? source = none := by
  rw [tree?, hparse, h]
  rfl

theorem tree?_of_ok {program : Program} (h : parsed.result = .ok program) :
    session.tree? source = some program := by
  rw [tree?, hparse, h]
  rfl

theorem resolved?_of_ok {program : Program} (h : parsed.result = .ok program)
    (hnone : session.hadError = false) (hlexical : (TokenStream.ofSource source).faults = []) :
    session.resolved? source = some program := by
  rw [resolved?, hnone, hlexical]
  exact tree?_of_ok hparse h

end

/-- Compiling a text records what is found in its tree if that is resolved, and a program that may
run is such a tree. -/
theorem compile_tree (session : Session) (source : String) :
    (session.compile source).1.world.distances = session.world.distances.recordAll
        ((session.resolved? source).toList.flatMap Program.findings) ∧
      ∀ program ∈ (session.compile source).2.2, session.resolved? source = some program := by
  rcases hparse : Program.parse (TokenStream.ofSource source).tokens
    (TokenStream.ofSource source).endLine session.nextId with ⟨faults | program, nextId⟩
  · have hresolved : session.resolved? source = none := by
      rw [resolved?, tree?_of_error hparse rfl, ite_self]
    rw [compile_of_error hparse rfl, hresolved]
    constructor
    · rfl
    · intro program hprogram
      cases hprogram
  · by_cases hblocked : session.hadError ∨ (TokenStream.ofSource source).faults ≠ []
    · have hresolved : session.resolved? source = none := by
        rw [resolved?]
        exact if_pos (by simpa using hblocked)
      rw [compile_of_blocked hparse rfl hblocked, hresolved]
      constructor
      · rfl
      · intro program hprogram
        cases hprogram
    · obtain ⟨hnone, hlexical⟩ := not_or.1 hblocked
      rw [Bool.not_eq_true] at hnone
      rw [Classical.not_not] at hlexical
      rw [compile_of_resolved hparse rfl hnone hlexical,
        resolved?_of_ok hparse rfl hnone hlexical]
      constructor
      · dsimp only [Option.toList_some]
        rw [List.flatMap_singleton]
        rfl
      · intro found hfound
        split at hfound
        · exact hfound
        · cases hfound

/-- The numbers in a tree are given out when it is read. -/
theorem fresh_tree? (session : Session) (source : String) :
    session.nextId ≤ (session.compile source).1.nextId ∧
      Fresh session.nextId (session.compile source).1.nextId
        ((session.tree? source).toList.flatMap Stmt.idsAll) := by
  let stream := TokenStream.ofSource source
  have hnextId : (session.compile source).1.nextId =
      (Program.parse stream.tokens stream.endLine session.nextId).nextId := by
    unfold compile
    dsimp only
    split
    · rfl
    · split
      · rfl
      · split <;> rfl
  rw [hnextId]
  refine ⟨Program.le_nextId_parse stream.tokens stream.endLine session.nextId, ?_⟩
  cases hresult : (Program.parse stream.tokens stream.endLine session.nextId).result with
  | error faults =>
      rw [tree?_of_error rfl hresult]
      exact .nil _ _
  | ok program =>
      rw [tree?_of_ok rfl hresult, Option.toList_some, List.flatMap_singleton]
      exact (Program.derives_of_parse_eq_ok hresult).2

/-- Running a program gives out no numbers and records nothing. -/
theorem compile_of_step {budget : Nat} {prepare : Program → Program}
    {diagnostics : List Diagnostic}
    (h : session.step budget prepare source = some (next, diagnostics)) :
    next.nextId = (session.compile source).1.nextId ∧
      next.world.distances = (session.compile source).1.world.distances := by
  obtain ⟨compiled, found, program?, hcompile, hnextId, hworld⟩ := of_step h
  rw [hcompile]
  refine ⟨hnextId, ?_⟩
  rcases hworld with ⟨-, hworld⟩ | ⟨program, -, hworld⟩
  · rw [hworld]
  · rw [hworld, Machine.distances_runFor]
    rfl

end Session

/-! ## Archives of sessions -/

theorem Archive.ids_reading (archive : Archive) (session : Session) (source : String) :
    (archive.reading session source).ids =
      archive.ids ++ (session.tree? source).toList.flatMap Stmt.idsAll :=
  List.flatMap_append

theorem Archive.findings_reading (archive : Archive) (session : Session) (source : String) :
    (archive.reading session source).findings =
      archive.findings ++ (session.resolved? source).toList.flatMap Program.findings :=
  List.flatMap_append

theorem Program.ids_findings_flatMap_sublist (programs : List Program) :
    (Finding.ids (programs.flatMap Program.findings)).Sublist (programs.flatMap Stmt.idsAll) := by
  induction programs with
  | nil => exact List.Sublist.refl _
  | cons program rest ih =>
      rw [List.flatMap_cons, List.flatMap_cons, Finding.ids_append]
      exact (Stmt.ids_findingsAll_sublist _ _ program).append ih

/-- The numbers in the trees of an archive have been given out one by one, and what is recorded is
what has been found in the trees that have been resolved. -/
structure Session.Numbered (session : Session) (archive : Archive) : Prop where
  fresh : Fresh 0 session.nextId archive.ids
  resolved : archive.resolved.Sublist archive.read
  distances : session.world.distances = Distances.recordAll {} archive.findings

namespace Session.Numbered

variable {session next : Session} {archive : Archive}

theorem initial (capacity : Option Nat) (reading : Nat → Float) :
    (Session.initial capacity reading).Numbered .empty :=
  ⟨.nil _ _, List.Sublist.refl _, rfl⟩

theorem of_eq (h : session.Numbered archive) (hnextId : next.nextId = session.nextId)
    (hdistances : next.world.distances = session.world.distances) : next.Numbered archive := by
  refine ⟨?_, h.resolved, ?_⟩
  · rw [hnextId]
    exact h.fresh
  · rw [hdistances]
    exact h.distances

theorem compile (h : session.Numbered archive) (source : String) :
    (session.compile source).1.Numbered (archive.reading session source) := by
  obtain ⟨hle, hfresh⟩ := session.fresh_tree? source
  constructor
  · rw [archive.ids_reading]
    exact h.fresh.append hfresh (Nat.zero_le _) hle
  · exact h.resolved.append (session.resolved?_sublist source)
  · rw [(session.compile_tree source).1, h.distances, archive.findings_reading]
    exact List.foldl_append.symm

/-- No two findings are about the same occurrence. -/
theorem ids_findings (h : session.Numbered archive) : (Finding.ids archive.findings).Nodup :=
  h.fresh.nodup.sublist ((Program.ids_findings_flatMap_sublist archive.resolved).trans
    (h.resolved.flatMap Stmt.idsAll))

/-- What was found about an occurrence is what is on record about it. -/
theorem recorded (h : session.Numbered archive) {occurrence : Occurrence} {distance : Option Nat}
    (hfinding : .binding occurrence distance ∈ archive.findings) :
    session.world.distances[occurrence.id]? = distance := by
  rw [h.distances]
  exact Distances.getElem?_recordAll _ hfinding h.ids_findings Std.TreeMap.getElem?_emptyc

end Session.Numbered

/-- An archive in which the programs of the past are found. -/
structure Session.Filed (session : Session) (archive : Archive) (past : Past) : Prop where
  sound : session.Sound past
  numbered : session.Numbered archive
  programs : ∀ program ∈ past.programs, ∃ tree ∈ archive.resolved,
    tree.findings = program.findings

namespace Session.Filed

variable {session compiled next : Session} {archive : Archive} {past : Past} {source : String}
  {diagnostics : List Diagnostic}

theorem initial (capacity : Option Nat) (reading : Nat → Float) :
    (Session.initial capacity reading).Filed .empty .initial where
  sound := sound_initial capacity reading
  numbered := .initial capacity reading
  programs := by
    intro program hprogram
    cases hprogram

theorem compile (h : session.Filed archive past) {program? : Option Program}
    (hcompile : session.compile source = (compiled, diagnostics, program?)) :
    compiled.Filed (archive.reading session source) past where
  sound := h.sound.compile (compiles hcompile)
  numbered := by
    have hnumbered := h.numbered.compile source
    rwa [hcompile] at hnumbered
  programs := by
    intro program hprogram
    obtain ⟨tree, htree, hfindings⟩ := h.programs program hprogram
    exact ⟨tree, List.mem_append_left _ htree, hfindings⟩

/-- A program that is about to run, and the ones that have been run, are found in the archive. -/
theorem start (h : session.Filed archive past) {program : Program} {prepare : Program → Program}
    (hcompile : session.compile source = (compiled, diagnostics, some program))
    (hprepare : Prepares prepare) :
    ∀ found ∈ (Run.start past compiled.world (prepare program)).past.programs,
      ∃ tree ∈ (archive.reading session source).resolved, tree.findings = found.findings := by
  intro found hfound
  rcases List.mem_cons.1 hfound with rfl | hpast
  · have hresolved : session.resolved? source = some program := by
      apply (session.compile_tree source).2
      rw [hcompile]
      rfl
    obtain ⟨findings, -, -, hprogram⟩ := (compiles hcompile).resolved
    refine ⟨program, ?_, (hprepare.accepted (hprogram program rfl).1).2.symm⟩
    exact List.mem_append_right _ (Option.mem_toList.2 hresolved)
  · exact (h.compile hcompile).programs found hpast

theorem step (h : session.Filed archive past) {budget : Nat} {prepare : Program → Program}
    (hprepare : Prepares prepare)
    (hstep : session.step budget prepare source = some (next, diagnostics)) :
    next.Filed (archive.reading session source) (past.after session budget prepare source) where
  sound := h.sound.step hprepare hstep
  numbered := by
    obtain ⟨hnextId, hdistances⟩ := compile_of_step hstep
    exact (h.numbered.compile source).of_eq hnextId hdistances
  programs := by
    rcases hcompile : session.compile source with ⟨compiled, found, none | program⟩
    · have hpast : past.after session budget prepare source = past := by
        rw [Past.after, hcompile]
      rw [hpast]
      exact (h.compile hcompile).programs
    · have hpast : past.after session budget prepare source =
          ((Run.start past compiled.world (prepare program)).runFor budget).past := by
        rw [Past.after, hcompile]
      rw [hpast, Run.programs_runFor]
      exact h.start hcompile hprepare

theorem of_eq (h : session.Filed archive past) (hstore : next.world.store = session.world.store)
    (hdistances : next.world.distances = session.world.distances)
    (hnextId : next.nextId = session.nextId) : next.Filed archive past :=
  ⟨h.sound.of_eq hstore hdistances hnextId, h.numbered.of_eq hnextId hdistances, h.programs⟩

end Session.Filed

namespace Session

variable {session later : Session} {archive filed : Archive}

theorem ComesTo.exists_filed {past : Past} (hsession : session.Filed archive past)
    (h : session.ComesTo archive later filed) : ∃ past, later.Filed filed past := by
  induction h with
  | refl => exact ⟨past, hsession⟩
  | compile _ hcompile ih =>
      obtain ⟨past, hlater⟩ := ih
      exact ⟨past, hlater.compile hcompile⟩
  | step _ hprepare hstep ih =>
      obtain ⟨past, hlater⟩ := ih
      exact ⟨_, hlater.step hprepare hstep⟩
  | forget _ ih =>
      obtain ⟨past, hlater⟩ := ih
      exact ⟨past, hlater.of_eq rfl rfl rfl⟩
  | write _ _ ih =>
      obtain ⟨past, hlater⟩ := ih
      exact ⟨past, hlater.of_eq rfl rfl rfl⟩

theorem Archived.exists_filed (h : session.Archived archive) :
    ∃ past, session.Filed archive past := by
  obtain ⟨capacity, reading, hcomesTo⟩ := h
  exact hcomesTo.exists_filed (.initial capacity reading)

/-- Every session that can be reached has an archive. -/
theorem Reached.archived {past : Past} (h : session.Reached past) :
    ∃ archive, session.Archived archive := by
  induction h with
  | initial capacity reading => exact ⟨.empty, capacity, reading, .refl⟩
  | step _ hprepare hstep ih =>
      obtain ⟨archive, capacity, reading, hcomesTo⟩ := ih
      exact ⟨_, capacity, reading, hcomesTo.step hprepare hstep⟩
  | forget _ ih =>
      obtain ⟨archive, capacity, reading, hcomesTo⟩ := ih
      exact ⟨archive, capacity, reading, hcomesTo.forget⟩
  | write output _ ih =>
      obtain ⟨archive, capacity, reading, hcomesTo⟩ := ih
      exact ⟨archive, capacity, reading, hcomesTo.write output⟩

/-- Another text records nothing under a number that has been given out. -/
theorem getElem?_compile (session : Session) (source : String) {id : NodeId}
    (h : id < session.nextId) :
    (session.compile source).1.world.distances[id]? = session.world.distances[id]? := by
  obtain ⟨-, hfresh⟩ := session.fresh_tree? source
  have hfindings := hfresh.sublist ((Program.ids_findings_flatMap_sublist _).trans
    ((session.resolved?_sublist source).flatMap Stmt.idsAll))
  rw [(session.compile_tree source).1]
  apply Distances.getElem?_recordAll_of_not_mem
  intro hid
  exact Nat.not_lt.2 (hfindings.ge id hid) h

/-- The trees of a session are kept, and so is what is recorded under numbers that have been given
out. -/
structure Keeps (session : Session) (archive : Archive) (later : Session) (filed : Archive) :
    Prop where
  read : archive.read <+: filed.read
  nextId : session.nextId ≤ later.nextId
  distances : ∀ id < session.nextId, later.world.distances[id]? = session.world.distances[id]?

theorem Keeps.reading (h : session.Keeps archive later filed) {next : Session} {source : String}
    (hnextId : next.nextId = (later.compile source).1.nextId)
    (hdistances : next.world.distances = (later.compile source).1.world.distances) :
    session.Keeps archive next (filed.reading later source) where
  read := h.read.trans (List.prefix_append _ _)
  nextId := by
    rw [hnextId]
    exact h.nextId.trans (later.fresh_tree? source).1
  distances := by
    intro id hid
    have hlater := Nat.lt_of_lt_of_le hid h.nextId
    rw [hdistances, later.getElem?_compile source hlater, h.distances id hid]

theorem ComesTo.keeps (h : session.ComesTo archive later filed) :
    session.Keeps archive later filed := by
  induction h with
  | refl => exact ⟨List.prefix_rfl, Nat.le_refl _, fun _ _ => rfl⟩
  | compile _ hcompile ih =>
      refine ih.reading ?_ ?_
      · rw [hcompile]
      · rw [hcompile]
  | step _ _ hstep ih =>
      obtain ⟨hnextId, hdistances⟩ := compile_of_step hstep
      exact ih.reading hnextId hdistances
  | forget _ ih => exact ⟨ih.read, ih.nextId, ih.distances⟩
  | write _ _ ih => exact ⟨ih.read, ih.nextId, ih.distances⟩

/-- What a step of a program looks up is what was recorded about an occurrence in a tree that has
been resolved. -/
theorem Archived.consults (h : session.Archived archive) {compiled : Session} {source : String}
    {diagnostics : List Diagnostic} {program : Program} {prepare : Program → Program}
    (hcompile : session.compile source = (compiled, diagnostics, some program))
    (hprepare : Prepares prepare) (budget : Nat) {occurrence : Occurrence}
    (hconsulted : (compiled.running (prepare program) budget).consulted? = some occurrence) :
    ∃ tree ∈ (archive.reading session source).resolved, ∃ distance,
      .binding occurrence distance ∈ tree.findings ∧
        (compiled.running (prepare program) budget).world.distances[occurrence.id]? = distance := by
  obtain ⟨past, hfiled⟩ := h.exists_filed
  let run := Run.start past compiled.world (prepare program)
  have hsound : run.Sound := (hfiled.sound.start (compiles hcompile) hprepare).1
  have hmachine : (run.runFor budget).machine = compiled.running (prepare program) budget :=
    run.machine_runFor budget
  rw [← hmachine] at hconsulted ⊢
  obtain ⟨found, hfound, distance, hbinding⟩ :=
    (hsound.runFor budget).exists_finding hconsulted
  rw [run.programs_runFor] at hfound
  obtain ⟨tree, htree, hfindings⟩ := hfiled.start hcompile hprepare found hfound
  rw [← hfindings] at hbinding
  refine ⟨tree, htree, distance, hbinding, ?_⟩
  rw [run.distances_runFor]
  exact (hfiled.compile hcompile).numbered.recorded
    (List.mem_flatMap.2 ⟨tree, htree, hbinding⟩)

/-- Numbers stand for occurrences.  The occurrences in all trees that have been read have different
numbers; resolution comes past each of them at most once; what is recorded under their numbers is
what it has found about them, and stays so whatever text is read or run next; and a step of a
program depends on what is recorded about the one occurrence that it looks up, and on no other
record. -/
theorem Archived.numbers_identify (h : session.Archived archive) :
    archive.ids.Nodup ∧
    (∀ tree ∈ archive.read, (Finding.ids tree.findings).Sublist (Stmt.idsAll tree)) ∧
    archive.resolved.Sublist archive.read ∧
    session.world.distances = Distances.recordAll {} archive.findings ∧
    (Finding.ids archive.findings).Nodup ∧
    (∀ occurrence distance, .binding occurrence distance ∈ archive.findings →
      session.world.distances[occurrence.id]? = distance) ∧
    (∀ later filed, session.ComesTo archive later filed → archive.read <+: filed.read ∧
      ∀ id ∈ archive.ids, later.world.distances[id]? = session.world.distances[id]?) ∧
    ∀ source compiled diagnostics program prepare budget,
      session.compile source = (compiled, diagnostics, some program) → Prepares prepare →
      let machine := compiled.running (prepare program) budget
      (∀ occurrence ∈ machine.consulted?, ∃ tree ∈ (archive.reading session source).resolved,
        ∃ distance, .binding occurrence distance ∈ tree.findings ∧
          machine.world.distances[occurrence.id]? = distance) ∧
      ∀ distances : Distances,
        (∀ occurrence ∈ machine.consulted?,
          distances[occurrence.id]? = machine.world.distances[occurrence.id]?) →
        (machine.recording distances).step = machine.step.recording distances := by
  obtain ⟨past, -, hnumbered, -⟩ := h.exists_filed
  refine ⟨hnumbered.fresh.nodup, fun tree _ => Stmt.ids_findingsAll_sublist _ _ tree,
    hnumbered.resolved, hnumbered.distances, hnumbered.ids_findings,
    fun occurrence distance => hnumbered.recorded, ?_, ?_⟩
  · intro later filed hlater
    have hkeeps := hlater.keeps
    exact ⟨hkeeps.read, fun id hid => hkeeps.distances id (hnumbered.fresh.lt id hid)⟩
  · intro source compiled diagnostics program prepare budget hcompile hprepare machine
    constructor
    · intro occurrence hconsulted
      exact h.consults hcompile hprepare budget hconsulted
    · intro distances
      exact Machine.step_recording

/-- A block that declares a variable, reads it and goes on. -/
def readingBlock (id : NodeId) (rest : List Stmt) : Program :=
  let name : Token := ⟨.identifier, "a", 1⟩
  [.block (.varDecl name none :: .expression (.variable ⟨id, name⟩) :: rest)]

/-- A block that returns, although it is not in a function. -/
def returningBlock : Program :=
  readingBlock 0 [.returnValue ⟨.keyword .returnKw, "return", 1⟩ none]

/-- A session that has come upon the block. -/
def rejecting : Session :=
  let session := initial none fun _ => 0
  { session with nextId := 1, world := session.world.resolved returningBlock.findings }

/-- The block is resolved and rejected. -/
theorem compile_returningBlock :
    (initial none fun _ => 0).compile "\x7bvar a;a;return;\x7d" =
        (rejecting, returningBlock.staticFaults.map .static, none) ∧
      rejecting.Archived ⟨[returningBlock], [returningBlock]⟩ := by
  let session := initial none fun _ => 0
  have hparse : Program.parse (TokenStream.ofSource "\x7bvar a;a;return;\x7d").tokens
      (TokenStream.ofSource "\x7bvar a;a;return;\x7d").endLine 0 = ⟨.ok returningBlock, 1⟩ := by
    decide +kernel
  have hlexical : (TokenStream.ofSource "\x7bvar a;a;return;\x7d").faults = [] := by decide +kernel
  have hcompile := @compile_of_resolved session _ _ hparse _ rfl rfl hlexical
  rw [if_neg (by decide)] at hcompile
  have harchive : Archive.empty.reading session "\x7bvar a;a;return;\x7d" =
      ⟨[returningBlock], [returningBlock]⟩ := by
    rw [Archive.reading, @tree?_of_ok session _ _ hparse _ rfl,
      @resolved?_of_ok session _ _ hparse _ rfl rfl hlexical]
    rfl
  refine ⟨hcompile, none, fun _ => 0, ?_⟩
  rw [← harchive]
  exact .compile .refl hcompile

/-- The block without its `return` is read next, and may run. -/
theorem compile_readingBlock : ∃ compiled,
    rejecting.compile "\x7bvar a;a;\x7d" = (compiled, [], some (readingBlock 1 [])) ∧
      (compiled.running (readingBlock 1 []) 7).consulted? = some ⟨1, ⟨.identifier, "a", 1⟩⟩ := by
  have hparse : Program.parse (TokenStream.ofSource "\x7bvar a;a;\x7d").tokens
      (TokenStream.ofSource "\x7bvar a;a;\x7d").endLine 1 = ⟨.ok (readingBlock 1 []), 2⟩ := by
    decide +kernel
  have hlexical : (TokenStream.ofSource "\x7bvar a;a;\x7d").faults = [] := by decide +kernel
  have hcompile := @compile_of_resolved rejecting _ _ hparse _ rfl rfl hlexical
  rw [if_pos (by decide)] at hcompile
  exact ⟨_, hcompile, rfl⟩

/-- A variable in a text that has been rejected keeps its number and what is recorded under it, and
the variable in the next text, which is run, has a record of its own. -/
theorem numbers_identify_readingBlock :
    rejecting.Archived ⟨[returningBlock], [returningBlock]⟩ ∧
    rejecting.world.distances[0]? = some 0 ∧
    (∀ later filed, rejecting.ComesTo ⟨[returningBlock], [returningBlock]⟩ later filed →
      later.world.distances[0]? = rejecting.world.distances[0]?) ∧
    ∃ compiled, rejecting.compile "\x7bvar a;a;\x7d" =
        (compiled, [], some (readingBlock 1 [])) ∧
      let machine := compiled.running (readingBlock 1 []) 7
      machine.consulted? = some ⟨1, ⟨.identifier, "a", 1⟩⟩ ∧
      ∃ tree : Program, ∃ distance,
        .binding ⟨1, ⟨.identifier, "a", 1⟩⟩ distance ∈ tree.findings ∧
          machine.world.distances[1]? = distance := by
  have harchived := compile_returningBlock.2
  obtain ⟨compiled, hcompile, hconsulted⟩ := compile_readingBlock
  obtain ⟨-, -, -, -, -, -, hkept, hruns⟩ := Archived.numbers_identify harchived
  refine ⟨harchived, rfl, ?_, compiled, hcompile, hconsulted, ?_⟩
  · intro later filed hlater
    exact (hkept later filed hlater).2 0 (List.mem_singleton_self 0)
  · obtain ⟨tree, -, distance, hfinding, hrecorded⟩ :=
      (hruns _ _ _ _ id 7 hcompile .script).1 _ hconsulted
    exact ⟨tree, distance, hfinding, hrecorded⟩

end Session

end LoxLang
