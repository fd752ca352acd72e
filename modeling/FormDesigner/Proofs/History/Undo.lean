import Mathlib.Data.List.Induction
import FormDesigner.History.Log
import FormDesigner.Proofs.History.Inverse
import FormDesigner.Proofs.Tree.Runs

/-!
Undoing takes the links of a tree back to where they were.

Every entry of a log stands for a state of the links to come back to.  The
states form a stack: what the latest entry leads back to is what the next one
starts from.  Adding nodes extends all states of the stack alike.
-/

namespace FormDesigner

open Program

/-- The entries lead back from one state of the links to the next, and at last
to one that `origin` accepts; `memory` says what is known of the state that an
entry leads to. -/
def Undoable (registry : Registry) (origin : List Links → Prop)
    (memory : Entry → List Links → Prop) : List Entry → List Links → Prop
  | [], links => origin links
  | entry :: rest, after => ∃ before, before.length = after.length ∧
      Rewinds (entry.action.revert registry) after before ∧ memory entry before ∧
        Undoable registry origin memory rest before

theorem Undoable.mono {registry : Registry} {origin origin' : List Links → Prop}
    {memory memory' : Entry → List Links → Prop} (horigin : ∀ links, origin links → origin' links)
    (hmemory : ∀ entry before, memory entry before → memory' entry before)
    {entries : List Entry} {links : List Links}
    (h : Undoable registry origin memory entries links) :
    Undoable registry origin' memory' entries links := by
  induction entries generalizing links with
  | nil => exact horigin links h
  | cons entry rest ih =>
      obtain ⟨before, hlength, hrewinds, hknown, hrest⟩ := h
      exact ⟨before, hlength, hrewinds, hmemory entry before hknown, ih hrest⟩

theorem Undoable.append {registry : Registry} {origin origin' : List Links → Prop}
    {memory memory' : Entry → List Links → Prop} {more : List Links}
    (horigin : ∀ links, origin links → origin' (links ++ more))
    (hmemory : ∀ entry before, memory entry before → memory' entry (before ++ more))
    {entries : List Entry} {links : List Links}
    (h : Undoable registry origin memory entries links) :
    Undoable registry origin' memory' entries (links ++ more) := by
  induction entries generalizing links with
  | nil => exact horigin links h
  | cons entry rest ih =>
      obtain ⟨before, hlength, hrewinds, hknown, hrest⟩ := h
      refine ⟨before ++ more, ?_, hrewinds.append more, hmemory entry before hknown, ih hrest⟩
      rw [List.length_append, List.length_append, hlength]

namespace Journal

variable {registry : Registry} {journal : Journal}

theorem onTree_ok {α : Type} {change : TreeM HistoryError α} {value : α} {after : Tree}
    (h : change journal.tree = .ok value after) :
    onTree change journal = .ok value { journal with tree := after } := by
  simp only [onTree, h]

theorem onTree_error {α : Type} {change : TreeM HistoryError α} {failure : HistoryError}
    {after : Tree} (h : change journal.tree = .error failure after) :
    onTree change journal = .error failure { journal with tree := after } := by
  simp only [onTree, h]

theorem finish_onTree {α : Type} (change : TreeM HistoryError α) (journal : Journal) :
    finish (onTree change) journal = { journal with tree := finish change journal.tree } := by
  cases hrun : change journal.tree with
  | ok value after => rw [finish_of_ok hrun, finish_of_ok (onTree_ok hrun)]
  | error failure after => rw [finish_of_error hrun, finish_of_error (onTree_error hrun)]

theorem push_ok {label : String} {action applied : Action} {after : Tree}
    (h : action.apply journal.tree = .ok applied after) :
    push label action journal =
      .ok journal.log.next ⟨after, journal.log.add label applied⟩ := by
  rw [push, bind_ok (onTree_ok h)]
  rfl

/-- An action that fails is not recorded. -/
theorem push_error {label : String} {action : Action} {failure : HistoryError} {after : Tree}
    (h : action.apply journal.tree = .error failure after) :
    push label action journal = .error failure { journal with tree := after } := by
  rw [push, bind_error (onTree_error h)]

theorem undo_empty (h : journal.log.entries = []) :
    undo registry journal = .ok false journal := by
  rw [undo, bind_ok (get_apply journal), h]
  rfl

theorem undo_ok {entry : Entry} {rest : List Entry} {after : Tree}
    (h : journal.log.entries = entry :: rest)
    (hrevert : entry.action.revert registry journal.tree = .ok () after) :
    undo registry journal = .ok true ⟨after, { journal.log with entries := rest }⟩ := by
  rw [undo, bind_ok (get_apply journal), h]
  simp only []
  rw [bind_ok (onTree_ok hrevert), bind_ok (modify_apply _ _)]
  rfl

/-- An entry whose action cannot be taken back stays. -/
theorem undo_error {entry : Entry} {rest : List Entry} {failure : HistoryError} {after : Tree}
    (h : journal.log.entries = entry :: rest)
    (hrevert : entry.action.revert registry journal.tree = .error failure after) :
    undo registry journal = .error failure { journal with tree := after } := by
  rw [undo, bind_ok (get_apply journal), h]
  simp only []
  rw [bind_error (onTree_error hrevert)]

/-- What the tree keeps when the latest action is taken back, also if that fails, and what
forgetting entries keeps, undoing keeps. -/
theorem keeps_undo_of_revert {holds : Journal → Prop}
    (hrevert : ∀ journal entry rest, holds journal → journal.log.entries = entry :: rest →
      holds { journal with tree := finish (entry.action.revert registry) journal.tree })
    (hforget : ∀ journal log, holds journal → log.entries.Sublist journal.log.entries →
      holds { journal with log }) : Keeps holds (undo registry) := by
  intro journal h
  cases hentries : journal.log.entries with
  | nil =>
      rw [finish_of_ok (undo_empty hentries)]
      exact h
  | cons entry rest =>
      have hkept := hrevert journal entry rest h hentries
      cases hrun : entry.action.revert registry journal.tree with
      | ok done after =>
          rw [finish_of_ok hrun] at hkept
          rw [finish_of_ok (undo_ok hentries hrun)]
          apply hforget _ { journal.log with entries := rest } hkept
          simp only [hentries]
          exact List.sublist_cons_self entry rest
      | error failure after =>
          rw [finish_of_error hrun] at hkept
          rw [finish_of_error (undo_error hentries hrun)]
          exact hkept

theorem keeps_revertAll_of_undo {holds : Journal → Prop} (h : Keeps holds (undo registry))
    (bound : Nat) : Keeps holds (revertAll registry bound) := by
  induction bound with
  | zero => exact .pure 0
  | succ bound ih =>
      apply h.bind
      intro undone
      cases undone with
      | false => exact .pure 0
      | true => exact ih.bind fun _ => .pure _

/-- What undoing keeps, taking everything back keeps. -/
theorem keeps_revert_of_undo {holds : Journal → Prop} (h : Keeps holds (undo registry)) :
    Keeps holds (revert registry) :=
  Keeps.get.bind fun _ => keeps_revertAll_of_undo h _

/-- Undoing the latest of several entries that lead back. -/
theorem undo_latest {origin : List Links → Prop} {memory : Entry → List Links → Prop}
    (htree : journal.tree.WellFormed) {entry : Entry} {rest : List Entry}
    (hentries : journal.log.entries = entry :: rest)
    (h : Undoable registry origin memory journal.log.entries journal.tree.links) :
    ∃ back, entry.action.revert registry journal.tree = .ok () back ∧
      undo registry journal = .ok true ⟨back, { journal.log with entries := rest }⟩ ∧
      back.WellFormed ∧ back.size = journal.tree.size ∧ memory entry back.links ∧
      Undoable registry origin memory rest back.links := by
  rw [hentries] at h
  obtain ⟨before, hlength, hrewinds, hknown, hrest⟩ := h
  obtain ⟨_, back, hrevert, hback, hlinks⟩ :=
    hrewinds journal.tree [] htree (List.append_nil _).symm
  rw [List.append_nil] at hlinks
  have hsize : back.size = journal.tree.size := by
    rw [← Tree.length_links, ← Tree.length_links, hlinks, hlength]
  exact ⟨back, hrevert, undo_ok hentries hrevert, hback, hsize, hlinks ▸ hknown, hlinks ▸ hrest⟩

/-- The ways out of recording an action that changes links. -/
theorem push_cases (registry : Registry) (htree : journal.tree.WellFormed) (label : String)
    {action : Action} (hstructural : action.isStructural = true) :
    (∃ failure, push label action journal = .error failure journal) ∨
    ∃ applied after, push label action journal =
        .ok journal.log.next ⟨after, journal.log.add label applied⟩ ∧
      applied.isStructural = true ∧ after.WellFormed ∧ after.contents = journal.tree.contents ∧
      Rewinds (applied.revert registry) after.links journal.tree.links := by
  rcases Action.invertible registry htree hstructural with
    ⟨failure, hresult⟩ | ⟨applied, after, hresult, hkind, hafter, hrewinds⟩
  · exact Or.inl ⟨failure, push_error hresult⟩
  · exact Or.inr ⟨applied, after, push_ok hresult, hkind, hafter,
      (Action.keepsContents_apply action).of_ok hresult, hrewinds⟩

end Journal

/-- What may happen to a journal: an action that changes links is recorded, the
latest one is undone, nodes are added, values are changed. -/
inductive JournalStep where
  | push (label : String) (action : Action) (structural : action.isStructural = true)
  | undo
  | insert (node : Node)
  | plant (blueprint : Blueprint)
  | store (id : NodeId) (name : String) (datum : Datum)
  | remove (id : NodeId) (name : String)

/-- The journal after a step, also after one that fails. -/
def JournalStep.perform (registry : Registry) (journal : Journal) : JournalStep → Journal
  | .push label action _ => finish (Journal.push label action) journal
  | .undo => finish (Journal.undo registry) journal
  | .insert node => { journal with tree := (journal.tree.insert node).2 }
  | .plant blueprint => { journal with tree := (journal.tree.plant blueprint).2 }
  | .store id name datum =>
      { journal with tree := finish (Tree.store id name datum) journal.tree }
  | .remove id name => { journal with tree := finish (Tree.remove id name) journal.tree }

namespace Journal

/-- A journal after a run of steps. -/
def run (registry : Registry) (journal : Journal) (steps : List JournalStep) : Journal :=
  steps.foldl (JournalStep.perform registry) journal

/-- The links of the nodes that a run of steps adds, each as they were right
after its step. -/
def planted (registry : Registry) (journal : Journal) : List JournalStep → List Links
  | [] => []
  | step :: rest =>
      (step.perform registry journal).tree.links.drop journal.tree.size ++
        planted registry (step.perform registry journal) rest

variable {registry : Registry} {journal : Journal}

theorem run_snoc (steps : List JournalStep) (step : JournalStep) :
    run registry journal (steps ++ [step]) =
      step.perform registry (run registry journal steps) := by
  rw [run, List.foldl_append]
  rfl

theorem planted_snoc (steps : List JournalStep) (step : JournalStep) :
    planted registry journal (steps ++ [step]) = planted registry journal steps ++
      (step.perform registry (run registry journal steps)).tree.links.drop
        (run registry journal steps).tree.size := by
  induction steps generalizing journal with
  | nil => simp [planted, run]
  | cons first rest ih =>
      rw [List.cons_append, planted, planted, ih, List.append_assoc]
      rfl

theorem run_append (steps others : List JournalStep) :
    run registry journal (steps ++ others) = run registry (run registry journal steps) others := by
  rw [run, List.foldl_append]
  rfl

/-- The entry was recorded in the course of the steps, and `before` are the links
right before that, with those of the nodes that were added since. -/
def Remembers (registry : Registry) (start : Journal) (steps : List JournalStep) (entry : Entry)
    (before : List Links) : Prop :=
  ∃ earlier label action structural later number pushed,
    steps = earlier ++ .push label action structural :: later ∧
    push label action (run registry start earlier) = .ok number pushed ∧
    pushed.log.entries = entry :: (run registry start earlier).log.entries ∧
    entry.action.isStructural = true ∧
    before = (run registry start earlier).tree.links ++ planted registry pushed later

theorem Remembers.snoc {start : Journal} {steps : List JournalStep} {entry : Entry}
    {before : List Links} (h : Remembers registry start steps entry before) (step : JournalStep) :
    Remembers registry start (steps ++ [step]) entry (before ++
      (step.perform registry (run registry start steps)).tree.links.drop
        (run registry start steps).tree.size) := by
  obtain ⟨earlier, label, action, structural, later, number, pushed, rfl, hpush, hentries, hkind,
    rfl⟩ := h
  refine ⟨earlier, label, action, structural, later ++ [step], number, pushed,
    List.append_assoc _ _ _, hpush, hentries, hkind, ?_⟩
  have hnow : run registry start (earlier ++ .push label action structural :: later) =
      run registry pushed later := by
    rw [run_append, ← List.singleton_append, run_append]
    congr 1
    exact finish_of_ok hpush
  rw [planted_snoc, hnow, List.append_assoc]

/-- All entries of the journal lead back to what was there before them. -/
structure Traced (registry : Registry) (start : Journal) (steps : List JournalStep)
    (now : Journal) : Prop where
  wellFormed : now.tree.WellFormed
  undoable : Undoable registry (fun _ => True) (Remembers registry start steps) now.log.entries
    now.tree.links

namespace Traced

variable {start : Journal} {steps : List JournalStep} {step : JournalStep}

/-- A step that records and undoes nothing may add nodes. -/
theorem of_added (added : List Links)
    (h : Traced registry start steps (run registry start steps))
    (htree : (step.perform registry (run registry start steps)).tree.WellFormed)
    (hentries : (step.perform registry (run registry start steps)).log.entries =
      (run registry start steps).log.entries)
    (hlinks : (step.perform registry (run registry start steps)).tree.links =
      (run registry start steps).tree.links ++ added) :
    Traced registry start (steps ++ [step]) (step.perform registry (run registry start steps)) := by
  have hdrop : (step.perform registry (run registry start steps)).tree.links.drop
      (run registry start steps).tree.size = added := by
    rw [hlinks, ← Tree.length_links, List.drop_left]
  refine ⟨htree, ?_⟩
  rw [hentries, hlinks]
  refine h.undoable.append (fun _ _ => trivial) fun entry before hknown => ?_
  have hnext := hknown.snoc step
  rwa [hdrop] at hnext

/-- A step that adds no nodes lets the entries below the latest be as they were. -/
theorem undoable_of_size (step : JournalStep)
    (hsize : (step.perform registry (run registry start steps)).tree.size =
      (run registry start steps).tree.size) {entries : List Entry} {links : List Links}
    (h : Undoable registry (fun _ => True) (Remembers registry start steps) entries links) :
    Undoable registry (fun _ => True) (Remembers registry start (steps ++ [step])) entries
      links := by
  have hdrop : (step.perform registry (run registry start steps)).tree.links.drop
      (run registry start steps).tree.size = [] := by
    rw [← hsize, ← Tree.length_links, List.drop_length]
  rw [← List.append_nil links]
  refine h.append (fun _ _ => trivial) fun entry before hknown => ?_
  have hnext := hknown.snoc step
  rwa [hdrop] at hnext

theorem push (h : Traced registry start steps (run registry start steps)) (label : String)
    (action : Action) (structural : action.isStructural = true) :
    Traced registry start (steps ++ [.push label action structural])
      (JournalStep.perform registry (run registry start steps)
        (.push label action structural)) := by
  rcases push_cases registry h.wellFormed label structural with
    ⟨failure, hresult⟩ | ⟨applied, after, hresult, hkind, hafter, hcontents, hrewinds⟩
  · have hnow : JournalStep.perform registry (run registry start steps)
        (.push label action structural) = run registry start steps := finish_of_error hresult
    refine h.of_added [] ?_ ?_ ?_
    · rw [hnow]; exact h.wellFormed
    · rw [hnow]
    · rw [hnow, List.append_nil]
  · have hnow : JournalStep.perform registry (run registry start steps)
        (.push label action structural) =
          ⟨after, (run registry start steps).log.add label applied⟩ := finish_of_ok hresult
    have hsize : after.size = (run registry start steps).tree.size := by
      rw [← Tree.length_contents, hcontents, Tree.length_contents]
    have hbelow := undoable_of_size (.push label action structural)
      (by rw [hnow]; exact hsize) h.undoable
    rw [hnow]
    refine ⟨hafter, (run registry start steps).tree.links, ?_, hrewinds, ?_, hbelow⟩
    · rw [Tree.length_links, Tree.length_links, hsize]
    · exact ⟨steps, label, action, structural, [], _, _, rfl, hresult, rfl, hkind,
        (List.append_nil _).symm⟩

theorem undo (h : Traced registry start steps (run registry start steps)) :
    Traced registry start (steps ++ [.undo])
      (JournalStep.perform registry (run registry start steps) .undo) := by
  cases hentries : (run registry start steps).log.entries with
  | nil =>
      have hnow : JournalStep.perform registry (run registry start steps) .undo =
          run registry start steps := finish_of_ok (undo_empty hentries)
      refine h.of_added [] ?_ ?_ ?_
      · rw [hnow]; exact h.wellFormed
      · rw [hnow]
      · rw [hnow, List.append_nil]
  | cons entry rest =>
      obtain ⟨back, _, hresult, hback, hsize, _, hrest⟩ :=
        undo_latest h.wellFormed hentries h.undoable
      have hnow : JournalStep.perform registry (run registry start steps) .undo =
          ⟨back, { (run registry start steps).log with entries := rest }⟩ := finish_of_ok hresult
      have hbelow := undoable_of_size .undo (by rw [hnow]; exact hsize) hrest
      rw [hnow]
      exact ⟨hback, hbelow⟩

/-- One more step of any kind. -/
theorem perform (h : Traced registry start steps (run registry start steps)) :
    ∀ step : JournalStep, Traced registry start (steps ++ [step])
      (step.perform registry (run registry start steps))
  | .push label action structural => h.push label action structural
  | .undo => h.undo
  | .insert node => by
      refine h.of_added [⟨node.children.map fun _ => [], none⟩] (h.wellFormed.insert node) rfl ?_
      simp only [JournalStep.perform, Tree.insert_eq, Tree.links_grow]
      rfl
  | .plant blueprint => by
      refine h.of_added
        ((blueprint.layout (run registry start steps).tree.size none).map Node.links)
        (h.wellFormed.plant blueprint) rfl ?_
      exact Tree.links_plant _ blueprint
  | .store id name datum => by
      refine h.of_added [] (h.wellFormed.perform (.store id name datum)) rfl ?_
      rw [JournalStep.perform, Tree.finish_store, List.append_nil]
      exact Tree.links_mapNode_of_links_eq _ _ fun _ => rfl
  | .remove id name => by
      refine h.of_added [] (h.wellFormed.perform (.remove id name)) rfl ?_
      rw [JournalStep.perform, Tree.finish_remove, List.append_nil]
      exact Tree.links_mapNode_of_links_eq _ _ fun _ => rfl

end Traced

/-- A run of steps of any kind. -/
theorem traced (registry : Registry) {tree : Tree} (h : tree.WellFormed)
    (steps : List JournalStep) :
    Traced registry ⟨tree, .empty⟩ steps (run registry ⟨tree, .empty⟩ steps) := by
  induction steps using List.reverseRecOn with
  | nil => exact ⟨h, trivial⟩
  | append_singleton steps step ih =>
      rw [run_snoc]
      exact ih.perform step

/-- After every run of steps: an action that cannot be recorded leaves the journal
as it is, and if there is an entry, undoing succeeds and takes the latest one away.  The
links are then those right before the entry was recorded, with those of the nodes
added since, and all values are as they were. -/
theorem undo_restores_links (registry : Registry) {tree : Tree} (h : tree.WellFormed)
    (steps : List JournalStep) :
    (∀ label action failure left, action.isStructural = true →
      push label action (run registry ⟨tree, .empty⟩ steps) = .error failure left →
        left = run registry ⟨tree, .empty⟩ steps) ∧
    ∀ entry rest, (run registry ⟨tree, .empty⟩ steps).log.entries = entry :: rest →
      ∃ back, undo registry (run registry ⟨tree, .empty⟩ steps) = .ok true back ∧
        back.log.entries = rest ∧
        back.tree.contents = (run registry ⟨tree, .empty⟩ steps).tree.contents ∧
        ∃ earlier label action structural later number pushed,
          steps = earlier ++ .push label action structural :: later ∧
          push label action (run registry ⟨tree, .empty⟩ earlier) = .ok number pushed ∧
          pushed.log.entries = entry :: (run registry ⟨tree, .empty⟩ earlier).log.entries ∧
          back.tree.links = (run registry ⟨tree, .empty⟩ earlier).tree.links ++
            planted registry pushed later := by
  have htraced := traced registry h steps
  refine ⟨fun label action failure left hkind hfail => ?_, fun entry rest hentries => ?_⟩
  · rcases push_cases registry htraced.wellFormed label hkind with
      ⟨_, hresult⟩ | ⟨_, _, hresult, _⟩
    · rw [hresult] at hfail
      cases hfail
      rfl
    · rw [hresult] at hfail
      cases hfail
  · obtain ⟨back, hrevert, hresult, _, _, hknown, _⟩ :=
      undo_latest htraced.wellFormed hentries htraced.undoable
    obtain ⟨earlier, label, action, structural, later, number, pushed, hsteps, hpush, hpushed,
      hkind, hlinks⟩ := hknown
    exact ⟨_, hresult, rfl, (Action.keepsContents_revert registry hkind).of_ok hrevert, earlier,
      label, action, structural, later, number, pushed, hsteps, hpush, hpushed, hlinks⟩

/-- A form gets its first field, another node is added, and the field is taken
out again. -/
theorem undo_restores_links_of_first_child :
    Tree.empty.WellFormed ∧
    ∃ entry back,
      (run .empty ⟨.empty, .empty⟩
        [.insert ⟨"form", .empty, none, none⟩, .insert ⟨"text", .empty, none, none⟩,
          .push "create" (.attach 1 0) rfl, .insert ⟨"form", .empty, none, none⟩]).log.entries =
        [entry] ∧
      undo .empty (run .empty ⟨.empty, .empty⟩
        [.insert ⟨"form", .empty, none, none⟩, .insert ⟨"text", .empty, none, none⟩,
          .push "create" (.attach 1 0) rfl, .insert ⟨"form", .empty, none, none⟩]) = .ok true back ∧
      back.log.entries = [] := by
  refine ⟨Tree.empty_wellFormed, ⟨"create", 0, .create 1 0 true⟩, ?_⟩
  obtain ⟨back, hundo, hrest, _⟩ := (undo_restores_links .empty Tree.empty_wellFormed
    [.insert ⟨"form", .empty, none, none⟩, .insert ⟨"text", .empty, none, none⟩,
      .push "create" (.attach 1 0) rfl, .insert ⟨"form", .empty, none, none⟩]).2
    ⟨"create", 0, .create 1 0 true⟩ [] rfl
  exact ⟨back, rfl, hundo, hrest⟩

end Journal

end FormDesigner
