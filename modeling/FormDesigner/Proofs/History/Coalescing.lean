import Mathlib.Logic.Relation
import FormDesigner.History.Session
import FormDesigner.Proofs.History.Revert

/-!
Sessions whose edits share an entry.

The edits of the selected node have one entry in the log, which goes away when
the values are back.  However edits, selections and changes of links alternate,
the log leads back to the start.
-/

namespace FormDesigner

open Program

namespace Tree

variable {tree : Tree}

/-- Stores a value under a name, or removes what is stored there. -/
def changeValue (id : NodeId) (tree : Tree) (change : String × Option Datum) : Tree :=
  match change.2 with
  | some datum => finish (store id change.1 datum) tree
  | none => finish (remove id change.1) tree

/-- Changes values of a node, one after another. -/
def changeValues (tree : Tree) (id : NodeId) (changes : List (String × Option Datum)) : Tree :=
  changes.foldl (changeValue id) tree

/-- No node goes away when values are changed. -/
theorem exists_node?_changeValues {id : NodeId} {node : Node} (h : tree.node? id = some node)
    (changes : List (String × Option Datum)) :
    ∃ changed, (tree.changeValues id changes).node? id = some changed := by
  induction changes generalizing tree node with
  | nil => exact ⟨node, h⟩
  | cons change rest ih =>
      have hfirst : ∃ changed, (changeValue id tree change).node? id = some changed := by
        obtain ⟨name, value⟩ := change
        cases value with
        | some datum =>
            simp only [changeValue, finish_store, setValue, node?_mapNode, h]
            exact ⟨_, rfl⟩
        | none =>
            simp only [changeValue, finish_remove, dropValue, node?_mapNode, h]
            exact ⟨_, rfl⟩
      obtain ⟨changed, hchanged⟩ := hfirst
      exact ih hchanged

/-- What changes of the values of a node leave as it was. -/
structure Refilled (id : NodeId) (tree after : Tree) : Prop where
  links : after.links = tree.links
  node : ∀ place node, tree.node? place = some node → ∃ changed,
    after.node? place = some changed ∧ changed.component = node.component ∧
      (place ≠ id → changed.fields = node.fields)

theorem Refilled.refl (id : NodeId) (tree : Tree) : Refilled id tree tree :=
  ⟨rfl, fun _ node hnode => ⟨node, hnode, rfl, fun _ => rfl⟩⟩

theorem Refilled.trans {id : NodeId} {middle after : Tree} (hfirst : Refilled id tree middle)
    (hsecond : Refilled id middle after) : Refilled id tree after where
  links := hsecond.links.trans hfirst.links
  node place node hnode := by
    obtain ⟨between, hbetween, hname, hother⟩ := hfirst.node place node hnode
    obtain ⟨changed, hchanged, hname', hother'⟩ := hsecond.node place between hbetween
    exact ⟨changed, hchanged, hname'.trans hname, fun hne => (hother' hne).trans (hother hne)⟩

theorem refilled_mapNode (tree : Tree) (id : NodeId) (change : Fields Datum → Fields Datum) :
    Refilled id tree (tree.mapNode id fun node => { node with fields := change node.fields }) where
  links := links_mapNode_of_links_eq tree id fun _ => rfl
  node place node hnode := by
    rw [node?_mapNode, hnode]
    by_cases hplace : place = id
    · exact ⟨_, if_pos hplace, rfl, fun hne => absurd hplace hne⟩
    · exact ⟨node, if_neg hplace, rfl, fun _ => rfl⟩

theorem refilled_changeValue (tree : Tree) (id : NodeId) (change : String × Option Datum) :
    Refilled id tree (changeValue id tree change) := by
  obtain ⟨name, value⟩ := change
  cases value with
  | some datum =>
      simp only [changeValue, finish_store]
      exact refilled_mapNode tree id (Fields.put name datum)
  | none =>
      simp only [changeValue, finish_remove]
      exact refilled_mapNode tree id (Fields.drop name)

theorem refilled_changeValues (tree : Tree) (id : NodeId)
    (changes : List (String × Option Datum)) : Refilled id tree (tree.changeValues id changes) := by
  induction changes generalizing tree with
  | nil => exact Refilled.refl id tree
  | cons change rest ih =>
      exact (refilled_changeValue tree id change).trans (ih (changeValue id tree change))

end Tree

namespace Session

variable {session : Session}

theorem onJournal_ok {α : Type} {operation : JournalM α} {value : α} {journal : Journal}
    (h : operation session.toJournal = .ok value journal) :
    onJournal operation session = .ok value { session with toJournal := journal } := by
  simp only [onJournal, h]

theorem onJournal_error {α : Type} {operation : JournalM α} {failure : HistoryError}
    {journal : Journal} (h : operation session.toJournal = .error failure journal) :
    onJournal operation session = .error failure { session with toJournal := journal } := by
  simp only [onJournal, h]

theorem finish_onJournal {α : Type} (operation : JournalM α) (session : Session) :
    finish (onJournal operation) session =
      { session with toJournal := finish operation session.toJournal } := by
  cases hrun : operation session.toJournal with
  | ok value after => rw [finish_of_ok hrun, finish_of_ok (onJournal_ok hrun)]
  | error failure after => rw [finish_of_error hrun, finish_of_error (onJournal_error hrun)]

theorem isModified_ok {registry : Registry} {selection : Selection} {live : Node} {answer : Bool}
    (hlive : session.tree.node? selection.node = some live)
    (hanswer : Editor.differs registry selection.baseline.component selection.baseline.fields
      live.fields = .ok answer) :
    isModified registry selection session = .ok answer session := by
  rw [isModified, bind_ok (get_apply session)]
  simp only [hlive, hanswer]
  rfl

theorem setSelection_apply (selection : Option Selection) (session : Session) :
    setSelection selection session = .ok () { session with selection } := rfl

/-- Without an entry in the log, an edit makes one with the remembered values. -/
theorem objectChanged_unnoted {registry : Registry} {selection : Selection}
    (hselection : session.selection = some selection)
    (hgone : session.pendingEntry selection = none) {after : Tree} {live : Node}
    (hlive : after.node? selection.node = some live) :
    objectChanged registry { session with tree := after } =
      .ok () ⟨⟨after, session.log.add "property change"
        (.modification selection.node selection.baseline)⟩,
        some { selection with pending := some session.log.next }⟩ := by
  have happly : (Action.modification selection.node selection.baseline).apply after =
      .ok (.modification selection.node selection.baseline) after := by
    rw [Action.apply, bind_ok (Action.onTree_ok (Tree.requireNode_ok hlive))]
    rfl
  have hnone : ∀ chosen, pendingEntry ⟨⟨after, session.log⟩, chosen⟩ selection = none := by
    intro chosen
    exact hgone
  rw [objectChanged, bind_ok (get_apply _)]
  simp only [hselection, hnone]
  rw [bind_ok (onJournal_ok (Journal.push_ok happly))]
  rfl

theorem objectChanged_first {registry : Registry} {selection : Selection}
    (hselection : session.selection = some selection)
    (hgone : session.pendingEntry selection = none) {after : Tree} {live : Node}
    (hlive : after.node? selection.node = some live) :
    finish (objectChanged registry) { session with tree := after } =
      ⟨⟨after, session.log.add "property change"
        (.modification selection.node selection.baseline)⟩,
        some { selection with pending := some session.log.next }⟩ :=
  finish_of_ok (objectChanged_unnoted hselection hgone hlive)

/-- With an entry in the log, an edit keeps it, or takes it away if the values are
those that are remembered. -/
theorem objectChanged_noted {registry : Registry} {selection : Selection}
    (hselection : session.selection = some selection) {number : Nat}
    (hkept : session.pendingEntry selection = some number) {after : Tree} {live : Node}
    (hlive : after.node? selection.node = some live) {answer : Bool}
    (hanswer : Editor.differs registry selection.baseline.component selection.baseline.fields
      live.fields = .ok answer) :
    objectChanged registry { session with tree := after } =
      .ok () (if answer then { session with tree := after }
        else
          ⟨⟨after, (session.log.remove number).2⟩, some { selection with pending := none }⟩) := by
  have hsome : ∀ chosen, pendingEntry ⟨⟨after, session.log⟩, chosen⟩ selection = some number := by
    intro chosen
    exact hkept
  rw [objectChanged, bind_ok (get_apply _)]
  simp only [hselection, hsome]
  rw [bind_ok (isModified_ok hlive hanswer)]
  cases answer <;> rfl

theorem objectChanged_later {registry : Registry} {selection : Selection}
    (hselection : session.selection = some selection) {number : Nat}
    (hkept : session.pendingEntry selection = some number) {after : Tree} {live : Node}
    (hlive : after.node? selection.node = some live) {answer : Bool}
    (hanswer : Editor.differs registry selection.baseline.component selection.baseline.fields
      live.fields = .ok answer) :
    finish (objectChanged registry) { session with tree := after } =
      if answer then { session with tree := after }
      else ⟨⟨after, (session.log.remove number).2⟩, some { selection with pending := none }⟩ :=
  finish_of_ok (objectChanged_noted hselection hkept hlive hanswer)

end Session

/-- What may happen in a session between its start and a revert, whether it
succeeds or fails: a selection, changes of the selected node's values that are taken note
of at once, and changes of links. -/
inductive SessionStep (registry : Registry) (session : Session) : Session → Prop where
  | select (node : Option NodeId) :
      SessionStep registry session (finish (Session.select registry node) session)
  | edit {selection : Selection} (hselection : session.selection = some selection)
      (changes : List (String × Option Datum)) :
      SessionStep registry session (finish (Session.objectChanged registry)
        { session with tree := session.tree.changeValues selection.node changes })
  | reparent (node : NodeId) (target : Option NodeId) :
      SessionStep registry session (finish (Session.reparent registry node target) session)
  | created (node parent : NodeId) :
      SessionStep registry session (finish (Session.created registry node parent) session)
  | deleted (node : NodeId) :
      SessionStep registry session (finish (Session.deleted registry node) session)
  | reorderChild (parent : NodeId) (first second : Nat) :
      SessionStep registry session
        (finish (Session.reorderChild registry parent first second) session)

/-- The remembered values of the selected node are those that the node has when the
entries below its own are taken back; its own entry, if there is one, is the
latest. -/
structure Anchored (registry : Registry) (start : Tree) (journal : Journal)
    (selection : Selection) : Prop where
  copy : FaithfulCopy registry start selection.node selection.baseline
  entries : ∃ rest,
    Undoable registry (· = start.links) (fun entry _ => Faithful registry start entry) rest
      journal.tree.links ∧
    (∀ first, start.node? selection.node = some first →
      registry.view first.component (rewound selection.node rest selection.baseline.fields) =
        registry.view first.component first.fields) ∧
    (selection.pending = none ∧ journal.log.entries = rest ∨
      ∃ label number, selection.pending = some number ∧
        journal.log.entries =
          ⟨label, number, .modification selection.node selection.baseline⟩ :: rest)

/-- The log of a session leads back to the start, and the next entry for the
selected node would as well. -/
structure Tracked (registry : Registry) (start : Tree) (session : Session) : Prop where
  reversible : Reversible registry start session.toJournal
  anchored : ∀ selection, session.selection = some selection →
    Anchored registry start session.toJournal selection

section Steps

variable {registry : Registry} {start : Tree} {journal : Journal} {session : Session}

theorem Reversible.push (h : Reversible registry start journal) (label : String) {action : Action}
    (hstructural : action.isStructural = true) :
    (∃ failure, Journal.push label action journal = .error failure journal) ∨
    ∃ applied after, Journal.push label action journal =
        .ok journal.log.next ⟨after, journal.log.add label applied⟩ ∧
      Reversible registry start ⟨after, journal.log.add label applied⟩ := by
  rcases Journal.push_cases registry h.wellFormed label hstructural with
    ⟨failure, hresult⟩ | ⟨applied, after, hresult, hkind, hafter, hcontents, hrewinds⟩
  · exact Or.inl ⟨failure, hresult⟩
  · refine Or.inr ⟨applied, after, hresult, h.of_contents hcontents hafter ?_ fun id fields =>
      rewound_of_structural hkind fields⟩
    refine ⟨journal.tree.links, ?_, hrewinds, fun node baseline haction => ?_, h.undoable⟩
    · rw [Tree.length_links, Tree.length_links, ← Tree.length_contents after, hcontents,
        Tree.length_contents]
    · rw [show applied = _ from haction] at hkind
      cases hkind

/-- A copy of a node as it is may be remembered. -/
theorem Reversible.anchored (h : Reversible registry start journal)
    (hdeclared : start.Declared registry) {id : NodeId} (hid : id < journal.tree.size) :
    ∃ baseline, Editor.copyNode registry journal.tree id = .ok baseline ∧
      Anchored registry start journal ⟨id, baseline, none⟩ := by
  obtain ⟨first, hfirst⟩ := Tree.exists_node?_of_lt (h.size ▸ hid)
  obtain ⟨node, hnode, hname, hview⟩ := h.nodes id first hfirst
  obtain ⟨component, hfind⟩ := hdeclared id first hfirst
  have hcopy := Editor.copyNode_ok hnode (hname.symm ▸ hfind)
  refine ⟨_, hcopy, ⟨first, component, hfirst, hname, hfind⟩,
    journal.log.entries, h.undoable, fun begun hbegun => ?_, Or.inl ⟨rfl, rfl⟩⟩
  cases hbegun.symm.trans hfirst
  rw [← hview]
  exact view_rewound (Editor.view_copy hfind node.fields .empty)

/-- A selection looks at the tree only. -/
theorem Reversible.select (h : Reversible registry start session.toJournal)
    (hdeclared : start.Declared registry) (node : Option NodeId) :
    Tracked registry start (finish (Session.select registry node) session) := by
  have hnone : Tracked registry start { session with selection := none } := ⟨h, nofun⟩
  cases node with
  | none => exact hnone
  | some id =>
      rw [finish, Session.select, bind_ok (Session.setSelection_apply none session),
        bind_ok (get_apply _)]
      by_cases hid : id < session.tree.size
      · obtain ⟨baseline, hcopy, hanchored⟩ := h.anchored hdeclared hid
        simp only [hcopy]
        refine ⟨h, fun selection hselection => ?_⟩
        cases hselection
        exact hanchored
      · simp only [Editor.copyNode_error (Tree.node?_eq_none_of_le (Nat.le_of_not_lt hid))]
        exact hnone

/-- A change of links fails without effect, or has the selected node remembered anew. -/
theorem Reversible.pushStructural (h : Reversible registry start session.toJournal)
    (hdeclared : start.Declared registry)
    (hcopy : ∀ selection, session.selection = some selection →
      FaithfulCopy registry start selection.node selection.baseline)
    {action : Action} (hstructural : action.isStructural = true) :
    finish (Session.pushStructural registry action) session = session ∨
      (∃ applied, (finish (Session.pushStructural registry action) session).log =
        session.log.add action.label applied) ∧
      Tracked registry start (finish (Session.pushStructural registry action) session) := by
  rcases h.push action.label hstructural with
    ⟨failure, hresult⟩ | ⟨applied, after, hresult, hafter⟩
  · exact Or.inl (finish_of_error (bind_error (Session.onJournal_error hresult)))
  · apply Or.inr
    rw [finish, Session.pushStructural, bind_ok (Session.onJournal_ok hresult),
      bind_ok (get_apply _)]
    cases hselection : session.selection with
    | none =>
        refine ⟨⟨applied, rfl⟩, hafter, fun chosen hchosen => ?_⟩
        cases hchosen
    | some selection =>
        obtain ⟨baseline, hbaseline, hanchored⟩ :=
          hafter.anchored hdeclared (hafter.size ▸ (hcopy selection hselection).lt_size)
        simp only []
        rw [bind_ok (Session.setSelection_apply _ _), bind_ok (get_apply _)]
        simp only [hbaseline]
        refine ⟨⟨applied, rfl⟩, hafter, fun chosen hchosen => ?_⟩
        cases hchosen
        exact hanchored

theorem Tracked.pushStructural (h : Tracked registry start session)
    (hdeclared : start.Declared registry) {action : Action}
    (hstructural : action.isStructural = true) :
    Tracked registry start (finish (Session.pushStructural registry action) session) := by
  have hcopy : ∀ selection, session.selection = some selection →
      FaithfulCopy registry start selection.node selection.baseline := by
    intro selection hselection
    exact (h.anchored selection hselection).copy
  rcases h.reversible.pushStructural hdeclared hcopy hstructural with hsame | ⟨_, hnext⟩
  · rw [hsame]
    exact h
  · exact hnext

/-- Values of one node are changed, here and at the start, and the log with them. -/
theorem Reversible.refill (h : Reversible registry start journal) {id : NodeId} {origin : Tree}
    (horigin : Tree.Refilled id start origin) {after : Tree}
    (hrefilled : Tree.Refilled id journal.tree after) {log : Log}
    (hundoable : Undoable registry (· = origin.links)
      (fun entry _ => Faithful registry origin entry) log.entries journal.tree.links)
    (hself : ∀ first node, origin.node? id = some first → after.node? id = some node →
      registry.view first.component (rewound id log.entries node.fields) =
        registry.view first.component first.fields)
    (hothers : ∀ place fields, place ≠ id →
      rewound place log.entries fields = rewound place journal.log.entries fields) :
    Reversible registry origin ⟨after, log⟩ where
  wellFormed := h.wellFormed.of_links_eq hrefilled.links
  size := by
    rw [Tree.size_eq_of_links hrefilled.links, h.size, Tree.size_eq_of_links horigin.links]
  undoable := hrefilled.links.symm ▸ hundoable
  nodes place first hfirst := by
    have hknown : place < start.size :=
      Tree.size_eq_of_links horigin.links ▸ Tree.lt_size_of_node? hfirst
    obtain ⟨begun, hbegun⟩ := Tree.exists_node?_of_lt hknown
    obtain ⟨rebased, hrebased, hsame, hkept⟩ := horigin.node place begun hbegun
    cases hrebased.symm.trans hfirst
    obtain ⟨node, hnode, hname, hview⟩ := h.nodes place begun hbegun
    obtain ⟨changed, hchanged, hname', hother⟩ := hrefilled.node place node hnode
    refine ⟨changed, hchanged, (hname'.trans hname).trans hsame.symm, ?_⟩
    by_cases hplace : place = id
    · subst hplace
      exact hself first changed hfirst hchanged
    · rw [hothers place changed.fields hplace, hother hplace, hkept hplace, hsame, hview]

/-- A remembered copy of a known node makes an entry that leads back. -/
theorem undoable_modification {node : NodeId} {baseline : Blueprint}
    (hcopy : FaithfulCopy registry start node baseline) {links : List Links}
    (hnode : node < links.length) {rest : List Entry}
    (hrest : Undoable registry (· = start.links) (fun entry _ => Faithful registry start entry)
      rest links) (label : String) (number : Nat) :
    Undoable registry (· = start.links) (fun entry _ => Faithful registry start entry)
      (⟨label, number, .modification node baseline⟩ :: rest) links := by
  obtain ⟨first, component, hfirst, hname, hfind⟩ := hcopy
  refine ⟨links, rfl, Action.rewinds_modification (hname ▸ hfind) hnode, ?_, hrest⟩
  intro place copy haction
  cases haction
  exact ⟨first, component, hfirst, hname, hfind⟩

/-- Without an entry of its own, the selected node is taken back by all entries. -/
theorem Anchored.entries_of_none {selection : Selection}
    (h : Anchored registry start journal selection) (hpending : selection.pending = none) :
    Undoable registry (· = start.links) (fun entry _ => Faithful registry start entry)
      journal.log.entries journal.tree.links ∧
    ∀ first, start.node? selection.node = some first →
      registry.view first.component
          (rewound selection.node journal.log.entries selection.baseline.fields) =
        registry.view first.component first.fields := by
  obtain ⟨rest, hundoable, hview, hentries⟩ := h.entries
  rcases hentries with ⟨_, rfl⟩ | ⟨_, _, hsome, _⟩
  · exact ⟨hundoable, hview⟩
  · rw [hpending] at hsome
    cases hsome

/-- The entry of the selected node is the latest, and those below it take the node
back. -/
theorem Anchored.entries_of_some {selection : Selection}
    (h : Anchored registry start journal selection) {number : Nat}
    (hpending : selection.pending = some number) :
    ∃ label rest, journal.log.entries =
        ⟨label, number, .modification selection.node selection.baseline⟩ :: rest ∧
      Undoable registry (· = start.links) (fun entry _ => Faithful registry start entry) rest
        journal.tree.links ∧
      ∀ first, start.node? selection.node = some first →
        registry.view first.component (rewound selection.node rest selection.baseline.fields) =
          registry.view first.component first.fields := by
  obtain ⟨rest, hundoable, hview, hentries⟩ := h.entries
  rcases hentries with ⟨hnone, _⟩ | ⟨label, found, hsome, hentries⟩
  · rw [hpending] at hnone
    cases hnone
  · rw [hpending] at hsome
    cases hsome
    exact ⟨label, rest, hentries, hundoable, hview⟩

/-- Whatever the values of a node are, the latest entry takes them back when it is
the node's own. -/
theorem Reversible.refill_modification (h : Reversible registry start journal) {id : NodeId}
    {origin : Tree} (horigin : Tree.Refilled id start origin) {after : Tree}
    (hrefilled : Tree.Refilled id journal.tree after) {baseline : Blueprint} {rest : List Entry}
    {log : Log} {label : String} {number : Nat}
    (hlatest : log.entries = ⟨label, number, .modification id baseline⟩ :: rest)
    (hundoable : Undoable registry (· = origin.links)
      (fun entry _ => Faithful registry origin entry) log.entries journal.tree.links)
    (hview : ∀ first, origin.node? id = some first →
      registry.view first.component (rewound id rest baseline.fields) =
        registry.view first.component first.fields)
    (hothers : ∀ place fields, place ≠ id →
      rewound place log.entries fields = rewound place journal.log.entries fields) :
    Reversible registry origin ⟨after, log⟩ := by
  refine h.refill horigin hrefilled hundoable (fun first _ hfirst _ => ?_) hothers
  rw [hlatest, rewound_of_modification rfl, if_pos rfl, hview first hfirst]

/-- An edit makes an entry with the remembered values.  If the entries below take
these back to the ones that the node has in `origin`, they all lead back there. -/
theorem Reversible.firstEdit (h : Reversible registry start session.toJournal)
    {selection : Selection} (hselection : session.selection = some selection)
    (hgone : session.pendingEntry selection = none) {origin : Tree}
    (horigin : Tree.Refilled selection.node start origin)
    (hcopy : FaithfulCopy registry origin selection.node selection.baseline)
    (hundoable : Undoable registry (· = origin.links)
      (fun entry _ => Faithful registry origin entry) session.log.entries session.tree.links)
    (hview : ∀ first, origin.node? selection.node = some first →
      registry.view first.component
          (rewound selection.node session.log.entries selection.baseline.fields) =
        registry.view first.component first.fields)
    {after : Tree} (hrefilled : Tree.Refilled selection.node session.tree after) :
    Tracked registry origin
      (finish (Session.objectChanged registry) { session with tree := after }) := by
  have hknown : selection.node < session.tree.size := by
    rw [h.size, ← Tree.size_eq_of_links horigin.links]
    exact hcopy.lt_size
  obtain ⟨node, hnode⟩ := Tree.exists_node?_of_lt hknown
  obtain ⟨live, hlive, _⟩ := hrefilled.node selection.node node hnode
  have hreversible : Reversible registry origin ⟨after, session.log.add "property change"
      (.modification selection.node selection.baseline)⟩ := by
    refine h.refill_modification horigin hrefilled rfl
      (undoable_modification hcopy (Tree.length_links _ ▸ hknown) hundoable _ _) hview
      fun _ _ hplace => ?_
    rw [Log.add, rewound_of_modification rfl, if_neg (Ne.symm hplace)]
  rw [Session.objectChanged_first hselection hgone hlive]
  refine ⟨hreversible, fun chosen hchosen => ?_⟩
  cases hchosen
  exact ⟨hcopy, session.log.entries, hrefilled.links.symm ▸ hundoable, hview,
    Or.inr ⟨_, _, rfl, rfl⟩⟩

/-- The first edit since the selection makes an entry. -/
theorem Tracked.firstEdit (h : Tracked registry start session) {selection : Selection}
    (hselection : session.selection = some selection) (hpending : selection.pending = none)
    {after : Tree} (hrefilled : Tree.Refilled selection.node session.tree after) :
    Tracked registry start
      (finish (Session.objectChanged registry) { session with tree := after }) := by
  have hanchored := h.anchored selection hselection
  obtain ⟨hundoable, hview⟩ := hanchored.entries_of_none hpending
  have hgone : session.pendingEntry selection = none := by
    rw [Session.pendingEntry, hpending]
    rfl
  exact h.reversible.firstEdit hselection hgone (.refl _ start) hanchored.copy hundoable hview
    hrefilled

/-- A later edit shares the entry, and takes it away if the values are back. -/
theorem Tracked.laterEdit (h : Tracked registry start session) {selection : Selection}
    (hselection : session.selection = some selection) {number : Nat}
    (hpending : selection.pending = some number) {after : Tree}
    (hrefilled : Tree.Refilled selection.node session.tree after) :
    Tracked registry start
      (finish (Session.objectChanged registry) { session with tree := after }) := by
  have hanchored := h.anchored selection hselection
  obtain ⟨first, component, hfirst, hname, hfind⟩ := hanchored.copy
  obtain ⟨label, rest, hlatest, hundoable, hview⟩ := hanchored.entries_of_some hpending
  obtain ⟨node, hnode, _⟩ := h.reversible.nodes selection.node first hfirst
  obtain ⟨live, hlive, _⟩ := hrefilled.node selection.node node hnode
  have hkept : session.pendingEntry selection = some number := by
    simp [Session.pendingEntry, hpending, Log.contains, hlatest]
  obtain ⟨answer, hanswer⟩ := Editor.differs_ok (hname.symm ▸ hfind) selection.baseline.fields
    live.fields
  rw [Session.objectChanged_later hselection hkept hlive hanswer]
  cases answer with
  | true =>
      refine ⟨h.reversible.refill_modification (.refl _ start) hrefilled hlatest
        h.reversible.undoable hview fun _ _ _ => rfl, fun chosen hchosen => ?_⟩
      cases hselection.symm.trans hchosen
      exact ⟨hanchored.copy, rest, hrefilled.links.symm ▸ hundoable, hview,
        Or.inr ⟨label, number, hpending, hlatest⟩⟩
  | false =>
      have hremove : (session.log.remove number).2.entries = rest := by
        simp [Log.remove, hlatest]
      refine ⟨?_, fun chosen hchosen => ?_⟩
      · refine h.reversible.refill (.refl _ start) hrefilled (hremove.symm ▸ hundoable)
          (fun begun changed hbegun hchanged => ?_) fun place fields hplace => ?_
        · cases hbegun.symm.trans hfirst
          cases hchanged.symm.trans hlive
          -- The entry is gone, but the values only count as those it remembered.
          have hsame := (Editor.differs_eq_false_iff (hname.symm ▸ hfind) _ _).1 hanswer
          rw [hname] at hsame
          rw [hremove, ← hview first hfirst]
          exact view_rewound hsame.symm
        · rw [hremove, hlatest, rewound_of_modification rfl, if_neg (Ne.symm hplace)]
      · cases hchosen
        exact ⟨hanchored.copy, rest, hrefilled.links.symm ▸ hundoable, hview,
          Or.inl ⟨rfl, hremove⟩⟩

/-- One step of a session. -/
theorem Tracked.step (h : Tracked registry start session)
    (hdeclared : start.Declared registry) {next : Session}
    (hstep : SessionStep registry session next) : Tracked registry start next := by
  cases hstep with
  | select node => exact h.reversible.select hdeclared node
  | @edit selection hselection changes =>
      have hrefilled := Tree.refilled_changeValues session.tree selection.node changes
      cases hpending : selection.pending with
      | none => exact h.firstEdit hselection hpending hrefilled
      | some number => exact h.laterEdit hselection hpending hrefilled
  | reparent node target => exact h.pushStructural hdeclared rfl
  | created node parent => exact h.pushStructural hdeclared rfl
  | deleted node => exact h.pushStructural hdeclared rfl
  | reorderChild parent first second => exact h.pushStructural hdeclared rfl

theorem tracked_start (hstart : start.WellFormed) :
    Tracked registry start (Session.start start) where
  reversible := ⟨hstart, rfl, rfl, fun _ first hfirst => ⟨first, hfirst, rfl, rfl⟩⟩
  anchored := nofun

end Steps

/-- However edits, selections and changes of links alternate: a revert at the end
takes every entry back, and then all links are those of the start, and no node differs from
what it was at the start. -/
theorem Session.revert_restores_start {registry : Registry} {tree : Tree}
    (htree : tree.WellFormed) (hdeclared : tree.Declared registry) {session : Session}
    (hrun : Relation.ReflTransGen (SessionStep registry) (Session.start tree) session) :
    ∃ back, Session.revert registry session = .ok session.log.entries.length back ∧
      back.log.entries = [] ∧ back.tree.links = tree.links ∧
      ∀ id first node, tree.node? id = some first → back.tree.node? id = some node →
        Editor.differs registry first.component first.fields node.fields = .ok false ∧
        Editor.differs registry node.component node.fields first.fields = .ok false := by
  have htracked : Tracked registry tree session := by
    induction hrun with
    | refl => exact tracked_start htree
    | tail _ hstep ih => exact ih.step hdeclared hstep
  obtain ⟨back, hrevert, hempty, hback⟩ := htracked.reversible.revert
  refine ⟨_, onJournal_ok hrevert, hempty, hback.links_of_empty hempty,
    fun id first node hfirst hnode => ?_⟩
  obtain ⟨found, hfound, hname, hview⟩ := hback.nodes id first hfirst
  cases hfound.symm.trans hnode
  obtain ⟨component, hfind⟩ := hdeclared id first hfirst
  rw [hempty] at hview
  refine ⟨?_, ?_⟩
  · exact (Editor.differs_eq_false_iff hfind _ _).2 hview.symm
  · rw [hname]
    exact (Editor.differs_eq_false_iff hfind _ _).2 hview

/-- The label of a node is edited, and the edit is reverted. -/
theorem Session.revert_restores_start_of_label :
    Tree.labels.WellFormed ∧ Tree.labels.Declared Registry.labels ∧
    ∃ session, Relation.ReflTransGen (SessionStep Registry.labels) (Session.start Tree.labels)
        session ∧
      session.log.entries.length = 1 ∧
      ∃ back, Session.revert Registry.labels session = .ok session.log.entries.length back ∧
        back.log.entries = [] ∧ back.tree.links = Tree.labels.links := by
  have htree : Tree.labels.WellFormed := Tree.empty_wellFormed.plant _
  have hselect : SessionStep Registry.labels (Session.start Tree.labels)
      (finish (Session.select Registry.labels (some 0)) (Session.start Tree.labels)) :=
    .select (some 0)
  have hselection : (finish (Session.select Registry.labels (some 0))
      (Session.start Tree.labels)).selection = some ⟨0, ⟨"text", .empty, none⟩, none⟩ := rfl
  have hedit : SessionStep Registry.labels _ _ :=
    .edit hselection [("label", some (.string "name"))]
  have hrun := (Relation.ReflTransGen.single hselect).tail hedit
  obtain ⟨back, hrevert, hempty, hlinks, _⟩ :=
    Session.revert_restores_start htree Tree.labels_declared hrun
  exact ⟨htree, Tree.labels_declared, _, hrun, rfl, back, hrevert, hempty, hlinks⟩

end FormDesigner
