import FormDesigner.Proofs.History.Coalescing

/-!
Whether the remembered values of the selected node are still its own.

To select a node or to change links is to remember the values that the node has.
When the log is cleared or an entry is undone, they may become other ones, and
the next entry leads back to those that are remembered.
-/

namespace FormDesigner

open Program

/-- One tree has the links of another one, and no node differs from what it is there. -/
structure Tree.SameAs (registry : Registry) (start now : Tree) : Prop where
  links : now.links = start.links
  values : ∀ id first node, start.node? id = some first → now.node? id = some node →
    Editor.differs registry first.component first.fields node.fields = .ok false ∧
    Editor.differs registry node.component node.fields first.fields = .ok false

namespace Log

variable {log : Log}

/-- The numbers of the entries ascend, and that of the next one is above them. -/
def Numbered (log : Log) : Prop :=
  (log.next :: log.entries.map Entry.number).Pairwise (· > ·)

theorem numbered_empty : Numbered empty :=
  List.pairwise_singleton _ _

theorem Numbered.add (h : log.Numbered) (label : String) (action : Action) :
    (log.add label action).Numbered := by
  rw [Numbered, Log.add, List.map_cons, List.pairwise_cons]
  refine ⟨?_, h⟩
  intro number hmem
  rcases List.mem_cons.1 hmem with hlatest | hearlier
  · rw [hlatest]
    exact Nat.lt_succ_self log.next
  · have hbelow : log.next > number := List.rel_of_pairwise_cons h hearlier
    exact Nat.lt_succ_of_lt hbelow

theorem Numbered.of_sublist (h : log.Numbered) {entries : List Entry}
    (hentries : entries.Sublist log.entries) : Numbered { log with entries } := by
  apply List.Pairwise.sublist _ h
  exact (hentries.map Entry.number).cons_cons log.next

theorem Numbered.remove (h : log.Numbered) (number : Nat) : (log.remove number).2.Numbered :=
  h.of_sublist List.eraseP_sublist

/-- The number of the latest entry is not given out twice. -/
theorem Numbered.not_contains (h : log.Numbered) {entry : Entry} {rest : List Entry}
    (hentries : log.entries = entry :: rest) :
    contains { log with entries := rest } entry.number = false := by
  rw [Numbered, hentries, List.map_cons, List.pairwise_cons, List.pairwise_cons] at h
  rw [contains, List.any_eq_false]
  intro other hmem heq
  have hbelow : entry.number > other.number := h.2.1 other.number (List.mem_map_of_mem hmem)
  exact Nat.lt_irrefl _ ((of_decide_eq_true heq) ▸ hbelow)

end Log

namespace Session

variable {registry : Registry} {session : Session}

/-- The selected node has the values that are remembered. -/
def Current (registry : Registry) (session : Session) : Prop :=
  ∀ selection live, session.selection = some selection →
    session.tree.node? selection.node = some live →
    Editor.differs registry selection.baseline.component selection.baseline.fields live.fields =
      .ok false

/-- If the next edit makes an entry, then with the values that the node has. -/
def Fresh (registry : Registry) (session : Session) : Prop :=
  (∀ selection, session.selection = some selection → session.pendingEntry selection = none) →
    session.Current registry

/-- The session without the mark of an entry that is gone. -/
def settled (session : Session) : Session :=
  { session with
    selection := session.selection.map fun selection =>
      { selection with pending := session.pendingEntry selection } }

theorem settled_of_none (h : session.selection = none) : session.settled = session := by
  obtain ⟨journal, selection⟩ := session
  cases h
  rfl

theorem settled_of_some {selection : Selection} (h : session.selection = some selection) :
    session.settled =
      ⟨session.toJournal, some { selection with pending := session.pendingEntry selection }⟩ := by
  obtain ⟨journal, chosen⟩ := session
  cases h
  rfl

/-- A mark that is not gone is kept. -/
theorem settled_of_kept
    (h : ∀ selection, session.selection = some selection →
      session.pendingEntry selection = selection.pending) : session.settled = session := by
  cases hselection : session.selection with
  | none => exact settled_of_none hselection
  | some selection =>
      rw [settled_of_some hselection, h selection hselection]
      exact congrArg (Session.mk session.toJournal) hselection.symm

theorem pendingEntry_eq {selection : Selection} {number : Nat}
    (h : session.pendingEntry selection = some number) : selection.pending = some number :=
  (Option.filter_eq_some_iff.1 h).1

theorem pendingEntry_of_empty (h : session.log.entries = []) (selection : Selection) :
    session.pendingEntry selection = none := by
  rw [pendingEntry, Option.filter_eq_none_iff]
  intro number _
  rw [Log.contains, h]
  exact Bool.false_ne_true

/-- An edit does not look at marks of entries that are gone. -/
theorem objectChanged_settled {selection : Selection}
    (hselection : session.selection = some selection) {after : Tree} {live : Node}
    (hlive : after.node? selection.node = some live) :
    finish (objectChanged registry) { session.settled with tree := after } =
      finish (objectChanged registry) { session with tree := after } := by
  cases hgone : session.pendingEntry selection with
  | none =>
      have hsettled : session.settled.selection = some { selection with pending := none } := by
        rw [settled_of_some hselection, hgone]
      rw [objectChanged_first hselection hgone hlive]
      exact objectChanged_first hsettled rfl hlive
  | some number =>
      have hsame : session.settled = session := by
        apply settled_of_kept
        intro chosen hchosen
        cases hselection.symm.trans hchosen
        rw [hgone, pendingEntry_eq hgone]
      rw [hsame]

/-- An edit adds an entry, takes one away or leaves the log as it is. -/
theorem numbered_objectChanged (h : session.log.Numbered) {selection : Selection}
    (hselection : session.selection = some selection) {after : Tree} {live : Node}
    (hlive : after.node? selection.node = some live) {component : Component}
    (hfind : registry.find? selection.baseline.component = some component) :
    (finish (objectChanged registry) { session with tree := after }).log.Numbered := by
  cases hgone : session.pendingEntry selection with
  | none =>
      rw [objectChanged_first hselection hgone hlive]
      exact h.add _ _
  | some number =>
      obtain ⟨answer, hanswer⟩ := Editor.differs_ok hfind selection.baseline.fields live.fields
      rw [objectChanged_later hselection hgone hlive hanswer]
      cases answer with
      | true => exact h
      | false => exact h.remove number

theorem toJournal_select (registry : Registry) (node : Option NodeId) (session : Session) :
    (finish (select registry node) session).toJournal = session.toJournal := by
  cases node with
  | none => rfl
  | some id =>
      rw [finish, select, bind_ok (setSelection_apply none session), bind_ok (get_apply _)]
      cases hcopy : Editor.copyNode registry session.tree id with
      | ok baseline => rfl
      | error failure => rfl

/-- What a selection remembers is a copy of the node. -/
theorem copyNode_of_select {node : Option NodeId} {selection : Selection}
    (h : (finish (select registry node) session).selection = some selection) :
    Editor.copyNode registry session.tree selection.node = .ok selection.baseline := by
  cases node with
  | none => cases h
  | some id =>
      rw [finish, select, bind_ok (setSelection_apply none session), bind_ok (get_apply _)] at h
      cases hcopy : Editor.copyNode registry session.tree id with
      | ok baseline =>
          simp only [hcopy] at h
          cases h
          exact hcopy
      | error failure =>
          simp only [hcopy] at h
          cases h

/-- After a selection the values are those of the node. -/
theorem fresh_select (registry : Registry) (session : Session) (node : Option NodeId) :
    (finish (select registry node) session).Fresh registry := by
  intro _ selection live hselection hlive
  obtain ⟨found, component, hfound, hfind, hbaseline⟩ :=
    Editor.of_copyNode_ok (copyNode_of_select hselection)
  rw [toJournal_select, hfound] at hlive
  cases hlive
  rw [hbaseline]
  exact (Editor.differs_eq_false_iff hfind _ _).2 (Editor.view_copy hfind live.fields .empty)

end Session

section Nodes

variable {registry : Registry} {start other : Tree} {journal : Journal} {id : NodeId}

/-- A node may be given any values. -/
theorem Tree.exists_refilled (tree : Tree) (id : NodeId) (fields : Fields Datum) :
    ∃ other, Tree.Refilled id tree other ∧
      ∀ node, other.node? id = some node → node.fields = fields := by
  refine ⟨_, Tree.refilled_mapNode tree id fun _ => fields, ?_⟩
  intro node hnode
  rw [Tree.node?_mapNode, if_pos rfl] at hnode
  obtain ⟨_, _, rfl⟩ := Option.map_eq_some_iff.1 hnode
  rfl

theorem Tree.Declared.refilled (h : start.Declared registry)
    (hrefilled : Tree.Refilled id start other) : other.Declared registry := by
  intro place node hnode
  have hknown : place < start.size :=
    Tree.size_eq_of_links hrefilled.links ▸ Tree.lt_size_of_node? hnode
  obtain ⟨first, hfirst⟩ := Tree.exists_node?_of_lt hknown
  obtain ⟨changed, hchanged, hname, _⟩ := hrefilled.node place first hfirst
  cases hchanged.symm.trans hnode
  rw [hname]
  exact h place first hfirst

theorem FaithfulCopy.refilled {node : NodeId} {copy : Blueprint}
    (h : FaithfulCopy registry start node copy) (hrefilled : Tree.Refilled id start other) :
    FaithfulCopy registry other node copy := by
  obtain ⟨first, component, hfirst, hname, hfind⟩ := h
  obtain ⟨changed, hchanged, hsame, _⟩ := hrefilled.node node first hfirst
  exact ⟨changed, component, hchanged, hname.trans hsame.symm, hsame.symm ▸ hfind⟩

/-- Entries that lead back to the start's links do so for every start with these. -/
theorem Undoable.refilled {entries : List Entry} {links : List Links}
    (h : Undoable registry (· = start.links) (fun entry _ => Faithful registry start entry)
      entries links) (hrefilled : Tree.Refilled id start other) :
    Undoable registry (· = other.links) (fun entry _ => Faithful registry other entry)
      entries links := by
  apply h.mono
  · intro found hfound
    exact hfound.trans hrefilled.links.symm
  · intro entry _ hentry node baseline haction
    exact (hentry node baseline haction).refilled hrefilled

namespace Reversible

/-- Every node was there at the start. -/
theorem exists_first (h : Reversible registry start journal) {node : Node}
    (hnode : journal.tree.node? id = some node) :
    ∃ first, start.node? id = some first ∧ node.component = first.component := by
  obtain ⟨first, hfirst⟩ := Tree.exists_node?_of_lt (h.size ▸ Tree.lt_size_of_node? hnode)
  obtain ⟨found, hfound, hname, _⟩ := h.nodes id first hfirst
  cases hfound.symm.trans hnode
  exact ⟨first, hfirst, hname⟩

/-- A node of the start is still there after an edit. -/
theorem exists_live (h : Reversible registry start journal) {copy : Blueprint}
    (hcopy : FaithfulCopy registry start id copy) {after : Tree}
    (hrefilled : Tree.Refilled id journal.tree after) :
    ∃ live, after.node? id = some live := by
  apply Tree.exists_node?_of_lt
  rw [Tree.size_eq_of_links hrefilled.links, h.size]
  exact hcopy.lt_size

theorem declared (h : Reversible registry start journal) (hdeclared : start.Declared registry) :
    journal.tree.Declared registry := by
  intro place node hnode
  obtain ⟨first, hfirst, hname⟩ := h.exists_first hnode
  rw [hname]
  exact hdeclared place first hfirst

/-- A tree with a log without entries may be taken for the start. -/
theorem of_empty (h : Reversible registry start journal) {log : Log} (hempty : log.entries = []) :
    Reversible registry journal.tree ⟨journal.tree, log⟩ where
  wellFormed := h.wellFormed
  size := rfl
  undoable := by
    rw [hempty]
    rfl
  nodes _ first hfirst := ⟨first, hfirst, rfl, by rw [hempty]; rfl⟩

/-- A journal without entries that leads back to the start is the same as the
start. -/
theorem sameAs (h : Reversible registry start journal) (hdeclared : start.Declared registry)
    (hempty : journal.log.entries = []) : start.SameAs registry journal.tree := by
  refine ⟨h.links_of_empty hempty, ?_⟩
  intro place first node hfirst hnode
  obtain ⟨found, hfound, hname, hview⟩ := h.nodes place first hfirst
  cases hfound.symm.trans hnode
  obtain ⟨component, hfind⟩ := hdeclared place first hfirst
  rw [hempty] at hview
  constructor
  · exact (Editor.differs_eq_false_iff hfind _ _).2 hview.symm
  · rw [hname]
    exact (Editor.differs_eq_false_iff hfind _ _).2 hview

/-- Reverting a session leads back to the start. -/
theorem revert_session {session : Session} (h : Reversible registry start session.toJournal) :
    ∃ back, Session.revert registry session = .ok session.log.entries.length back ∧
      back.log.entries = [] ∧ Reversible registry start back.toJournal := by
  obtain ⟨back, hrevert, hempty, hback⟩ := h.revert
  exact ⟨{ session with toJournal := back }, Session.onJournal_ok hrevert, hempty, hback⟩

end Reversible

end Nodes

/-- The log of a session leads back to the start; if the selected node's entry is
still there, the next edit may share it. -/
structure Retraceable (registry : Registry) (start : Tree) (session : Session) : Prop where
  reversible : Reversible registry start session.toJournal
  numbered : session.log.Numbered
  copy : ∀ selection, session.selection = some selection →
    FaithfulCopy registry start selection.node selection.baseline
  pending : ∀ selection, session.selection = some selection →
    session.pendingEntry selection ≠ none → Anchored registry start session.toJournal selection

section Sessions

variable {registry : Registry} {start : Tree} {session : Session}

theorem Tracked.settled_eq (h : Tracked registry start session) : session.settled = session := by
  apply Session.settled_of_kept
  intro selection hselection
  have hanchored := h.anchored selection hselection
  cases hpending : selection.pending with
  | none =>
      rw [Session.pendingEntry, hpending]
      rfl
  | some number =>
      obtain ⟨label, rest, hlatest, _⟩ := hanchored.entries_of_some hpending
      simp [Session.pendingEntry, hpending, Log.contains, hlatest]

/-- An edit of a session that is as it should be, but for marks of entries that are
gone. -/
theorem Tracked.edit_of_settled (h : Tracked registry start session.settled)
    {selection : Selection} (hselection : session.selection = some selection) {after : Tree}
    (hrefilled : Tree.Refilled selection.node session.tree after) :
    Tracked registry start
      (finish (Session.objectChanged registry) { session with tree := after }) := by
  have hsettled : session.settled.selection =
      some { selection with pending := session.pendingEntry selection } := by
    rw [Session.settled_of_some hselection]
  have hcopy : FaithfulCopy registry start selection.node selection.baseline :=
    (h.anchored _ hsettled).copy
  obtain ⟨live, hlive⟩ := h.reversible.exists_live hcopy hrefilled
  rw [← Session.objectChanged_settled hselection hlive]
  cases hpending : session.pendingEntry selection with
  | none => exact h.firstEdit hsettled hpending hrefilled
  | some number => exact h.laterEdit hsettled hpending hrefilled

theorem Tracked.retraceable (h : Tracked registry start session)
    (hnumbered : session.log.Numbered) : Retraceable registry start session where
  reversible := h.reversible
  numbered := hnumbered
  copy selection hselection := (h.anchored selection hselection).copy
  pending selection hselection _ := h.anchored selection hselection

namespace Retraceable

/-- Values that are still those of the node are led back like them. -/
theorem anchored_of_current (h : Retraceable registry start session)
    (hcurrent : session.Current registry) {selection : Selection}
    (hselection : session.selection = some selection) :
    Anchored registry start session.toJournal { selection with pending := none } := by
  have hcopy := h.copy selection hselection
  refine ⟨hcopy, session.log.entries, h.reversible.undoable, ?_, Or.inl ⟨rfl, rfl⟩⟩
  obtain ⟨first, component, hfirst, hname, hfind⟩ := hcopy
  intro begun hbegun
  cases hbegun.symm.trans hfirst
  obtain ⟨live, hlive, _, hview⟩ := h.reversible.nodes selection.node first hfirst
  have hsame := (Editor.differs_eq_false_iff (hname.symm ▸ hfind) _ _).1
    (hcurrent selection live hselection hlive)
  rw [hname] at hsame
  rw [← hview]
  exact view_rewound hsame

/-- In a fresh session the next edit leads back to the start as well. -/
theorem tracked (h : Retraceable registry start session) (hfresh : session.Fresh registry) :
    Tracked registry start session.settled := by
  cases hselection : session.selection with
  | none =>
      rw [Session.settled_of_none hselection]
      refine ⟨h.reversible, ?_⟩
      intro chosen hchosen
      rw [hselection] at hchosen
      cases hchosen
  | some selection =>
      rw [Session.settled_of_some hselection]
      refine ⟨h.reversible, ?_⟩
      intro chosen hchosen
      cases hchosen
      cases hgone : session.pendingEntry selection with
      | some number =>
          rw [← Session.pendingEntry_eq hgone]
          exact h.pending selection hselection (hgone ▸ Option.some_ne_none number)
      | none =>
          apply h.anchored_of_current _ hselection
          apply hfresh
          intro other hother
          cases hselection.symm.trans hother
          exact hgone

theorem select (h : Retraceable registry start session) (hdeclared : start.Declared registry)
    (node : Option NodeId) :
    Retraceable registry start (finish (Session.select registry node) session) := by
  apply (h.reversible.select hdeclared node).retraceable
  rw [Session.toJournal_select]
  exact h.numbered

theorem pushStructural (h : Retraceable registry start session)
    (hdeclared : start.Declared registry) {action : Action}
    (hstructural : action.isStructural = true) :
    Retraceable registry start (finish (Session.pushStructural registry action) session) := by
  rcases h.reversible.pushStructural hdeclared h.copy hstructural with
    hsame | ⟨⟨applied, hlog⟩, hnext⟩
  · rw [hsame]
    exact h
  · apply hnext.retraceable
    rw [hlog]
    exact h.numbered.add _ _

/-- When the latest entry is taken away, none of the rest is that of the selected
node's edits. -/
theorem pendingEntry_below (h : Retraceable registry start session) {entry : Entry}
    {rest : List Entry} (hentries : session.log.entries = entry :: rest) {selection : Selection}
    (hselection : session.selection = some selection) (back : Tree) :
    Session.pendingEntry ⟨⟨back, { session.log with entries := rest }⟩, session.selection⟩
      selection = none := by
  rw [Session.pendingEntry, Option.filter_eq_none_iff]
  intro number hpending hrest
  have hthere : session.log.contains number = true := by
    rw [Log.contains, hentries, List.any_cons]
    exact (Bool.or_eq_true _ _).mpr (Or.inr hrest)
  have hbefore : session.pendingEntry selection ≠ none := by
    rw [Session.pendingEntry, hpending, Option.filter_some_pos hthere]
    exact Option.some_ne_none number
  -- An entry of the node's edits was the latest one, whose number is gone.
  obtain ⟨label, below, hlatest, _⟩ :=
    (h.pending selection hselection hbefore).entries_of_some hpending
  cases hentries.symm.trans hlatest
  exact Bool.eq_false_iff.1 (h.numbered.not_contains hentries) hrest

theorem undo (h : Retraceable registry start session) :
    Retraceable registry start (finish (Session.undo registry) session) := by
  cases hentries : session.log.entries with
  | nil =>
      rw [Session.undo, finish_of_ok (Session.onJournal_ok (Journal.undo_empty hentries))]
      exact h
  | cons entry rest =>
      obtain ⟨tree, _, hresult, _⟩ :=
        Journal.undo_latest h.reversible.wellFormed hentries h.reversible.undoable
      obtain ⟨back, hundo, _, hback⟩ := h.reversible.undo hentries
      cases hresult.symm.trans hundo
      rw [Session.undo, finish_of_ok (Session.onJournal_ok hresult)]
      have hsublist : rest.Sublist session.log.entries := by
        rw [hentries]
        exact List.sublist_cons_self entry rest
      refine ⟨hback, h.numbered.of_sublist hsublist, h.copy, ?_⟩
      intro selection hselection hkept
      exact absurd (h.pendingEntry_below hentries hselection tree) hkept

theorem numbered_edit (h : Retraceable registry start session) {selection : Selection}
    (hselection : session.selection = some selection) {after : Tree}
    (hrefilled : Tree.Refilled selection.node session.tree after) :
    (finish (Session.objectChanged registry) { session with tree := after }).log.Numbered := by
  have hcopy := h.copy selection hselection
  obtain ⟨live, hlive⟩ := h.reversible.exists_live hcopy hrefilled
  obtain ⟨first, component, _, hname, hfind⟩ := hcopy
  exact Session.numbered_objectChanged h.numbered hselection hlive (hname.symm ▸ hfind)

/-- An edit that shares an entry, or makes one with the values that the node has. -/
theorem edit (h : Retraceable registry start session) (hfresh : session.Fresh registry)
    {selection : Selection}
    (hselection : session.selection = some selection) {after : Tree}
    (hrefilled : Tree.Refilled selection.node session.tree after) :
    Retraceable registry start
      (finish (Session.objectChanged registry) { session with tree := after }) := by
  apply Tracked.retraceable
  · exact (h.tracked hfresh).edit_of_settled hselection hrefilled
  · exact h.numbered_edit hselection hrefilled

/-- An edit that makes an entry with values that the node may no longer have: the
entries lead back to a start where the node has those that it comes back to from them. -/
theorem staleEdit (h : Retraceable registry start session) {selection : Selection}
    (hselection : session.selection = some selection)
    (hgone : session.pendingEntry selection = none) {after : Tree}
    (hrefilled : Tree.Refilled selection.node session.tree after) :
    ∃ origin, Tree.Refilled selection.node start origin ∧
      (∀ first, origin.node? selection.node = some first →
        first.fields = rewound selection.node session.log.entries selection.baseline.fields) ∧
      Retraceable registry origin
        (finish (Session.objectChanged registry) { session with tree := after }) := by
  have hcopy := h.copy selection hselection
  obtain ⟨origin, horigin, hfields⟩ := start.exists_refilled selection.node
    (rewound selection.node session.log.entries selection.baseline.fields)
  have hundoable := h.reversible.undoable.refilled horigin
  refine ⟨origin, horigin, hfields, ?_⟩
  apply Tracked.retraceable
  · apply h.reversible.firstEdit hselection hgone horigin (hcopy.refilled horigin) hundoable _
      hrefilled
    intro first hfirst
    rw [hfields first hfirst]
  · exact h.numbered_edit hselection hrefilled

end Retraceable

end Sessions

namespace Tree

theorem labels_wellFormed : labels.WellFormed := empty_wellFormed.plant _

/-- To give a node a label. -/
def labelled (text : String) : List (String × Option Datum) := [("label", some (.string text))]

end Tree

end FormDesigner
