import FormDesigner.Proofs.Editor.View
import FormDesigner.Proofs.History.Undo

/-!
Reverting a whole log leads back to the start.

The links come back exactly.  The values of a node come back to the remembered
ones of the oldest entry about them, as far as its component declares them.
-/

namespace FormDesigner

open Program

/-- The values that a node comes back to when all entries are taken back. -/
def rewound (id : NodeId) : List Entry → Fields Datum → Fields Datum
  | [], fields => fields
  | entry :: rest, fields =>
      match entry.action with
      | .modification node baseline =>
          if node = id then rewound id rest baseline.fields else rewound id rest fields
      | _ => rewound id rest fields

section Rewound

variable {registry : Registry} {id : NodeId} {entry : Entry} {rest : List Entry}

theorem rewound_of_structural (h : entry.action.isStructural = true) (fields : Fields Datum) :
    rewound id (entry :: rest) fields = rewound id rest fields := by
  rw [rewound]
  split
  · next heq =>
      rw [heq] at h
      cases h
  · rfl

theorem rewound_of_modification {node : NodeId} {baseline : Blueprint}
    (h : entry.action = .modification node baseline) (fields : Fields Datum) :
    rewound id (entry :: rest) fields =
      if node = id then rewound id rest baseline.fields else rewound id rest fields := by
  simp only [rewound, h]

/-- Values with one view come back to values with one view. -/
theorem view_rewound {component : String} {entries : List Entry} {left right : Fields Datum}
    (h : registry.view component left = registry.view component right) :
    registry.view component (rewound id entries left) =
      registry.view component (rewound id entries right) := by
  induction entries generalizing left right with
  | nil => exact h
  | cons entry rest ih =>
      cases haction : entry.action with
      | modification node baseline =>
          rw [rewound_of_modification haction, rewound_of_modification haction]
          split
          · rfl
          · exact ih h
      | _ =>
          rw [rewound_of_structural (by rw [haction]; rfl),
            rewound_of_structural (by rw [haction]; rfl)]
          exact ih h

end Rewound

namespace Action

variable {registry : Registry} {tree : Tree}

/-- To take a modification back is to copy the remembered values. -/
theorem revert_modification {node : NodeId} {baseline : Blueprint} {component : Component}
    {live : Node} (hfind : registry.find? baseline.component = some component)
    (hlive : tree.node? node = some live) :
    (Action.modification node baseline).revert registry tree =
      .ok () (tree.mapNode node fun found =>
        { found with
          fields := component.visibleProperties.foldl (Editor.copyProperty baseline.fields)
            live.fields }) := by
  rw [revert, restoreValues, bind_ok (onTree_ok (Tree.requireNode_ok hlive)),
    Editor.copyProperties_ok hfind]
  exact onTree_ok (Tree.update_ok (Tree.lt_size_of_node? hlive) _)

theorem rewinds_modification {node : NodeId} {baseline : Blueprint} {component : Component}
    {links : List Links} (hfind : registry.find? baseline.component = some component)
    (hnode : node < links.length) :
    Rewinds ((Action.modification node baseline).revert registry) links links := by
  intro tree added htree hlinks
  have hknown : node < tree.size := by
    rw [← Tree.length_links, hlinks, List.length_append]
    exact Nat.lt_of_lt_of_le hnode (Nat.le_add_right _ _)
  obtain ⟨live, hlive⟩ := Tree.exists_node?_of_lt hknown
  refine ⟨_, _, revert_modification hfind hlive, ?_, ?_⟩
  · exact htree.refill node fun _ =>
      component.visibleProperties.foldl (Editor.copyProperty baseline.fields) live.fields
  · rw [Tree.links_mapNode_of_links_eq tree node, hlinks]
    exact fun _ => rfl

end Action

/-- The copy could be one of the node as it was at the start. -/
def FaithfulCopy (registry : Registry) (start : Tree) (node : NodeId) (copy : Blueprint) : Prop :=
  ∃ first component, start.node? node = some first ∧ copy.component = first.component ∧
    registry.find? first.component = some component

theorem FaithfulCopy.lt_size {registry : Registry} {start : Tree} {node : NodeId} {copy : Blueprint}
    (h : FaithfulCopy registry start node copy) : node < start.size := by
  obtain ⟨first, _, hfirst, _⟩ := h
  exact Tree.lt_size_of_node? hfirst

/-- An entry about the values of a node remembers a copy of that node. -/
def Faithful (registry : Registry) (start : Tree) (entry : Entry) : Prop :=
  ∀ node baseline, entry.action = .modification node baseline →
    FaithfulCopy registry start node baseline

/-- The entries of a journal lead back to the start. -/
structure Reversible (registry : Registry) (start : Tree) (journal : Journal) : Prop where
  wellFormed : journal.tree.WellFormed
  size : journal.tree.size = start.size
  undoable : Undoable registry (· = start.links) (fun entry _ => Faithful registry start entry)
    journal.log.entries journal.tree.links
  nodes : ∀ id first, start.node? id = some first →
    ∃ node, journal.tree.node? id = some node ∧ node.component = first.component ∧
      registry.view first.component (rewound id journal.log.entries node.fields) =
        registry.view first.component first.fields

namespace Reversible

variable {registry : Registry} {start : Tree} {journal : Journal}

/-- Entries that lead to the same values may be exchanged, and links are not
values. -/
theorem of_contents (h : Reversible registry start journal) {other : Journal}
    (hcontents : other.tree.contents = journal.tree.contents) (htree : other.tree.WellFormed)
    (hundoable : Undoable registry (· = start.links) (fun entry _ => Faithful registry start entry)
      other.log.entries other.tree.links)
    (hrewound : ∀ id fields,
      rewound id other.log.entries fields = rewound id journal.log.entries fields) :
    Reversible registry start other where
  wellFormed := htree
  size := by rw [← Tree.length_contents, hcontents, Tree.length_contents, h.size]
  undoable := hundoable
  nodes id first hfirst := by
    obtain ⟨node, hnode, hcomponent, hview⟩ := h.nodes id first hfirst
    obtain ⟨found, hfound, hname, hfields⟩ := Tree.exists_of_contents_eq hcontents hnode
    exact ⟨found, hfound, hname.trans hcomponent, by rw [hrewound, hfields, hview]⟩

/-- Undoing one entry of a journal that leads back to the start. -/
theorem undo (h : Reversible registry start journal) {entry : Entry} {rest : List Entry}
    (hentries : journal.log.entries = entry :: rest) :
    ∃ back, Journal.undo registry journal = .ok true back ∧ back.log.entries = rest ∧
      Reversible registry start back := by
  obtain ⟨back, hrevert, hresult, hback, hsize, hfaithful, hrest⟩ :=
    Journal.undo_latest h.wellFormed hentries h.undoable
  refine ⟨_, hresult, rfl, ?_⟩
  cases haction : entry.action with
  | modification place baseline =>
      obtain ⟨first, component, hfirst, hname, hfind⟩ := hfaithful place baseline haction
      obtain ⟨live, hlive, _⟩ := h.nodes place first hfirst
      rw [haction, Action.revert_modification (hname ▸ hfind) hlive] at hrevert
      cases hrevert
      refine ⟨hback, hsize.trans h.size, hrest, fun id begun hbegun => ?_⟩
      obtain ⟨node, hnode, hcomponent, hview⟩ := h.nodes id begun hbegun
      rw [hentries, rewound_of_modification haction] at hview
      simp only [Tree.node?_mapNode, hnode]
      by_cases hplace : id = place
      · subst hplace
        cases hbegun.symm.trans hfirst
        cases hnode.symm.trans hlive
        refine ⟨_, if_pos rfl, hcomponent, ?_⟩
        rw [if_pos rfl] at hview
        rw [← hview]
        exact view_rewound (Editor.view_copy hfind baseline.fields live.fields)
      · refine ⟨node, if_neg hplace, hcomponent, ?_⟩
        rwa [if_neg (Ne.symm hplace)] at hview
  | _ =>
      have hstructural : entry.action.isStructural = true := by rw [haction]; rfl
      refine h.of_contents ((Action.keepsContents_revert registry hstructural).of_ok hrevert) hback
        hrest fun id fields => ?_
      rw [hentries, rewound_of_structural hstructural]

/-- Reverting takes all entries back. -/
theorem revertAll (h : Reversible registry start journal) {entries : List Entry}
    (hentries : journal.log.entries = entries) :
    ∃ back, Journal.revertAll registry entries.length journal = .ok entries.length back ∧
      back.log.entries = [] ∧ Reversible registry start back := by
  induction entries generalizing journal with
  | nil => exact ⟨journal, rfl, hentries, h⟩
  | cons entry rest ih =>
      obtain ⟨middle, hundo, hrest, hmiddle⟩ := h.undo hentries
      obtain ⟨back, hall, hempty, hback⟩ := ih hmiddle hrest
      refine ⟨back, ?_, hempty, hback⟩
      rw [List.length_cons, Journal.revertAll, bind_ok hundo, if_pos rfl, bind_ok hall]
      rfl

theorem revert (h : Reversible registry start journal) :
    ∃ back, Journal.revert registry journal = .ok journal.log.entries.length back ∧
      back.log.entries = [] ∧ Reversible registry start back := by
  rw [Journal.revert, bind_ok (get_apply journal)]
  exact h.revertAll rfl

/-- A journal without entries that leads back to the start is there. -/
theorem links_of_empty (h : Reversible registry start journal) (hempty : journal.log.entries = []) :
    journal.tree.links = start.links := by
  have hundoable := h.undoable
  rw [hempty] at hundoable
  exact hundoable

end Reversible

end FormDesigner
