import FormDesigner.Proofs.Editor.Filling
import FormDesigner.Proofs.History.Gestures

/-!
What a drop does.

A drop that passes the check never fails afterwards: the node can be put into the target, the
entry can be undone, and the selected node can be copied anew.  A drop that does not pass it
changes nothing.
-/

namespace FormDesigner

open Program

namespace Session

variable {registry : Registry} {session : Session}

/-- The selected node, if there is one, is in the tree and of a known component. -/
def SelectionKnown (registry : Registry) (session : Session) : Prop :=
  ∀ selection, session.selection = some selection →
    ∃ node component, session.tree.node? selection.node = some node ∧
      registry.find? node.component = some component

theorem SelectionKnown.of_journal (h : session.SelectionKnown registry) {journal : Journal}
    (hkept : ∀ id node, session.tree.node? id = some node →
      ∃ found, journal.tree.node? id = some found ∧ found.component = node.component) :
    SelectionKnown registry { session with toJournal := journal } := by
  intro selection hselection
  obtain ⟨node, component, hnode, hfind⟩ := h selection hselection
  obtain ⟨found, hfound, hname⟩ := hkept selection.node node hnode
  exact ⟨found, component, hfound, hname.symm ▸ hfind⟩

/-- After an action was recorded, a selected node that is known is copied anew. -/
theorem pushStructural_ok {action : Action} {number : Nat} {journal : Journal}
    (hpush : Journal.push action.label action session.toJournal = .ok number journal)
    (hselection : SelectionKnown registry { session with toJournal := journal }) :
    ∃ after, pushStructural registry action session = .ok number after ∧
      after.toJournal = journal := by
  rw [pushStructural, bind_ok (onJournal_ok hpush), bind_ok (get_apply _)]
  cases hchosen : session.selection with
  | none => exact ⟨_, rfl, rfl⟩
  | some selection =>
      obtain ⟨node, component, hnode, hfind⟩ := hselection selection hchosen
      dsimp only
      rw [bind_ok (setSelection_apply _ _), bind_ok (get_apply _)]
      simp only [Editor.copyNode_ok hnode hfind]
      exact ⟨_, rfl, rfl⟩

/-- What is left after a node was put behind the children of another one: there is one more
entry, and to undo it is to have the old links again. -/
structure Placed (registry : Registry) (session : Session) (parent child : NodeId)
    (after : Session) : Prop where
  size : after.tree.size = session.tree.size
  putLast : session.tree.PutLast parent child after.tree
  entries : ∃ entry, after.log.entries = entry :: session.log.entries
  undo : ∃ back, Session.undo registry after = .ok true back ∧
    back.tree.links = session.tree.links ∧ back.log.entries = session.log.entries

theorem placed_of_places {action : Action} {parent child : NodeId}
    (hplaces : action.Places registry session.tree parent child)
    (hselection : session.SelectionKnown registry) :
    ∃ after, pushStructural registry action session = .ok session.log.next after ∧
      session.Placed registry parent child after := by
  obtain ⟨applied, tree, happly, -, htree, hrewinds, hput⟩ := hplaces
  have hcontents : tree.contents = session.tree.contents :=
    (Action.keepsContents_apply action).of_ok happly
  have hkept : ∀ id node, session.tree.node? id = some node →
      ∃ found, tree.node? id = some found ∧ found.component = node.component := by
    intro id node hnode
    obtain ⟨found, hfound, hname, -⟩ := Tree.exists_of_contents_eq hcontents hnode
    exact ⟨found, hfound, hname⟩
  obtain ⟨after, hpush, hjournal⟩ := pushStructural_ok (Journal.push_ok happly)
    (hselection.of_journal hkept)
  have hentries : after.log.entries =
      ⟨action.label, session.log.next, applied⟩ :: session.log.entries := by
    rw [hjournal]
    rfl
  have hafter : after.tree = tree := congrArg Journal.tree hjournal
  refine ⟨after, hpush, ?_, hafter ▸ hput, ⟨_, hentries⟩, ?_⟩
  · rw [hafter, ← Tree.length_contents, hcontents, Tree.length_contents]
  · obtain ⟨_, back, hrevert, -, hlinks⟩ :=
      hrewinds after.tree [] (hafter ▸ htree) (by rw [hafter, List.append_nil])
    refine ⟨_, onJournal_ok (Journal.undo_ok hentries hrevert), ?_, rfl⟩
    rw [List.append_nil] at hlinks
    exact hlinks

end Session

namespace Drop

open Session

variable {registry : Registry} {session : Session} {target : NodeId} {payload : DragPayload}

/-- What an accepted drop leaves. -/
structure Done (registry : Registry) (session : Session) (target : NodeId)
    (subject : DragSubject) (node : NodeId) (after : Session) : Prop where
  /-- A new element is the only new node; a move adds none. -/
  nodes : match subject with
    | .create => node = session.tree.size ∧ after.tree.size = session.tree.size + 1
    | .move moved => node = moved ∧ after.tree.size = session.tree.size
  putLast : session.tree.PutLast target node after.tree
  entries : ∃ entry, after.log.entries = entry :: session.log.entries
  undo : ∃ back, Session.undo registry after = .ok true back ∧
    session.tree.links <+: back.tree.links ∧ back.log.entries = session.log.entries

/-- A new element of a known component is put into a node of the tree. -/
theorem done_create (htree : session.tree.WellFormed) (hselection : session.SelectionKnown registry)
    (htarget : target < session.tree.size) {component : Component}
    (hfind : registry.find? component.id = some component) :
    ∃ after, (onTree (Editor.instantiate registry component.create) >>= fun node =>
        created registry node target >>= fun _ => pure node) session =
          .ok session.tree.size after ∧
      Done registry session target .create session.tree.size after := by
  obtain ⟨node, hcreate, -, hchildren⟩ := Editor.create_ok session.tree hfind
  let grown : Session := { session with tree := (session.tree.insert node).2 }
  have hadd : onTree (Editor.instantiate registry component.create) session =
      .ok session.tree.size grown :=
    onJournal_ok (Journal.onTree_ok (adaptExcept_ok hcreate))
  have hlinks : grown.tree.links = session.tree.links ++ [⟨some [], none⟩] := by
    rw [Tree.links_insert, hchildren]
    rfl
  have hsize : grown.tree.size = session.tree.size + 1 := Tree.size_insert session.tree node
  have hfree : grown.tree.parent? session.tree.size = none := by
    rw [Tree.parent?_insert, Tree.parent?_eq_none_of_le (Nat.le_refl _)]
  -- The new node is above no node, because it was not there.
  have hapart : ¬(session.tree.size = target ∨
      Tree.Ancestor grown.tree session.tree.size target) := by
    rintro (hsame | hline)
    · exact Nat.ne_of_gt htarget hsame
    · have hold : Tree.Ancestor session.tree session.tree.size target :=
        hline.mono fun id above habove => by rwa [Tree.parent?_insert] at habove
      exact Nat.lt_irrefl _ (hold.above_lt_size htree)
  have hplaces : (Action.attach session.tree.size target).Places registry grown.tree target
      session.tree.size :=
    Action.places_create (htree.insert node) (hsize ▸ Nat.lt_succ_self _)
      (hsize ▸ Nat.lt_succ_of_lt htarget) hfree hapart false
  have hknown : grown.SelectionKnown registry := by
    apply hselection.of_journal
    intro id live hlive
    refine ⟨live, ?_, rfl⟩
    rw [Tree.insert_eq, Tree.node?_grow_of_lt (Tree.lt_size_of_node? hlive), hlive]
  obtain ⟨after, hpush, hplaced⟩ := placed_of_places hplaces hknown
  refine ⟨after, ?_, ⟨rfl, hplaced.size.trans hsize⟩,
    hplaced.putLast.of_links_snoc hlinks rfl htree htarget, hplaced.entries, ?_⟩
  · rw [bind_ok hadd, created, bind_ok hpush]
    rfl
  · obtain ⟨back, hundo, hback, hentries⟩ := hplaced.undo
    exact ⟨back, hundo, hback ▸ hlinks ▸ List.prefix_append _ _, hentries⟩

/-- A node of the tree is moved into one that is not below it. -/
theorem done_move (htree : session.tree.WellFormed) (hselection : session.SelectionKnown registry)
    (htarget : target < session.tree.size) {moved : NodeId} (hmoved : moved < session.tree.size)
    (hapart : session.tree.isAncestorOrSelf moved target = false) :
    ∃ after, (reparent registry moved (some target) >>= fun _ => pure moved) session =
        .ok moved after ∧
      Done registry session target (.move moved) moved after := by
  have hplaces : (Action.move moved (some target)).Places registry session.tree target moved :=
    Action.places_move htree hmoved htarget hapart none false
  obtain ⟨after, hpush, hplaced⟩ := placed_of_places hplaces hselection
  refine ⟨after, ?_, ⟨rfl, hplaced.size⟩, hplaced.putLast, hplaced.entries, ?_⟩
  · rw [reparent, bind_ok hpush]
    rfl
  · obtain ⟨back, hundo, hback, hentries⟩ := hplaced.undo
    exact ⟨back, hundo, hback ▸ List.prefix_refl _, hentries⟩

/-- What passes the check can be put into the target. -/
theorem place_ok (htree : session.tree.WellFormed) (hselection : session.SelectionKnown registry)
    (hcheck : check registry session.tree target payload = .ok ()) :
    ∃ node after, place registry target payload session = .ok node after ∧
      Done registry session target payload.subject node after := by
  obtain ⟨holder, id, component, hholder, hdragged, hfind, -, -⟩ := of_check_ok hcheck
  have htarget := Tree.lt_size_of_node? hholder
  cases hsubject : payload.subject with
  | move moved =>
      obtain ⟨hapart, node, hnode, -⟩ := of_draggedComponent_move hsubject hdragged
      obtain ⟨after, hplace, hdone⟩ :=
        done_move htree hselection htarget (Tree.lt_size_of_node? hnode) hapart
      refine ⟨moved, after, ?_, hdone⟩
      rw [place, hsubject]
      exact hplace
  | create =>
      cases of_draggedComponent_create hsubject hdragged
      have hid : component.id = payload.component := by simpa using List.find?_some hfind
      have hrequire : (registry.require payload.component).mapError EditorError.registry =
          .ok component := by
        rw [Registry.require_ok hfind]
        rfl
      have hknown : registry.find? component.id = some component := hid.symm ▸ hfind
      obtain ⟨after, hplace, hdone⟩ := done_create htree hselection htarget hknown
      refine ⟨session.tree.size, after, ?_, hdone⟩
      rw [place, hsubject]
      dsimp only
      rw [hrequire]
      exact hplace

/-- A drop never fails.  It is accepted exactly if it is allowed; a drop that is refused changes
nothing; one that is accepted puts the node last into the target, changes no other link, adds one
entry, and can be undone. -/
theorem perform_done (htree : session.tree.WellFormed)
    (hselection : session.SelectionKnown registry) (target : NodeId) (payload : DragPayload) :
    ∃ result after, perform registry target payload session = .ok result after ∧
      ((∃ node, result = .accepted node) ↔
        isAllowed registry session.tree target payload = true) ∧
      (∀ reason, result = .refused reason → after = session) ∧
      ∀ node, result = .accepted node →
        Done registry session target payload.subject node after := by
  rw [perform, bind_ok (get_apply session), isAllowed]
  cases hcheck : check registry session.tree target payload with
  | error reason =>
      refine ⟨.refused reason, session, rfl, ⟨?_, ?_⟩, fun _ _ => rfl, ?_⟩
      · rintro ⟨node, hnode⟩
        cases hnode
      · intro hallowed
        cases hallowed
      · intro node hnode
        cases hnode
  | ok done =>
      obtain ⟨node, after, hplace, hdone⟩ := place_ok htree hselection hcheck
      refine ⟨.accepted node, after, ?_, ⟨fun _ => rfl, fun _ => ⟨node, rfl⟩⟩, ?_, ?_⟩
      · exact bind_ok hplace
      · intro reason hreason
        cases hreason
      · intro found hfound
        cases hfound
        exact hdone

/-- A form in which the text is selected. -/
def textSelected : Session := ⟨⟨Tree.form, Log.empty⟩, some ⟨1, ⟨"text", .empty, none⟩, none⟩⟩

/-- A new text is dropped into a form while another one is selected. -/
theorem perform_done_of_form :
    textSelected.tree.WellFormed ∧ textSelected.SelectionKnown Registry.forms ∧
    isAllowed Registry.forms textSelected.tree 0 (.create "text") = true ∧
    ∃ after, perform Registry.forms 0 (.create "text") textSelected = .ok (.accepted 2) after ∧
      Done Registry.forms textSelected 0 .create 2 after := by
  have hselection : textSelected.SelectionKnown Registry.forms := by
    intro selection hselection
    cases hselection
    exact ⟨_, _, rfl, rfl⟩
  have hallowed : isAllowed Registry.forms textSelected.tree 0 (.create "text") = true := rfl
  obtain ⟨result, after, hperform, haccepted, -, hdone⟩ :=
    perform_done Tree.form_wellFormed hselection 0 (.create "text")
  obtain ⟨node, rfl⟩ := haccepted.mpr hallowed
  have hleft := hdone node rfl
  have hnode : node = 2 := hleft.nodes.1
  subst hnode
  exact ⟨Tree.form_wellFormed, hselection, hallowed, after, hperform, hleft⟩

end Drop

end FormDesigner
