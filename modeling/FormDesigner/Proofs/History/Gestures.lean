import FormDesigner.Proofs.History.Nesting

/-!
What is dropped, edited and undone in a session leaves every element where it may stand.

Only a drop puts an element into a place where it never was, and a drop is checked against
the tree that it changes.
-/

namespace FormDesigner

open Program

section Planting

variable {allowed : NodeId → NodeId → Prop} {registry : Registry}

theorem Tree.Relinked.insert {tree : Tree} (h : tree.WellFormed) (node : Node) :
    tree.Relinked allowed (tree.insert node).2 where
  wellFormed := h.insert node
  component := by
    intro id live hlive
    refine ⟨live, ?_, rfl⟩
    rw [Tree.insert_eq, Tree.node?_grow_of_lt (Tree.lt_size_of_node? hlive), hlive]
  parent := by
    intro child above hparent
    rw [Tree.parent?_insert] at hparent
    exact Or.inl hparent

theorem Tree.component_insert_self (tree : Tree) (node : Node) :
    ∃ found, (tree.insert node).2.node? (tree.insert node).1 = some found ∧
      found.component = node.component := by
  rw [Tree.insert_eq, Tree.node?_grow, if_neg (Nat.lt_irrefl _), Nat.sub_self]
  exact ⟨_, rfl, rfl⟩

theorem Editor.relinks_onTree {α : Type} {change : TreeM TreeError α}
    (h : Relinks allowed change) : Relinks allowed (Editor.onTree change) :=
  h.adaptExcept EditorError.tree

theorem Editor.relinks_fromRegistry {α : Type} (answer : Except RegistryError α) :
    Relinks allowed (Editor.fromRegistry answer) := by
  cases answer with
  | ok value => exact .pure value
  | error failure => exact .throw _

theorem Editor.relinks_fillNode (id : NodeId) : Relinks allowed (Editor.fillNode registry id) := by
  apply (relinks_onTree (.requireNode id)).bind
  intro node
  apply (relinks_fromRegistry _).bind
  intro component
  exact relinks_onTree (.refill id fun node => component.addDefaults node.fields)

/-- To store defaults makes no link. -/
theorem Editor.relinks_connect (root : NodeId) :
    Relinks allowed (Editor.connect registry root) := by
  apply (relinks_onTree (.relink root)).bind
  intro _
  apply Relinks.get.bind
  intro tree
  exact .forM fun id => relinks_fillNode id

theorem Editor.relinks_setProperty (id : NodeId) (name : String) (datum : Datum) :
    Relinks allowed (Editor.setProperty registry id name datum) := by
  apply (relinks_onTree (.requireNode id)).bind
  intro node
  apply (relinks_fromRegistry _).bind
  intro component
  apply (relinks_fromRegistry _).bind
  intro property
  split
  · exact relinks_onTree (.store id name datum)
  · exact .throw _

/-- A new element has no parent. -/
theorem Editor.relinks_create (component : Component) :
    Relinks allowed (Editor.instantiate registry component.create) := by
  have hplant : Relinks allowed
      (modifyGet fun tree => tree.plant component.create : TreeM EditorError NodeId) :=
    fun _ htree => .insert htree _
  apply (relinks_fromRegistry _).bind
  intro _
  apply hplant.bind
  intro root
  exact (relinks_connect root).bind fun _ => .pure root

/-- A new element is of the component that it was made by. -/
theorem Editor.component_of_create {tree after : Tree} (h : tree.WellFormed)
    {component : Component} {id : NodeId}
    (hcreate : Editor.instantiate registry component.create tree = .ok id after) :
    ∃ node, after.node? id = some node ∧ node.component = component.id := by
  obtain ⟨_, middle, hknown, hrest⟩ := of_bind_ok hcreate
  have hmiddle : middle.WellFormed := by
    have hkept : tree.Relinked NoLink _ :=
      relinks_fromRegistry (Editor.checkKnown registry component.create) tree h
    rw [finish_of_ok hknown] at hkept
    exact hkept.wellFormed
  obtain ⟨root, planted, hplant, hrest⟩ := of_bind_ok hrest
  rw [modifyGet_apply] at hplant
  injection hplant with hroot hplanted
  have hwellFormed : planted.WellFormed := by
    rw [← hplanted]
    exact hmiddle.plant component.create
  have hnew : ∃ node, planted.node? root = some node ∧ node.component = component.id := by
    rw [← hroot, ← hplanted]
    exact Tree.component_insert_self middle _
  obtain ⟨node, hnode, hname⟩ := hnew
  obtain ⟨_, last, hconnect, hdone⟩ := of_bind_ok hrest
  have hkept : planted.Relinked NoLink (finish (Editor.connect registry root) planted) :=
    relinks_connect root planted hwellFormed
  rw [finish_of_ok hconnect] at hkept
  obtain ⟨found, hfound, hsame⟩ := hkept.component root node hnode
  cases hdone
  exact ⟨found, hfound, hsame.trans hname⟩

end Planting

/-- An accepted drop puts an element of a known component into a place where it may
stand. -/
theorem Drop.of_check_ok {registry : Registry} {tree : Tree} {target : NodeId}
    {payload : DragPayload} (h : Drop.check registry tree target payload = .ok ()) :
    ∃ holder id component, tree.node? target = some holder ∧
      Drop.draggedComponent tree target payload = .ok id ∧ registry.find? id = some component ∧
      component.isAbstract = false ∧ holder.component ∈ component.validParents := by
  rw [Drop.check] at h
  split at h
  · cases h
  · next holder hholder =>
      obtain ⟨id, hdragged, hrest⟩ := Answer.of_bind_ok h
      split at hrest
      · cases hrest
      · next component hfind =>
          split at hrest
          · cases hrest
          · next hconcrete =>
              split at hrest
              · next hallows =>
                  exact ⟨holder, id, component, hholder, hdragged, hfind,
                    Bool.eq_false_of_not_eq_true hconcrete, List.contains_iff_mem.mp hallows⟩
              · cases hrest

/-- What a move drags is of the component of the node, and the target is not below it. -/
theorem Drop.of_draggedComponent_move {tree : Tree} {target moved : NodeId}
    {payload : DragPayload} {id : String} (hsubject : payload.subject = .move moved)
    (h : Drop.draggedComponent tree target payload = .ok id) :
    tree.isAncestorOrSelf moved target = false ∧
      ∃ node, tree.node? moved = some node ∧ node.component = id := by
  rw [Drop.draggedComponent, hsubject] at h
  obtain ⟨_, _, hrest⟩ := Answer.of_bind_ok h
  split at hrest
  · cases hrest
  · next node hnode =>
      split at hrest
      · cases hrest
      · next hapart =>
          cases hrest
          exact ⟨Bool.eq_false_of_not_eq_true hapart, node, hnode, rfl⟩

/-- What a new element is made by is the component that the type names. -/
theorem Drop.of_draggedComponent_create {tree : Tree} {target : NodeId} {payload : DragPayload}
    {id : String} (hsubject : payload.subject = .create)
    (h : Drop.draggedComponent tree target payload = .ok id) : payload.component = id := by
  rw [Drop.draggedComponent, hsubject] at h
  obtain ⟨_, _, hrest⟩ := Answer.of_bind_ok h
  cases hrest
  rfl

namespace Session

variable {registry : Registry}

/-- The journal of a session is nested. -/
def Nested (registry : Registry) (session : Session) : Prop := session.toJournal.Nested registry

theorem nested_onJournal {α : Type} {operation : JournalM α} {session : Session}
    (h : (finish operation session.toJournal).Nested registry) :
    (finish (onJournal operation) session).Nested registry := by
  rw [finish_onJournal]
  exact h

theorem keeps_onJournal {α : Type} {operation : JournalM α}
    (h : Keeps (Journal.Nested registry) operation) :
    Keeps (Nested registry) (onJournal operation) :=
  fun session hsession => nested_onJournal (h session.toJournal hsession)

/-- A change of the tree that makes no links. -/
theorem keeps_onTree {α : Type} {change : TreeM EditorError α} (h : Relinks NoLink change) :
    Keeps (Nested registry) (onTree change) := by
  apply keeps_onJournal
  intro journal hjournal
  rw [Journal.finish_onTree]
  have hrelinked := (h.adaptExcept HistoryError.editor) journal.tree hjournal.wellFormed
  exact hjournal.relinked hrelinked fun _ _ hlink => hlink.elim

theorem of_onTree_ok {α : Type} {change : TreeM EditorError α} {session after : Session} {value : α}
    (h : onTree change session = .ok value after) :
    ∃ tree, change session.tree = .ok value tree ∧ after = { session with tree := tree } := by
  cases hrun : change session.tree with
  | ok answer tree =>
      rw [onTree, onJournal_ok (Journal.onTree_ok (adaptExcept_ok hrun))] at h
      cases h
      exact ⟨tree, rfl, rfl⟩
  | error failure tree =>
      rw [onTree, onJournal_error (Journal.onTree_error (adaptExcept_error hrun))] at h
      cases h

theorem keeps_setSelection (selection : Option Selection) :
    Keeps (Nested registry) (setSelection selection) :=
  fun _ h => h

theorem keeps_fromEditor {α : Type} {holds : Session → Prop} (answer : Except EditorError α) :
    Keeps holds (fromEditor answer) := by
  cases answer with
  | ok value => exact .pure value
  | error failure => exact .throw _

theorem keeps_select (node : Option NodeId) : Keeps (Nested registry) (select registry node) := by
  intro session h
  rw [Nested, toJournal_select]
  exact h

theorem keeps_isModified {holds : Session → Prop} (selection : Selection) :
    Keeps holds (isModified registry selection) := by
  refine Keeps.get.bind fun session => ?_
  split
  · exact .throw _
  · exact keeps_fromEditor _

/-- An edit makes no link and takes no element out of its place. -/
theorem keeps_objectChanged : Keeps (Nested registry) (objectChanged registry) := by
  refine Keeps.get.bind fun session => ?_
  dsimp only
  split
  · exact .pure ()
  · next selection _ =>
      split
      · have hpush : Keeps (Journal.Nested registry) (Journal.push
            (Action.modification selection.node selection.baseline).label
            (.modification selection.node selection.baseline)) :=
          fun journal h => h.push _ fun _ _ hlink => hlink.elim
        exact (keeps_onJournal hpush).bind fun _ => keeps_setSelection _
      · next number _ =>
          refine (keeps_isModified selection).bind fun modified => ?_
          cases modified with
          | true => exact .pure ()
          | false =>
              have hremove : Keeps (Nested registry) (modify fun session : Session =>
                  { session with log := (session.log.remove number).2 } : SessionM Unit) :=
                fun session h => Journal.Nested.of_sublist h List.eraseP_sublist
              exact hremove.bind fun _ => keeps_setSelection _

/-- An action may be applied that puts an element where it may stand. -/
theorem Nested.pushStructural {session : Session} (h : session.Nested registry) {action : Action}
    (hlinks : ∀ child above, action.Links child above → session.tree.Fits registry child above) :
    (finish (pushStructural registry action) session).Nested registry := by
  apply Keeps.bind_at (nested_onJournal (Journal.Nested.push h action.label hlinks))
  intro number
  refine Keeps.get.bind fun pushed => ?_
  split
  · exact .pure number
  · apply (keeps_setSelection _).bind
    intro _
    refine Keeps.get.bind fun marked => ?_
    refine (keeps_fromEditor _).bind fun baseline => ?_
    exact (keeps_setSelection _).bind fun _ => .pure number

/-- A new element of a component that may stand in the target. -/
theorem Nested.create {session : Session} (h : session.Nested registry) {target : NodeId}
    {holder : Node} {id : String} {component : Component}
    (hholder : session.tree.node? target = some holder) (hfind : registry.find? id = some component)
    (hconcrete : component.isAbstract = false)
    (hallows : holder.component ∈ component.validParents) :
    (finish (onTree (Editor.instantiate registry component.create) >>= fun node =>
      created registry node target >>= fun _ => pure node) session).Nested registry := by
  have hmade : (finish (onTree (Editor.instantiate registry component.create)) session).Nested
      registry := keeps_onTree (Editor.relinks_create component) session h
  cases hrun : onTree (Editor.instantiate registry component.create) session with
  | error failure after =>
      rw [finish_of_error hrun] at hmade
      rw [finish, bind_error hrun]
      exact hmade
  | ok node after =>
      rw [finish_of_ok hrun] at hmade
      rw [finish, bind_ok hrun]
      obtain ⟨tree, hcreate, rfl⟩ := of_onTree_ok hrun
      have hkept : session.tree.Relinked NoLink
          (finish (Editor.instantiate registry component.create) session.tree) :=
        Editor.relinks_create component session.tree h.wellFormed
      rw [finish_of_ok hcreate] at hkept
      obtain ⟨found, hfound, hname⟩ := Editor.component_of_create h.wellFormed hcreate
      obtain ⟨place, hplace, hkind⟩ := hkept.component target holder hholder
      have hid : component.id = id := by simpa using List.find?_some hfind
      have hpush : (finish (created registry node target)
          { session with tree := tree }).Nested registry := by
        apply hmade.pushStructural
        rintro child above ⟨rfl, rfl⟩
        exact ⟨found, place, component, hfound, hplace, (hname.trans hid) ▸ hfind, hconcrete,
          hkind ▸ hallows⟩
      exact Keeps.bind_at hpush fun _ => .pure node

/-- A drop that was checked makes the one link that was checked. -/
theorem Nested.place {session : Session} (h : session.Nested registry) {target : NodeId}
    {payload : DragPayload}
    (hcheck : Drop.check registry session.tree target payload = .ok ()) :
    (finish (Drop.place registry target payload) session).Nested registry := by
  obtain ⟨holder, id, component, hholder, hdragged, hfind, hconcrete, hallows⟩ :=
    Drop.of_check_ok hcheck
  cases hsubject : payload.subject with
  | move moved =>
      obtain ⟨-, node, hnode, rfl⟩ := Drop.of_draggedComponent_move hsubject hdragged
      rw [Drop.place, hsubject]
      have hpush : (finish (reparent registry moved (some target)) session).Nested registry := by
        apply h.pushStructural
        rintro child above ⟨rfl, rfl⟩
        exact ⟨node, holder, component, hnode, hholder, hfind, hconcrete, hallows⟩
      exact Keeps.bind_at hpush fun _ => .pure moved
  | create =>
      cases Drop.of_draggedComponent_create hsubject hdragged
      have hrequire : (registry.require payload.component).mapError EditorError.registry =
          .ok component := by
        rw [Registry.require_ok hfind]
        rfl
      rw [Drop.place, hsubject]
      dsimp only
      rw [hrequire]
      exact h.create hholder hfind hconcrete hallows

end Session

/-- What the user does. -/
inductive Gesture where
  | drop (target : NodeId) (payload : DragPayload)
  | delete (node : NodeId)
  | reorder (parent : NodeId) (first second : Nat)
  | select (node : Option NodeId)
  | set (node : NodeId) (name : String) (datum : Datum)
  | changed
  | undo
  | revert
  | clear

/-- The session after a gesture, whether it succeeds or fails. -/
def Gesture.perform (registry : Registry) (session : Session) : Gesture → Session
  | .drop target payload => finish (Drop.perform registry target payload) session
  | .delete node => finish (Session.deleted registry node) session
  | .reorder parent first second =>
      finish (Session.reorderChild registry parent first second) session
  | .select node => finish (Session.select registry node) session
  | .set node name value =>
      finish (Session.onTree (Editor.setProperty registry node name value)) session
  | .changed => finish (Session.objectChanged registry) session
  | .undo => finish (Session.undo registry) session
  | .revert => finish (Session.revert registry) session
  | .clear => finish Session.clear session

namespace Session

variable {registry : Registry}

theorem Nested.perform {session : Session} (h : session.Nested registry) (gesture : Gesture) :
    (gesture.perform registry session).Nested registry := by
  cases gesture with
  | drop target payload =>
      rw [Gesture.perform, finish, Drop.perform, bind_ok (get_apply session)]
      cases hcheck : Drop.check registry session.tree target payload with
      | error reason => exact h
      | ok done => exact Keeps.bind_at (h.place hcheck) fun _ => .pure _
  | delete node => exact h.pushStructural fun _ _ hlink => hlink.elim
  | reorder parent first second => exact h.pushStructural fun _ _ hlink => hlink.elim
  | select node => exact keeps_select node session h
  | set node name value => exact keeps_onTree (Editor.relinks_setProperty node name value) session h
  | changed => exact keeps_objectChanged session h
  | undo => exact keeps_onJournal (Journal.keeps_undo registry) session h
  | revert => exact keeps_onJournal (Journal.keeps_revert registry) session h
  | clear => exact Journal.Nested.of_sublist h (List.nil_sublist _)

theorem nested_start {tree : Tree} (htree : tree.WellFormed) (hnested : tree.Nested registry) :
    (start tree).Nested registry where
  wellFormed := htree
  nested := hnested
  restores := fun _ hentry => (List.not_mem_nil hentry).elim

/-- Elements that stand where they may still do so after all gestures, whatever is dropped,
edited and undone, and whether it succeeds or fails. -/
theorem nested_gestures (registry : Registry) {tree : Tree} (htree : tree.WellFormed)
    (hnested : tree.Nested registry) (gestures : List Gesture) :
    (gestures.foldl (Gesture.perform registry) (start tree)).tree.WellFormed ∧
    (gestures.foldl (Gesture.perform registry) (start tree)).tree.Nested registry := by
  have hrun : ∀ session : Session, session.Nested registry →
      (gestures.foldl (Gesture.perform registry) session).Nested registry := by
    induction gestures with
    | nil => exact fun session h => h
    | cons gesture rest ih => exact fun session h => ih _ (h.perform gesture)
  have hafter := hrun (start tree) (nested_start htree hnested)
  exact ⟨hafter.wellFormed, hafter.nested⟩

end Session

/-- A component without properties and markup. -/
def Component.plain (id : String) (validParents : List String) : Component :=
  { id, validParents, shared := .empty, templates := none, settings := {}
    compiled := fun _ => rfl }

/-- A registry of forms and of texts, which stand in forms. -/
def Registry.forms : Registry :=
  ⟨[.plain "form" [], .plain "text" ["form"]], {}, by decide, by simp [Component.plain]⟩

/-- A form with one text. -/
def Tree.form : Tree := (Tree.empty.plant ⟨"form", .empty, some [⟨"text", .empty, none⟩]⟩).2

theorem Tree.form_wellFormed : form.WellFormed := empty_wellFormed.plant _

theorem Tree.form_nested : form.Nested Registry.forms := by
  intro child above hparent
  match child with
  | 0 => cases hparent
  | 1 =>
      cases hparent
      exact ⟨_, _, _, rfl, rfl, rfl, rfl, List.mem_singleton_self _⟩
  | child + 2 => cases hparent

/-- A text is dropped into a form, the first one is deleted and comes back, and a form is not
dropped into a text. -/
theorem Session.nested_gestures_of_form :
    Tree.form.WellFormed ∧ Tree.form.Nested Registry.forms ∧
    ∃ gestures : List Gesture,
      (gestures.foldl (Gesture.perform Registry.forms) (Session.start Tree.form)).tree.children 0 =
        [1, 2] ∧
      (gestures.foldl (Gesture.perform Registry.forms) (Session.start Tree.form)).tree.WellFormed ∧
      (gestures.foldl (Gesture.perform Registry.forms) (Session.start Tree.form)).tree.Nested
        Registry.forms := by
  refine ⟨Tree.form_wellFormed, Tree.form_nested, [.drop 0 (.create "text"), .delete 1, .undo,
    .drop 1 (.create "form")], ?_, ?_⟩
  · rfl
  · exact Session.nested_gestures Registry.forms Tree.form_wellFormed Tree.form_nested _

end FormDesigner
