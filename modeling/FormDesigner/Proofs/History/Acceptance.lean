import FormDesigner.Proofs.Catalog.Standard
import FormDesigner.Proofs.Editor.Completion
import FormDesigner.Proofs.History.Gestures
import FormDesigner.Proofs.History.Revert

/-!
Every stored value is accepted by its property.

Only `Editor.setProperty` looks at a value before it stores it.  The other values come from
defaults and from copies of what a node held before, which the log and the selection keep: so
what is remembered has to be accepted as well, by the component of the node that it is for.
-/

namespace FormDesigner

open Program

/-- Every property accepts its own default, if it has one. -/
def Registry.AcceptsDefaults (registry : Registry) : Prop :=
  ∀ component ∈ registry.components, ∀ property ∈ component.properties, ∀ datum,
    property.default? = some datum → property.accepts datum.value = true

/-- The values belong to properties of the component, which accept them. -/
def Component.Takes (component : Component) (fields : Fields Datum) : Prop :=
  ∀ field ∈ fields.entries, ∃ property ∈ component.properties,
    property.name = field.1 ∧ property.accepts field.2.value = true

namespace Component.Takes

variable {component : Component} {fields : Fields Datum}

theorem put (h : component.Takes fields) {name : String} {datum : Datum}
    (hdatum : ∃ property ∈ component.properties,
      property.name = name ∧ property.accepts datum.value = true) :
    component.Takes (Fields.put name datum fields) := by
  intro field hmem
  rcases Entries.mem_put hmem with rfl | hold
  · exact hdatum
  · exact h field hold

theorem drop (h : component.Takes fields) (name : String) :
    component.Takes (Fields.drop name fields) :=
  fun field hmem => h field ((Entries.sublist_drop name fields.entries).subset hmem)

/-- Defaults are put where they are accepted. -/
theorem addDefaults (h : component.Takes fields)
    (hdefaults : ∀ property ∈ component.properties, ∀ datum, property.default? = some datum →
      property.accepts datum.value = true) : component.Takes (component.addDefaults fields) := by
  refine List.foldlRecOn (motive := component.Takes) component.properties fillDefault h ?_
  intro reached hreached property hmem
  rcases fillDefault_cases reached property with hsame | ⟨_, datum, hdefault, hput⟩
  · rwa [hsame]
  · rw [hput]
    exact hreached.put ⟨property, hmem, rfl, hdefaults property hmem datum hdefault⟩

/-- What is copied was accepted before. -/
theorem copy {source : Fields Datum} (hsource : component.Takes source)
    (h : component.Takes fields) (properties : List Property) :
    component.Takes (properties.foldl (Editor.copyProperty source) fields) := by
  refine List.foldlRecOn (motive := component.Takes) properties (Editor.copyProperty source) h ?_
  intro reached hreached property _
  rw [Editor.copyProperty]
  split
  · next datum hdatum => exact hreached.put (hsource _ (Fields.get?_eq_some_iff.mp hdatum))
  · exact hreached.drop property.name

end Component.Takes

/-- All values in a tree belong to properties that accept them. -/
def Tree.Accepted (registry : Registry) (tree : Tree) : Prop :=
  ∀ id node, tree.node? id = some node → registry.Accepts node

/-- The remembered values are accepted by the component of the node that they are for. -/
def Registry.Remembers (registry : Registry) (tree : Tree) (id : NodeId) (copy : Blueprint) :
    Prop :=
  (∃ node, tree.node? id = some node ∧ node.component = copy.component) ∧
    ∃ component, registry.find? copy.component = some component ∧ component.Takes copy.fields

section Trees

variable {registry : Registry} {tree after : Tree}

theorem Registry.Remembers.relinked {allowed : NodeId → NodeId → Prop} {id : NodeId}
    {copy : Blueprint} (h : registry.Remembers tree id copy)
    (hrelinked : tree.Relinked allowed after) : registry.Remembers after id copy := by
  obtain ⟨⟨node, hnode, hname⟩, htakes⟩ := h
  obtain ⟨found, hfound, hsame⟩ := hrelinked.component id node hnode
  exact ⟨⟨found, hfound, hsame.trans hname⟩, htakes⟩

namespace Tree.Accepted

theorem of_contents (h : tree.Accepted registry) (hcontents : after.contents = tree.contents) :
    after.Accepted registry := by
  intro id node hnode
  obtain ⟨found, hfound, hname, hfields⟩ := exists_of_contents_eq hcontents.symm hnode
  have haccepts := h id found hfound
  rwa [Registry.Accepts, hname, hfields] at haccepts

/-- New values of one node. -/
theorem mapNode (h : tree.Accepted registry) {id : NodeId} {change : Node → Node}
    (hchange : ∀ node, tree.node? id = some node → registry.Accepts (change node)) :
    (tree.mapNode id change).Accepted registry := by
  intro place node hnode
  rw [node?_mapNode] at hnode
  split at hnode
  · next hplace =>
      obtain ⟨live, hlive, rfl⟩ := Option.map_eq_some_iff.mp hnode
      exact hchange live (hplace ▸ hlive)
  · exact h place node hnode

theorem insert (h : tree.Accepted registry) {node : Node} (hnode : registry.Accepts node) :
    (tree.insert node).2.Accepted registry := by
  intro id found hfound
  rw [insert_eq, node?_grow] at hfound
  split at hfound
  · exact h id found hfound
  · obtain rfl : found = _ := List.mem_singleton.mp (List.mem_of_getElem? hfound)
    exact hnode

end Tree.Accepted

theorem KeepsContents.accepted {ε α : Type} {program : TreeM ε α} (h : KeepsContents program) :
    Keeps (Tree.Accepted registry) program :=
  fun tree htree => htree.of_contents (h tree)

end Trees

namespace Editor

variable {registry : Registry} {tree : Tree}

/-- Filling a node fails without effect, or puts defaults into a known node. -/
theorem finish_fillNode_cases (registry : Registry) (id : NodeId) (tree : Tree) :
    finish (fillNode registry id) tree = tree ∨
      ∃ node component, tree.node? id = some node ∧
        registry.find? node.component = some component ∧
        finish (fillNode registry id) tree = tree.mapNode id component.withDefaults := by
  rcases fillNode_cases registry id tree with ⟨failure, hfailed⟩ |
    ⟨node, component, hnode, hfind, hfilled⟩
  · exact .inl (finish_of_error hfailed)
  · exact .inr ⟨node, component, hnode, hfind, finish_of_ok hfilled⟩

/-- Setting a value fails without effect, or stores it in a known node for a property that
accepts it. -/
theorem finish_setProperty_cases (registry : Registry) (id : NodeId) (name : String)
    (datum : Datum) (tree : Tree) :
    finish (setProperty registry id name datum) tree = tree ∨
      ∃ node component property, tree.node? id = some node ∧
        registry.find? node.component = some component ∧ property ∈ component.properties ∧
        property.name = name ∧ property.accepts datum.value = true ∧
        finish (setProperty registry id name datum) tree = tree.setValue id name datum := by
  rcases requireNode_cases id tree with ⟨failure, hfailed⟩ | ⟨node, hnode, hfound⟩
  · exact .inl (finish_of_error (bind_error hfailed))
  · rw [finish, setProperty, bind_ok hfound]
    cases hfind : registry.find? node.component with
    | none =>
        rw [Registry.require_error hfind]
        exact .inl rfl
    | some component =>
        rw [Registry.require_ok hfind, fromRegistry, pure_bind, Registry.requireProperty]
        cases hproperty : component.property? name with
        | none => exact .inl rfl
        | some property =>
            rw [fromRegistry, pure_bind]
            cases haccepts : property.accepts datum.value with
            | false => exact .inl rfl
            | true =>
                refine .inr ⟨node, component, property, hnode, hfind,
                  List.mem_of_find?_eq_some hproperty, by simpa using List.find?_some hproperty,
                  haccepts, ?_⟩
                exact (finish_adaptExcept _ _ _).trans (Tree.finish_store tree id name datum)

theorem keeps_fillNode (hdefaults : registry.AcceptsDefaults) (id : NodeId) :
    Keeps (Tree.Accepted registry) (fillNode registry id) := by
  intro tree htree
  rcases finish_fillNode_cases registry id tree with hsame | ⟨node, component, hnode, hfind, hafter⟩
  · rwa [hsame]
  · rw [hafter]
    apply htree.mapNode
    intro live hlive
    cases hnode.symm.trans hlive
    obtain ⟨other, hother, htakes⟩ := htree id node hnode
    cases hfind.symm.trans hother
    exact ⟨component, hfind, Component.Takes.addDefaults htakes
      (hdefaults component (List.mem_of_find?_eq_some hfind))⟩

theorem keeps_fromRegistry {α : Type} {holds : Tree → Prop} (answer : Except RegistryError α) :
    Keeps holds (fromRegistry answer) := by
  cases answer with
  | ok value => exact .pure value
  | error failure => exact .throw _

theorem keeps_connect (hdefaults : registry.AcceptsDefaults) (root : NodeId) :
    Keeps (Tree.Accepted registry) (connect registry root) := by
  have hrelink : Keeps (Tree.Accepted registry) (onTree (Tree.relink root)) :=
    (KeepsContents.relink root).accepted.adaptExcept EditorError.tree
  exact hrelink.bind fun _ => Keeps.get.bind fun tree =>
    Keeps.forM fun id => keeps_fillNode hdefaults id

/-- A new element holds defaults only. -/
theorem keeps_create (hdefaults : registry.AcceptsDefaults) {component : Component}
    (hfind : registry.find? component.id = some component) :
    Keeps (Tree.Accepted registry) (instantiate registry component.create) := by
  have hplant : Keeps (Tree.Accepted registry)
      (modifyGet fun tree => tree.plant component.create : TreeM EditorError NodeId) := by
    intro tree htree
    have htakes : component.Takes .empty := nofun
    have hnew := htakes.addDefaults (hdefaults component (List.mem_of_find?_eq_some hfind))
    exact htree.insert ⟨component, hfind, hnew⟩
  exact (keeps_fromRegistry _).bind fun _ => hplant.bind fun root =>
    (keeps_connect hdefaults root).bind fun _ => .pure root

/-- Only what the property accepts is stored. -/
theorem keeps_setProperty (id : NodeId) (name : String) (datum : Datum) :
    Keeps (Tree.Accepted registry) (setProperty registry id name datum) := by
  intro tree htree
  rcases finish_setProperty_cases registry id name datum tree with
    hsame | ⟨node, component, property, hnode, hfind, hproperty, hname, haccepts, hafter⟩
  · rwa [hsame]
  · rw [hafter]
    apply htree.mapNode
    intro live hlive
    cases hnode.symm.trans hlive
    obtain ⟨other, hother, htakes⟩ := htree id node hnode
    cases hfind.symm.trans hother
    exact ⟨component, hfind, Component.Takes.put htakes ⟨property, hproperty, hname, haccepts⟩⟩

end Editor

namespace Action

variable {registry : Registry} {tree after : Tree}

/-- The values that an applied action remembers are those it was made with. -/
theorem modification_of_apply {action applied : Action}
    (h : action.apply tree = .ok applied after) {id : NodeId} {copy : Blueprint}
    (happlied : applied = .modification id copy) : action = .modification id copy := by
  subst happlied
  cases applied_of_apply h
  rfl

/-- Taking an action back puts only accepted values into a node. -/
theorem accepted_revert (htree : tree.Accepted registry) {action : Action}
    (haction : ∀ id copy, action = .modification id copy → registry.Remembers tree id copy) :
    (finish (action.revert registry) tree).Accepted registry := by
  cases action with
  | modification id copy =>
      obtain ⟨⟨node, hnode, hname⟩, component, hfind, htakes⟩ := haction id copy rfl
      rw [finish_of_ok (revert_modification hfind hnode)]
      apply htree.mapNode
      intro live hlive
      cases hnode.symm.trans hlive
      obtain ⟨other, hother, hlivetakes⟩ := htree id node hnode
      rw [hname, hfind] at hother
      cases hother
      exact ⟨component, hname ▸ hfind, htakes.copy hlivetakes component.visibleProperties⟩
  | reparent => exact (keepsContents_revert registry rfl).accepted tree htree
  | reorder => exact (keepsContents_revert registry rfl).accepted tree htree
  | create => exact (keepsContents_revert registry rfl).accepted tree htree
  | delete => exact (keepsContents_revert registry rfl).accepted tree htree

end Action

/-- All values in the tree are accepted, and so are those that the log remembers and those
that are kept elsewhere. -/
structure Journal.Accepted (registry : Registry) (kept : NodeId → Blueprint → Prop)
    (journal : Journal) : Prop where
  wellFormed : journal.tree.WellFormed
  accepted : journal.tree.Accepted registry
  kept : ∀ id copy, kept id copy → registry.Remembers journal.tree id copy
  logged : ∀ entry ∈ journal.log.entries, ∀ id copy, entry.action = .modification id copy →
    registry.Remembers journal.tree id copy

namespace Journal.Accepted

variable {registry : Registry} {kept others : NodeId → Blueprint → Prop} {journal : Journal}

theorem mono (h : journal.Accepted registry kept)
    (hothers : ∀ id copy, others id copy → registry.Remembers journal.tree id copy) :
    journal.Accepted registry others :=
  ⟨h.wellFormed, h.accepted, hothers, h.logged⟩

/-- A change after which all nodes are still of their components. -/
theorem relinked (h : journal.Accepted registry kept) {allowed : NodeId → NodeId → Prop}
    {after : Tree} (hrelinked : journal.tree.Relinked allowed after)
    (hafter : after.Accepted registry) :
    Journal.Accepted registry kept { journal with tree := after } where
  wellFormed := hrelinked.wellFormed
  accepted := hafter
  kept id copy hkept := (h.kept id copy hkept).relinked hrelinked
  logged entry hentry id copy haction := (h.logged entry hentry id copy haction).relinked hrelinked

theorem of_sublist (h : journal.Accepted registry kept) {log : Log}
    (hentries : log.entries.Sublist journal.log.entries) :
    Journal.Accepted registry kept { journal with log } :=
  ⟨h.wellFormed, h.accepted, h.kept, fun entry hentry => h.logged entry (hentries.subset hentry)⟩

theorem add (h : journal.Accepted registry kept) (label : String) {action : Action}
    (haction : ∀ id copy, action = .modification id copy →
      registry.Remembers journal.tree id copy) :
    Journal.Accepted registry kept { journal with log := journal.log.add label action } where
  wellFormed := h.wellFormed
  accepted := h.accepted
  kept := h.kept
  logged := by
    intro entry hentry
    rcases List.mem_cons.mp hentry with hlatest | hearlier
    · rw [hlatest]
      exact haction
    · exact h.logged entry hearlier

/-- An action may be applied if what it remembers is accepted. -/
theorem push (h : journal.Accepted registry kept) (label : String) {action : Action}
    (haction : ∀ id copy, action = .modification id copy →
      registry.Remembers journal.tree id copy) :
    Journal.Accepted registry kept (finish (Journal.push label action) journal) := by
  have hrelinked := action.relinks_apply journal.tree h.wellFormed
  have haccepted := (Action.keepsContents_apply action).accepted journal.tree h.accepted
  cases happly : action.apply journal.tree with
  | ok applied after =>
      rw [finish_of_ok happly] at hrelinked haccepted
      rw [finish_of_ok (Journal.push_ok happly)]
      apply (h.relinked hrelinked haccepted).add label
      intro id copy happlied
      exact (haction id copy (Action.modification_of_apply happly happlied)).relinked hrelinked
  | error failure after =>
      rw [finish_of_error happly] at hrelinked haccepted
      rw [finish_of_error (Journal.push_error happly)]
      exact h.relinked hrelinked haccepted

end Journal.Accepted

namespace Journal

variable {registry : Registry} {kept : NodeId → Blueprint → Prop}

theorem keeps_accepted_onTree {α : Type} {allowed : NodeId → NodeId → Prop}
    {change : TreeM HistoryError α} (hrelinks : Relinks allowed change)
    (hkeeps : Keeps (Tree.Accepted registry) change) :
    Keeps (Journal.Accepted registry kept) (onTree change) := by
  intro journal h
  rw [finish_onTree]
  exact h.relinked (hrelinks journal.tree h.wellFormed) (hkeeps journal.tree h.accepted)

/-- Undoing brings back only values that were accepted, also if it fails. -/
theorem keeps_accepted_undo : Keeps (Journal.Accepted registry kept) (undo registry) := by
  apply keeps_undo_of_revert
  · intro journal entry rest h hentries
    have hrelinked := entry.action.relinks_revert registry journal.tree h.wellFormed
    exact h.relinked hrelinked
      (Action.accepted_revert h.accepted (h.logged entry (hentries ▸ List.mem_cons_self)))
  · exact fun journal log h hentries => h.of_sublist hentries

end Journal

namespace Session

variable {registry : Registry} {session : Session}

/-- The values that are remembered for the selected node. -/
def Chosen (session : Session) (id : NodeId) (copy : Blueprint) : Prop :=
  ∃ pending, session.selection = some ⟨id, copy, pending⟩

/-- All values in the tree of a session are accepted, and all that it remembers. -/
def Accepted (registry : Registry) (session : Session) : Prop :=
  session.toJournal.Accepted registry session.Chosen

theorem keeps_accepted_onJournal {α : Type} {operation : JournalM α}
    (h : ∀ kept, Keeps (Journal.Accepted registry kept) operation) :
    Keeps (Accepted registry) (onJournal operation) := by
  intro session hsession
  rw [finish_onJournal]
  exact h session.Chosen session.toJournal hsession

theorem keeps_accepted_onTree {α : Type} (allowed : NodeId → NodeId → Prop)
    {change : TreeM EditorError α} (hrelinks : Relinks allowed change)
    (hkeeps : Keeps (Tree.Accepted registry) change) :
    Keeps (Accepted registry) (onTree change) :=
  keeps_accepted_onJournal fun _ => Journal.keeps_accepted_onTree
    (hrelinks.adaptExcept HistoryError.editor) (hkeeps.adaptExcept HistoryError.editor)

/-- Another selection may be made, if what is then remembered is accepted. -/
theorem Accepted.choose {kept : NodeId → Blueprint → Prop} {journal : Journal}
    (h : journal.Accepted registry kept) {selection : Selection}
    (hremembers : registry.Remembers journal.tree selection.node selection.baseline) :
    (⟨journal, some selection⟩ : Session).Accepted registry := by
  apply h.mono
  rintro id copy ⟨pending, hchosen⟩
  cases hchosen
  exact hremembers

theorem Accepted.unselected {kept : NodeId → Blueprint → Prop} {journal : Journal}
    (h : journal.Accepted registry kept) : (⟨journal, none⟩ : Session).Accepted registry :=
  h.mono fun _ _ ⟨_, hchosen⟩ => nomatch hchosen

/-- A copy of a node has only values that the node has. -/
theorem remembers_of_copyNode {tree : Tree} (htree : tree.Accepted registry) {id : NodeId}
    {copy : Blueprint} (h : Editor.copyNode registry tree id = .ok copy) :
    registry.Remembers tree id copy := by
  obtain ⟨node, component, hnode, hfind, rfl⟩ := Editor.of_copyNode_ok h
  obtain ⟨other, hother, htakes⟩ := htree id node hnode
  cases hfind.symm.trans hother
  have hnone : component.Takes .empty := nofun
  exact ⟨⟨node, hnode, rfl⟩, component, hfind,
    Component.Takes.copy htakes hnone component.visibleProperties⟩

/-- A selection remembers what the node holds. -/
theorem keeps_accepted_select (node : Option NodeId) :
    Keeps (Accepted registry) (select registry node) := by
  intro session h
  cases node with
  | none => exact Accepted.unselected h
  | some id =>
      rw [finish, select, bind_ok (setSelection_apply none session), bind_ok (get_apply _)]
      cases hcopy : Editor.copyNode registry session.tree id with
      | ok copy => exact Accepted.choose h (remembers_of_copyNode h.accepted hcopy)
      | error failure => exact Accepted.unselected h

/-- An entry for the edits of the selected node remembers what the selection does. -/
theorem keeps_accepted_objectChanged : Keeps (Accepted registry) (objectChanged registry) := by
  intro session h
  rw [finish, objectChanged, bind_ok (get_apply session)]
  cases hselection : session.selection with
  | none => exact h
  | some selection =>
      have hremembers := h.kept selection.node selection.baseline ⟨selection.pending, hselection⟩
      dsimp only
      cases hpending : session.pendingEntry selection with
      | none =>
          have haction : ∀ id copy,
              Action.modification selection.node selection.baseline = .modification id copy →
                registry.Remembers session.tree id copy := by
            rintro id copy ⟨⟩
            exact hremembers
          have hpushed :=
            h.push (Action.modification selection.node selection.baseline).label haction
          dsimp only
          cases hpush : Journal.push (Action.modification selection.node selection.baseline).label
              (.modification selection.node selection.baseline) session.toJournal with
          | error failure journal =>
              rw [finish_of_error hpush] at hpushed
              rw [bind_error (onJournal_error hpush)]
              exact hpushed
          | ok number journal =>
              rw [finish_of_ok hpush] at hpushed
              rw [bind_ok (onJournal_ok hpush)]
              exact Accepted.choose hpushed
                (hpushed.kept _ _ ⟨selection.pending, hselection⟩)
      | some number =>
          have hmodified : finish (isModified registry selection) session = session :=
            (keeps_isModified selection session rfl).symm
          dsimp only
          cases hrun : isModified registry selection session with
          | error failure after =>
              rw [finish_of_error hrun] at hmodified
              rw [bind_error hrun]
              exact hmodified ▸ h
          | ok answer after =>
              rw [finish_of_ok hrun] at hmodified
              rw [bind_ok hrun, hmodified]
              cases answer with
              | true => exact h
              | false =>
                  have hforgotten : Journal.Accepted registry _
                      { session.toJournal with log := (session.log.remove number).2 } :=
                    Journal.Accepted.of_sublist h List.eraseP_sublist
                  exact Accepted.choose hforgotten hremembers

/-- A change of links has the selected node remembered as it is. -/
theorem keeps_accepted_pushStructural {action : Action} (hstructural : action.isStructural = true) :
    Keeps (Accepted registry) (pushStructural registry action) := by
  intro session h
  have haction : ∀ id copy, action = .modification id copy →
      registry.Remembers session.tree id copy := by
    rintro id copy rfl
    cases hstructural
  have hpushed := h.push action.label haction
  rw [finish, pushStructural]
  cases hpush : Journal.push action.label action session.toJournal with
  | error failure journal =>
      rw [finish_of_error hpush] at hpushed
      rw [bind_error (onJournal_error hpush)]
      exact hpushed
  | ok number journal =>
      rw [finish_of_ok hpush] at hpushed
      rw [bind_ok (onJournal_ok hpush), bind_ok (get_apply _)]
      dsimp only
      cases hselection : session.selection with
      | none => exact Accepted.unselected hpushed
      | some selection =>
          have hkept := hpushed.kept _ _ ⟨selection.pending, hselection⟩
          dsimp only
          rw [bind_ok (setSelection_apply _ _), bind_ok (get_apply _)]
          dsimp only
          cases hcopy : Editor.copyNode registry journal.tree selection.node with
          | ok copy => exact Accepted.choose hpushed (remembers_of_copyNode hpushed.accepted hcopy)
          | error failure => exact Accepted.choose hpushed hkept

end Session

/-- What a client does with the editor, a session and the tree of it. -/
inductive ClientCall where
  | gesture (made : Gesture)
  /-- Adds a new element of a component, in no place. -/
  | instantiate (component : String)
  | reparent (node : NodeId) (target : Option NodeId)
  | created (node parent : NodeId)

/-- The session after a call, whether it succeeds or fails. -/
def ClientCall.perform (registry : Registry) (session : Session) : ClientCall → Session
  | .gesture made => made.perform registry session
  | .instantiate id =>
      match registry.find? id with
      | some component =>
          finish (Session.onTree (Editor.instantiate registry component.create)) session
      | none => session
  | .reparent node target => finish (Session.reparent registry node target) session
  | .created node parent => finish (Session.created registry node parent) session

namespace Session

variable {registry : Registry}

theorem keeps_accepted_create (hdefaults : registry.AcceptsDefaults) {id : String}
    {component : Component} (hfind : registry.find? id = some component) :
    Keeps (Accepted registry) (onTree (Editor.instantiate registry component.create)) := by
  have hid : component.id = id := by simpa using List.find?_some hfind
  exact keeps_accepted_onTree NoLink (Editor.relinks_create component)
    (Editor.keeps_create hdefaults (hid ▸ hfind))

theorem keeps_accepted_place (hdefaults : registry.AcceptsDefaults) (target : NodeId)
    (payload : DragPayload) :
    Keeps (Accepted registry) (Drop.place registry target payload) := by
  rw [Drop.place]
  cases payload.subject with
  | move moved => exact (keeps_accepted_pushStructural rfl).bind fun _ => .pure moved
  | create =>
      dsimp only
      cases hfind : registry.find? payload.component with
      | none =>
          rw [Registry.require_error hfind]
          exact fun _ h => h
      | some component =>
          rw [Registry.require_ok hfind]
          refine (keeps_accepted_create hdefaults hfind).bind fun node => ?_
          exact (keeps_accepted_pushStructural rfl).bind fun _ => .pure node

theorem keeps_accepted_drop (hdefaults : registry.AcceptsDefaults) (target : NodeId)
    (payload : DragPayload) :
    Keeps (Accepted registry) (Drop.perform registry target payload) := by
  refine Keeps.get.bind fun session => ?_
  cases Drop.check registry session.tree target payload with
  | error reason => exact .pure _
  | ok done => exact (keeps_accepted_place hdefaults target payload).bind fun _ => .pure _

theorem Accepted.gesture (hdefaults : registry.AcceptsDefaults) {session : Session}
    (h : session.Accepted registry) (gesture : Gesture) :
    (gesture.perform registry session).Accepted registry := by
  cases gesture with
  | drop target payload => exact keeps_accepted_drop hdefaults target payload session h
  | delete node => exact keeps_accepted_pushStructural rfl session h
  | reorder parent first second => exact keeps_accepted_pushStructural rfl session h
  | select node => exact keeps_accepted_select node session h
  | set node name datum =>
      exact keeps_accepted_onTree NoLink (Editor.relinks_setProperty node name datum)
        (Editor.keeps_setProperty node name datum) session h
  | changed => exact keeps_accepted_objectChanged session h
  | undo => exact keeps_accepted_onJournal (fun _ => Journal.keeps_accepted_undo) session h
  | revert =>
      exact keeps_accepted_onJournal
        (fun _ => Journal.keeps_revert_of_undo Journal.keeps_accepted_undo) session h
  | clear => exact Journal.Accepted.of_sublist h (List.nil_sublist _)

theorem Accepted.perform (hdefaults : registry.AcceptsDefaults) {session : Session}
    (h : session.Accepted registry) (call : ClientCall) :
    (call.perform registry session).Accepted registry := by
  cases call with
  | gesture made => exact h.gesture hdefaults made
  | instantiate id =>
      rw [ClientCall.perform]
      cases hfind : registry.find? id with
      | none => exact h
      | some component => exact keeps_accepted_create hdefaults hfind session h
  | reparent node target => exact keeps_accepted_pushStructural rfl session h
  | created node parent => exact keeps_accepted_pushStructural rfl session h

theorem accepted_start : (start Tree.empty).Accepted registry where
  wellFormed := Tree.empty_wellFormed
  accepted := fun _ _ hnode => nomatch hnode
  kept := fun _ _ ⟨_, hchosen⟩ => nomatch hchosen
  logged := fun _ hentry => (List.not_mem_nil hentry).elim

theorem Accepted.run (hdefaults : registry.AcceptsDefaults) {session : Session}
    (h : session.Accepted registry) (calls : List ClientCall) :
    (calls.foldl (ClientCall.perform registry) session).Accepted registry := by
  induction calls generalizing session with
  | nil => exact h
  | cons call rest ih => exact ih (h.perform hdefaults call)

end Session

namespace Catalog

theorem accepts_default : ∀ property ∈ properties,
    property.default?.all (fun datum => property.accepts datum.value) = true := by
  decide +kernel

theorem acceptsDefaults_of_build {settings : RenderSettings} {registry : Registry}
    (h : Registry.build standard settings = .ok registry) : registry.AcceptsDefaults := by
  intro component hmem property hproperty datum hdefault
  have haccepts := accepts_default property (mem_properties_of_build h hmem hproperty)
  rwa [hdefault, Option.all_some] at haccepts

end Catalog

namespace Session

/-- Where every property accepts its own default, which is so in the catalog, all values in the
tree of a session belong to properties of their components that accept them: whatever is made,
dropped, set, selected and taken back from an empty tree on, and whether it succeeds or fails. -/
theorem accepted_calls :
    (∀ registry : Registry, registry.AcceptsDefaults → ∀ calls : List ClientCall, ∀ id node,
      (calls.foldl (ClientCall.perform registry) (start Tree.empty)).tree.node? id = some node →
        registry.Accepts node) ∧
    ∀ settings registry, Registry.build Catalog.standard settings = .ok registry →
      registry.AcceptsDefaults := by
  constructor
  · intro registry hdefaults calls
    exact (accepted_start.run hdefaults calls).accepted
  · intro settings registry h
    exact Catalog.acceptsDefaults_of_build h

/-- A text is made and selected, its label is set and set again to what it cannot be, and all
of it is taken back. -/
theorem accepted_calls_of_label :
    Registry.labels.AcceptsDefaults ∧
    ∃ calls : List ClientCall,
      ((calls.foldl (ClientCall.perform Registry.labels) (start Tree.empty)).tree.node? 0).map
        Node.fields = some (.single "label" (.string "")) ∧
      ∀ id node,
        (calls.foldl (ClientCall.perform Registry.labels) (start Tree.empty)).tree.node? id =
          some node → Registry.labels.Accepts node := by
  have hdefaults : Registry.labels.AcceptsDefaults := by
    intro component hcomponent property hproperty datum hdatum
    cases List.mem_singleton.mp hcomponent
    cases List.mem_singleton.mp hproperty
    cases hdatum
    rfl
  refine ⟨hdefaults, [.instantiate "text", .gesture (.select (some 0)),
    .gesture (.set 0 "label" (.string "Name")), .gesture .changed,
    .gesture (.set 0 "label" (.bool true)), .gesture .revert], ?_, ?_⟩
  · rfl
  · exact accepted_calls.1 Registry.labels hdefaults _

end Session

end FormDesigner
