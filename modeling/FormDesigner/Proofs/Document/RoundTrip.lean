import FormDesigner.Document.Basic
import FormDesigner.Proofs.Editor.Filling

/-!
Saving a form and loading it again.

The three steps between a node and its image each keep what the comparison sees:
the copy of the declared values, the removal of what counts as the default, and
the defaults that are stored on loading.
-/

namespace FormDesigner

open Program

namespace Editor

variable {registry : Registry} {tree : Tree}

/-- The blueprint holds a copy of the node's values, and the children are copied
alike. -/
theorem of_copyBelow_ok {bound : Nat} {id : NodeId} {copy : Blueprint}
    (h : copyBelow registry tree (bound + 1) id = .ok copy) :
    ∃ node component, tree.node? id = some node ∧
      registry.find? node.component = some component ∧ copy.component = node.component ∧
      copy.fields = component.visibleProperties.foldl (copyProperty node.fields) .empty ∧
      List.Forall₂ (fun child below => copyBelow registry tree bound child = .ok below)
        (tree.children id) copy.childList := by
  rw [copyBelow] at h
  obtain ⟨single, hsingle, hbelow⟩ := Answer.of_bind_ok h
  obtain ⟨node, component, hnode, hfind, rfl⟩ := of_copyNode_ok hsingle
  rw [hnode, Option.bind_some] at hbelow
  cases hchildren : node.children with
  | none =>
      simp only [hchildren] at hbelow
      cases hbelow
      refine ⟨node, component, hnode, hfind, rfl, rfl, ?_⟩
      rw [Tree.children, hnode, Option.map_some, Option.getD_some, Node.childList, hchildren]
      exact .nil
  | some children =>
      simp only [hchildren] at hbelow
      obtain ⟨copies, hcopies, hlast⟩ := Answer.of_bind_ok hbelow
      cases hlast
      refine ⟨node, component, hnode, hfind, rfl, rfl, ?_⟩
      rw [Tree.children, hnode, Option.map_some, Option.getD_some, Node.childList, hchildren]
      exact Answer.forall₂_of_mapM_ok hcopies

/-- With as many levels as there are nodes, every node of known components below it
can be copied. -/
theorem copyBelow_ok (h : tree.WellFormed) {bound : Nat} {id : NodeId} (hid : id < tree.size)
    (hbound : tree.size < bound + (tree.lineage (tree.size + 1) id).length)
    (hknown : ∀ below node, below = id ∨ tree.Ancestor id below → tree.node? below = some node →
      ∃ component, registry.find? node.component = some component) :
    ∃ copy, copyBelow registry tree bound id = .ok copy := by
  induction bound generalizing id with
  | zero =>
      have hlength := h.length_lineage_le hid (tree.size + 1)
      omega
  | succ bound ih =>
      obtain ⟨node, hnode⟩ := Tree.exists_node?_of_lt hid
      obtain ⟨component, hfind⟩ := hknown id node (Or.inl rfl) hnode
      rw [copyBelow, copyNode_ok hnode hfind, hnode, Option.bind_some]
      cases hchildren : node.children with
      | none => exact ⟨_, rfl⟩
      | some children =>
          have hlist : tree.children id = children := by
            simp [Tree.children, hnode, Node.childList, hchildren]
          have hall : ∀ child ∈ children,
              ∃ copy, copyBelow registry tree bound child = .ok copy := by
            intro child hmem
            have hparent := h.mem_children_iff.1 (hlist.symm ▸ hmem)
            refine ih (Tree.lt_size_of_parent? hparent) ?_ fun below node hbelow => ?_
            · rw [h.length_lineage_child hparent]
              omega
            · refine hknown below node (Or.inr ?_)
              rcases hbelow with rfl | hline
              · exact .parent hparent
              · exact Tree.Ancestor.trans (.parent hparent) hline
          obtain ⟨copies, hcopies⟩ := Answer.exists_mapM_ok hall
          refine ⟨⟨node.component,
            component.visibleProperties.foldl (copyProperty node.fields) .empty, some copies⟩, ?_⟩
          change (children.mapM (copyBelow registry tree bound) >>= fun copies => _) = _
          rw [hcopies]
          rfl

/-- The elements of a copy are of known components. -/
theorem checkKnown_of_copyBelow {bound : Nat} {id : NodeId} {copy : Blueprint}
    (h : copyBelow registry tree bound id = .ok copy) : checkKnown registry copy = .ok () := by
  induction bound generalizing id copy with
  | zero => cases h
  | succ bound ih =>
      obtain ⟨node, component, _, hfind, hname, _, hchildren⟩ := of_copyBelow_ok h
      refine checkKnown_iff.2 ⟨⟨component, hname ▸ hfind⟩, fun child hmem => ?_⟩
      obtain ⟨index, hindex⟩ := List.getElem?_of_mem hmem
      have hplace := rel_getElem? hchildren index
      rw [hindex] at hplace
      generalize (tree.children id)[index]? = source at hplace
      cases hplace with
      | some hcopy => exact ih hcopy

/-- A path leads to corresponding places in a tree and in a copy. -/
theorem descend_copyBelow {bound : Nat} {id : NodeId} {copy : Blueprint}
    (h : copyBelow registry tree bound id = .ok copy) (path : List Nat) :
    Option.Rel (fun place found => ∃ bound, copyBelow registry tree bound place = .ok found)
      (tree.descend id path) (copy.descend path) := by
  induction path generalizing bound id copy with
  | nil => exact .some ⟨bound, h⟩
  | cons index rest ih =>
      cases bound with
      | zero => cases h
      | succ bound =>
          obtain ⟨_, _, _, _, _, _, hchildren⟩ := of_copyBelow_ok h
          exact rel_bind (rel_getElem? hchildren index) fun _ _ hcopy => ih hcopy

/-- One level of stripping. -/
theorem strip_eq {blueprint : Blueprint} {component : Component}
    (hfind : registry.find? blueprint.component = some component) :
    ∃ children, children.getD [] = (stripAll registry blueprint.childList).1 ∧
      strip registry blueprint =
        (⟨blueprint.component, component.deleteDefaults blueprint.fields, children⟩,
          (stripAll registry blueprint.childList).2) := by
  obtain ⟨id, fields, children⟩ := blueprint
  rw [strip, Registry.require_ok hfind]
  cases children with
  | none => exact ⟨none, rfl, rfl⟩
  | some children =>
      cases children with
      | nil => exact ⟨none, rfl, rfl⟩
      | cons first rest => exact ⟨_, rfl, rfl⟩

theorem of_stripAll_ok {children stripped : List Blueprint}
    (h : stripAll registry children = (stripped, none)) :
    List.Forall₂ (fun child other => strip registry child = (other, none)) children stripped := by
  induction children generalizing stripped with
  | nil =>
      rw [stripAll] at h
      cases h
      exact .nil
  | cons child rest ih =>
      rw [stripAll] at h
      rcases hfirst : strip registry child with ⟨first, failure⟩
      cases failure with
      | some failure =>
          simp only [hfirst] at h
          cases h
      | none =>
          rcases hothers : stripAll registry rest with ⟨others, failure⟩
          simp only [hfirst, hothers] at h
          cases h
          exact .cons hfirst (ih hothers)

/-- Stripping keeps the components, the shape and, but for the defaults, the
values. -/
theorem of_strip_ok {blueprint stripped : Blueprint}
    (h : strip registry blueprint = (stripped, none)) :
    ∃ component, registry.find? blueprint.component = some component ∧
      stripped.component = blueprint.component ∧
      stripped.fields = component.deleteDefaults blueprint.fields ∧
      List.Forall₂ (fun child other => strip registry child = (other, none))
        blueprint.childList stripped.childList := by
  cases hfind : registry.find? blueprint.component with
  | none =>
      obtain ⟨id, fields, children⟩ := blueprint
      rw [strip, Registry.require_error hfind] at h
      cases h
  | some component =>
      obtain ⟨children, hchildren, hstrip⟩ := strip_eq hfind
      rcases hothers : stripAll registry blueprint.childList with ⟨others, failure⟩
      rw [hothers] at hchildren hstrip
      rw [hstrip] at h
      cases h
      refine ⟨component, rfl, rfl, rfl, ?_⟩
      rw [show Blueprint.childList ⟨_, _, children⟩ = others from hchildren]
      exact of_stripAll_ok hothers

mutual

/-- A blueprint of known components can be stripped, and then it still is one. -/
theorem strip_ok : ∀ blueprint : Blueprint, checkKnown registry blueprint = .ok () →
    (strip registry blueprint).2 = none ∧
      checkKnown registry (strip registry blueprint).1 = .ok ()
  | ⟨id, fields, none⟩, h => by
      obtain ⟨⟨component, hfind⟩, _⟩ := checkKnown_iff.1 h
      obtain ⟨children, hchildren, hstrip⟩ := strip_eq hfind
      rw [hstrip]
      refine ⟨rfl, checkKnown_iff.2 ⟨⟨component, hfind⟩, fun child hmem => ?_⟩⟩
      rw [show Blueprint.childList ⟨_, _, children⟩ = [] from hchildren] at hmem
      cases hmem
  | ⟨id, fields, some list⟩, h => by
      obtain ⟨⟨component, hfind⟩, hknown⟩ := checkKnown_iff.1 h
      obtain ⟨children, hchildren, hstrip⟩ := strip_eq hfind
      obtain ⟨hnone, hall⟩ := stripAll_ok list hknown
      rw [hstrip]
      refine ⟨hnone, checkKnown_iff.2 ⟨⟨component, hfind⟩, fun child hmem => ?_⟩⟩
      rw [show Blueprint.childList ⟨_, _, children⟩ = _ from hchildren] at hmem
      exact hall child hmem

theorem stripAll_ok : ∀ children : List Blueprint,
    (∀ child ∈ children, checkKnown registry child = .ok ()) →
      (stripAll registry children).2 = none ∧
        ∀ child ∈ (stripAll registry children).1, checkKnown registry child = .ok ()
  | [], _ => by
      rw [stripAll]
      exact ⟨rfl, fun _ hmem => absurd hmem List.not_mem_nil⟩
  | child :: rest, h => by
      obtain ⟨hnone, hknown⟩ := strip_ok child (h child List.mem_cons_self)
      obtain ⟨hrest, hall⟩ := stripAll_ok rest fun other hmem =>
        h other (List.mem_cons_of_mem _ hmem)
      rcases hfirst : strip registry child with ⟨first, failure⟩
      rw [hfirst] at hnone hknown
      cases hnone
      rw [stripAll, hfirst]
      exact ⟨hrest, List.forall_mem_cons.2 ⟨hknown, hall⟩⟩

end

/-- A path leads to corresponding places before and after stripping. -/
theorem descend_strip {blueprint stripped : Blueprint}
    (h : strip registry blueprint = (stripped, none)) (path : List Nat) :
    Option.Rel (fun found other => strip registry found = (other, none))
      (blueprint.descend path) (stripped.descend path) := by
  induction path generalizing blueprint stripped with
  | nil => exact .some h
  | cons index rest ih =>
      obtain ⟨_, _, _, _, hchildren⟩ := of_strip_ok h
      exact rel_bind (rel_getElem? hchildren index) fun _ _ hstrip => ih hstrip

end Editor

namespace Document

variable {registry : Registry} {tree : Tree}

/-- The image of a node after saving and loading. -/
structure Reloaded (registry : Registry) (saved loaded : Node) : Prop where
  component : loaded.component = saved.component
  children : loaded.childList.length = saved.childList.length
  same : Editor.differs registry saved.component saved.fields loaded.fields = .ok false
  same' : Editor.differs registry loaded.component loaded.fields saved.fields = .ok false
  defaults : ∀ component, registry.find? loaded.component = some component →
    component.Complete loaded.fields

/-- One node through all the steps. -/
theorem reloaded_of_steps {bound : Nat} {id : NodeId} {copy stripped : Blueprint}
    {saved planted loaded : Node} (hcopy : Editor.copyBelow registry tree bound id = .ok copy)
    (hstrip : Editor.strip registry copy = (stripped, none))
    (hsaved : tree.node? id = some saved)
    (hcomponent : planted.component = stripped.component)
    (hfields : planted.fields = stripped.fields)
    (hchildren : planted.childList.length = stripped.childList.length)
    (hfilled : Editor.Filled registry planted loaded)
    (hcomplete : ∀ component, registry.find? planted.component = some component →
      component.Complete loaded.fields) : Reloaded registry saved loaded := by
  cases bound with
  | zero => cases hcopy
  | succ bound =>
      obtain ⟨node, component, hnode, hfind, hname, hvalues, hbelow⟩ := Editor.of_copyBelow_ok hcopy
      cases hnode.symm.trans hsaved
      obtain ⟨same, hsame, hname', hvalues', hbelow'⟩ := Editor.of_strip_ok hstrip
      rw [hname, hfind] at hsame
      cases hsame
      have hall : planted.component = saved.component := hcomponent.trans (hname'.trans hname)
      have hseen : registry.view saved.component loaded.fields =
          registry.view saved.component saved.fields := by
        have hview := hfilled.seen
        rw [hall] at hview
        rw [hview, hfields, hvalues', hvalues, Registry.view_of_find? hfind,
          component.view_deleteDefaults, ← Registry.view_of_find? hfind]
        exact Editor.view_copy hfind saved.fields .empty
      refine ⟨hfilled.component.trans hall, ?_, ?_, ?_, ?_⟩
      · have hlist : tree.children id = saved.childList := by
          rw [Tree.children, hsaved]
          rfl
        rw [Node.childList, hfilled.children]
        exact hchildren.trans (hbelow'.length_eq.symm.trans
          (hbelow.length_eq.symm.trans (congrArg List.length hlist)))
      · exact (Editor.differs_eq_false_iff hfind _ _).2 hseen.symm
      · rw [hfilled.component, hall]
        exact (Editor.differs_eq_false_iff hfind _ _).2 hseen
      · rw [hfilled.component]
        exact hcomplete

/-- Loading a document of the current format is instantiating what is in it. -/
theorem load_of_version {document : Document} (hversion : document.version = currentVersion)
    (target : Tree) : load registry document target =
      (Editor.instantiate registry document.root).adaptExcept DocumentError.editor target := by
  rw [load, if_neg (not_not.mpr hversion)]

/-- Every node below which all components are known can be saved. -/
theorem export_ok (h : tree.WellFormed) {root : NodeId} (hroot : root < tree.size)
    (hknown : ∀ id node, id = root ∨ tree.Ancestor root id → tree.node? id = some node →
      ∃ component, registry.find? node.component = some component) :
    ∃ copy stripped, Editor.copyBelow registry tree tree.size root = .ok copy ∧
      Editor.strip registry copy = (stripped, none) ∧
      Editor.checkKnown registry stripped = .ok () ∧
      Document.export registry tree root = .ok (ofRoot stripped) := by
  have hbound : tree.size < tree.size + (tree.lineage (tree.size + 1) root).length := by
    have hpositive : 0 < (tree.lineage (tree.size + 1) root).length := by simp [Tree.lineage]
    omega
  obtain ⟨copy, hcopy⟩ := Editor.copyBelow_ok h hroot hbound hknown
  obtain ⟨hnone, hstripped⟩ := Editor.strip_ok copy (Editor.checkKnown_of_copyBelow hcopy)
  rcases hstrip : Editor.strip registry copy with ⟨stripped, failure⟩
  rw [hstrip] at hnone hstripped
  cases hnone
  refine ⟨copy, stripped, hcopy, hstrip, hstripped, ?_⟩
  have hmapped :
      (Editor.copySubtree registry tree root).mapError DocumentError.editor = .ok copy := by
    rw [Editor.copySubtree, hcopy]
    rfl
  rw [Document.export, hmapped]
  dsimp only [bind, Except.bind]
  rw [hstrip]
  rfl

/-- A form that is saved and loaded again comes out as a subtree of its own, of the
same components in the same places.  No node differs from the one that it stands for, and
no default is missing. -/
theorem load_export (htree : tree.WellFormed) {root : NodeId} (hroot : root < tree.size)
    (hknown : ∀ id node, id = root ∨ tree.Ancestor root id → tree.node? id = some node →
      ∃ component, registry.find? node.component = some component)
    {target : Tree} (htarget : target.WellFormed) :
    ∃ document loaded after, Document.export registry tree root = .ok document ∧
      load registry document target = .ok loaded after ∧ after.WellFormed ∧
      after.parent? loaded = none ∧
      (∀ id < target.size, after.node? id = target.node? id) ∧
      ∀ path, Option.Rel (fun id copy => ∃ saved found, tree.node? id = some saved ∧
          after.node? copy = some found ∧ Reloaded registry saved found)
        (tree.descend root path) (after.descend loaded path) := by
  obtain ⟨copy, stripped, hcopy, hstrip, hstripped, hexport⟩ := export_ok htree hroot hknown
  obtain ⟨after, hinstantiate, hfilled⟩ :=
    Editor.instantiate_ok target hstripped
  have hplant := htarget.plant stripped
  refine ⟨ofRoot stripped, target.size, after, hexport, ?_, hplant.of_links_eq hfilled.links, ?_,
    fun id hid => hfilled.node?_of_lt hid, fun path => ?_⟩
  · rw [load_of_version rfl]
    exact adaptExcept_ok hinstantiate
  · rw [Tree.parent?_eq_links, hfilled.links, ← Tree.parent?_eq_links, Tree.parent?_plant_root]
  · rw [Tree.descend_of_links_eq hfilled.links]
    have hsteps := rel_comp (rel_comp (Editor.descend_copyBelow hcopy path)
      (Editor.descend_strip hstrip path)) ((target.holds_plant stripped).descend path)
    refine rel_imp hsteps fun id place hid hplace hstep => ?_
    obtain ⟨other, ⟨copied, ⟨bound, hcopied⟩, hother⟩, hholds⟩ := hstep
    obtain ⟨saved, hsaved⟩ := Tree.exists_node?_of_lt (htree.lt_size_of_descend hroot hid)
    obtain ⟨parent, hnode⟩ := hholds.node
    obtain ⟨found, hfound, hfill, hcomplete, _⟩ := hfilled.node place _ hnode
    have hmem : place ∈ (target.plant stripped).2.descendants target.size :=
      (hplant.mem_descendants_iff (target.size_lt_size_plant stripped)).2 ⟨path, hplace⟩
    refine ⟨saved, found, hsaved, hfound, reloaded_of_steps hcopied hother hsaved rfl rfl
      ?_ hfill (hcomplete hmem)⟩
    rw [Node.childList, Blueprint.childList]
    cases other.children <;> simp

/-- Two nodes are saved and loaded into a tree that holds the same two. -/
theorem load_export_of_labels :
    Registry.build [{ id := "text", own := [⟨0, { name := "label", type := .string }⟩] }] {} =
      .ok Registry.labels ∧ Tree.labels.WellFormed ∧ 0 < Tree.labels.size ∧
    Tree.labels.Declared Registry.labels ∧
    ∃ document loaded after, Document.export Registry.labels Tree.labels 0 = .ok document ∧
      load Registry.labels document Tree.labels = .ok loaded after ∧
      after.parent? loaded = none := by
  have htree : Tree.labels.WellFormed := Tree.empty_wellFormed.plant _
  have hbuild : Registry.build
      [{ id := "text", own := [⟨0, { name := "label", type := .string }⟩] }] {} =
        .ok Registry.labels := rfl
  have hroot : 0 < Tree.labels.size := by decide
  obtain ⟨document, loaded, after, hexport, hload, _, hparent, _⟩ :=
    load_export htree hroot (fun id node _ hnode => Tree.labels_declared id node hnode) htree
  exact ⟨hbuild, htree, hroot, Tree.labels_declared, document, loaded, after, hexport, hload,
    hparent⟩

end Document

end FormDesigner
