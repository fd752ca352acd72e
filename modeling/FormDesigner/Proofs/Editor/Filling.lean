import FormDesigner.Editor.Basic
import FormDesigner.Proofs.Editor.Defaults
import FormDesigner.Proofs.Tree.Walking

/-!
Instantiating a blueprint.

A blueprint of known components can always be instantiated.  Its nodes then have
all their defaults and are seen as its elements are; the other nodes of the tree are as
they were.
-/

namespace FormDesigner

open Program

namespace Editor

variable {registry : Registry}

theorem checkAllKnown_iff {children : List Blueprint} :
    checkAllKnown registry children = .ok () ↔
      ∀ child ∈ children, checkKnown registry child = .ok () := by
  induction children with
  | nil => simp [checkAllKnown]
  | cons child rest ih =>
      rw [checkAllKnown, List.forall_mem_cons, ← ih]
      constructor
      · intro h
        obtain ⟨first, hfirst, hrest⟩ := Answer.of_bind_ok h
        exact ⟨hfirst, hrest⟩
      · rintro ⟨hfirst, hrest⟩
        rw [hfirst]
        exact hrest

theorem checkKnown_eq (registry : Registry) (blueprint : Blueprint) :
    checkKnown registry blueprint =
      (registry.require blueprint.component >>= fun _ =>
        checkAllKnown registry blueprint.childList) := by
  obtain ⟨id, fields, children⟩ := blueprint
  cases children with
  | none =>
      rw [checkKnown]
      rfl
  | some children =>
      rw [checkKnown]
      rfl

theorem checkKnown_iff {blueprint : Blueprint} :
    checkKnown registry blueprint = .ok () ↔
      (∃ component, registry.find? blueprint.component = some component) ∧
        ∀ child ∈ blueprint.childList, checkKnown registry child = .ok () := by
  rw [checkKnown_eq, ← checkAllKnown_iff]
  cases hfind : registry.find? blueprint.component with
  | none =>
      rw [Registry.require_error hfind]
      constructor
      · intro h
        cases h
      · rintro ⟨⟨_, hsome⟩, _⟩
        cases hsome
  | some component =>
      rw [Registry.require_ok hfind]
      exact ⟨fun h => ⟨⟨component, rfl⟩, h⟩, fun h => h.2⟩

mutual

/-- The check looks up every element. -/
theorem checkKnown_iff_elements : ∀ blueprint : Blueprint,
    checkKnown registry blueprint = .ok () ↔
      ∀ element ∈ blueprint.elements, ∃ component, registry.find? element.component = some component
  | ⟨_, _, none⟩ => by
      rw [checkKnown_iff, Blueprint.elements]
      simp [Blueprint.childList]
  | ⟨_, _, some children⟩ => by
      rw [checkKnown_iff, Blueprint.elements, List.forall_mem_cons, Blueprint.childList,
        Option.getD_some, ← checkAllKnown_iff, checkAllKnown_iff_elements children]

theorem checkAllKnown_iff_elements : ∀ children : List Blueprint,
    checkAllKnown registry children = .ok () ↔
      ∀ element ∈ Blueprint.elementsAll children,
        ∃ component, registry.find? element.component = some component
  | [] => by simp [checkAllKnown, Blueprint.elementsAll]
  | child :: rest => by
      rw [Blueprint.elementsAll, List.forall_mem_append, ← checkKnown_iff_elements child,
        ← checkAllKnown_iff_elements rest, checkAllKnown_iff, checkAllKnown_iff,
        List.forall_mem_cons]

end

/-- The tree after the defaults of the listed nodes were stored. -/
structure Defaulted (registry : Registry) (ids : List NodeId) (tree after : Tree) : Prop where
  links : after.links = tree.links
  filled : ∀ id ∈ ids, ∀ node component, tree.node? id = some node →
    registry.find? node.component = some component →
      after.node? id = some (component.withDefaults node)
  kept : ∀ id, id ∉ ids → after.node? id = tree.node? id

theorem fillNode_apply {id : NodeId} {tree : Tree} {node : Node} {component : Component}
    (hnode : tree.node? id = some node) (hfind : registry.find? node.component = some component) :
    fillNode registry id tree = .ok () (tree.mapNode id component.withDefaults) := by
  have hfound : onTree (Tree.requireNode id) tree = .ok node tree :=
    adaptExcept_ok (Tree.requireNode_ok hnode)
  rw [fillNode, bind_ok hfound, Registry.require_ok hfind]
  exact adaptExcept_ok (Tree.update_ok (Tree.lt_size_of_node? hnode) _)

theorem requireNode_cases (id : NodeId) (tree : Tree) :
    (∃ failure, onTree (Tree.requireNode id) tree = .error failure tree) ∨
      ∃ node, tree.node? id = some node ∧
        onTree (Tree.requireNode id) tree = .ok node tree := by
  by_cases hid : id < tree.size
  · obtain ⟨node, hnode⟩ := Tree.exists_node?_of_lt hid
    exact .inr ⟨node, hnode, adaptExcept_ok (Tree.requireNode_ok hnode)⟩
  · exact .inl ⟨_, adaptExcept_error (Tree.requireNode_error (Nat.le_of_not_lt hid))⟩

/-- Filling a node fails without effect, or stores the defaults of a known component. -/
theorem fillNode_cases (registry : Registry) (id : NodeId) (tree : Tree) :
    (∃ failure, fillNode registry id tree = .error failure tree) ∨
      ∃ node component, tree.node? id = some node ∧
        registry.find? node.component = some component ∧
        fillNode registry id tree = .ok () (tree.mapNode id component.withDefaults) := by
  rcases requireNode_cases id tree with ⟨failure, hfailed⟩ | ⟨node, hnode, hfound⟩
  · exact .inl ⟨failure, bind_error hfailed⟩
  · cases hfind : registry.find? node.component with
    | none =>
        left
        rw [fillNode, bind_ok hfound, Registry.require_error hfind]
        exact ⟨_, rfl⟩
    | some component => exact .inr ⟨node, component, hnode, hfind, fillNode_apply hnode hfind⟩

/-- Nodes that could be filled are of known components. -/
theorem known_of_fillNodes {ids : List NodeId} {tree after : Tree}
    (h : ids.forM (fillNode registry) tree = .ok () after) :
    ∀ id ∈ ids, ∃ node component, tree.node? id = some node ∧
      registry.find? node.component = some component := by
  induction ids generalizing tree with
  | nil => exact fun _ hmem => absurd hmem List.not_mem_nil
  | cons first rest ih =>
      change (fillNode registry first >>= fun _ => rest.forM (fillNode registry)) tree = _ at h
      rcases fillNode_cases registry first tree with ⟨failure, hfailed⟩ |
        ⟨node, component, hnode, hfind, hfilled⟩
      · rw [bind_error hfailed] at h
        cases h
      · rw [bind_ok hfilled] at h
        intro id hmem
        rcases List.mem_cons.mp hmem with rfl | hlater
        · exact ⟨node, component, hnode, hfind⟩
        · obtain ⟨live, found, hlive, hknown⟩ := ih h id hlater
          -- The filled node has its component still, should it be listed once more.
          rw [Tree.node?_mapNode] at hlive
          split at hlive
          · obtain ⟨old, hold, rfl⟩ := Option.map_eq_some_iff.mp hlive
            exact ⟨old, found, hold, hknown⟩
          · exact ⟨live, found, hlive, hknown⟩

/-- Every node is filled once. -/
theorem fillNodes_once {ids : List NodeId} (hids : ids.Nodup) {tree : Tree}
    (h : ∀ id ∈ ids, ∃ node component, tree.node? id = some node ∧
      registry.find? node.component = some component) :
    ∃ after, ids.forM (fillNode registry) tree = .ok () after ∧
      Defaulted registry ids tree after := by
  induction ids generalizing tree with
  | nil => exact ⟨tree, rfl, rfl, fun _ hmem => absurd hmem List.not_mem_nil, fun _ _ => rfl⟩
  | cons first rest ih =>
      obtain ⟨hfirst, hrest⟩ := List.nodup_cons.mp hids
      obtain ⟨live, found, hlive, hfind⟩ := h first List.mem_cons_self
      have hothers : ∀ id, id ≠ first →
          (tree.mapNode first found.withDefaults).node? id = tree.node? id := by
        intro id hne
        rw [Tree.node?_mapNode, if_neg hne]
      have hknown : ∀ id ∈ rest, ∃ node component,
          (tree.mapNode first found.withDefaults).node? id = some node ∧
            registry.find? node.component = some component := by
        intro id hmem
        rw [hothers id (fun heq => hfirst (heq ▸ hmem))]
        exact h id (List.mem_cons_of_mem first hmem)
      obtain ⟨after, hrun, hdefaulted⟩ := ih hrest hknown
      refine ⟨after, ?_, ?_, ?_, ?_⟩
      · change (fillNode registry first >>= fun _ => rest.forM (fillNode registry)) tree = _
        rw [bind_ok (fillNode_apply hlive hfind)]
        exact hrun
      · exact hdefaulted.links.trans (Tree.links_mapNode_of_links_eq tree first fun _ => rfl)
      · intro id hmem node component hnode hcomponent
        rcases List.mem_cons.mp hmem with rfl | hlater
        · cases hlive.symm.trans hnode
          cases hfind.symm.trans hcomponent
          rw [hdefaulted.kept id hfirst, Tree.node?_mapNode, if_pos rfl, hlive]
          rfl
        · apply hdefaulted.filled id hlater node component _ hcomponent
          rwa [hothers id fun heq => hfirst (heq ▸ hlater)]
      · intro id hmem
        obtain ⟨hne, hlater⟩ := not_or.mp (List.mem_cons.not.mp hmem)
        rw [hdefaulted.kept id hlater, hothers id hne]

/-- A blueprint of known components is instantiated if the defaults of its nodes can be stored. -/
theorem instantiate_of_fill {tree after : Tree} {blueprint : Blueprint}
    (hknown : checkKnown registry blueprint = .ok ())
    (hfill : ((tree.plant blueprint).2.descendants tree.size).forM (fillNode registry)
      (tree.plant blueprint).2 = .ok () after) :
    instantiate registry blueprint tree = .ok tree.size after := by
  have hroot : (tree.plant blueprint).1 = tree.size := by rw [Tree.plant_eq]
  rw [instantiate, hknown]
  change ((modifyGet fun tree => tree.plant blueprint) >>= fun root =>
    connect registry root >>= fun _ => pure root) tree = _
  rw [bind_ok (modifyGet_apply _ tree), hroot]
  have hrelink : onTree (Tree.relink tree.size) (tree.plant blueprint).2 =
      .ok () (tree.plant blueprint).2 := adaptExcept_ok (tree.relink_plant blueprint)
  have hconnect : connect registry tree.size (tree.plant blueprint).2 = .ok () after := by
    rw [connect, bind_ok hrelink, bind_ok (get_apply _)]
    exact hfill
  exact bind_ok hconnect

/-- The nodes of a planted blueprint of known components are of known components. -/
theorem known_of_mem_range' {tree : Tree} {blueprint : Blueprint}
    (hknown : checkKnown registry blueprint = .ok ()) {id : NodeId}
    (hmem : id ∈ List.range' tree.size blueprint.count) :
    ∃ node component, (tree.plant blueprint).2.node? id = some node ∧
      registry.find? node.component = some component := by
  obtain ⟨offset, hoffset, rfl⟩ := List.mem_range'.mp hmem
  rw [← blueprint.length_elements] at hoffset
  have helement := List.getElem?_eq_getElem hoffset
  obtain ⟨node, hnode, hlays⟩ := tree.exists_node?_plant helement
  obtain ⟨component, hfind⟩ :=
    (checkKnown_iff_elements blueprint).mp hknown _ (List.getElem_mem hoffset)
  exact ⟨node, component, by rwa [Nat.one_mul], hlays.component ▸ hfind⟩

/-- Instantiating a blueprint of known components fills each of its nodes once. -/
theorem instantiate_once (tree : Tree) {blueprint : Blueprint}
    (hknown : checkKnown registry blueprint = .ok ()) :
    ∃ after, instantiate registry blueprint tree = .ok tree.size after ∧
      Defaulted registry (List.range' tree.size blueprint.count)
        (tree.plant blueprint).2 after := by
  obtain ⟨after, hfill, hdefaulted⟩ :=
    fillNodes_once (List.nodup_range' (n := blueprint.count)) fun _ => known_of_mem_range' hknown
  rw [← tree.descendants_plant blueprint] at hfill
  exact ⟨after, instantiate_of_fill hknown hfill, hdefaulted⟩

/-- A new element of a known component is added behind the other nodes, which stay as they are. -/
theorem create_ok (tree : Tree) {component : Component}
    (hfind : registry.find? component.id = some component) :
    ∃ node, instantiate registry component.create tree = .ok tree.size (tree.insert node).2 ∧
      node.component = component.id ∧ node.children = some [] := by
  let planted : Node := ⟨component.id, component.addDefaults .empty, some [], none⟩
  have hplant : (tree.plant component.create).2 = tree.grow [planted] := by
    rw [Tree.plant_eq]
    rfl
  have hnode : (tree.grow [planted]).node? tree.size = some planted := by
    rw [Tree.node?_grow, if_neg (Nat.lt_irrefl _), Nat.sub_self]
    rfl
  have hknown : checkKnown registry component.create = .ok () :=
    checkKnown_iff.2 ⟨⟨component, hfind⟩, nofun⟩
  have hleaf : (tree.grow [planted]).descendants tree.size = [tree.size] := by
    rw [Tree.descendants_of_lt (Tree.lt_size_of_node? hnode), Tree.size_grow,
      List.length_singleton, Tree.preorder, Tree.children_of_node? hnode]
    rfl
  refine ⟨component.withDefaults planted, ?_, rfl, rfl⟩
  apply instantiate_of_fill hknown
  rw [hplant, hleaf]
  change (fillNode registry tree.size >>= fun _ => pure ()) _ = _
  rw [bind_ok (fillNode_apply hnode hfind), Tree.mapNode_size_grow, Tree.insert_eq]
  rfl

/-- A node with some of its missing defaults stored. -/
structure Filled (registry : Registry) (node found : Node) : Prop where
  component : found.component = node.component
  children : found.children = node.children
  seen : registry.view node.component found.fields = registry.view node.component node.fields
  kept : ∀ name datum, Fields.get? name node.fields = some datum → datum ≠ .null →
    Fields.get? name found.fields = some datum

theorem Filled.refl (node : Node) : Filled registry node node :=
  ⟨rfl, rfl, rfl, fun _ _ hdatum _ => hdatum⟩

/-- The tree after the missing defaults of the listed nodes are stored. -/
structure FilledAt (registry : Registry) (ids : List NodeId) (tree after : Tree) : Prop where
  links : after.links = tree.links
  node : ∀ id node, tree.node? id = some node → ∃ found, after.node? id = some found ∧
    Filled registry node found ∧
    (id ∈ ids → ∀ component, registry.find? node.component = some component →
      component.Complete found.fields) ∧
    (id ∉ ids → found = node)

/-- The defaults of a planted blueprint are stored in its nodes only. -/
theorem FilledAt.node?_of_lt {tree after : Tree} {blueprint : Blueprint}
    (h : FilledAt registry ((tree.plant blueprint).2.descendants tree.size)
      (tree.plant blueprint).2 after) {id : NodeId} (hid : id < tree.size) :
    after.node? id = tree.node? id := by
  obtain ⟨node, hnode⟩ := Tree.exists_node?_of_lt hid
  have hkept : (tree.plant blueprint).2.node? id = some node := by
    rw [Tree.plant_eq, Tree.node?_grow_of_lt hid, hnode]
  obtain ⟨found, hfound, _, _, hsame⟩ := h.node id node hkept
  have hnot : id ∉ (tree.plant blueprint).2.descendants tree.size := by
    rw [Tree.descendants_plant, List.mem_range'_1]
    exact fun hmem => Nat.not_le.2 hid hmem.1
  rw [hfound, hsame hnot, hnode]

theorem filled_withDefaults {node : Node} {component : Component}
    (hfind : registry.find? node.component = some component) :
    Filled registry node (component.withDefaults node) where
  component := rfl
  children := rfl
  seen := by
    rw [Registry.view_of_find? hfind, Registry.view_of_find? hfind]
    exact congrArg some (component.view_addDefaults node.fields)
  kept name datum hdatum hnull := Component.get?_addDefaults_of_stored component hdatum hnull

/-- Nodes of known components that are filled once are seen as before. -/
theorem Defaulted.filledAt {ids : List NodeId} {tree after : Tree}
    (h : Defaulted registry ids tree after)
    (hknown : ∀ id ∈ ids, ∃ node component, tree.node? id = some node ∧
      registry.find? node.component = some component) : FilledAt registry ids tree after where
  links := h.links
  node id node hnode := by
    by_cases hmem : id ∈ ids
    · obtain ⟨live, component, hlive, hfind⟩ := hknown id hmem
      cases hlive.symm.trans hnode
      refine ⟨_, h.filled id hmem node component hnode hfind,
        filled_withDefaults hfind, fun _ other hother => ?_,
        fun hnot => absurd hmem hnot⟩
      cases hother.symm.trans hfind
      exact component.complete_addDefaults node.fields
    · exact ⟨node, (h.kept id hmem).trans hnode, Filled.refl node, fun hold => absurd hold hmem,
        fun _ => rfl⟩

/-- Instantiating a blueprint of known components succeeds.  It adds the nodes of the
blueprint and stores the defaults that are missing in them. -/
theorem instantiate_ok (tree : Tree) {blueprint : Blueprint}
    (hknown : checkKnown registry blueprint = .ok ()) :
    ∃ after, instantiate registry blueprint tree = .ok tree.size after ∧
      FilledAt registry ((tree.plant blueprint).2.descendants tree.size) (tree.plant blueprint).2
        after := by
  obtain ⟨after, hinstantiate, hdefaulted⟩ := instantiate_once tree hknown
  rw [Tree.descendants_plant]
  exact ⟨after, hinstantiate,
    hdefaulted.filledAt fun _ => known_of_mem_range' hknown⟩

end Editor

end FormDesigner
