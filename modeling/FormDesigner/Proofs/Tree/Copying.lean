import FormDesigner.Proofs.Answers
import FormDesigner.Proofs.Tree.Ancestry
import FormDesigner.Tree.Exchange

/-!
Blueprints taken of nodes.

Every known node of a well-formed tree has a blueprint: as many levels as there are nodes
are enough.
-/

namespace FormDesigner

namespace Tree

variable {tree : Tree}

/-- One level of a blueprint, where no child list and an empty one are different. -/
theorem rel_children_of_copyBelow_ok {bound : Nat} {id : NodeId} {copy : Blueprint}
    (h : tree.copyBelow (bound + 1) id = .ok copy) :
    ∃ node, tree.node? id = some node ∧ copy.component = node.component ∧
      copy.fields = node.fields ∧
      Option.Rel (List.Forall₂ fun child below => tree.copyBelow bound child = .ok below)
        node.children copy.children := by
  rw [copyBelow] at h
  cases hnode : tree.node? id with
  | none =>
      simp only [hnode] at h
      cases h
  | some node =>
      refine ⟨node, rfl, ?_⟩
      cases hids : node.children with
      | none =>
          simp only [hnode, hids] at h
          cases h
          exact ⟨rfl, rfl, .none⟩
      | some ids =>
          simp only [hnode, hids] at h
          cases hcopies : ids.mapM (tree.copyBelow bound) with
          | error failure =>
              rw [hcopies] at h
              cases h
          | ok copies =>
              rw [hcopies] at h
              cases h
              exact ⟨rfl, rfl, .some (Answer.forall₂_of_mapM_ok hcopies)⟩

/-- One level of a blueprint. -/
theorem of_copyBelow_ok {bound : Nat} {id : NodeId} {copy : Blueprint}
    (h : tree.copyBelow (bound + 1) id = .ok copy) :
    ∃ node, tree.node? id = some node ∧ copy.component = node.component ∧
      copy.fields = node.fields ∧
      List.Forall₂ (fun child below => tree.copyBelow bound child = .ok below)
        node.childList copy.childList := by
  obtain ⟨node, hnode, hname, hfields, hchildren⟩ := rel_children_of_copyBelow_ok h
  refine ⟨node, hnode, hname, hfields, ?_⟩
  rw [Node.childList, Blueprint.childList]
  generalize node.children = ids at hchildren
  generalize copy.children = copies at hchildren
  cases hchildren with
  | none => exact .nil
  | some hbelow => exact hbelow

/-- The levels that a node has above it and those below it are no more than the nodes. -/
theorem WellFormed.exists_copyBelow (h : tree.WellFormed) {bound : Nat} {id : NodeId}
    (hid : id < tree.size)
    (hbound : tree.size < bound + (tree.lineage (tree.size + 1) id).length) :
    ∃ copy, tree.copyBelow bound id = .ok copy := by
  induction bound generalizing id with
  | zero =>
      have hlength := h.length_lineage_le hid (tree.size + 1)
      omega
  | succ bound ih =>
      obtain ⟨node, hnode⟩ := exists_node?_of_lt hid
      simp only [copyBelow, hnode]
      cases hids : node.children with
      | none => exact ⟨_, rfl⟩
      | some ids =>
          have hall : ∀ child ∈ ids, ∃ copy, tree.copyBelow bound child = .ok copy := by
            intro child hmem
            have hlisted : child ∈ tree.children id := by
              simpa [children, hnode, Node.childList, hids] using hmem
            have hparent := h.mem_children_iff.mp hlisted
            apply ih (lt_size_of_parent? hparent)
            rw [h.length_lineage_child hparent]
            omega
          obtain ⟨copies, hcopies⟩ := Answer.exists_mapM_ok hall
          refine ⟨⟨node.component, node.fields, some copies⟩, ?_⟩
          simp only [hcopies]
          rfl

/-- Every known node has a blueprint. -/
theorem WellFormed.exists_blueprint (h : tree.WellFormed) {id : NodeId} (hid : id < tree.size) :
    ∃ copy, tree.blueprint id = .ok copy := by
  apply h.exists_copyBelow hid
  have hpositive : 0 < (tree.lineage (tree.size + 1) id).length := by simp [lineage]
  omega

end Tree

end FormDesigner
