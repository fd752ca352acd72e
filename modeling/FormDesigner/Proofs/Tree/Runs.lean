import FormDesigner.Proofs.Tree.Planting

/-!
Every tree that can be built is well formed.

A run performs changes one after another, whether they succeed or fail, and
starts without nodes.  One step keeps a tree well formed, and so does a run.
-/

namespace FormDesigner

open Program

/-- A change of a tree as its users ask for it. -/
inductive TreeEdit where
  | insert (node : Node)
  | appendChild (parent child : NodeId)
  | insertChild (parent : NodeId) (index : Nat) (child : NodeId)
  | detach (child : NodeId)
  | swapChildren (parent : NodeId) (first second : Nat)
  | plant (blueprint : Blueprint)
  | relink (root : NodeId)
  | ensureChildren (id : NodeId)
  | clearEmptyChildren (id : NodeId)
  | store (id : NodeId) (name : String) (datum : Datum)
  | remove (id : NodeId) (name : String)
  /-- Any other change of the values of a node. -/
  | refill (id : NodeId) (change : Fields Datum → Fields Datum)

/-- The tree after a change, also after one that fails. -/
def TreeEdit.perform (tree : Tree) : TreeEdit → Tree
  | .insert node => (tree.insert node).2
  | .appendChild parent child => finish (Tree.appendChild parent child) tree
  | .insertChild parent index child => finish (Tree.insertChild parent index child) tree
  | .detach child => finish (Tree.detach child) tree
  | .swapChildren parent first second => finish (Tree.swapChildren parent first second) tree
  | .plant blueprint => (tree.plant blueprint).2
  | .relink root => finish (Tree.relink root) tree
  | .ensureChildren id => finish (Tree.update id Node.ensureChildren) tree
  | .clearEmptyChildren id => finish (Tree.clearEmptyChildren id) tree
  | .store id name value => finish (Tree.store id name value) tree
  | .remove id name => finish (Tree.remove id name) tree
  | .refill id change =>
      finish (Tree.update id fun node => { node with fields := change node.fields }) tree

namespace Tree

variable {tree : Tree}

/-- A change that asks for its node first changes that node, whether the node is
there or not. -/
theorem finish_requireNode {α : Type} (id : NodeId) {next : Node → TreeM TreeError α}
    {change : Node → Node}
    (h : ∀ node, tree.node? id = some node → finish (next node) tree = tree.mapNode id change) :
    finish (requireNode id >>= next) tree = tree.mapNode id change := by
  by_cases hid : id < tree.size
  · obtain ⟨node, hnode⟩ := exists_node?_of_lt hid
    rw [finish, bind_ok (requireNode_ok hnode)]
    exact h node hnode
  · rw [finish_of_error (bind_error (requireNode_error (Nat.le_of_not_lt hid))),
      mapNode_of_le (Nat.le_of_not_lt hid)]

theorem finish_update (tree : Tree) (id : NodeId) (change : Node → Node) :
    finish (update id change) tree = tree.mapNode id change :=
  finish_requireNode id fun _ _ => rfl

theorem finish_clearEmptyChildren (tree : Tree) (id : NodeId) :
    finish (clearEmptyChildren id) tree = tree.mapNode id Node.clearEmptyChildren := by
  refine finish_requireNode id fun node hnode => ?_
  rw [finish, bind_ok (update_ok (lt_size_of_node? hnode) _)]
  rfl

theorem finish_store (tree : Tree) (id : NodeId) (name : String) (datum : Datum) :
    finish (store id name datum) tree = tree.setValue id name datum :=
  finish_requireNode id fun _ _ => rfl

theorem finish_remove (tree : Tree) (id : NodeId) (name : String) :
    finish (remove id name) tree = tree.dropValue id name :=
  finish_requireNode id fun _ _ => rfl

/-- Steps that each leave the tree as it is leave it as it is. -/
theorem forM_stays {ε : Type} {ids : List NodeId} {visit : NodeId → TreeM ε Unit}
    (h : ∀ id ∈ ids, visit id tree = .ok () tree) : ids.forM visit tree = .ok () tree := by
  induction ids with
  | nil => rfl
  | cons id rest ih =>
      change (visit id >>= fun _ => rest.forM visit) tree = _
      rw [bind_ok (h id List.mem_cons_self)]
      exact ih fun other hother => h other (List.mem_cons_of_mem id hother)

/-- Parent links that are set already stay as they are. -/
theorem relink_of_linked {root : NodeId} (hroot : root < tree.size)
    (h : ∀ id ∈ tree.descendants root, ∀ child ∈ tree.children id, tree.parent? child = some id) :
    relink root tree = .ok () tree := by
  obtain ⟨node, hnode⟩ := exists_node?_of_lt hroot
  rw [relink, bind_ok (requireNode_ok hnode), bind_ok (get_apply tree)]
  apply forM_stays
  intro id hid
  rw [bind_ok (get_apply tree)]
  apply forM_stays
  intro child hchild
  have hparent := h id hid child hchild
  obtain ⟨found, hfound⟩ := exists_node?_of_lt (lt_size_of_parent? hparent)
  rw [update_ok (lt_size_of_node? hfound), mapNode_of_fixed hfound]
  have hsame : found.parent = some id := by simpa [parent?, hfound] using hparent
  rw [← hsame]

namespace WellFormed

/-- In a well-formed tree the parent links are set already. -/
theorem relink_ok (h : tree.WellFormed) {root : NodeId} (hroot : root < tree.size) :
    relink root tree = .ok () tree :=
  relink_of_linked hroot fun _ _ _ => h.mem_children_iff.1

theorem relink (h : tree.WellFormed) (root : NodeId) :
    (finish (Tree.relink root) tree).WellFormed := by
  by_cases hroot : root < tree.size
  · rwa [finish_of_ok (h.relink_ok hroot)]
  · have hnone := requireNode_error (Nat.le_of_not_lt hroot)
    rwa [finish_of_error (show Tree.relink root tree = _ from bind_error hnone)]

theorem insertChild (h : tree.WellFormed) (parent : NodeId) (index : Nat) (child : NodeId) :
    (finish (Tree.insertChild parent index child) tree).WellFormed := by
  rcases insertChild_cases tree parent index child with
    ⟨_, hresult⟩ | ⟨hparent, _, _, hresult⟩ | ⟨hparent, hchild, hfree, hcycle, hindex, hresult⟩
  · rwa [finish_of_error hresult]
  · rw [finish_of_error hresult]
    exact h.setChildren hparent (List.Perm.refl _)
  · rw [finish_of_ok hresult]
    refine h.attach hparent hchild hfree (fun hline => ?_) hindex
    rw [h.isAncestorOrSelf_iff.2 hline] at hcycle
    cases hcycle

theorem detach (h : tree.WellFormed) (child : NodeId) :
    (finish (Tree.detach child) tree).WellFormed := by
  cases hparent : tree.parent? child with
  | some parent =>
      rw [finish_of_ok (h.detach_attached hparent)]
      exact h.release hparent
  | none =>
      by_cases hchild : child < tree.size
      · rwa [finish_of_ok (detach_free hchild hparent)]
      · rwa [finish_of_error (detach_unknown (Nat.le_of_not_lt hchild))]

theorem swapChildren (h : tree.WellFormed) (parent : NodeId) (first second : Nat) :
    (finish (Tree.swapChildren parent first second) tree).WellFormed := by
  rcases swapChildren_cases tree parent first second with
    ⟨_, hresult⟩ | ⟨hfirst, hsecond, hresult⟩
  · rwa [finish_of_error hresult]
  · rw [finish_of_ok hresult]
    have hne : tree.children parent ≠ [] := List.ne_nil_of_length_pos (by omega)
    exact h.setChildren (lt_size_of_children_ne_nil hne) (swapItems_perm hfirst hsecond)

/-- A change of values is none of links. -/
theorem refill (h : tree.WellFormed) (id : NodeId) (change : Fields Datum → Fields Datum) :
    (tree.mapNode id fun node => { node with fields := change node.fields }).WellFormed :=
  h.of_links_eq (links_mapNode_of_links_eq tree id fun _ => rfl)

/-- One change keeps a tree well formed, whether it succeeds or fails. -/
theorem perform (h : tree.WellFormed) : ∀ edit : TreeEdit, (edit.perform tree).WellFormed
  | .insert node => h.insert node
  | .appendChild parent child => by
      rw [TreeEdit.perform, finish, appendChild_eq]
      exact h.insertChild parent _ child
  | .insertChild parent index child => h.insertChild parent index child
  | .detach child => h.detach child
  | .swapChildren parent first second => h.swapChildren parent first second
  | .plant blueprint => h.plant blueprint
  | .relink root => h.relink root
  | .ensureChildren id => by
      rw [TreeEdit.perform, finish_update]
      exact h.mapNode_ensureChildren id
  | .clearEmptyChildren id => by
      rw [TreeEdit.perform, finish_clearEmptyChildren]
      exact h.mapNode_clearEmptyChildren id
  | .store id name value => by
      rw [TreeEdit.perform, finish_store]
      exact h.refill id (Fields.put name value)
  | .remove id name => by
      rw [TreeEdit.perform, finish_remove]
      exact h.refill id (Fields.drop name)
  | .refill id change => by
      rw [TreeEdit.perform, finish_update]
      exact h.refill id change

/-- A run of changes keeps a tree well formed. -/
theorem performAll (h : tree.WellFormed) (edits : List TreeEdit) :
    (edits.foldl TreeEdit.perform tree).WellFormed := by
  induction edits generalizing tree with
  | nil => exact h
  | cons edit rest ih => exact ih (h.perform edit)

end WellFormed

theorem empty_wellFormed : empty.WellFormed where
  known parent child hmem := by simp [children, node?, empty] at hmem
  linked parent child := by simp [children, parent?, node?, empty]
  acyclic id hline := absurd hline.lt_size (Nat.not_lt_zero id)

/-- Every tree that is built from nothing is well formed, and the search for an
ancestor ends in it after at most as many links as there are nodes. -/
theorem built_wellFormed (edits : List TreeEdit) :
    (edits.foldl TreeEdit.perform empty).WellFormed ∧
      ∀ above below, ∃ steps ≤ (edits.foldl TreeEdit.perform empty).size,
        Climb (edits.foldl TreeEdit.perform empty) above below
          ((edits.foldl TreeEdit.perform empty).isAncestorOrSelf above below) steps := by
  have hbuilt := empty_wellFormed.performAll edits
  exact ⟨hbuilt, hbuilt.exists_climb⟩

end Tree

end FormDesigner
