import FormDesigner.Proofs.Tree.Edits

/-!
Putting a node behind the children of another one.

The node leaves the place where it was.  No other node gets another parent, and no other child
list changes, also not from none to an empty one.
-/

namespace FormDesigner

namespace Tree

variable {tree : Tree} {parent child : NodeId}

/-- The child list of a node, if it has one. -/
def childList? (tree : Tree) (id : NodeId) : Option (List NodeId) :=
  (tree.node? id).bind Node.children

theorem childList?_eq_links (tree : Tree) (id : NodeId) :
    tree.childList? id = (tree.links[id]?).bind Links.children := by
  rw [links_getElem?, childList?]
  cases tree.node? id <;> rfl

theorem children_eq_childList? (tree : Tree) (id : NodeId) :
    tree.children id = (tree.childList? id).getD [] := by
  rw [children_eq_links, childList?_eq_links]

theorem childList?_setChildren {id : NodeId} (hid : id < tree.size) (list : Option (List NodeId))
    (place : NodeId) :
    (tree.setChildren id list).childList? place =
      if place = id then list else tree.childList? place := by
  rw [childList?, setChildren, node?_mapNode]
  split
  · next hplace =>
      obtain ⟨node, hnode⟩ := exists_node?_of_lt hid
      rw [hplace, hnode]
      rfl
  · rfl

theorem childList?_setParent (tree : Tree) (id : NodeId) (above : Option NodeId) (place : NodeId) :
    (tree.setParent id above).childList? place = tree.childList? place := by
  rw [childList?, setParent, node?_mapNode, childList?]
  split
  · cases tree.node? place <;> rfl
  · rfl

theorem childList?_attach (hparent : parent < tree.size) (index : Nat) (place : NodeId) :
    (tree.attach parent index child).childList? place =
      if place = parent then some ((tree.children parent).insertIdx index child)
      else tree.childList? place := by
  rw [attach, childList?_setParent, childList?_setChildren hparent]

theorem childList?_release (hparent : parent < tree.size) (place : NodeId) :
    (tree.release parent child).childList? place =
      if place = parent then some ((tree.children parent).erase child)
      else tree.childList? place := by
  rw [release, childList?_setParent, childList?_setChildren hparent]

/-- A node is in no child list but that of its parent. -/
theorem WellFormed.childList?_erase (h : tree.WellFormed) {place : NodeId}
    (hother : tree.parent? child ≠ some place) :
    (tree.childList? place).map (fun list => list.erase child) = tree.childList? place := by
  cases hlist : tree.childList? place with
  | none => rfl
  | some list =>
      have hnot : child ∉ list := by
        intro hmem
        have hchildren : tree.children place = list := by
          rw [children_eq_childList?, hlist]
          rfl
        rw [← hchildren] at hmem
        exact hother (h.mem_children_iff.mp hmem)
      exact congrArg some (List.erase_of_not_mem hnot)

/-- A parent has a child list. -/
theorem WellFormed.childList?_of_parent? (h : tree.WellFormed)
    (hparent : tree.parent? child = some parent) :
    tree.childList? parent = some (tree.children parent) := by
  have hmem := h.mem_children_iff.mpr hparent
  rw [children_eq_childList?] at hmem ⊢
  cases hlist : tree.childList? parent with
  | none =>
      rw [hlist] at hmem
      cases hmem
  | some list => rfl

/-- What happens to the links when a node leaves its place. -/
structure Freed (tree : Tree) (child : NodeId) (after : Tree) : Prop where
  above : ∀ id, after.parent? id = if id = child then none else tree.parent? id
  list : ∀ id, after.childList? id = (tree.childList? id).map fun list => list.erase child

theorem WellFormed.freed_of_detach (h : tree.WellFormed) (hchild : child < tree.size)
    {origin : Option (NodeId × Nat)} {after : Tree}
    (hdetach : detach child tree = .ok origin after) : tree.Freed child after := by
  cases hparent : tree.parent? child with
  | none =>
      rw [detach_free hchild hparent] at hdetach
      cases hdetach
      constructor
      · intro id
        split
        · next hid => rw [hid, hparent]
        · rfl
      · intro id
        rw [h.childList?_erase (by simp [hparent])]
  | some parent =>
      rw [h.detach_attached hparent] at hdetach
      cases hdetach
      have habove := h.parent_lt_size hparent
      constructor
      · exact fun id => parent?_release hchild id
      · intro id
        rw [childList?_release habove]
        split
        · next hid => rw [hid, h.childList?_of_parent? hparent, Option.map_some]
        · next hid =>
            have hother : tree.parent? child ≠ some id := by
              rw [hparent]
              exact fun heq => hid (Option.some.inj heq).symm
            rw [h.childList?_erase hother]

/-- `child` is the last child of `parent` now, and left the place where it was.  The other nodes
have the parents and the child lists that they had. -/
structure PutLast (tree : Tree) (parent child : NodeId) (after : Tree) : Prop where
  above : ∀ id, after.parent? id = if id = child then some parent else tree.parent? id
  last : after.childList? parent = some ((tree.children parent).erase child ++ [child])
  left : ∀ old, tree.parent? child = some old → old ≠ parent →
    after.childList? old = some ((tree.children old).erase child)
  others : ∀ id, id < tree.size → id ≠ parent → tree.parent? child ≠ some id →
    after.childList? id = tree.childList? id

theorem Freed.putLast {middle : Tree} (h : tree.Freed child middle) (htree : tree.WellFormed)
    (hsize : middle.size = tree.size) (hchild : child < tree.size) (hparent : parent < tree.size) :
    tree.PutLast parent child (middle.attach parent (middle.children parent).length child) := by
  have hparent' : parent < middle.size := hsize.symm ▸ hparent
  have hother : ∀ id, id ≠ parent →
      (middle.attach parent (middle.children parent).length child).childList? id =
        (tree.childList? id).map fun list => list.erase child := by
    intro id hid
    rw [childList?_attach hparent', if_neg hid, h.list]
  constructor
  · intro id
    rw [parent?_attach (hsize.symm ▸ hchild), h.above]
    split <;> rfl
  · have hchildren : middle.children parent = (tree.children parent).erase child := by
      rw [children_eq_childList?, h.list, children_eq_childList?]
      cases tree.childList? parent <;> rfl
    rw [childList?_attach hparent', if_pos rfl, List.insertIdx_length_self, hchildren]
  · intro old hold hne
    rw [hother old hne, htree.childList?_of_parent? hold, Option.map_some]
  · intro id _ hne hnot
    rw [hother id hne, htree.childList?_erase hnot]

/-- A node that has no parent has no place to leave. -/
theorem WellFormed.freed_self (h : tree.WellFormed) (hfree : tree.parent? child = none) :
    tree.Freed child tree where
  above id := by
    split
    · next hid => rw [hid, hfree]
    · rfl
  list id := by rw [h.childList?_erase (by simp [hfree])]

/-- A node was added before another one was put behind the children of a third. -/
theorem PutLast.of_links_snoc {base after : Tree} {added : Links}
    (hlinks : tree.links = base.links ++ [added]) (hadded : added.parent = none)
    (hbase : base.WellFormed) (hparent : parent < base.size) (h : tree.PutLast parent child after) :
    base.PutLast parent child after := by
  have hparents : ∀ id, tree.parent? id = base.parent? id := by
    intro id
    by_cases hid : id < base.size
    · exact parent?_of_links_append hlinks hid
    · rw [parent?_eq_none_of_le (Nat.le_of_not_lt hid), parent?_eq_links, hlinks,
        List.getElem?_append_right (by rw [length_links]; exact Nat.le_of_not_lt hid)]
      cases id - base.links.length with
      | zero => exact hadded
      | succ beyond => rfl
  constructor
  · intro id
    rw [h.above, hparents]
  · rw [h.last, children_of_links_append hlinks hparent]
  · intro old hold hne
    rw [h.left old ((hparents child).trans hold) hne,
      children_of_links_append hlinks (hbase.parent_lt_size hold)]
  · intro id hid hne hnot
    have hlist : tree.childList? id = base.childList? id := by
      rw [childList?_eq_links, childList?_eq_links, hlinks,
        List.getElem?_append_left (by rw [length_links]; exact hid)]
    rw [h.others id (Nat.lt_of_lt_of_le hid (size_le_of_links_append hlinks)) hne
      (by rw [hparents]; exact hnot), hlist]

end Tree

end FormDesigner
