import FormDesigner.Tree.Edit

/-!
The two sides of a tree: how its nodes are linked, and what they hold.

A change of links leaves the contents alone and a change of contents leaves the
links alone.  Child lists and parents are functions of the links.
-/

namespace FormDesigner

/-- How a node is linked: its child list and its parent. -/
structure Links where
  children : Option (List NodeId)
  parent : Option NodeId

/-- The links of a node. -/
def Node.links (node : Node) : Links := ⟨node.children, node.parent⟩

/-- What a node holds: its component and its values. -/
def Node.content (node : Node) : String × Fields Datum := (node.component, node.fields)

namespace Tree

variable {tree other : Tree}

/-- The links of all nodes, in the order of their ids. -/
def links (tree : Tree) : List Links := tree.nodes.toList.map Node.links

/-- The contents of all nodes, in the order of their ids. -/
def contents (tree : Tree) : List (String × Fields Datum) := tree.nodes.toList.map Node.content

theorem links_getElem? (tree : Tree) (id : NodeId) :
    tree.links[id]? = (tree.node? id).map Node.links := by
  simp [links, node?]

theorem contents_getElem? (tree : Tree) (id : NodeId) :
    tree.contents[id]? = (tree.node? id).map Node.content := by
  simp [contents, node?]

@[simp] theorem length_links (tree : Tree) : tree.links.length = tree.size := by
  simp [links, size]

@[simp] theorem length_contents (tree : Tree) : tree.contents.length = tree.size := by
  simp [contents, size]

theorem children_eq_links (tree : Tree) (id : NodeId) :
    tree.children id = ((tree.links[id]?).bind Links.children).getD [] := by
  rw [links_getElem?, children]
  cases tree.node? id <;> rfl

theorem parent?_eq_links (tree : Tree) (id : NodeId) :
    tree.parent? id = (tree.links[id]?).bind Links.parent := by
  rw [links_getElem?, parent?]
  cases tree.node? id <;> rfl

/-- Trees with the same links have the same size. -/
theorem size_eq_of_links (h : tree.links = other.links) : tree.size = other.size := by
  rw [← length_links, h, length_links]

theorem node?_isSome_iff (tree : Tree) (id : NodeId) :
    (tree.node? id).isSome ↔ id < tree.size := by
  simp [node?, size]

/-- The nodes with ids below the size are there. -/
theorem exists_node?_of_lt {id : NodeId} (h : id < tree.size) :
    ∃ node, tree.node? id = some node :=
  Option.isSome_iff_exists.1 ((node?_isSome_iff tree id).2 h)

theorem children_of_node? {id : NodeId} {node : Node} (h : tree.node? id = some node) :
    tree.children id = node.childList := by
  rw [children, h, Option.map_some, Option.getD_some]

theorem lt_size_of_node? {id : NodeId} {node : Node} (h : tree.node? id = some node) :
    id < tree.size :=
  (node?_isSome_iff tree id).1 (h ▸ rfl)

theorem node?_eq_none_of_le {id : NodeId} (h : tree.size ≤ id) : tree.node? id = none := by
  simpa [node?, size] using h

/-- Trees with the same nodes are equal. -/
theorem ext_node? (h : ∀ id, tree.node? id = other.node? id) : tree = other := by
  cases tree with
  | mk nodes =>
      cases other with
      | mk others =>
          congr 1
          exact Array.ext_getElem? h

/-- Trees of the same contents have nodes of the same contents. -/
theorem exists_of_contents_eq (h : other.contents = tree.contents) {id : NodeId} {node : Node}
    (hnode : tree.node? id = some node) :
    ∃ found, other.node? id = some found ∧ found.component = node.component ∧
      found.fields = node.fields := by
  have hplace : (other.node? id).map Node.content = (tree.node? id).map Node.content := by
    rw [← contents_getElem?, ← contents_getElem?, h]
  rw [hnode, Option.map_some] at hplace
  obtain ⟨found, hfound, hcontent⟩ := Option.map_eq_some_iff.1 hplace
  exact ⟨found, hfound, congrArg Prod.fst hcontent, congrArg Prod.snd hcontent⟩

theorem node?_mapNode (tree : Tree) (id : NodeId) (change : Node → Node) (other : NodeId) :
    (tree.mapNode id change).node? other =
      if other = id then (tree.node? other).map change else tree.node? other := by
  simp only [node?, mapNode, Array.getElem?_modify, eq_comm (a := other)]

@[simp] theorem size_mapNode (tree : Tree) (id : NodeId) (change : Node → Node) :
    (tree.mapNode id change).size = tree.size := by
  simp [size, mapNode]

/-- To change nothing changes nothing. -/
theorem mapNode_id (tree : Tree) (id : NodeId) : tree.mapNode id (fun node => node) = tree := by
  apply ext_node?
  intro place
  rw [node?_mapNode, Option.map_id', ite_self]

/-- Two changes of one node are one change. -/
theorem mapNode_mapNode (tree : Tree) (id : NodeId) (first second : Node → Node) :
    (tree.mapNode id first).mapNode id second =
      tree.mapNode id fun node => second (first node) := by
  apply ext_node?
  intro place
  rw [node?_mapNode, node?_mapNode, node?_mapNode]
  split
  · rw [Option.map_map]
    rfl
  · rfl

/-- A change of a node that is not there changes nothing. -/
theorem mapNode_of_le {id : NodeId} (h : tree.size ≤ id) (change : Node → Node) :
    tree.mapNode id change = tree := by
  apply ext_node?
  intro place
  rw [node?_mapNode]
  split
  · next hplace =>
      rw [hplace, node?_eq_none_of_le h]
      rfl
  · rfl

/-- A change that a node does not notice changes nothing. -/
theorem mapNode_of_fixed {id : NodeId} {node : Node} (h : tree.node? id = some node)
    {change : Node → Node} (hfixed : change node = node) : tree.mapNode id change = tree := by
  apply ext_node?
  intro place
  rw [node?_mapNode]
  split
  · next hplace =>
      rw [hplace, h, Option.map_some, hfixed]
  · rfl

/-- A change of one node's links shows in that place only. -/
theorem links_mapNode (tree : Tree) (id : NodeId) {change : Node → Node} (relink : Links → Links)
    (h : ∀ node, (change node).links = relink node.links) :
    (tree.mapNode id change).links = tree.links.modify id relink := by
  apply List.ext_getElem?
  intro place
  rw [links_getElem?, node?_mapNode, List.getElem?_modify, links_getElem?]
  by_cases hplace : place = id
  · subst hplace
    cases tree.node? place <;> simp [h]
  · simp [hplace, Ne.symm hplace]

/-- A change of one node's content shows in that place only. -/
theorem contents_mapNode (tree : Tree) (id : NodeId) {change : Node → Node}
    (refill : String × Fields Datum → String × Fields Datum)
    (h : ∀ node, (change node).content = refill node.content) :
    (tree.mapNode id change).contents = tree.contents.modify id refill := by
  apply List.ext_getElem?
  intro place
  rw [contents_getElem?, node?_mapNode, List.getElem?_modify, contents_getElem?]
  by_cases hplace : place = id
  · subst hplace
    cases tree.node? place <;> simp [h]
  · simp [hplace, Ne.symm hplace]

/-- A change that keeps the links of every node keeps the links of the tree. -/
theorem links_mapNode_of_links_eq (tree : Tree) (id : NodeId) {change : Node → Node}
    (h : ∀ node, (change node).links = node.links) :
    (tree.mapNode id change).links = tree.links := by
  rw [links_mapNode tree id (fun links => links) h]
  exact List.modify_id id tree.links

/-- A change that keeps the content of every node keeps the contents of the
tree. -/
theorem contents_mapNode_of_content_eq (tree : Tree) (id : NodeId) {change : Node → Node}
    (h : ∀ node, (change node).content = node.content) :
    (tree.mapNode id change).contents = tree.contents := by
  rw [contents_mapNode tree id (fun content => content) h]
  exact List.modify_id id tree.contents

/-- Gives a node another child list. -/
def setChildren (tree : Tree) (id : NodeId) (children : Option (List NodeId)) : Tree :=
  tree.mapNode id fun node => { node with children }

/-- Gives a node another parent. -/
def setParent (tree : Tree) (id : NodeId) (parent : Option NodeId) : Tree :=
  tree.mapNode id fun node => { node with parent }

section Setters

variable (tree : Tree) (id : NodeId) (list : Option (List NodeId)) (above : Option NodeId)

@[simp] theorem size_setChildren : (tree.setChildren id list).size = tree.size :=
  size_mapNode tree id _

@[simp] theorem size_setParent : (tree.setParent id above).size = tree.size :=
  size_mapNode tree id _

@[simp] theorem contents_setChildren : (tree.setChildren id list).contents = tree.contents :=
  contents_mapNode_of_content_eq tree id fun _ => rfl

@[simp] theorem contents_setParent : (tree.setParent id above).contents = tree.contents :=
  contents_mapNode_of_content_eq tree id fun _ => rfl

@[simp] theorem parent?_setChildren (node : NodeId) :
    (tree.setChildren id list).parent? node = tree.parent? node := by
  simp only [parent?, setChildren, node?_mapNode]
  split
  · cases tree.node? node <;> rfl
  · rfl

@[simp] theorem children_setParent (node : NodeId) :
    (tree.setParent id above).children node = tree.children node := by
  simp only [children, setParent, node?_mapNode]
  split
  · cases tree.node? node <;> rfl
  · rfl

end Setters

theorem children_setChildren {id : NodeId} (h : id < tree.size) (list : Option (List NodeId))
    (node : NodeId) :
    (tree.setChildren id list).children node =
      if node = id then list.getD [] else tree.children node := by
  obtain ⟨found, hfound⟩ := exists_node?_of_lt h
  simp only [children, setChildren, node?_mapNode]
  by_cases hnode : node = id
  · subst hnode
    simp [hfound, Node.childList]
  · simp [hnode]

theorem parent?_setParent {id : NodeId} (h : id < tree.size) (above : Option NodeId)
    (node : NodeId) :
    (tree.setParent id above).parent? node = if node = id then above else tree.parent? node := by
  obtain ⟨found, hfound⟩ := exists_node?_of_lt h
  simp only [parent?, setParent, node?_mapNode]
  by_cases hnode : node = id
  · subst hnode
    simp [hfound]
  · simp [hnode]

end Tree

end FormDesigner
