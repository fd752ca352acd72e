import FormDesigner.Proofs.Tree.Edits
import FormDesigner.Tree.Exchange

/-!
Where the elements of a blueprint come to stand.

`Blueprint.layout` lists the nodes of a planted blueprint by recursion on its
shape, each element before its children.  Planting adds these nodes behind the
others and does nothing else.
-/

namespace FormDesigner

open Program

namespace Blueprint

/-- The ids of sibling elements, the first of which stands at `first`. -/
def roots (first : NodeId) : List Blueprint → List NodeId
  | [] => []
  | child :: rest => first :: roots (first + child.count) rest

mutual

/-- The nodes of a blueprint whose root stands at `first`. -/
def layout (first : NodeId) (parent : Option NodeId) : Blueprint → List Node
  | ⟨component, fields, none⟩ => [⟨component, fields, none, parent⟩]
  | ⟨component, fields, some children⟩ =>
      ⟨component, fields, some (roots (first + 1) children), parent⟩
        :: layoutAll first (first + 1) children

def layoutAll (parent first : NodeId) : List Blueprint → List Node
  | [] => []
  | child :: rest =>
      layout first (some parent) child ++ layoutAll parent (first + child.count) rest

end

mutual

theorem length_layout (first : NodeId) (parent : Option NodeId) :
    ∀ blueprint : Blueprint, (blueprint.layout first parent).length = blueprint.count
  | ⟨_, _, none⟩ => by simp [layout, count]
  | ⟨_, _, some children⟩ => by
      rw [layout, List.length_cons, length_layoutAll first (first + 1) children, count,
        Nat.add_comm]

theorem length_layoutAll (parent first : NodeId) :
    ∀ children : List Blueprint, (layoutAll parent first children).length = countAll children
  | [] => by simp [layoutAll, countAll]
  | child :: rest => by
      rw [layoutAll, List.length_append, length_layout first (some parent) child,
        length_layoutAll parent (first + child.count) rest, countAll]

end

theorem count_pos (blueprint : Blueprint) : 0 < blueprint.count := by
  obtain ⟨component, fields, children⟩ := blueprint
  cases children with
  | none => simp [count]
  | some children =>
      rw [count]
      omega

/-- The parent of the root shows in the first node only. -/
theorem modify_layout (first : NodeId) (parent : NodeId) (blueprint : Blueprint) :
    (blueprint.layout first none).modify 0 (fun node => { node with parent := some parent }) =
      blueprint.layout first (some parent) := by
  obtain ⟨component, fields, children⟩ := blueprint
  cases children <;> simp [layout]

end Blueprint

namespace Tree

variable {tree : Tree}

/-- The tree with more nodes behind the others. -/
def grow (tree : Tree) (nodes : List Node) : Tree := ⟨tree.nodes ++ nodes.toArray⟩

@[simp] theorem size_grow (nodes : List Node) :
    (tree.grow nodes).size = tree.size + nodes.length := by
  simp [grow, size]

theorem node?_grow (tree : Tree) (nodes : List Node) (id : NodeId) :
    (tree.grow nodes).node? id =
      if id < tree.size then tree.node? id else nodes[id - tree.size]? := by
  simp only [grow, node?, size, Array.getElem?_append, List.getElem?_toArray]
  rfl

theorem node?_grow_of_lt {id : NodeId} (h : id < tree.size) (nodes : List Node) :
    (tree.grow nodes).node? id = tree.node? id := by
  rw [node?_grow, if_pos h]

@[simp] theorem links_grow (nodes : List Node) :
    (tree.grow nodes).links = tree.links ++ nodes.map Node.links := by
  simp [grow, links]

@[simp] theorem grow_nil (tree : Tree) : tree.grow [] = tree := by
  simp [grow]

theorem grow_grow (tree : Tree) (nodes others : List Node) :
    (tree.grow nodes).grow others = tree.grow (nodes ++ others) := by
  simp [grow]

/-- A change of an old node and new nodes do not touch each other. -/
theorem mapNode_grow {id : NodeId} (h : id < tree.size) (change : Node → Node)
    (nodes : List Node) :
    (tree.grow nodes).mapNode id change = (tree.mapNode id change).grow nodes := by
  apply ext_node?
  intro place
  simp only [node?_mapNode, node?_grow, size_mapNode]
  by_cases hplace : place = id
  · subst hplace
    simp [h]
  · simp [hplace]

/-- A change of the first new node. -/
theorem mapNode_size_grow (tree : Tree) (change : Node → Node) (nodes : List Node) :
    (tree.grow nodes).mapNode tree.size change = tree.grow (nodes.modify 0 change) := by
  apply ext_node?
  intro (place : Nat)
  simp only [node?_mapNode, node?_grow, List.getElem?_modify]
  by_cases hplace : place = tree.size
  · subst hplace
    simp
  · by_cases hlt : place < tree.size
    · simp [hplace, hlt]
    · have hne : ¬0 = place - tree.size := by omega
      simp [hplace, hlt, hne]

theorem insert_eq (tree : Tree) (node : Node) :
    tree.insert node = (tree.size,
      tree.grow [{ node with parent := none, children := node.children.map fun _ => [] }]) := by
  simp [insert, grow]

/-- A new child behind the old ones. -/
theorem adopt_eq {parent child : NodeId} {node : Node} {list : List NodeId}
    (hnode : tree.node? parent = some node) (hlist : node.children = some list) :
    tree.adopt parent child =
      (tree.setChildren parent (some (list ++ [child]))).setParent child (some parent) := by
  have hset : (tree.mapNode parent fun node =>
      { node with children := some (node.childList ++ [child]) }) =
        tree.setChildren parent (some (list ++ [child])) := by
    apply ext_node?
    intro place
    simp only [setChildren, node?_mapNode]
    split
    · next hplace =>
        subst hplace
        simp [hnode, Node.childList, hlist]
    · rfl
  rw [adopt, hset]
  rfl

theorem adopt_eq_attach {parent child : NodeId} {node : Node} {list : List NodeId}
    (hnode : tree.node? parent = some node) (hlist : node.children = some list) :
    tree.adopt parent child = tree.attach parent (tree.children parent).length child := by
  rw [adopt_eq hnode hlist, attach, List.insertIdx_length_self]
  simp [children, hnode, Node.childList, hlist]

mutual

/-- Planting adds the nodes of the layout. -/
theorem plant_eq (tree : Tree) : ∀ blueprint : Blueprint,
    tree.plant blueprint = (tree.size, tree.grow (blueprint.layout tree.size none))
  | ⟨component, fields, none⟩ => by simp [plant, insert_eq, Blueprint.layout]
  | ⟨component, fields, some children⟩ => by
      rw [plant, insert_eq]
      have hnode : (tree.grow [⟨component, fields, some [], none⟩]).node? tree.size =
          some ⟨component, fields, some [], none⟩ := by
        rw [node?_grow]
        simp
      have hbelow := plantBelow_eq hnode rfl children
      simp only [Option.map_some]
      rw [hbelow, setChildren, mapNode_size_grow, grow_grow]
      simp [Blueprint.layout]

theorem plantBelow_eq {tree : Tree} {parent : NodeId} {node : Node} {list : List NodeId}
    (hnode : tree.node? parent = some node) (hlist : node.children = some list) :
    ∀ children : List Blueprint,
      plantBelow parent tree children =
        (tree.setChildren parent (some (list ++ Blueprint.roots tree.size children))).grow
          (Blueprint.layoutAll parent tree.size children)
  | [] => by
      have hkeep : tree.setChildren parent (some list) = tree :=
        mapNode_of_fixed hnode (by rw [← hlist])
      simp [plantBelow, Blueprint.roots, Blueprint.layoutAll, hkeep]
  | child :: rest => by
      have hparent := lt_size_of_node? hnode
      have hold : (tree.grow (child.layout tree.size none)).node? parent = some node := by
        rw [node?_grow_of_lt hparent, hnode]
      have hadopt : (tree.grow (child.layout tree.size none)).adopt parent tree.size =
          (tree.setChildren parent (some (list ++ [tree.size]))).grow
            (child.layout tree.size (some parent)) := by
        have hfirst := mapNode_size_grow (tree.setChildren parent (some (list ++ [tree.size])))
          (fun node => { node with parent := some parent }) (child.layout tree.size none)
        rw [size_setChildren] at hfirst
        rw [adopt_eq hold hlist, setChildren, mapNode_grow hparent, ← Blueprint.modify_layout]
        exact hfirst
      have hnext : ((tree.setChildren parent (some (list ++ [tree.size]))).grow
          (child.layout tree.size (some parent))).node? parent =
            some { node with children := some (list ++ [tree.size]) } := by
        rw [node?_grow_of_lt (by simpa using hparent), setChildren, node?_mapNode, if_pos rfl,
          hnode]
        rfl
      rw [plantBelow, plant_eq tree child]
      simp only []
      rw [hadopt, plantBelow_eq hnext rfl rest, setChildren, mapNode_grow (by simpa using hparent),
        grow_grow]
      change ((tree.setChildren parent _).setChildren parent _).grow _ = _
      rw [setChildren_setChildren]
      simp [Blueprint.roots, Blueprint.layoutAll, Blueprint.length_layout]

end

theorem links_insert (tree : Tree) (node : Node) :
    (tree.insert node).2.links =
      tree.links ++ [⟨node.children.map fun _ => [], none⟩] := by
  rw [insert_eq, links_grow]
  rfl

theorem parent?_insert (tree : Tree) (node : Node) (id : NodeId) :
    (tree.insert node).2.parent? id = tree.parent? id := by
  rw [insert_eq, parent?, node?_grow]
  split
  · rfl
  · next hnot =>
      rw [parent?_eq_none_of_le (Nat.le_of_not_lt hnot)]
      cases id - tree.size <;> simp

theorem children_insert (tree : Tree) (node : Node) (id : NodeId) :
    (tree.insert node).2.children id = tree.children id := by
  rw [insert_eq, children, node?_grow]
  split
  · rfl
  · next hnot =>
      rw [children, node?_eq_none_of_le (Nat.le_of_not_lt hnot)]
      cases id - tree.size <;> cases node.children <;> simp [Node.childList]

@[simp] theorem size_insert (tree : Tree) (node : Node) :
    (tree.insert node).2.size = tree.size + 1 := by
  simp [insert_eq]

theorem size_plant (tree : Tree) (blueprint : Blueprint) :
    (tree.plant blueprint).2.size = tree.size + blueprint.count := by
  rw [plant_eq, size_grow, Blueprint.length_layout]

theorem size_lt_size_plant (tree : Tree) (blueprint : Blueprint) :
    tree.size < (tree.plant blueprint).2.size := by
  rw [size_plant]
  exact Nat.lt_add_of_pos_right blueprint.count_pos

/-- A single element in an empty tree is its only node. -/
theorem node?_plant_empty {component : String} {fields : Fields Datum} {id : NodeId} {node : Node}
    (h : (empty.plant ⟨component, fields, none⟩).2.node? id = some node) :
    node = ⟨component, fields, none, none⟩ := by
  match id with
  | 0 =>
      cases h
      rfl
  | id + 1 => cases h

theorem links_plant (tree : Tree) (blueprint : Blueprint) :
    (tree.plant blueprint).2.links =
      tree.links ++ (blueprint.layout tree.size none).map Node.links := by
  rw [plant_eq, links_grow]

/-- A planted blueprint has no parent. -/
theorem parent?_plant_root (tree : Tree) (blueprint : Blueprint) :
    (tree.plant blueprint).2.parent? tree.size = none := by
  obtain ⟨component, fields, children⟩ := blueprint
  rw [plant_eq, parent?, node?_grow, if_neg (Nat.lt_irrefl _), Nat.sub_self]
  cases children <;> simp [Blueprint.layout]

namespace WellFormed

theorem insert (h : tree.WellFormed) (node : Node) : (tree.insert node).2.WellFormed where
  known parent child hmem := by
    rw [children_insert] at hmem
    rw [size_insert]
    exact Nat.lt_succ_of_lt (h.known parent child hmem)
  linked parent child := by rw [children_insert, parent?_insert, h.linked]
  acyclic id hline :=
    h.acyclic id (hline.mono fun node parent hparent => by rwa [parent?_insert] at hparent)

mutual

theorem plant {tree : Tree} (h : tree.WellFormed) : ∀ blueprint : Blueprint,
    (tree.plant blueprint).2.WellFormed
  | ⟨component, fields, none⟩ => by
      rw [Tree.plant]
      exact h.insert _
  | ⟨component, fields, some children⟩ => by
      rw [Tree.plant]
      have hnode : (tree.insert ⟨component, fields, some [], none⟩).2.node? tree.size =
          some ⟨component, fields, some [], none⟩ := by
        rw [insert_eq, node?_grow, if_neg (Nat.lt_irrefl _), Nat.sub_self]
        rfl
      exact plantBelow (h.insert _) hnode rfl rfl children

/-- A node without a parent may get any number of children. -/
theorem plantBelow {tree : Tree} (h : tree.WellFormed) {parent : NodeId} {node : Node}
    {list : List NodeId} (hnode : tree.node? parent = some node) (hfree : node.parent = none)
    (hlist : node.children = some list) :
    ∀ children : List Blueprint, (Tree.plantBelow parent tree children).WellFormed
  | [] => by simpa [Tree.plantBelow] using h
  | child :: rest => by
      have hparent := lt_size_of_node? hnode
      have hplanted := plant h child
      have hold : (tree.plant child).2.node? parent = some node := by
        rw [plant_eq, node?_grow_of_lt hparent, hnode]
      have hroot : (tree.plant child).2.parent? parent = none := by
        rw [parent?, hold]
        exact hfree
      have hsize : tree.size < (tree.plant child).2.size := by
        rw [size_plant]
        exact Nat.lt_add_of_pos_right child.count_pos
      have hnot : ¬(tree.size = parent ∨ Ancestor (tree.plant child).2 tree.size parent) := by
        rintro (rfl | hline)
        · exact Nat.lt_irrefl _ hparent
        · cases hline with
          | parent habove => rw [hroot] at habove; cases habove
          | step habove _ => rw [hroot] at habove; cases habove
      have hadopted : ((tree.plant child).2.adopt parent tree.size).WellFormed := by
        rw [adopt_eq_attach hold hlist]
        exact hplanted.attach (lt_size_of_node? hold) hsize (parent?_plant_root tree child) hnot
          (Nat.le_refl _)
      have hnext : ((tree.plant child).2.adopt parent tree.size).node? parent =
          some { node with children := some (list ++ [tree.size]) } := by
        rw [adopt_eq hold hlist, Tree.setParent, Tree.setChildren, node?_mapNode,
          if_neg (Nat.ne_of_lt hparent), node?_mapNode, if_pos rfl, hold]
        rfl
      rw [Tree.plantBelow]
      rw [plant_eq] at hadopted hnext ⊢
      exact plantBelow hadopted hnext hfree rfl rest

end

end WellFormed

end Tree

end FormDesigner
