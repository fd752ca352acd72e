import Mathlib.Data.List.Range
import FormDesigner.Proofs.Answers
import FormDesigner.Proofs.Tree.Paths
import FormDesigner.Proofs.Tree.Runs

/-!
The order of a walk through a blueprint.

The elements of a blueprint are listed each before its children.  A planted blueprint has
consecutive ids in this order, and walking below its root comes to them one by one.  Its parent
links are set already, whatever tree it was planted in.
-/

namespace FormDesigner

namespace Blueprint

mutual

/-- The elements of a blueprint, each before its children. -/
def elements : Blueprint → List Blueprint
  | ⟨component, fields, none⟩ => [⟨component, fields, none⟩]
  | ⟨component, fields, some children⟩ =>
      ⟨component, fields, some children⟩ :: elementsAll children

def elementsAll : List Blueprint → List Blueprint
  | [] => []
  | child :: rest => elements child ++ elementsAll rest

end

theorem elements_eq (blueprint : Blueprint) :
    blueprint.elements = blueprint :: elementsAll blueprint.childList := by
  obtain ⟨component, fields, children⟩ := blueprint
  cases children <;> simp [elements, childList, elementsAll]

mutual

theorem length_elements : ∀ blueprint : Blueprint, blueprint.elements.length = blueprint.count
  | ⟨_, _, none⟩ => by simp [elements, count]
  | ⟨_, _, some children⟩ => by
      rw [elements, List.length_cons, length_elementsAll children, count, Nat.add_comm]

theorem length_elementsAll : ∀ children : List Blueprint,
    (elementsAll children).length = countAll children
  | [] => by simp [elementsAll, countAll]
  | child :: rest => by
      rw [elementsAll, List.length_append, length_elements child, length_elementsAll rest, countAll]

end

/-- What follows the first elements of a part of a list. -/
theorem isPrefix_drop (first : List Blueprint) {rest all : List Blueprint} {offset : Nat}
    (h : first ++ rest <+: all.drop offset) : rest <+: all.drop (offset + first.length) := by
  obtain ⟨after, hall⟩ := h
  refine ⟨after, ?_⟩
  rw [← List.drop_drop, ← hall, List.append_assoc, List.drop_left]

/-- A child stands as far behind the first one as its elements are listed behind those of the
first one. -/
theorem exists_place_of_child (first : NodeId) {all children : List Blueprint}
    {offset index : Nat} {child : Blueprint} (h : elementsAll children <+: all.drop offset)
    (hchild : children[index]? = some child) :
    ∃ skipped, (roots first children)[index]? = some (first + skipped) ∧
      child.elements <+: all.drop (offset + skipped) := by
  induction children generalizing offset first index with
  | nil => cases hchild
  | cons sibling rest ih =>
      rw [elementsAll] at h
      cases index with
      | zero =>
          cases hchild
          exact ⟨0, rfl, (List.prefix_append _ _).trans h⟩
      | succ index =>
          have hrest := isPrefix_drop sibling.elements h
          rw [length_elements] at hrest
          obtain ⟨skipped, hplace, helements⟩ := ih (first + sibling.count) hrest hchild
          refine ⟨sibling.count + skipped, ?_, ?_⟩
          · rw [← Nat.add_assoc]
            exact hplace
          · rwa [← Nat.add_assoc]

/-- A node of the layout has what its element has. -/
structure Lays (element : Blueprint) (node : Node) : Prop where
  component : node.component = element.component
  fields : node.fields = element.fields
  children : node.children.isSome = element.children.isSome

mutual

theorem forall₂_layout (first : NodeId) (parent : Option NodeId) : ∀ blueprint : Blueprint,
    List.Forall₂ Lays blueprint.elements (blueprint.layout first parent)
  | ⟨_, _, none⟩ => by
      rw [elements, layout]
      exact .cons ⟨rfl, rfl, rfl⟩ .nil
  | ⟨_, _, some children⟩ => by
      rw [elements, layout]
      exact .cons ⟨rfl, rfl, rfl⟩ (forall₂_layoutAll first (first + 1) children)

theorem forall₂_layoutAll (parent first : NodeId) : ∀ children : List Blueprint,
    List.Forall₂ Lays (elementsAll children) (layoutAll parent first children)
  | [] => by
      rw [elementsAll, layoutAll]
      exact .nil
  | child :: rest => by
      rw [elementsAll, layoutAll]
      exact List.rel_append (forall₂_layout first (some parent) child)
        (forall₂_layoutAll parent (first + child.count) rest)

end

end Blueprint

namespace Tree

open Blueprint

variable {tree : Tree}

/-- The elements of a blueprint are planted in the order in which they are listed. -/
theorem exists_node?_plant (tree : Tree) {blueprint element : Blueprint} {offset : Nat}
    (helement : blueprint.elements[offset]? = some element) :
    ∃ node, (tree.plant blueprint).2.node? (tree.size + offset) = some node ∧
      Lays element node := by
  have hplace := rel_getElem? (forall₂_layout tree.size none blueprint) offset
  rw [helement] at hplace
  generalize hnode : (blueprint.layout tree.size none)[offset]? = found at hplace
  cases hplace with
  | @some _ node hlays =>
      refine ⟨node, ?_, hlays⟩
      rw [plant_eq, node?_grow, if_neg (Nat.not_lt.mpr (Nat.le_add_right _ _)),
        Nat.add_sub_cancel_left, hnode]

mutual

/-- The walk below a blueprint comes to its places one by one. -/
theorem preorder_of_holds {bound : Nat} {place : NodeId} : ∀ blueprint : Blueprint,
    tree.Holds place blueprint → blueprint.count ≤ bound →
      tree.preorder bound place = List.range' place blueprint.count
  | ⟨component, fields, none⟩, h, hbound => by
      rw [count] at hbound
      obtain ⟨below, rfl⟩ := Nat.exists_eq_add_of_le' hbound
      rw [preorder, h.children]
      rfl
  | ⟨component, fields, some children⟩, h, hbound => by
      rw [count] at hbound
      obtain ⟨below, rfl⟩ := Nat.exists_eq_add_of_le' (Nat.le_of_add_right_le hbound)
      have hbelow := flatMap_preorder_of_holdsAll below children h.below (by omega)
      rw [preorder, h.children, count, Nat.add_comm 1, List.range'_succ]
      exact congrArg (place :: ·) hbelow

theorem flatMap_preorder_of_holdsAll (bound : Nat) {parent first : NodeId} :
    ∀ children : List Blueprint, tree.HoldsAll parent first children →
      countAll children ≤ bound →
      (roots first children).flatMap (tree.preorder bound) = List.range' first (countAll children)
  | [], _, _ => rfl
  | child :: rest, h, hbound => by
      rw [countAll] at hbound
      rw [roots, List.flatMap_cons, preorder_of_holds child h.first (by omega),
        flatMap_preorder_of_holdsAll bound rest h.rest (by omega), countAll, List.range'_append_1]

end

/-- The walk below the root of a planted blueprint. -/
theorem descendants_plant (tree : Tree) (blueprint : Blueprint) :
    (tree.plant blueprint).2.descendants tree.size = List.range' tree.size blueprint.count := by
  rw [descendants_of_lt (tree.size_lt_size_plant blueprint)]
  apply preorder_of_holds blueprint (tree.holds_plant blueprint)
  rw [size_plant]
  exact Nat.le_add_left _ _

/-- There are well-formed trees of every size. -/
theorem exists_wellFormed_size (bound : Nat) :
    ∃ tree : Tree, tree.WellFormed ∧ tree.size = bound := by
  induction bound with
  | zero => exact ⟨empty, empty_wellFormed, rfl⟩
  | succ bound ih =>
      obtain ⟨tree, htree, hsize⟩ := ih
      exact ⟨(tree.insert default).2, htree.insert default, by rw [size_insert, hsize]⟩

/-- The children of a planted node have it as their parent, whatever stands before them. -/
theorem parent?_of_mem_children_plant (tree : Tree) (blueprint : Blueprint) {id child : NodeId}
    (hid : tree.size ≤ id) (hchild : child ∈ (tree.plant blueprint).2.children id) :
    (tree.plant blueprint).2.parent? child = some id := by
  -- The new nodes are the same behind the nodes of a well-formed tree.
  obtain ⟨base, hbase, hsize⟩ := exists_wellFormed_size tree.size
  have hsame : ∀ place, tree.size ≤ place →
      (tree.plant blueprint).2.node? place = (base.plant blueprint).2.node? place := by
    intro place hplace
    rw [plant_eq, plant_eq, node?_grow, node?_grow, hsize, if_neg (Nat.not_lt.mpr hplace),
      if_neg (Nat.not_lt.mpr hplace)]
  rw [children, hsame id hid] at hchild
  have hparent := (hbase.plant blueprint).mem_children_iff.mp hchild
  have hnew : tree.size ≤ child := by
    by_contra hold
    have hlt : child < base.size := by rwa [hsize, ← Nat.not_le]
    rw [parent?, plant_eq, node?_grow_of_lt hlt] at hparent
    have hbefore := hbase.parent_lt_size hparent
    rw [hsize] at hbefore
    exact Nat.not_le.mpr hbefore hid
  rw [parent?, hsame child hnew]
  exact hparent

/-- A planted blueprint is linked already. -/
theorem relink_plant (tree : Tree) (blueprint : Blueprint) :
    relink tree.size (tree.plant blueprint).2 = .ok () (tree.plant blueprint).2 := by
  apply relink_of_linked (tree.size_lt_size_plant blueprint)
  intro id hid child hchild
  rw [descendants_plant, List.mem_range'_1] at hid
  exact tree.parent?_of_mem_children_plant blueprint hid.1 hchild

theorem preorder_of_links_eq {other : Tree} (h : other.links = tree.links) (bound : Nat)
    (root : NodeId) : other.preorder bound root = tree.preorder bound root := by
  induction bound generalizing root with
  | zero => rfl
  | succ bound ih =>
      rw [preorder, preorder, children_eq_links, h, ← children_eq_links]
      exact congrArg (root :: ·) (List.flatMap_congr fun child _ => ih child)

theorem descendants_of_links_eq {other : Tree} (h : other.links = tree.links) (root : NodeId) :
    other.descendants root = tree.descendants root := by
  rw [descendants, descendants, contains, contains, size_eq_of_links h, preorder_of_links_eq h]

/-- A path leads to the place where its element is listed. -/
theorem Holds.place_descend {base : Nat} (offset : Nat) {all : List Blueprint}
    {blueprint : Blueprint}
    (h : tree.Holds (base + offset) blueprint) (hlisted : blueprint.elements <+: all.drop offset)
    (path : List Nat) :
    Option.Rel (fun element id => ∃ offset, id = base + offset ∧ all[offset]? = some element)
      (blueprint.descend path) (tree.descend (base + offset) path) := by
  rw [elements_eq] at hlisted
  induction path generalizing offset blueprint with
  | nil =>
      refine .some ⟨offset, rfl, ?_⟩
      obtain ⟨after, hall⟩ := hlisted
      have hfirst := congrArg List.head? hall
      rw [List.head?_drop] at hfirst
      exact hfirst.symm
  | cons index rest ih =>
      have hbelow : elementsAll blueprint.childList <+: all.drop (offset + 1) :=
        isPrefix_drop [blueprint] hlisted
      rw [Tree.descend, Blueprint.descend, h.children]
      cases hchild : blueprint.childList[index]? with
      | none =>
          have hnone : (roots (base + offset + 1) blueprint.childList)[index]? = none := by
            rw [List.getElem?_eq_none_iff] at hchild ⊢
            rwa [length_roots]
          rw [hnone]
          exact .none
      | some child =>
          obtain ⟨place, hplace, hholds⟩ := h.below.child hchild
          obtain ⟨skipped, hskipped, hrest⟩ :=
            exists_place_of_child (base + offset + 1) hbelow hchild
          cases hplace.symm.trans hskipped
          rw [hplace]
          have hsame : base + offset + 1 + skipped = base + (offset + 1 + skipped) := by omega
          rw [hsame] at hholds ⊢
          rw [elements_eq] at hrest
          exact ih _ hholds hrest

end Tree

end FormDesigner
