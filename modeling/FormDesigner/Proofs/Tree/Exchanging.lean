import FormDesigner.Proofs.Tree.Copying
import FormDesigner.Proofs.Tree.Walking

/-!
Blueprints into a tree, and out of it again.

What a node looks like with all that is below it is first described by rules without any bound.
In a well-formed tree every node has exactly one blueprint by these rules, which is the one that
is taken of it.  A planted blueprint is described by its own nodes, so that taking it out again
gives it back, whatever stands before it.
-/

namespace FormDesigner

namespace Tree

open Blueprint

variable {tree : Tree} {id : NodeId} {copy : Blueprint}

/-- The blueprint is that of the node and of what is below it, where no child list and an empty
one are different. -/
inductive Describes (tree : Tree) : NodeId → Blueprint → Prop where
  | leaf {id : NodeId} {node : Node} (hnode : tree.node? id = some node)
      (hlist : node.children = none) : Describes tree id ⟨node.component, node.fields, none⟩
  | branch {id : NodeId} {node : Node} {ids : List NodeId} {copies : List Blueprint}
      (hnode : tree.node? id = some node) (hlist : node.children = some ids)
      (hbelow : List.Forall₂ (Describes tree) ids copies) :
      Describes tree id ⟨node.component, node.fields, some copies⟩

/-- A blueprint that is taken of a node describes it. -/
theorem describes_of_copyBelow {bound : Nat} (h : tree.copyBelow bound id = .ok copy) :
    tree.Describes id copy := by
  induction bound generalizing id copy with
  | zero => cases h
  | succ bound ih =>
      obtain ⟨node, hnode, hname, hfields, hchildren⟩ := rel_children_of_copyBelow_ok h
      obtain ⟨component, fields, children⟩ := copy
      cases hname
      cases hfields
      generalize hlist : node.children = list at hchildren
      cases hchildren with
      | none => exact .leaf hnode hlist
      | some hbelow => exact .branch hnode hlist (hbelow.imp fun _ _ => ih)

mutual

/-- As many levels as the blueprint has elements are enough to take it. -/
theorem copyBelow_of_describes {bound : Nat} {id : NodeId} : ∀ copy : Blueprint,
    tree.Describes id copy → copy.count ≤ bound → tree.copyBelow bound id = .ok copy
  | ⟨_, _, none⟩, .leaf hnode hlist, hbound => by
      rw [count] at hbound
      obtain ⟨below, rfl⟩ := Nat.exists_eq_add_of_le' hbound
      simp only [copyBelow, hnode, hlist]
      rfl
  | ⟨_, _, some copies⟩, .branch hnode hlist hbelow, hbound => by
      rw [count] at hbound
      obtain ⟨below, rfl⟩ := Nat.exists_eq_add_of_le' (Nat.le_of_add_right_le hbound)
      have hrest : countAll copies ≤ below := by omega
      have hcopies := mapM_copyBelow_of_describes copies hbelow hrest
      simp only [copyBelow, hnode, hlist, hcopies]
      rfl

theorem mapM_copyBelow_of_describes {bound : Nat} {ids : List NodeId} : ∀ copies : List Blueprint,
    List.Forall₂ tree.Describes ids copies → countAll copies ≤ bound →
      ids.mapM (tree.copyBelow bound) = .ok copies
  | [], .nil, _ => rfl
  | copy :: rest, .cons hfirst hrest, hbound => by
      rw [countAll] at hbound
      rw [List.mapM_cons, copyBelow_of_describes copy hfirst (by omega),
        mapM_copyBelow_of_describes rest hrest (by omega)]
      rfl

end

/-- A node has no two blueprints. -/
theorem Describes.unique {other : Blueprint} (h : tree.Describes id copy)
    (hother : tree.Describes id other) : copy = other := by
  have hcopy := copyBelow_of_describes copy h (Nat.le_max_left copy.count other.count)
  rw [copyBelow_of_describes other hother (Nat.le_max_right copy.count other.count)] at hcopy
  cases hcopy
  rfl

/-- In a well-formed tree the rules give every known node the blueprint that is taken of it, and
no other. -/
theorem WellFormed.describes_iff (h : tree.WellFormed) (hid : id < tree.size) :
    tree.Describes id copy ↔ tree.blueprint id = .ok copy := by
  obtain ⟨taken, htaken⟩ := h.exists_blueprint hid
  constructor
  · intro hcopy
    rw [htaken, hcopy.unique (describes_of_copyBelow htaken)]
  · exact describes_of_copyBelow

mutual

/-- The nodes of a planted blueprint are described by it. -/
theorem describes_of_holds {place : NodeId} : ∀ blueprint : Blueprint,
    tree.Holds place blueprint → tree.Describes place blueprint
  | ⟨_, _, none⟩, h =>
      have ⟨_, hnode⟩ := h.node
      .leaf hnode rfl
  | ⟨_, _, some children⟩, h =>
      have ⟨_, hnode⟩ := h.node
      .branch hnode rfl (describes_of_holdsAll children h.below)

theorem describes_of_holdsAll {parent first : NodeId} : ∀ children : List Blueprint,
    tree.HoldsAll parent first children →
      List.Forall₂ tree.Describes (roots first children) children
  | [], _ => .nil
  | child :: rest, h =>
      .cons (describes_of_holds child h.first) (describes_of_holdsAll rest h.rest)

end

/-- A blueprint comes out of a tree as it was put in, whatever the tree. -/
theorem blueprint_plant (tree : Tree) (blueprint : Blueprint) :
    (tree.plant blueprint).2.blueprint (tree.plant blueprint).1 = .ok blueprint := by
  have hroot : (tree.plant blueprint).1 = tree.size := by rw [plant_eq]
  rw [hroot]
  apply copyBelow_of_describes blueprint (describes_of_holds blueprint (tree.holds_plant blueprint))
  rw [size_plant]
  exact Nat.le_add_left _ _

/-- What planting a blueprint leaves. -/
structure Grafted (tree : Tree) (blueprint : Blueprint) (root : NodeId) (after : Tree) : Prop where
  root_eq : root = tree.size
  size : after.size = tree.size + blueprint.count
  kept : ∀ id < tree.size, after.node? id = tree.node? id
  /-- The new nodes are numbered in the order of the elements, each before its children. -/
  laid : ∀ offset element, blueprint.elements[offset]? = some element →
    ∃ node, after.node? (tree.size + offset) = some node ∧ Lays element node
  walk : after.descendants root = List.range' tree.size blueprint.count
  wellFormed : after.WellFormed
  free : after.parent? root = none
  taken : after.blueprint root = .ok blueprint

theorem WellFormed.grafted_plant (h : tree.WellFormed) (blueprint : Blueprint) :
    tree.Grafted blueprint (tree.plant blueprint).1 (tree.plant blueprint).2 := by
  have hroot : (tree.plant blueprint).1 = tree.size := by rw [plant_eq]
  refine ⟨hroot, tree.size_plant blueprint, fun id hid => ?_,
    fun offset element helement => tree.exists_node?_plant helement, ?_, h.plant blueprint, ?_,
    tree.blueprint_plant blueprint⟩
  · rw [plant_eq, node?_grow_of_lt hid]
  · rw [hroot, descendants_plant]
  · rw [hroot, parent?_plant_root]

/-- Planting adds the elements of a blueprint behind the nodes that were there, which it leaves
alone, and the blueprint can be taken out again.  Every node has a blueprint, which is the one
that describes it, and comes out of any tree as it was put in. -/
theorem WellFormed.plant_and_blueprint (h : tree.WellFormed) :
    (∀ blueprint, tree.Grafted blueprint (tree.plant blueprint).1 (tree.plant blueprint).2) ∧
    ∀ id < tree.size, ∃ copy, tree.blueprint id = .ok copy ∧
      (∀ described, tree.Describes id described ↔ described = copy) ∧
      ∀ other : Tree, (other.plant copy).2.blueprint (other.plant copy).1 = .ok copy := by
  refine ⟨h.grafted_plant, fun id hid => ?_⟩
  obtain ⟨copy, hcopy⟩ := h.exists_blueprint hid
  refine ⟨copy, hcopy, fun described => ?_, fun other => other.blueprint_plant copy⟩
  rw [h.describes_iff hid, hcopy]
  constructor
  · rintro ⟨⟩
    rfl
  · rintro rfl
    rfl

/-- A form with a label, which has no child list, and a form, which has an empty one. -/
def nestedForm : Blueprint :=
  ⟨"form", .empty, some [⟨"label", .empty, none⟩, ⟨"form", .empty, some []⟩]⟩

theorem plant_and_blueprint_of_nestedForm :
    (empty.plant nestedForm).2.WellFormed ∧
    Grafted (empty.plant nestedForm).2 nestedForm 3
      ((empty.plant nestedForm).2.plant nestedForm).2 ∧
    0 < (empty.plant nestedForm).2.size ∧
    ∃ copy, (empty.plant nestedForm).2.blueprint 0 = .ok copy ∧
      (empty.plant nestedForm).2.Describes 0 copy := by
  have hform : (empty.plant nestedForm).2.WellFormed := empty_wellFormed.plant nestedForm
  have hroot : 0 < (empty.plant nestedForm).2.size := by decide
  obtain ⟨hplanted, htaken⟩ := hform.plant_and_blueprint
  obtain ⟨copy, hcopy, hdescribes, _⟩ := htaken 0 hroot
  exact ⟨hform, hplanted nestedForm, hroot, copy, hcopy, (hdescribes copy).mpr rfl⟩

end Tree

end FormDesigner
