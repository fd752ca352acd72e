import FormDesigner.Tree.Basic
import FormDesigner.Tree.Blueprint

/-!
Blueprints into a tree, and out of it.
-/

namespace FormDesigner

namespace Tree

/-- Adds a node as the last child of another. -/
def adopt (tree : Tree) (parent child : NodeId) : Tree :=
  (tree.mapNode parent fun node =>
    { node with children := some (node.childList ++ [child]) }).mapNode
    child fun node => { node with parent := some parent }

mutual

/-- Adds the elements of a blueprint, each one before its children.  The root
gets no parent. -/
def plant (tree : Tree) : Blueprint → NodeId × Tree
  | ⟨component, fields, none⟩ => tree.insert ⟨component, fields, none, none⟩
  | ⟨component, fields, some children⟩ =>
      let planted := tree.insert ⟨component, fields, some [], none⟩
      (planted.1, plantBelow planted.1 planted.2 children)

/-- Adds blueprints as the last children of a node. -/
def plantBelow (parent : NodeId) (tree : Tree) : List Blueprint → Tree
  | [] => tree
  | child :: rest =>
      let planted := plant tree child
      plantBelow parent (planted.2.adopt parent planted.1) rest

end

/-- The blueprint of a node and what is below it, at most `bound` levels deep. -/
def copyBelow (tree : Tree) : Nat → NodeId → Except TreeError Blueprint
  | 0, id => .error (.unknownNode id)
  | bound + 1, id =>
      match tree.node? id with
      | none => .error (.unknownNode id)
      | some node => do
          let children ← match node.children with
            | none => pure none
            | some ids => some <$> ids.mapM (copyBelow tree bound)
          return ⟨node.component, node.fields, children⟩

/-- The blueprint of a node and all that is below it. -/
def blueprint (tree : Tree) (root : NodeId) : Except TreeError Blueprint :=
  tree.copyBelow tree.size root

end Tree

end FormDesigner
