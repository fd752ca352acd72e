import FormDesigner.Tree.Error

/-!
The tree of a form under construction.

All nodes live in one arena and are named by their place in it.  A node that
is taken out of its parent stays in the arena, so that it can be put back.
Child lists and parent links are kept in step; `Tree.WellFormed` says how.
-/

namespace FormDesigner

/-- The nodes of a form, attached or not. -/
structure Tree where
  nodes : Array Node
  deriving Inhabited

namespace Tree

/-- A tree without nodes. -/
def empty : Tree := ⟨#[]⟩

/-- The number of nodes, attached or not. -/
def size (tree : Tree) : Nat := tree.nodes.size

def contains (tree : Tree) (id : NodeId) : Bool := id < tree.size

def node? (tree : Tree) (id : NodeId) : Option Node := tree.nodes[id]?

/-- The children of a node; none for an unknown one. -/
def children (tree : Tree) (id : NodeId) : List NodeId :=
  ((tree.node? id).map Node.childList).getD []

/-- The parent of a node, if it has one. -/
def parent? (tree : Tree) (id : NodeId) : Option NodeId :=
  (tree.node? id).bind Node.parent

/-- The place of a node among the children of another. -/
def indexOf? (tree : Tree) (parent child : NodeId) : Option Nat :=
  (tree.children parent).findIdx? (· = child)

/-- Changes one node. -/
def mapNode (tree : Tree) (id : NodeId) (change : Node → Node) : Tree :=
  ⟨tree.nodes.modify id change⟩

/-- `Ancestor tree above below` says that the parent links lead from `below` to
`above` in one step or more. -/
inductive Ancestor (tree : Tree) : NodeId → NodeId → Prop where
  | parent {above below : NodeId} (h : tree.parent? below = some above) :
      Ancestor tree above below
  | step {above middle below : NodeId} (h : tree.parent? below = some middle)
      (rest : Ancestor tree above middle) : Ancestor tree above below

/-- Child lists and parent links agree, and no node is below itself. -/
structure WellFormed (tree : Tree) : Prop where
  known : ∀ parent child, child ∈ tree.children parent → child < tree.size
  linked : ∀ parent child,
    (tree.children parent).count child = if tree.parent? child = some parent then 1 else 0
  acyclic : ∀ id, ¬Ancestor tree id id

/-- The node and what the parent links lead to from there, at most `bound`
nodes in all. -/
def lineage (tree : Tree) : Nat → NodeId → List NodeId
  | 0, _ => []
  | bound + 1, id =>
      id :: (match tree.parent? id with
        | some parent => lineage tree bound parent
        | none => [])

/-- Whether `above` is `below` or one of its ancestors.  No line of ancestors
is longer than the arena. -/
def isAncestorOrSelf (tree : Tree) (above below : NodeId) : Bool :=
  (tree.lineage (tree.size + 1) below).contains above

/-- A node and what is below it, at most `bound` levels deep, each node before
its children. -/
def preorder (tree : Tree) : Nat → NodeId → List NodeId
  | 0, _ => []
  | bound + 1, id => id :: (tree.children id).flatMap (preorder tree bound)

/-- A known node and all nodes below it, each node before its children. -/
def descendants (tree : Tree) (root : NodeId) : List NodeId :=
  if tree.contains root then tree.preorder tree.size root else []

/-- Adds a node with its fields, and without links: a child list that it has
becomes empty. -/
def insert (tree : Tree) (node : Node) : NodeId × Tree :=
  (tree.size, ⟨tree.nodes.push
    { node with parent := none, children := node.children.map fun _ => [] }⟩)

/-- Stores a value in a node. -/
def setValue (tree : Tree) (id : NodeId) (name : String) (datum : Datum) : Tree :=
  tree.mapNode id fun node => { node with fields := Fields.put name datum node.fields }

/-- Removes a stored value from a node. -/
def dropValue (tree : Tree) (id : NodeId) (name : String) : Tree :=
  tree.mapNode id fun node => { node with fields := Fields.drop name node.fields }

end Tree

end FormDesigner
