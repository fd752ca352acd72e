import FormDesigner.Tree.Node

/-!
Why a change to a tree is refused.
-/

namespace FormDesigner

inductive TreeError where
  | unknownNode (id : NodeId)
  /-- The node has a parent already. -/
  | attached (node parent : NodeId)
  /-- The node would end up below itself. -/
  | cycle (node parent : NodeId)
  | indexOutOfRange (parent : NodeId) (index count : Nat)
  deriving DecidableEq, Repr

namespace TreeError

def message : TreeError → String
  | .unknownNode id => "unknown node " ++ id.text
  | .attached node parent =>
      "node " ++ node.text ++ " is already a child of " ++ parent.text
  | .cycle node parent =>
      "cannot attach " ++ node.text ++ " below its own descendant " ++ parent.text
  | .indexOutOfRange parent index count =>
      "child index " ++ toString index ++ " out of range for " ++ parent.text
        ++ " (" ++ toString count ++ " children)"

end TreeError

end FormDesigner
