import FormDesigner.Drag
import FormDesigner.History.Session

/-!
Drops: dragged elements put into a node of the tree.

A drop is checked first.  A drop that is refused changes nothing.
-/

namespace FormDesigner

/-- Why a drop is refused. -/
inductive DropRefusal where
  | unknownTarget (node : NodeId)
  | unsupportedType (type : String)
  | unknownNode (node : NodeId)
  | intoItself
  | unknownComponent (id : String)
  | abstractComponent (id : String)
  | misplaced (component parent : String)
  deriving DecidableEq, Repr

def DropRefusal.message : DropRefusal → String
  | .unknownTarget node => "unknown drop target " ++ node.text
  | .unsupportedType type => "unsupported drag type '" ++ type ++ "'"
  | .unknownNode node => "unknown node " ++ node.text
  | .intoItself => "cannot drop a node into itself"
  | .unknownComponent id => "unknown component '" ++ id ++ "'"
  | .abstractComponent id => "'" ++ id ++ "' cannot be instantiated"
  | .misplaced component parent =>
      "'" ++ component ++ "' cannot be placed in '" ++ parent ++ "'"

/-- What became of a drop. -/
inductive DropResult where
  | accepted (node : NodeId)
  | refused (reason : DropRefusal)
  deriving DecidableEq, Repr

namespace Drop

/-- Checks the type of a drag. -/
def checkType (payload : DragPayload) (kind : String) : Except DropRefusal Unit :=
  if payload.matchesType (kind ++ "/*") then .ok ()
  else .error (.unsupportedType payload.type)

/-- The component of what is dropped on a target. -/
def draggedComponent (tree : Tree) (target : NodeId) (payload : DragPayload) :
    Except DropRefusal String :=
  match payload.subject with
  | .create => do
      checkType payload DragPayload.componentType
      return payload.component
  | .move moved => do
      checkType payload DragPayload.nodeType
      match tree.node? moved with
      | none => throw (.unknownNode moved)
      | some node =>
          if tree.isAncestorOrSelf moved target then throw .intoItself
          else return node.component

/-- Checks a drop: what is dropped has to be an element of a known component
that may stand in the target. -/
def check (registry : Registry) (tree : Tree) (target : NodeId) (payload : DragPayload) :
    Except DropRefusal Unit :=
  match tree.node? target with
  | none => .error (.unknownTarget target)
  | some parent => do
      let id ← draggedComponent tree target payload
      match registry.find? id with
      | none => throw (.unknownComponent id)
      | some component =>
          if component.isAbstract then throw (.abstractComponent id)
          else if component.allowsParent parent.component then return ()
          else throw (.misplaced id parent.component)

/-- Whether a drop would be accepted. -/
def isAllowed (registry : Registry) (tree : Tree) (target : NodeId) (payload : DragPayload) :
    Bool :=
  (check registry tree target payload).isOk

/-- Puts what is dropped into the target, as the last child, and records it. -/
def place (registry : Registry) (target : NodeId) (payload : DragPayload) :
    SessionM NodeId := do
  match payload.subject with
  | .create =>
      let component ← Session.fromEditor
        ((registry.require payload.component).mapError .registry)
      let node ← Session.onTree (Editor.instantiate registry component.create)
      let _ ← Session.created registry node target
      return node
  | .move node =>
      let _ ← Session.reparent registry node (some target)
      return node

/-- Drops a payload on a target, if that is allowed. -/
def perform (registry : Registry) (target : NodeId) (payload : DragPayload) :
    SessionM DropResult := do
  match check registry (← get).tree target payload with
  | .error reason => return .refused reason
  | .ok () => return .accepted (← place registry target payload)

end Drop

end FormDesigner
