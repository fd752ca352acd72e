import FormDesigner.Document.Error
import FormDesigner.History.Action

/-!
All failures of the library under one type.
-/

namespace FormDesigner

/-- A failure of any part. -/
inductive Failure where
  | tree (cause : TreeError)
  | template (cause : TemplateError)
  | registry (cause : RegistryError)
  | editor (cause : EditorError)
  | history (cause : HistoryError)
  | document (cause : DocumentError)

namespace Failure

def message : Failure → String
  | .tree cause => cause.message
  | .template cause => cause.message
  | .registry cause => cause.message
  | .editor cause => cause.message
  | .history cause => cause.message
  | .document cause => cause.message

/-- The messages of what lies behind a failure, from the part that failed down
to the first cause. -/
def causes : Failure → List String
  | .tree cause => [cause.message]
  | .template cause => [cause.message]
  | .registry cause => cause.message :: cause.causes
  | .editor cause => cause.message :: cause.causes
  | .history cause => cause.message :: cause.causes
  | .document cause => cause.message :: cause.causes

end Failure

end FormDesigner
