import FormDesigner.Editor.Error

/-!
Why a document cannot be saved or loaded.
-/

namespace FormDesigner

inductive DocumentError where
  /-- The text is no document. -/
  | json
  | unsupportedVersion (found expected : Nat)
  | editor (cause : EditorError)

namespace DocumentError

def message : DocumentError → String
  | .json => "document JSON error"
  | .unsupportedVersion found expected =>
      "unsupported document version " ++ toString found
        ++ " (expected " ++ toString expected ++ ")"
  | .editor cause => "document error: " ++ cause.message

/-- The messages of what lies behind an error. -/
def causes : DocumentError → List String
  | .editor cause => cause.message :: cause.causes
  | _ => []

end DocumentError

end FormDesigner
