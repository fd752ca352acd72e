import FormDesigner.Registry.Error
import FormDesigner.Tree.Error
import FormDesigner.Value.Markup

/-!
Why an operation of the editor fails.
-/

namespace FormDesigner

inductive EditorError where
  | tree (cause : TreeError)
  | registry (cause : RegistryError)
  /-- The property does not accept the value. -/
  | rejected (component property : String) (value : Value)

namespace EditorError

def message : EditorError → String
  | .tree cause => "tree error: " ++ cause.message
  | .registry cause => "registry error: " ++ cause.message
  | .rejected component property value =>
      "value " ++ value.markup ++ " rejected by property '" ++ property
        ++ "' of component '" ++ component ++ "'"

/-- The messages of what lies behind an error. -/
def causes : EditorError → List String
  | .tree cause => [cause.message]
  | .registry cause => cause.message :: cause.causes
  | .rejected _ _ _ => []

end EditorError

end FormDesigner
