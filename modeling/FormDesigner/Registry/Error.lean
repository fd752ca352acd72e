import FormDesigner.Template.Error
import FormDesigner.Template.Settings

/-!
Why a registry is refused, or has no answer.
-/

namespace FormDesigner

inductive RegistryError where
  | duplicateComponent (id : String)
  /-- A component has two properties of one name that are not the same one. -/
  | duplicateProperty (component property : String)
  | unknownParent (component parent : String)
  /-- Components that inherit from each other in a circle; the last id repeats
  the first. -/
  | cyclicInheritance (chain : List String)
  | template (component : String) (mode : RenderMode) (cause : TemplateError)
  | invalidSettings (rejections : List RenderSettings.Rejection)
  | unknownComponent (id : String)
  | unknownProperty (component property : String)
  deriving DecidableEq, Repr

namespace RegistryError

def message : RegistryError → String
  | .duplicateComponent id => "component '" ++ id ++ "' registered twice"
  | .duplicateProperty component property =>
      "component '" ++ component ++ "' has two properties named '" ++ property ++ "'"
  | .unknownParent component parent =>
      "component '" ++ component ++ "' inherits from unknown component '" ++ parent ++ "'"
  | .cyclicInheritance chain => "cyclic inheritance: " ++ " -> ".intercalate chain
  | .template component mode cause =>
      mode.name ++ " template of component '" ++ component ++ "': " ++ cause.message
  | .invalidSettings rejections =>
      "invalid template config:"
        ++ String.join (rejections.map fun rejection => " " ++ rejection.message)
  | .unknownComponent id => "unknown component '" ++ id ++ "'"
  | .unknownProperty component property =>
      "unknown property '" ++ property ++ "' on component '" ++ component ++ "'"

/-- The messages of what lies behind an error. -/
def causes : RegistryError → List String
  | .template _ _ cause => [cause.message]
  | .invalidSettings rejections => (rejections.head?.map (·.message)).toList
  | _ => []

end RegistryError

end FormDesigner
