import FormDesigner.Text.Quoted

/-!
Settings that all templates share.
-/

namespace FormDesigner

/-- The texts that rendering puts in. -/
structure RenderSettings where
  /-- What stands for the children on the canvas. -/
  childrenPlaceholder : String := "<edit-children></edit-children>"
  /-- What stands before an expression in the running form. -/
  bindingOpen : String := "\x7b\x7b"
  /-- What stands behind an expression in the running form. -/
  bindingClose : String := "\x7d\x7d"
  deriving DecidableEq, Repr, Inhabited

namespace RenderSettings

/-- One of the settings. -/
inductive Setting where
  | childrenPlaceholder
  | bindingOpen
  | bindingClose
  deriving DecidableEq, Repr

def Setting.name : Setting → String
  | .childrenPlaceholder => "children_placeholder"
  | .bindingOpen => "binding_open"
  | .bindingClose => "binding_close"

/-- What is wrong with a setting. -/
inductive Fault where
  | empty
  | quote
  deriving DecidableEq, Repr

def Fault.message : Fault → String
  | .empty => "must not be empty"
  | .quote => "marker must not contain '\"'"

/-- A setting that is refused. -/
structure Rejection where
  setting : Setting
  value : String
  fault : Fault
  deriving DecidableEq, Repr

def Rejection.message (rejection : Rejection) : String :=
  rejection.setting.name ++ "=" ++ messageQuote rejection.value
    ++ " (" ++ rejection.fault.message ++ ")"

def get (settings : RenderSettings) : Setting → String
  | .childrenPlaceholder => settings.childrenPlaceholder
  | .bindingOpen => settings.bindingOpen
  | .bindingClose => settings.bindingClose

def set (settings : RenderSettings) (setting : Setting) (value : String) : RenderSettings :=
  match setting with
  | .childrenPlaceholder => { settings with childrenPlaceholder := value }
  | .bindingOpen => { settings with bindingOpen := value }
  | .bindingClose => { settings with bindingClose := value }

def rejectIf (settings : RenderSettings) (bad : String → Bool) (fault : Fault)
    (setting : Setting) : Option Rejection :=
  if bad (settings.get setting) then some ⟨setting, settings.get setting, fault⟩ else none

/-- All settings that are refused: no setting may be empty, and no marker may
hold the quote that ends an attribute. -/
def rejections (settings : RenderSettings) : List Rejection :=
  [.childrenPlaceholder, .bindingOpen, .bindingClose].filterMap
      (settings.rejectIf String.isEmpty .empty)
    ++ [.bindingOpen, .bindingClose].filterMap
      (settings.rejectIf (fun value => value.toList.contains '"') .quote)

/-- An expression between the markers of the running form. -/
def interpolate (settings : RenderSettings) (expression : String) : String :=
  settings.bindingOpen ++ expression ++ settings.bindingClose

/-- The environment variable of a setting. -/
def Setting.variable : Setting → String
  | .childrenPlaceholder => "FORMKIT_CHILDREN_PLACEHOLDER"
  | .bindingOpen => "FORMKIT_BINDING_OPEN"
  | .bindingClose => "FORMKIT_BINDING_CLOSE"

/-- The settings of an environment, and those of its variables that are
refused.  A refused one leaves the setting as it is without a variable. -/
def ofEnvironment (environment : String → Option String) : RenderSettings × List Rejection :=
  let read : RenderSettings → Setting → RenderSettings := fun settings setting =>
    match environment setting.variable with
    | some value => settings.set setting value
    | none => settings
  let settings := [.childrenPlaceholder, .bindingOpen, .bindingClose].foldl read {}
  let rejected := settings.rejections
  (rejected.foldl (fun kept rejection =>
      kept.set rejection.setting (({} : RenderSettings).get rejection.setting)) settings,
    rejected)

end RenderSettings

end FormDesigner
