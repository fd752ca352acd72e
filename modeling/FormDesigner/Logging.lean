import FormDesigner.Text.Blank

/-!
Settings of the diagnostic log.
-/

namespace FormDesigner

/-- Which diagnostics are written, and in which form. -/
structure LogSettings where
  /-- The filter directive. -/
  filter : String := "warn"
  /-- Whether each line is a JSON text. -/
  json : Bool := false
  deriving DecidableEq, Repr

namespace LogSettings

/-- The environment variable of the filter. -/
def filterVariable : String := "FORMKIT_LOG"

/-- The environment variable of the form. -/
def formatVariable : String := "FORMKIT_LOG_FORMAT"

/-- Whether a text without the blanks around it is `json`, in any case. -/
def namesJson (text : String) : Bool :=
  (trimBlanks text.toList).map Char.toLower = ['j', 's', 'o', 'n']

/-- The settings of an environment.  A filter of blanks counts as none. -/
def ofEnvironment (environment : String → Option String) : LogSettings where
  filter :=
    ((environment filterVariable).filter fun text =>
      !(trimBlanks text.toList).isEmpty).getD "warn"
  json := ((environment formatVariable).map namesJson).getD false

end LogSettings

end FormDesigner
