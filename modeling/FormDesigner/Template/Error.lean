/-!
The two forms of markup, and why a template for them is refused.
-/

namespace FormDesigner

/-- Which markup of a form is written. -/
inductive RenderMode where
  /-- The markup on the canvas of the designer.  It never shows expressions. -/
  | edit
  /-- The markup handed to the host of the running form. -/
  | run
  deriving DecidableEq, Repr, Inhabited

def RenderMode.name : RenderMode → String
  | .edit => "edit"
  | .run => "run"

/-- Why a template is refused.  Positions count the bytes before the dollar
sign that opens the directive at fault. -/
inductive TemplateError where
  | unclosedDirective (position : Nat)
  | unknownMode (letter : Char) (position : Nat)
  | unclosedLiteral (position : Nat)
  | unknownProperty (name : String) (position : Nat)
  deriving DecidableEq, Repr

namespace TemplateError

def position : TemplateError → Nat
  | .unclosedDirective position => position
  | .unknownMode _ position => position
  | .unclosedLiteral position => position
  | .unknownProperty _ position => position

def message : TemplateError → String
  | .unclosedDirective position =>
      "unterminated directive at byte " ++ toString position ++ ": missing closing '$'"
  | .unknownMode letter position =>
      "unsupported mode '" ++ letter.toString ++ "' at byte " ++ toString position
  | .unclosedLiteral position =>
      "expected closing '\"' in literal at byte " ++ toString position
  | .unknownProperty name position =>
      "unknown property '" ++ name ++ "' referenced at byte " ++ toString position

end TemplateError

end FormDesigner
