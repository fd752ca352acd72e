import FormDesigner.Template.Token

/-!
Writing templates.

Pieces have one written form: every dollar sign of a text is doubled, and a
directive stands between single dollar signs, its mode in front.  Scanning the
written form finds the pieces again, at the positions that `Token.place` gives
them, as long as no name or text holds a mark of the notation.
-/

namespace FormDesigner

namespace Directive

/-- The mode in front of a directive. -/
def writeMode : Option RenderMode → List Char
  | none => []
  | some .edit => ['e', ':']
  | some .run => ['r', ':']

/-- The mark of an optional value. -/
def writeOptional (optional : Bool) : List Char := if optional then ['?'] else []

/-- The name of a property, between braces if its expression is to be marked. -/
def writeProperty (name : String) (braced : Bool) : List Char :=
  if braced then '\x7b' :: (name.toList ++ ['\x7d']) else name.toList

/-- What a directive asks for, as it is written. -/
def writeKind : DirectiveKind → List Char
  | .assignment attr property optional braced =>
      attr.toList ++ (writeOptional optional ++ '=' :: writeProperty property braced)
  | .reference property optional braced =>
      writeProperty property braced ++ writeOptional optional
  | .literal text => '"' :: (text.toList ++ ['"'])
  | .children => childrenName.toList

/-- A directive between its dollar signs. -/
def write (directive : Directive) : List Char :=
  '$' :: (writeMode directive.mode ++ (writeKind directive.kind ++ ['$']))

end Directive

namespace Token

/-- A character of a text as it is written. -/
def writeChar (c : Char) : List Char := if c = '$' then ['$', '$'] else [c]

/-- A piece of a template as it is written. -/
def write : Token → List Char
  | .text content => content.toList.flatMap writeChar
  | .directive found => found.write

/-- The template made of some pieces. -/
def print (tokens : List Token) : String := String.ofList (tokens.flatMap write)

/-- The number of bytes that some characters take up. -/
def byteCount (text : List Char) : Nat := (text.map Char.utf8Size).foldr (· + ·) 0

/-- The pieces at the positions that they have in their written form, the first
one behind `position` bytes. -/
def place (position : Nat) : List Token → List Token
  | [] => []
  | .text content :: rest =>
      .text content :: place (position + byteCount (write (.text content))) rest
  | .directive found :: rest =>
      .directive { found with position } :: place (position + byteCount found.write) rest

end Token

end FormDesigner
