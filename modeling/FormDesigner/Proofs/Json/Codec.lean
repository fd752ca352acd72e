import FormDesigner.Proofs.Json.Reading

/-!
Printers of JSON and their readers.

What saving a form relies on is one law of the printer with the reader.  Both printers of this
library keep it with the reader of this library.
-/

namespace FormDesigner

namespace Json

/-- A printer of JSON values with a reader of its texts.  A value is read back from its text if all
decimals in it are, unless more arrays and objects are nested than are read. -/
structure Codec where
  print : Json → String
  read? : String → Option Json
  /-- The decimals that are read back from their own texts. -/
  Keeps : Number → Prop
  read?_print : ∀ json : Json, json.Printable Keeps → json.depth ≤ maxDepth →
    read? (print json) = some json

namespace Codec

/-- Texts on one line. -/
def compact : Codec where
  print := Json.compact
  read? := Json.read?
  Keeps := ReadsBack
  read?_print json hprintable _ :=
    (read?_compact json).trans (reread?_of_printable json hprintable)

/-- Indented texts. -/
def pretty : Codec where
  print := Json.pretty
  read? := Json.read?
  Keeps := ReadsBack
  read?_print json hprintable _ :=
    (read?_pretty json).trans (reread?_of_printable json hprintable)

end Codec

end Json

end FormDesigner
