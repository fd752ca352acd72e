import FormDesigner.Document.Error
import FormDesigner.Editor.Basic
import FormDesigner.Tree.BlueprintJson

/-!
Documents: saved forms.

A saved form is the number of its format and a blueprint without the values
that count as defaults.  Loading puts the defaults back.
-/

namespace FormDesigner

/-- A saved form. -/
structure Document where
  version : Nat
  root : Blueprint
  deriving Inhabited

namespace Document

/-- The format that is written, and the only one that is loaded. -/
def currentVersion : Nat := 1

/-- A document in the current format. -/
def ofRoot (root : Blueprint) : Document := ⟨currentVersion, root⟩

/-- Saves a node and all that is below it. -/
def «export» (registry : Registry) (tree : Tree) (root : NodeId) :
    Except DocumentError Document := do
  let copy ← (Editor.copySubtree registry tree root).mapError .editor
  match Editor.strip registry copy with
  | (stripped, none) => return ofRoot stripped
  | (_, some failure) => throw (.editor (.registry failure))

/-- Loads a document into a tree.  The result is the new root, which has no
parent. -/
def load (registry : Registry) (document : Document) : TreeM DocumentError NodeId := do
  if document.version ≠ currentVersion then
    throw (.unsupportedVersion document.version currentVersion)
  (Editor.instantiate registry document.root).adaptExcept .editor

/-- The JSON form of a document. -/
def toJson (document : Document) : Json :=
  .object [("version", .integer document.version), ("root", document.root.toJson)]

/-- The text of a document on one line. -/
def compact (document : Document) : String := document.toJson.compact

/-- The indented text of a document. -/
def pretty (document : Document) : String := document.toJson.pretty

/-- The format number of a JSON form: an integer of 32 bits. -/
def versionOfJson? : Json → Option Nat
  | .integer n => if 0 ≤ n && n < 2 ^ 32 then some n.toNat else none
  | _ => none

/-- The document of its two parts. -/
def ofParts? (version root : Json) : Option Document := do
  let version ← versionOfJson? version
  let root ← Blueprint.ofReadable? (Json.maxDepth - 1) root
  return ⟨version, root⟩

/-- The values of the members of a name. -/
def membersNamed (name : String) (members : List (String × Json)) : List Json :=
  (members.filter fun member => member.1 = name).map Prod.snd

/-- The document of a JSON form: an object in which both parts stand once and
other members are left aside, or the two parts as an array. -/
def ofJson? : Json → Option Document
  | .object members =>
      match membersNamed "version" members, membersNamed "root" members with
      | [version], [root] => ofParts? version root
      | _, _ => none
  | .array [version, root] => ofParts? version root
  | _ => none

/-- The document that a text describes.  The format is checked by loading, not
here. -/
def read? (text : String) : Option Document :=
  (Json.read? text).bind ofJson?

end Document

/-- Saved texts under their file names. -/
structure Shelf where
  files : Fields String

namespace Shelf

def empty : Shelf := ⟨.empty⟩

/-- Saves a document as indented text, in place of a file of the same name. -/
def save (shelf : Shelf) (name : String) (document : Document) : Shelf :=
  ⟨Fields.put name document.pretty shelf.files⟩

/-- The text saved under a name. -/
def text? (shelf : Shelf) (name : String) : Option String := Fields.get? name shelf.files

end Shelf

end FormDesigner
