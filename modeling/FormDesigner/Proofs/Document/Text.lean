import FormDesigner.Document.Basic
import FormDesigner.Proofs.Json.Codec
import FormDesigner.Proofs.Tree.Paths
import FormDesigner.Proofs.Value.Json

/-!
Documents as text and back.

The properties of an element stand beside its component and its children in one object.  They
come back as they were, unless one has the name of the component or of the children.
-/

namespace FormDesigner

namespace Blueprint

mutual

/-- Equality of blueprints, with the equality of values. -/
def equals : Blueprint → Blueprint → Bool
  | ⟨component, fields, none⟩, ⟨other, others, none⟩ =>
      component == other && Value.equalsFields fields.values others.values
  | ⟨component, fields, some children⟩, ⟨other, others, some list⟩ =>
      component == other && Value.equalsFields fields.values others.values &&
        equalsAll children list
  | _, _ => false

def equalsAll : List Blueprint → List Blueprint → Bool
  | [], [] => true
  | child :: rest, other :: others => equals child other && equalsAll rest others
  | _, _ => false

end

/-- No property of an element is named like another part of it. -/
def Writable (element : Blueprint) : Prop :=
  ∀ field ∈ element.fields.entries, field.1 ≠ "id" ∧ field.1 ≠ "children"

/-- An element whose properties have a JSON form of their own. -/
structure Storable (element : Blueprint) : Prop where
  names : element.Writable
  values : Value.AllFields Value.Storable element.fields.values

/-- Members of other names are read as properties, in front of what stands behind them. -/
theorem ofMembers?_properties {properties : List (String × Json)}
    (hnames : ∀ member ∈ properties, member.1 ≠ "id" ∧ member.1 ≠ "children")
    {tail : List (String × Json)} {members : Members} (htail : ofMembers? tail = some members) :
    ofMembers? (properties ++ tail) = some { members with
      properties := (properties.map fun member => (member.1, Datum.ofJson member.2)) ++
        members.properties } := by
  induction properties with
  | nil => exact htail
  | cons member rest ih =>
      obtain ⟨hfirst, hothers⟩ := List.forall_mem_cons.1 hnames
      rw [List.cons_append, ofMembers?, ih hothers]
      simp only [hfirst.1, hfirst.2, if_false]
      rfl

theorem map_fst_fieldsToJson (fields : Fields Datum) :
    (Value.fieldsToJson fields.values).map Prod.fst = fields.entries.map Prod.fst := by
  rw [Fields.values]
  induction fields.entries with
  | nil => rfl
  | cons entry rest ih =>
      rw [List.map_cons, Value.fieldsToJson, List.map_cons, ih, List.map_cons]

/-- The properties come back, in front of what stands behind them. -/
theorem ofMembers?_fields {fields : Fields Datum}
    (hnames : ∀ field ∈ fields.entries, field.1 ≠ "id" ∧ field.1 ≠ "children")
    {tail : List (String × Json)} {members : Members} (htail : ofMembers? tail = some members) :
    ofMembers? (Value.fieldsToJson fields.values ++ tail) = some { members with
      properties := (fields.map Datum.reread).entries ++ members.properties } := by
  rw [Fields.entries_reread]
  apply ofMembers?_properties _ htail
  intro member hmember
  have hname := List.mem_map_of_mem (f := Prod.fst) hmember
  rw [map_fst_fieldsToJson] at hname
  obtain ⟨field, hfield, heq⟩ := List.mem_map.mp hname
  exact heq ▸ hnames field hfield

/-- An object of a component, properties and what stands behind them. -/
theorem ofJson?_object (id : String) {fields : Fields Datum}
    (hnames : ∀ field ∈ fields.entries, field.1 ≠ "id" ∧ field.1 ≠ "children")
    {tail : List (String × Json)} {children : Option (Option (List Blueprint))}
    (htail : ofMembers? tail = some ⟨none, children, []⟩) :
    ofJson? (.object (("id", .string id) :: (Value.fieldsToJson fields.values ++ tail))) =
      some ⟨id, fields.map Datum.reread, children.getD none⟩ := by
  have hmembers : ofMembers? (("id", .string id) :: (Value.fieldsToJson fields.values ++ tail)) =
      some ⟨some id, children, (fields.map Datum.reread).entries⟩ := by
    rw [ofMembers?, ofMembers?_fields hnames htail, List.append_nil]
    rfl
  rw [ofJson?, hmembers, Option.bind_some, Members.blueprint?, Option.map_some,
    Fields.collect_entries]

/-- What holds of all elements holds of the first one and of all below its children. -/
theorem forall_descend_iff {p : Blueprint → Prop} {blueprint : Blueprint} :
    (∀ path element, blueprint.descend path = some element → p element) ↔
      p blueprint ∧ ∀ child ∈ blueprint.childList, ∀ path element,
        child.descend path = some element → p element := by
  constructor
  · intro h
    refine ⟨h [] blueprint rfl, ?_⟩
    intro child hchild path element hpath
    obtain ⟨index, hindex⟩ := List.getElem?_of_mem hchild
    apply h (index :: path) element
    rw [descend, hindex]
    exact hpath
  · rintro ⟨hroot, hbelow⟩ path element hpath
    cases path with
    | nil =>
        cases hpath
        exact hroot
    | cons index rest =>
        obtain ⟨child, hchild, hrest⟩ := Option.bind_eq_some_iff.1 hpath
        exact hbelow child (List.mem_of_getElem? hchild) rest element hrest

mutual

/-- A blueprint after it was written and read. -/
def reread : Blueprint → Blueprint
  | ⟨id, fields, none⟩ => ⟨id, fields.map Datum.reread, none⟩
  | ⟨id, fields, some children⟩ => ⟨id, fields.map Datum.reread, some (rereadAll children)⟩

def rereadAll : List Blueprint → List Blueprint
  | [] => []
  | child :: rest => reread child :: rereadAll rest

end

mutual

/-- A blueprint is read element by element. -/
theorem ofJson?_eq_reread : ∀ blueprint : Blueprint,
    (∀ path element, blueprint.descend path = some element → element.Writable) →
      ofJson? blueprint.toJson = some blueprint.reread
  | ⟨id, fields, none⟩, h => by
      obtain ⟨hroot, _⟩ := forall_descend_iff.1 h
      have hread := ofJson?_object id hroot ofMembers?.eq_1
      rw [List.append_nil] at hread
      exact hread
  | ⟨id, fields, some children⟩, h => by
      obtain ⟨hroot, hbelow⟩ := forall_descend_iff.1 h
      have htail : ofMembers? [("children", .array (childrenToJson children))] =
          some ⟨none, some (some (rereadAll children)), []⟩ := by
        rw [ofMembers?, ofMembers?.eq_1, ofChildren?, ofItems?_eq_rereadAll children hbelow]
        rfl
      exact ofJson?_object id hroot htail

theorem ofItems?_eq_rereadAll : ∀ children : List Blueprint,
    (∀ child ∈ children, ∀ path element, child.descend path = some element →
      element.Writable) → ofItems? (childrenToJson children) = some (rereadAll children)
  | [], _ => rfl
  | child :: rest, h => by
      obtain ⟨hfirst, hothers⟩ := List.forall_mem_cons.1 h
      rw [childrenToJson, ofItems?, ofJson?_eq_reread child hfirst,
        ofItems?_eq_rereadAll rest hothers]
      rfl

end

theorem equalsFields_reread {fields : Fields Datum}
    (h : Value.AllFields Value.Storable fields.values) :
    Value.equalsFields (fields.map Datum.reread).values fields.values = true := by
  rw [Fields.values_reread]
  exact Value.equalsFields_reread fields.values fields.ordered_values.2 h

mutual

/-- A blueprint whose elements have a JSON form of their own comes back as an equal one. -/
theorem equals_reread : ∀ blueprint : Blueprint,
    (∀ path element, blueprint.descend path = some element → element.Storable) →
      blueprint.reread.equals blueprint = true
  | ⟨id, fields, none⟩, h => by
      obtain ⟨hroot, _⟩ := forall_descend_iff.1 h
      rw [reread, equals, equalsFields_reread hroot.values]
      simp
  | ⟨id, fields, some children⟩, h => by
      obtain ⟨hroot, hbelow⟩ := forall_descend_iff.1 h
      rw [reread, equals, equalsFields_reread hroot.values, equalsAll_rereadAll children hbelow]
      simp

theorem equalsAll_rereadAll : ∀ children : List Blueprint,
    (∀ child ∈ children, ∀ path element, child.descend path = some element →
      element.Storable) → equalsAll (rereadAll children) children = true
  | [], _ => rfl
  | child :: rest, h => by
      obtain ⟨hfirst, hothers⟩ := List.forall_mem_cons.1 h
      rw [rereadAll, equalsAll, equals_reread child hfirst, equalsAll_rereadAll rest hothers]
      rfl

end

section Printable

variable {keeps : Number → Prop}

theorem printableMembers_append {members others : List (String × Json)}
    (h : Json.PrintableMembers keeps members) (hothers : Json.PrintableMembers keeps others) :
    Json.PrintableMembers keeps (members ++ others) := by
  induction members with
  | nil => exact hothers
  | cons member rest ih => exact ⟨h.1, ih h.2⟩

mutual

/-- The JSON form of a blueprint has a text, and its decimals are those of the properties. -/
theorem printable_toJson : ∀ blueprint : Blueprint,
    (∀ path element, blueprint.descend path = some element →
      Value.AllFields (Value.Kept keeps) element.fields.values) → blueprint.toJson.Printable keeps
  | ⟨id, fields, none⟩, h => by
      obtain ⟨hroot, _⟩ := forall_descend_iff.1 h
      rw [toJson]
      exact ⟨trivial, Value.printable_fieldsToJson fields.values hroot⟩
  | ⟨id, fields, some children⟩, h => by
      obtain ⟨hroot, hbelow⟩ := forall_descend_iff.1 h
      have hchildren := printable_childrenToJson children hbelow
      rw [toJson]
      exact ⟨trivial, printableMembers_append
        (Value.printable_fieldsToJson fields.values hroot) ⟨hchildren, trivial⟩⟩

theorem printable_childrenToJson : ∀ children : List Blueprint,
    (∀ child ∈ children, ∀ path element, child.descend path = some element →
      Value.AllFields (Value.Kept keeps) element.fields.values) →
      Json.PrintableItems keeps (childrenToJson children)
  | [], _ => trivial
  | child :: rest, h => by
      obtain ⟨hfirst, hothers⟩ := List.forall_mem_cons.1 h
      exact ⟨printable_toJson child hfirst, printable_childrenToJson rest hothers⟩

end

end Printable

end Blueprint

namespace Document

/-- Equality of documents. -/
def equals (document other : Document) : Bool :=
  document.version == other.version && document.root.equals other.root

/-- A JSON form of two parts is read as these, if the element is not nested too deep. -/
theorem ofJson?_of_parts {version : Nat} (hversion : version < 2 ^ 32) (root : Json) :
    ofJson? (.object [("version", .integer version), ("root", root)]) =
      if root.readable (Json.maxDepth - 1) then (Blueprint.ofJson? root).map (Document.mk version)
      else none := by
  have hnumber : versionOfJson? (.integer version) = some version := by
    have hrange : (version : Int) < 4294967296 := by omega
    simp [versionOfJson?, hrange]
  have hparts : ofJson? (.object [("version", .integer version), ("root", root)]) =
      ofParts? (.integer version) root := rfl
  rw [hparts, ofParts?, hnumber, Blueprint.ofReadable?]
  split
  · cases Blueprint.ofJson? root <;> rfl
  · rfl

/-- The elements are inside the document, which is one of the nested objects. -/
theorem depth_root_le_iff (document : Document) :
    document.root.toJson.depth ≤ Json.maxDepth - 1 ↔ document.toJson.depth < 128 := by
  simp only [toJson, Json.depth, Json.depthMembers, Json.maxDepth]
  omega

section Root

variable {keeps : Number → Prop} {document : Document} (hversion : document.version < 2 ^ 32)

include hversion

theorem ofJson?_of_root (hprintable : document.toJson.Printable keeps)
    (hdepth : document.toJson.depth < 128) {root : Blueprint}
    (hroot : Blueprint.ofJson? document.root.toJson = some root) :
    ofJson? document.toJson = some ⟨document.version, root⟩ := by
  have hbelow := document.depth_root_le_iff.mpr hdepth
  have hreadable := Json.readable_of_depth_le document.root.toJson hprintable.2.1 hbelow
  rw [toJson, ofJson?_of_parts hversion, if_pos hreadable, hroot]
  rfl

/-- The JSON form of a document has a text, and its decimals are those of the properties. -/
theorem printable_toJson (hnumbers : ∀ path element, document.root.descend path = some element →
      Value.AllFields (Value.Kept keeps) element.fields.values) :
    document.toJson.Printable keeps := by
  have hnumber : -(2 ^ 63) ≤ (document.version : Int) ∧ (document.version : Int) < 2 ^ 64 := by
    omega
  exact ⟨hnumber, document.root.printable_toJson hnumbers, trivial⟩

end Root

/-- The text of a document. -/
def print (codec : Json.Codec) (document : Document) : String := codec.print document.toJson

/-- The document that a text describes. -/
def parse? (codec : Json.Codec) (text : String) : Option Document :=
  (codec.read? text).bind ofJson?

theorem parse?_print_compact (document : Document) :
    parse? .compact (document.print .compact) = read? document.compact := rfl

theorem parse?_print_pretty (document : Document) :
    parse? .pretty (document.print .pretty) = read? document.pretty := rfl

/-- A document after it was written and read. -/
def reread (document : Document) : Document := ⟨document.version, document.root.reread⟩

/-- A document whose elements can be written is read from its text, whatever prints and reads it.
Its decimals have to be read back, and fewer than 128 arrays and objects are nested. -/
theorem parse?_print (codec : Json.Codec) {document : Document}
    (hversion : document.version < 2 ^ 32)
    (hwritable : ∀ path element, document.root.descend path = some element → element.Writable)
    (hnumbers : ∀ path element, document.root.descend path = some element →
      Value.AllFields (Value.Kept codec.Keeps) element.fields.values)
    (hdepth : document.toJson.depth < 128) :
    parse? codec (document.print codec) = some document.reread := by
  have hprintable := printable_toJson hversion hnumbers
  have hroot := document.root.ofJson?_eq_reread hwritable
  rw [parse?, print, codec.read?_print _ hprintable (Nat.le_of_lt_succ hdepth), Option.bind_some]
  exact ofJson?_of_root hversion hprintable hdepth hroot

/-- A document whose elements have a JSON form of their own is read as an equal one. -/
theorem equals_reread {document : Document}
    (h : ∀ path element, document.root.descend path = some element → element.Storable) :
    document.reread.equals document = true := by
  rw [equals, reread, document.root.equals_reread h]
  simp

/-- A document is read from both of its texts as an equal one, if every value in it has a JSON
form of its own, no property is named like the component or the children, and fewer than 128
arrays and objects are nested.  Decimals have to be read back from their own texts. -/
theorem reread_equals {document : Document} (hversion : document.version < 2 ^ 32)
    (hstorable : ∀ path element, document.root.descend path = some element → element.Storable)
    (hnumbers : ∀ path element, document.root.descend path = some element →
      Value.AllFields Value.Rereadable element.fields.values)
    (hdepth : document.toJson.depth < 128) :
    ∃ back, read? document.compact = some back ∧ read? document.pretty = some back ∧
      back.equals document = true := by
  have hwritable : ∀ path element, document.root.descend path = some element →
      element.Writable :=
    fun path element helement => (hstorable path element helement).names
  have hread := fun codec hkept => parse?_print codec hversion hwritable hkept hdepth
  have hcompact := hread .compact hnumbers
  have hpretty := hread .pretty hnumbers
  rw [parse?_print_compact] at hcompact
  rw [parse?_print_pretty] at hpretty
  exact ⟨document.reread, hcompact, hpretty, equals_reread hstorable⟩

/-- The number one half. -/
def oneHalf : Number := ⟨0x3FE0000000000000⟩

/-- A form of a width, with two texts: one with a bound label and an empty child list, and one
without either. -/
def form : Document :=
  ⟨1, ⟨"form", .single "width" (.number oneHalf),
    some [⟨"text", .single "label" (.literal (.string "x")), some []⟩, ⟨"text", .empty, none⟩]⟩⟩

/-- What holds of the three elements of the form. -/
theorem forall_form {p : Blueprint → Prop} (hroot : p form.root)
    (hlabelled : p ⟨"text", .single "label" (.literal (.string "x")), some []⟩)
    (hplain : p ⟨"text", .empty, none⟩) :
    ∀ path element, form.root.descend path = some element → p element := by
  refine Blueprint.forall_descend_iff.2 ⟨hroot, ?_⟩
  intro child hchild
  rcases List.mem_cons.1 hchild with rfl | hchild
  · exact Blueprint.forall_descend_iff.2
      ⟨hlabelled, fun _ hbelow => absurd hbelow List.not_mem_nil⟩
  · cases List.mem_singleton.1 hchild
    exact Blueprint.forall_descend_iff.2
      ⟨hplain, fun _ hbelow => absurd hbelow List.not_mem_nil⟩

theorem form_storable : ∀ path element, form.root.descend path = some element →
    element.Storable := by
  have hfinite : Value.Storable (.number oneHalf) := by
    constructor
    · intro x heq
      cases heq
      decide
    · intro kind inner heq
      cases heq
  have hbinding : Value.Storable (.literal (.string "x")) := by
    constructor
    · intro x heq
      cases heq
    · intro kind inner heq
      cases heq
  have hstring : Value.Storable (.string "x") := by
    constructor
    · intro x heq
      cases heq
    · intro kind inner heq
      cases heq
  apply forall_form
  · exact ⟨List.forall_mem_singleton.mpr (by decide), hfinite, trivial⟩
  · exact ⟨List.forall_mem_singleton.mpr (by decide), ⟨hbinding, hstring⟩, trivial⟩
  · exact ⟨fun _ hmem => absurd hmem List.not_mem_nil, trivial⟩

theorem form_rereadable : ∀ path element, form.root.descend path = some element →
    Value.AllFields Value.Rereadable element.fields.values := by
  have hnumber : Value.Rereadable (.number oneHalf) := by
    intro x heq _
    cases heq
    have htext : Json.decimalStyle.write oneHalf = ['0', '.', '5'] := by decide +kernel
    have hliteral : DecimalLiteral.read? ['0', '.', '5'] =
        some ⟨none, ['0'], some ['5'], none⟩ := by decide
    have hvalue : DecimalLiteral.toNumberStepwise ⟨none, ['0'], some ['5'], none⟩ = oneHalf := by
      decide +kernel
    have hread : Json.ofLiteral? ⟨none, ['0'], some ['5'], none⟩ = some (.decimal oneHalf) := by
      rw [Json.ofLiteral?, hvalue]
      rfl
    have hfinite : oneHalf.isFinite = true := by decide
    rw [Json.ofWord?_of_isNumeral (NumberStyle.isNumeral_write hfinite), htext, hliteral]
    exact hread
  have hbinding : Value.Rereadable (.literal (.string "x")) := by
    intro x heq
    cases heq
  have hstring : Value.Rereadable (.string "x") := by
    intro x heq
    cases heq
  apply forall_form
  · exact ⟨hnumber, trivial⟩
  · exact ⟨⟨hbinding, hstring⟩, trivial⟩
  · trivial

/-- The form is read from its texts. -/
theorem reread_equals_of_form :
    form.version < 2 ^ 32 ∧
    (∀ path element, form.root.descend path = some element → element.Storable) ∧
    (∀ path element, form.root.descend path = some element →
      Value.AllFields Value.Rereadable element.fields.values) ∧
    form.toJson.depth < 128 ∧
    ∃ back, read? form.compact = some back ∧ read? form.pretty = some back ∧
      back.equals form = true := by
  have hversion : form.version < 2 ^ 32 := by decide
  have hdepth : form.toJson.depth < 128 := by decide +kernel
  exact ⟨hversion, form_storable, form_rereadable, hdepth,
    reread_equals hversion form_storable form_rereadable hdepth⟩

end Document

end FormDesigner
