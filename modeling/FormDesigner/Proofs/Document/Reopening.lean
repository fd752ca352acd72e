import FormDesigner.Proofs.Document.Loading
import FormDesigner.Proofs.Document.Members
import FormDesigner.Proofs.Document.Rereading
import FormDesigner.Proofs.Json.Decimals

/-!
Opening a saved form.

The text of a saved form is always a text of JSON, whatever values are stored in it.  Two things
can keep it from being opened: more nested arrays and objects than are read, and a declared
property that is named like the component or the children of an element.
-/

namespace FormDesigner

namespace Value

theorem exists_rereads_number (x : Number) : ∃ other, Json.Rereads (numberToJson x) other := by
  rcases numberToJson_cases x with ⟨n, hsmall, hform⟩ | ⟨hfinite, hform⟩ | hform
  · rw [wholeLimit] at hsmall
    rw [hform]
    exact ⟨.integer n, Json.rereads_scalar (Json.ofWord?_writeInteger (by omega) (by omega)) rfl
      fun _ => rfl⟩
  · obtain ⟨y, -, hread⟩ := Json.exists_ofWord?_write hfinite
    rw [hform]
    have htext := (Json.reread?_decimal hfinite).trans hread
    exact ⟨.decimal y, Json.rereads_scalar htext rfl fun _ => rfl⟩
  · rw [hform]
    exact ⟨.null, Json.rereads_scalar rfl rfl fun _ => rfl⟩

/-- The texts of the values of some fields are read under the names of the fields. -/
def RereadsFields : List (String × Value) → List (String × Json) → Prop :=
  List.Forall₂ fun field member => field.1 = member.1 ∧ Json.Rereads field.2.toJson member.2

theorem RereadsFields.members {fields : List (String × Value)} {members : List (String × Json)}
    (h : RereadsFields fields members) : Json.RereadsMembers (fieldsToJson fields) members := by
  induction h with
  | nil => exact .nil
  | cons hfirst hrest ih => exact .cons hfirst ih

mutual

/-- The text of every value is read. -/
theorem exists_rereads_toJson : ∀ value : Value, ∃ other, Json.Rereads value.toJson other
  | .null => ⟨.null, Json.rereads_scalar rfl rfl fun _ => rfl⟩
  | .bool true => ⟨.bool true, Json.rereads_scalar rfl rfl fun _ => rfl⟩
  | .bool false => ⟨.bool false, Json.rereads_scalar rfl rfl fun _ => rfl⟩
  | .number x => exists_rereads_number x
  | .string text => ⟨.string text, Json.rereads_scalar rfl rfl fun _ => rfl⟩
  | .list items => by
      obtain ⟨others, hothers⟩ := exists_rereads_itemsToJson items
      exact ⟨.array others, Json.rereads_array hothers⟩
  | .record fields => by
      obtain ⟨others, hothers⟩ := exists_rereads_fieldsToJson fields
      exact ⟨.object others, Json.rereads_object hothers.members⟩
  | .binding kind inner => by
      obtain ⟨other, hother⟩ := exists_rereads_toJson inner
      have hkind : Json.Rereads (.string kind.name) (.string kind.name) :=
        Json.rereads_scalar rfl rfl fun _ => rfl
      exact ⟨.object [("kind", .string kind.name), ("value", other)],
        Json.rereads_object (.cons ⟨rfl, hkind⟩ (.cons ⟨rfl, hother⟩ .nil))⟩

theorem exists_rereads_itemsToJson : ∀ items : List Value,
    ∃ others, List.Forall₂ Json.Rereads (itemsToJson items) others
  | [] => ⟨[], .nil⟩
  | item :: rest => by
      obtain ⟨other, hother⟩ := exists_rereads_toJson item
      obtain ⟨others, hothers⟩ := exists_rereads_itemsToJson rest
      exact ⟨other :: others, .cons hother hothers⟩

theorem exists_rereads_fieldsToJson : ∀ fields : List (String × Value),
    ∃ members, RereadsFields fields members
  | [] => ⟨[], .nil⟩
  | (name, value) :: rest => by
      obtain ⟨other, hother⟩ := exists_rereads_toJson value
      obtain ⟨members, hmembers⟩ := exists_rereads_fieldsToJson rest
      exact ⟨(name, other) :: members, .cons ⟨rfl, hother⟩ hmembers⟩

end

namespace RereadsFields

variable {fields : List (String × Value)} {members : List (String × Json)}
  (h : RereadsFields fields members)

include h

theorem names : members.map Prod.fst = fields.map Prod.fst := by
  induction h with
  | nil => rfl
  | cons hfirst hrest ih => rw [List.map_cons, List.map_cons, ih, hfirst.1]

theorem exists_field {name : String} {other : Json} (hmem : (name, other) ∈ members) :
    ∃ value, (name, value) ∈ fields ∧ Json.Rereads value.toJson other := by
  induction h with
  | nil => cases hmem
  | @cons field member fields members hfirst hrest ih =>
      rcases List.mem_cons.mp hmem with rfl | hmem
      · obtain ⟨name, value⟩ := field
        obtain ⟨rfl, hother⟩ := hfirst
        exact ⟨value, List.mem_cons_self, hother⟩
      · obtain ⟨value, hvalue, hother⟩ := ih hmem
        exact ⟨value, List.mem_cons_of_mem _ hvalue, hother⟩

theorem exists_member {name : String} {value : Value} (hmem : (name, value) ∈ fields) :
    ∃ other, (name, other) ∈ members ∧ Json.Rereads value.toJson other := by
  induction h with
  | nil => cases hmem
  | @cons field member fields members hfirst hrest ih =>
      rcases List.mem_cons.mp hmem with rfl | hmem
      · obtain ⟨_, other⟩ := member
        obtain ⟨rfl, hother⟩ := hfirst
        exact ⟨other, List.mem_cons_self, hother⟩
      · obtain ⟨other, hother, hread⟩ := ih hmem
        exact ⟨other, List.mem_cons_of_mem _ hother, hread⟩

end RereadsFields

end Value

namespace Blueprint

/-- All elements below are of known components. -/
def KnownBelow (known : String → Prop) (children : Option (List Blueprint)) : Prop :=
  ∀ element ∈ elementsAll (children.getD []), known element.component

/-- An element that is read from its text.  None of its properties is named like the component.
One may be named like the children, if there are none and its value is read as children of known
components. -/
structure Legible (known : String → Prop) (element : Blueprint) : Prop where
  id : ∀ datum, ("id", datum) ∉ element.fields.entries
  children : ∀ datum, ("children", datum) ∈ element.fields.entries → element.children = none ∧
    ∃ other children, datum.value.toJson.reread? = some other ∧
      ofChildren? other = some children ∧ KnownBelow known children

/-- An element is legible if no property is named like another part of it. -/
theorem legible_of_names {element : Blueprint}
    (h : element.Writable) (known : String → Prop) : element.Legible known where
  id _ hmem := (h _ hmem).1 rfl
  children _ hmem := absurd rfl (h _ hmem).2

section Legible

variable {known : String → Prop} {fields : Fields Datum} {properties : List (String × Json)}

theorem legible_iff (h : Value.RereadsFields fields.values properties) (id : String)
    (children : Option (List Blueprint)) :
    Legible known ⟨id, fields, children⟩ ↔ (¬∃ other, ("id", other) ∈ properties) ∧
      ∀ other, ("children", other) ∈ properties → children = none ∧
        ∃ read, ofChildren? other = some read ∧ KnownBelow known read := by
  constructor
  · rintro ⟨hid, hchildren⟩
    constructor
    · rintro ⟨other, hother⟩
      obtain ⟨value, hvalue, -⟩ := h.exists_field hother
      obtain ⟨datum, hdatum, -⟩ := Fields.mem_values.mp hvalue
      exact hid datum hdatum
    · intro other hother
      obtain ⟨value, hvalue, hreads⟩ := h.exists_field hother
      obtain ⟨datum, hdatum, rfl⟩ := Fields.mem_values.mp hvalue
      obtain ⟨hnone, back, read, hback, hread, hknown⟩ := hchildren datum hdatum
      cases hback.symm.trans hreads.text
      exact ⟨hnone, read, hread, hknown⟩
  · rintro ⟨hid, hchildren⟩
    constructor
    · intro datum hdatum
      obtain ⟨other, hother, -⟩ := h.exists_member (Fields.mem_values.mpr ⟨datum, hdatum, rfl⟩)
      exact hid ⟨other, hother⟩
    · intro datum hdatum
      obtain ⟨other, hother, hreads⟩ :=
        h.exists_member (Fields.mem_values.mpr ⟨datum, hdatum, rfl⟩)
      obtain ⟨hnone, read, hread, hknown⟩ := hchildren other hother
      exact ⟨hnone, other, read, hreads.text, hread, hknown⟩

theorem pairwise_names (h : Value.RereadsFields fields.values properties) :
    properties.Pairwise fun member later => member.1 ≠ later.1 := by
  have hnames : (fields.values.map Prod.fst).Pairwise (· < ·) :=
    List.pairwise_map.mpr fields.ordered_values.1
  rw [← h.names] at hnames
  exact (List.pairwise_map.mp hnames).imp fun hlt => String.ne_of_lt hlt

theorem knownBelow_iff (known : String → Prop) (back : Blueprint) :
    (∀ element ∈ back.elements, known element.component) ↔
      known back.component ∧ KnownBelow known back.children := by
  rw [elements_eq, List.forall_mem_cons]
  rfl

/-- An object is read as an element with known components below it. -/
theorem exists_ofJson?_object_iff {rest : List (String × Json)} {id : String} (hid : known id) :
    (∃ back, ofJson? (.object (("id", .string id) :: rest)) = some back ∧
      ∀ element ∈ back.elements, known element.component) ↔
      ReadableMembers (KnownBelow known) (("id", .string id) :: rest) := by
  rw [← exists_ofMembers?_iff]
  constructor
  · rintro ⟨back, hback, hknown⟩
    obtain ⟨read, hread, rfl⟩ := ofJson?_object_eq_some_iff.mp hback
    refine ⟨read, hread, fun children hchildren => ?_⟩
    obtain ⟨-, hbelow⟩ := (knownBelow_iff known _).mp hknown
    rwa [hchildren] at hbelow
  · rintro ⟨read, hread, hchildren⟩
    refine ⟨_, ofJson?_object_eq_some_iff.mpr ⟨read, hread, rfl⟩,
      (knownBelow_iff known _).mpr ⟨hid, ?_⟩⟩
    cases hlist : read.children with
    | none => exact fun _ h => absurd h List.not_mem_nil
    | some children => exact hchildren children hlist

mutual

/-- An element is read from its text exactly if it and all below it are legible. -/
theorem exists_rereads_toJson : ∀ blueprint : Blueprint,
    (∀ element ∈ blueprint.elements, known element.component) →
      ∃ other, Json.Rereads blueprint.toJson other ∧
        ((∃ back, ofJson? other = some back ∧ ∀ element ∈ back.elements, known element.component) ↔
          ∀ element ∈ blueprint.elements, element.Legible known)
  | ⟨id, fields, none⟩, h => by
      rw [elements, List.forall_mem_singleton] at h
      obtain ⟨properties, hproperties⟩ := Value.exists_rereads_fieldsToJson fields.values
      have hid : Json.Rereads (.string id) (.string id) := Json.rereads_scalar rfl rfl fun _ => rfl
      refine ⟨.object (("id", .string id) :: properties),
        Json.rereads_object (.cons ⟨rfl, hid⟩ hproperties.members), ?_⟩
      rw [exists_ofJson?_object_iff h,
        readableMembers_iff_of_bare (pairwise_names hproperties) id, elements,
        List.forall_mem_singleton, legible_iff hproperties]
      simp
  | ⟨id, fields, some children⟩, h => by
      rw [elements, List.forall_mem_cons] at h
      obtain ⟨properties, hproperties⟩ := Value.exists_rereads_fieldsToJson fields.values
      obtain ⟨others, hothers, hread⟩ := exists_rereads_childrenToJson children h.2
      have hid : Json.Rereads (.string id) (.string id) := Json.rereads_scalar rfl rfl fun _ => rfl
      have htail : Json.RereadsMembers [("children", .array (childrenToJson children))]
          [("children", .array others)] := .cons ⟨rfl, Json.rereads_array hothers⟩ .nil
      have hmembers : Json.RereadsMembers
          (Value.fieldsToJson fields.values ++ [("children", .array (childrenToJson children))])
          (properties ++ [("children", .array others)]) :=
        List.rel_append hproperties.members htail
      refine ⟨.object (("id", .string id) :: (properties ++ [("children", Json.array others)])),
        Json.rereads_object (.cons ⟨rfl, hid⟩ hmembers), ?_⟩
      rw [exists_ofJson?_object_iff h.1,
        readableMembers_iff_of_children (pairwise_names hproperties) id, elements,
        List.forall_mem_cons, legible_iff hproperties, ← hread, ofChildren?]
      simp [KnownBelow]

theorem exists_rereads_childrenToJson : ∀ children : List Blueprint,
    (∀ element ∈ elementsAll children, known element.component) →
      ∃ others, List.Forall₂ Json.Rereads (childrenToJson children) others ∧
        ((∃ list, ofItems? others = some list ∧
          ∀ element ∈ elementsAll list, known element.component) ↔
          ∀ element ∈ elementsAll children, element.Legible known)
  | [], _ => ⟨[], .nil, by simp [ofItems?, elementsAll]⟩
  | child :: rest, h => by
      rw [elementsAll, List.forall_mem_append] at h
      obtain ⟨other, hother, hchild⟩ := exists_rereads_toJson child h.1
      obtain ⟨others, hothers, hrest⟩ := exists_rereads_childrenToJson rest h.2
      refine ⟨other :: others, .cons hother hothers, ?_⟩
      rw [elementsAll, List.forall_mem_append, ← hchild, ← hrest]
      simp only [ofItems?, Option.bind_eq_bind, Option.bind_eq_some_iff, Option.some.injEq,
        Option.pure_def]
      constructor
      · rintro ⟨_, ⟨back, hback, list, hlist, rfl⟩, hknown⟩
        rw [elementsAll, List.forall_mem_append] at hknown
        exact ⟨⟨back, hback, hknown.1⟩, list, hlist, hknown.2⟩
      · rintro ⟨⟨back, hback, hfirst⟩, list, hlist, hlater⟩
        refine ⟨_, ⟨back, hback, list, hlist, rfl⟩, ?_⟩
        rw [elementsAll, List.forall_mem_append]
        exact ⟨hfirst, hlater⟩

end

end Legible

mutual

/-- What holds of the element at every path holds of every element. -/
theorem forall_elements {p : Blueprint → Prop} : ∀ blueprint : Blueprint,
    (∀ path element, blueprint.descend path = some element → p element) →
      ∀ element ∈ blueprint.elements, p element
  | ⟨_, _, none⟩, h => by
      rw [elements, List.forall_mem_singleton]
      exact h [] _ rfl
  | ⟨_, _, some children⟩, h => by
      obtain ⟨hroot, hbelow⟩ := forall_descend_iff.mp h
      rw [elements, List.forall_mem_cons]
      exact ⟨hroot, forall_elementsAll children hbelow⟩

theorem forall_elementsAll {p : Blueprint → Prop} : ∀ children : List Blueprint,
    (∀ child ∈ children, ∀ path element, child.descend path = some element → p element) →
      ∀ element ∈ elementsAll children, p element
  | [], _ => fun _ h => absurd h List.not_mem_nil
  | child :: rest, h => by
      obtain ⟨hfirst, hlater⟩ := List.forall_mem_cons.mp h
      rw [elementsAll, List.forall_mem_append]
      exact ⟨forall_elements child hfirst, forall_elementsAll rest hlater⟩

end

end Blueprint

/-- There is a component of the name. -/
def Registry.Knows (registry : Registry) (id : String) : Prop :=
  ∃ component, registry.find? id = some component

/-- An element that was saved: a component is known, and the properties are some of those that it
declares. -/
def Registry.Saved (registry : Registry) (element : Blueprint) : Prop :=
  ∃ component, registry.find? element.component = some component ∧
    ∀ field ∈ element.fields.entries, ∃ property ∈ component.properties, property.name = field.1

namespace Document

variable {registry : Registry} {tree : Tree} {root : NodeId} {document : Document}

/-- A document is a copy without the defaults. -/
theorem of_export_ok (h : Document.export registry tree root = .ok document) :
    ∃ copy stripped, Editor.copyBelow registry tree tree.size root = .ok copy ∧
      Editor.strip registry copy = (stripped, none) ∧ document = ofRoot stripped := by
  obtain ⟨copy, hcopy, hrest⟩ := Answer.of_bind_ok h
  rcases hstrip : Editor.strip registry copy with ⟨stripped, failure⟩
  rw [hstrip] at hrest
  cases failure with
  | some failure => cases hrest
  | none =>
      cases hrest
      refine ⟨copy, stripped, ?_, hstrip, rfl⟩
      rw [← Editor.copySubtree]
      cases hsubtree : Editor.copySubtree registry tree root with
      | error failure =>
          rw [hsubtree] at hcopy
          cases hcopy
      | ok found =>
          rw [hsubtree] at hcopy
          cases hcopy
          rfl

/-- Every element of a document was saved of a node. -/
theorem saved_of_export (h : Document.export registry tree root = .ok document) :
    ∀ element ∈ document.root.elements, registry.Saved element := by
  obtain ⟨copy, stripped, hcopy, hstrip, rfl⟩ := of_export_ok h
  apply Blueprint.forall_elements
  intro path element helement
  obtain ⟨found, hfound, hbare⟩ :=
    exists_left_of_rel (Editor.descend_strip hstrip path) helement
  obtain ⟨id, -, bound, hbelow⟩ :=
    exists_left_of_rel (Editor.descend_copyBelow hcopy path) hfound
  cases bound with
  | zero => cases hbelow
  | succ bound =>
      obtain ⟨node, component, -, hfind, hname, hfields, -⟩ := Editor.of_copyBelow_ok hbelow
      obtain ⟨same, hsame, hname', hfields', -⟩ := Editor.of_strip_ok hbare
      rw [hname, hfind] at hsame
      cases hsame
      have hsaves := component.saves_strip node.fields
      rw [← hfields, ← hfields'] at hsaves
      refine ⟨component, by rw [hname', hname, hfind], fun field hmem => ?_⟩
      obtain ⟨-, property, hvisible, hsame, -⟩ :=
        (hsaves field.1 field.2).mp (Fields.get?_eq_some_iff.mpr hmem)
      exact ⟨property, Component.mem_properties_of_visible hvisible, hsame⟩

/-- Both texts of a document are read as what the element in it is read as, unless too many arrays
and objects are nested. -/
theorem read?_of_rereads (hversion : document.version < 2 ^ 32) {other : Json}
    (h : Json.Rereads document.root.toJson other) {text : String}
    (htext : text = document.compact ∨ text = document.pretty) :
    read? text = if document.toJson.depth < 128 then
      (Blueprint.ofJson? other).map (Document.mk document.version) else none := by
  have hnumber : Json.Rereads (.integer document.version) (.integer document.version) :=
    Json.rereads_scalar (Json.ofWord?_writeInteger (by omega) (by omega)) rfl fun _ => rfl
  have hback : Json.read? text =
      some (.object [("version", .integer document.version), ("root", other)]) := by
    have hmembers : Json.RereadsMembers
        [("version", .integer document.version), ("root", document.root.toJson)]
        [("version", .integer document.version), ("root", other)] :=
      .cons ⟨rfl, hnumber⟩ (.cons ⟨rfl, h⟩ .nil)
    have hobject := (Json.rereads_object hmembers).text
    rcases htext with rfl | rfl
    · exact (Json.read?_compact document.toJson).trans hobject
    · exact (Json.read?_pretty document.toJson).trans hobject
  have hreadable : other.readable (Json.maxDepth - 1) = true ↔ document.toJson.depth < 128 := by
    rw [h.readable, depth_root_le_iff]
  rw [read?, hback, Option.bind_some, ofJson?_of_parts hversion]
  simp only [hreadable]

section Export

variable (hexport : Document.export registry tree root = .ok document)

include hexport

/-- The texts of a saved form hold one JSON value, from which its root is read exactly if every
element is legible. -/
theorem exists_reading {known : String → Prop} (hknown : ∀ id, registry.Knows id → known id) :
    ∃ other : Json,
      (∀ text, text = document.compact ∨ text = document.pretty →
        read? text = if document.toJson.depth < 128 then
          (Blueprint.ofJson? other).map ofRoot else none) ∧
      ((∃ back, Blueprint.ofJson? other = some back ∧
        ∀ element ∈ back.elements, known element.component) ↔
        ∀ element ∈ document.root.elements, element.Legible known) := by
  obtain ⟨copy, stripped, -, -, hdocument⟩ := of_export_ok hexport
  have hversion : document.version = currentVersion := by rw [hdocument]; rfl
  have hsmall : document.version < 2 ^ 32 := by rw [hversion]; decide
  obtain ⟨other, hother, hread⟩ := Blueprint.exists_rereads_toJson document.root
    fun element helement => by
      obtain ⟨component, hfind, -⟩ := saved_of_export hexport element helement
      exact hknown _ ⟨component, hfind⟩
  refine ⟨other, fun text htext => ?_, hread⟩
  rw [read?_of_rereads hsmall hother htext, hversion]
  rfl

/-- Both texts of a saved form are read alike. -/
theorem read?_pretty_of_export : read? document.pretty = read? document.compact := by
  obtain ⟨other, hread, -⟩ := exists_reading hexport fun _ _ => trivial
  rw [hread _ (.inl rfl), hread _ (.inr rfl)]

/-- What is read of a saved form has its format. -/
theorem version_of_read? {back : Document} (h : read? document.compact = some back) :
    back.version = currentVersion := by
  obtain ⟨other, hread, -⟩ := exists_reading hexport fun _ _ => trivial
  rw [hread _ (.inl rfl), Option.ite_none_right_eq_some] at h
  obtain ⟨found, -, rfl⟩ := Option.map_eq_some_iff.mp h.2
  rfl

/-- The text of a saved form is read, as elements of known components, exactly if not too many
arrays and objects are nested and every element is legible. -/
theorem exists_read?_iff {known : String → Prop} (hknown : ∀ id, registry.Knows id → known id) :
    (∃ back, read? document.compact = some back ∧
      ∀ element ∈ back.root.elements, known element.component) ↔
      document.toJson.depth < 128 ∧
        ∀ element ∈ document.root.elements, element.Legible known := by
  obtain ⟨other, hread, hlegible⟩ := exists_reading hexport hknown
  rw [← hlegible, hread _ (.inl rfl)]
  split
  · next hdepth => simp [hdepth, ofRoot]
  · next hdepth => simp [hdepth]

/-- What was read is loaded into any tree if its components are known. -/
theorem exists_load_read?_iff (target : Tree) :
    (∃ back added after, read? document.compact = some back ∧
      load registry back target = .ok added after) ↔
      document.toJson.depth < 128 ∧
        ∀ element ∈ document.root.elements, element.Legible registry.Knows := by
  rw [← exists_read?_iff hexport fun _ h => h]
  refine exists_congr fun back => ?_
  simp only [exists_and_left]
  refine and_congr_right fun hback => ?_
  rw [exists_load_iff]
  exact ⟨fun hloadable => hloadable.known, fun hknown => ⟨version_of_read? hexport hback, hknown⟩⟩

/-- A form that was saved is read exactly if fewer than 128 arrays and objects are nested in its
text and every element is legible.  It is then loaded into every tree, unless an element was read
of a property named like the children and its component is unknown. -/
theorem open_saved_iff :
    read? document.pretty = read? document.compact ∧
    ((∃ back, read? document.compact = some back) ↔
      document.toJson.depth < 128 ∧
        ∀ element ∈ document.root.elements, element.Legible fun _ => True) ∧
    ∀ target : Tree,
      (∃ back added after, read? document.compact = some back ∧
        load registry back target = .ok added after) ↔
      document.toJson.depth < 128 ∧
        ∀ element ∈ document.root.elements, element.Legible registry.Knows := by
  refine ⟨read?_pretty_of_export hexport, ?_, exists_load_read?_iff hexport⟩
  have hread := exists_read?_iff hexport fun _ _ => trivial
  simpa only [implies_true, and_true] using hread

end Export

/-- The two texts are saved, and can be opened in every tree. -/
theorem open_saved_iff_of_texts :
    Document.export Registry.labels texts 0 = .ok savedTexts ∧
    read? savedTexts.pretty = read? savedTexts.compact ∧
    ∀ target, ∃ back added after, read? savedTexts.compact = some back ∧
      load Registry.labels back target = .ok added after := by
  have hexport : Document.export Registry.labels texts 0 = .ok savedTexts := rfl
  have hdepth : savedTexts.toJson.depth < 128 := by decide +kernel
  have hlegible : ∀ element ∈ savedTexts.root.elements,
      element.Legible Registry.labels.Knows := by
    have hnames : ∀ element ∈ savedTexts.root.elements, ∀ field ∈ element.fields.entries,
        field.1 ≠ "id" ∧ field.1 ≠ "children" := by decide
    exact fun element helement => Blueprint.legible_of_names (hnames element helement) _
  obtain ⟨hsame, -, hopen⟩ := open_saved_iff hexport
  exact ⟨hexport, hsame, fun target => (hopen target).mpr ⟨hdepth, hlegible⟩⟩

/-- An item, which has a property that is named like its component. -/
def namedItem : Tree := (Tree.empty.plant ⟨"item", .single "id" (.string "a"), none⟩).2

/-- What is saved of the item. -/
def savedItem : Document := ofRoot ⟨"item", .single "id" (.string "a"), none⟩

/-- The item is saved, and cannot be opened again. -/
theorem not_open_saved :
    ∃ registry, Registry.build
      [{ id := "item", own := [⟨0, { name := "id", type := .string }⟩] }] {} = .ok registry ∧
      namedItem.WellFormed ∧ Document.export registry namedItem 0 = .ok savedItem ∧
      savedItem.compact = "\x7b\"version\":1,\"root\":\x7b\"id\":\"item\",\"id\":\"a\"\x7d\x7d" ∧
      read? savedItem.compact = none ∧ read? savedItem.pretty = none := by
  have htext : savedItem.compact =
      "\x7b\"version\":1,\"root\":\x7b\"id\":\"item\",\"id\":\"a\"\x7d\x7d" := by decide +kernel
  have hcompact : (read? savedItem.compact).isNone = true := by decide +kernel
  have hpretty : (read? savedItem.pretty).isNone = true := by decide +kernel
  exact ⟨_, rfl, Tree.empty_wellFormed.plant _, rfl, htext, Option.isNone_iff_eq_none.mp hcompact,
    Option.isNone_iff_eq_none.mp hpretty⟩

section Names

variable (hnames : ∀ component ∈ registry.components, ∀ property ∈ component.properties,
  property.name ≠ "id" ∧ property.name ≠ "children")

include hnames

/-- What is saved is legible if no declared property is named like another part of an element. -/
theorem legible_of_saved {element : Blueprint} (h : registry.Saved element)
    (known : String → Prop) : element.Legible known := by
  obtain ⟨component, hfind, hdeclared⟩ := h
  have hname : element.Writable := by
    intro field hfield
    obtain ⟨property, hproperty, heq⟩ := hdeclared field hfield
    exact heq ▸ hnames component (List.mem_of_find?_eq_some hfind) property hproperty
  exact Blueprint.legible_of_names hname known

/-- Only the depth decides then whether a saved form can be opened. -/
theorem exists_load_read?_iff_of_names
    (hexport : Document.export registry tree root = .ok document) (target : Tree) :
    (∃ back added after, read? document.compact = some back ∧
      load registry back target = .ok added after) ↔ document.toJson.depth < 128 := by
  rw [exists_load_read?_iff hexport, and_iff_left_iff_imp]
  exact fun _ element helement =>
    legible_of_saved hnames (saved_of_export hexport element helement) registry.Knows

end Names

end Document

/-- Every saved form of standard components can be opened in every tree, if fewer than 128 arrays
and objects are nested in its text. -/
theorem Catalog.exists_load_read?_iff {settings : RenderSettings} {registry : Registry}
    (hbuild : Registry.build standard settings = .ok registry) {tree : Tree} {root : NodeId}
    {document : Document} (hexport : Document.export registry tree root = .ok document)
    (target : Tree) :
    (∃ back added after, Document.read? document.compact = some back ∧
      Document.load registry back target = .ok added after) ↔ document.toJson.depth < 128 :=
  Document.exists_load_read?_iff_of_names
    (fun component hmem property hproperty =>
      ((fitsJson_of_build hbuild) component hmem property hproperty).name) hexport target

end FormDesigner
