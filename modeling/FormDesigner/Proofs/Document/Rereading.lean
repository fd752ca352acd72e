import FormDesigner.Proofs.Catalog.Standard
import FormDesigner.Proofs.Document.Minimal
import FormDesigner.Proofs.Document.Text
import FormDesigner.Proofs.Value.Rereading

/-!
Saving a form as text and loading it from there.

The text is always read, and what was read is always loaded.  A node comes back without a
difference if and only if all that is saved of it has a JSON form of its own.  What has none is
lost: a number that is not finite becomes `null`, a record that looks like a binding becomes a
binding.
-/

namespace FormDesigner

namespace Property

variable {property : Property}

/-- The name is not that of another part of a JSON form, and what can be bound is no number by
default. -/
structure FitsJson (property : Property) : Prop where
  name : property.name ≠ "id" ∧ property.name ≠ "children"
  default : property.bindable = true → ∀ x, property.defaultInner ≠ .number x

/-- Values of one shape are seen as the same. -/
theorem view_congr {left right : Datum} (h : left.value.shape = right.value.shape) :
    property.view (some left) = property.view (some right) := by
  rcases property.view_cases left with rfl | ⟨-, kind, rfl, -⟩ | hleft
  · rw [Datum.ext (y := .null) (Value.eq_null_of_shape h.symm)]
  · rw [Datum.ext (y := .binding kind .null) (Value.eq_binding_null_of_shape h.symm)]
  · rcases property.view_cases right with rfl | ⟨-, kind, rfl, -⟩ | hright
    · rw [Datum.ext (y := .null) (Value.eq_null_of_shape h)]
    · rw [Datum.ext (y := .binding kind .null) (Value.eq_binding_null_of_shape h)]
    · rw [hleft, hright, h]

/-- What comes back as a binding of nothing was a binding of nothing, or of a number. -/
theorem storable_of_reread_eq_binding_null (h : property.FitsJson) {datum : Datum}
    {kind : BindingKind} (hbindable : property.bindable = true)
    (hback : datum.reread = .binding kind .null)
    (hshape : Shape.binding kind property.defaultInner.value.shape = datum.value.shape) :
    datum.value.All Value.Storable := by
  obtain ⟨value, hordered⟩ := datum
  cases value with
  | binding other inner =>
      have hsame : (Value.binding other inner).reread = .binding kind .null :=
        congrArg Datum.value hback
      rw [Value.reread_binding] at hsame
      obtain ⟨rfl, hinner⟩ := Value.binding.inj hsame
      have hdefault := (Shape.binding.inj hshape).2
      have hinside : inner.Ordered := hordered
      rcases Value.eq_of_reread_eq_null hinside hinner with rfl | ⟨x, rfl, -⟩
      · exact Value.storable_binding_null other
      · obtain ⟨y, hy⟩ := Value.exists_number_of_shape hdefault
        exact absurd (Datum.ext hy) (h.default hbindable y)
  | _ => cases hshape

/-- A value that does not count as the default is seen as before after it was written and read,
if and only if all parts of it have a JSON form of their own. -/
theorem view_reread_iff (h : property.FitsJson) {datum : Datum}
    (hview : property.view (some datum) ≠ property.view none) :
    property.view (some datum.reread) = property.view (some datum) ↔
      datum.value.All Value.Storable := by
  constructor
  · intro hsame
    rcases property.view_cases datum with rfl | ⟨-, kind, rfl, -⟩ | hdatum
    · exact absurd (view_null property) hview
    · exact Value.storable_binding_null kind
    · rcases property.view_cases datum.reread with hnull | ⟨hbindable, kind, hback, hseen⟩ | hback
      · rw [hnull, view_null] at hsame
        exact absurd hsame.symm hview
      · -- The inside of a binding came back as `null`, so that the default is seen.
        rw [hseen, hdatum] at hsame
        exact storable_of_reread_eq_binding_null h hbindable hback (Option.some.inj hsame)
      · rw [hback, hdatum] at hsame
        exact (Value.shape_reread_iff datum.ordered).mp (Option.some.inj hsame)
  · intro hstorable
    exact view_congr ((Value.shape_reread_iff datum.ordered).mpr hstorable)

end Property

/-- Of a node only values are saved all parts of which meet a condition. -/
def Registry.SavesOnly (registry : Registry) (p : Value → Prop) (node : Node) : Prop :=
  ∀ component, registry.find? node.component = some component →
    ∀ property ∈ component.visibleProperties, ∀ datum,
      Fields.get? property.name node.fields = some datum →
        property.view (some datum) ≠ property.view none → datum.value.All p

theorem Registry.savesOnly_single {registry : Registry} {p : Value → Prop} {datum : Datum}
    (h : datum.value.All p) (id name : String) :
    registry.SavesOnly p ⟨id, .single name datum, none, none⟩ := by
  intro _ _ property _ stored hstored _
  cases List.mem_singleton.mp (Fields.get?_eq_some_iff.mp hstored)
  exact h

/-- All properties of all components have a place in a JSON form. -/
def Registry.FitsJson (registry : Registry) : Prop :=
  ∀ component ∈ registry.components, ∀ property ∈ component.properties, property.FitsJson

theorem Catalog.fitsJson_of_build {settings : RenderSettings} {registry : Registry}
    (h : Registry.build standard settings = .ok registry) : registry.FitsJson := by
  have hnames : ∀ property ∈ properties, property.name ≠ "id" ∧ property.name ≠ "children" := by
    decide
  have hdefaults : ∀ property ∈ properties, property.bindable = true →
      property.defaultInner.value.number? = none := by
    decide
  intro component hmem property hproperty
  have hlisted := mem_properties_of_build h hmem hproperty
  refine ⟨hnames property hlisted, fun hbindable x heq => ?_⟩
  have hnumber := hdefaults property hlisted hbindable
  rw [heq] at hnumber
  cases hnumber

/-- What was saved and read is seen as what is stored, if and only if all that is saved has a
JSON form of its own. -/
theorem Component.Saves.view_reread_iff {component : Component} {stored saved : Fields Datum}
    (h : component.Saves stored saved)
    (hfits : ∀ property ∈ component.properties, property.FitsJson) :
    component.view (saved.map Datum.reread) = component.view stored ↔
      ∀ property ∈ component.visibleProperties, ∀ datum,
        Fields.get? property.name stored = some datum →
          property.view (some datum) ≠ property.view none → datum.value.All Value.Storable := by
  rw [view_eq_iff]
  apply forall₂_congr
  intro property hvisible
  rw [← h.view_get? hvisible, Fields.get?_map]
  simp only [← and_imp, ← h.get?_property_iff hvisible]
  cases hsaved : Fields.get? property.name saved with
  | none => simp
  | some datum =>
      have hproperty := mem_properties_of_visible hvisible
      have hview := ((h.get?_property_iff hvisible).mp hsaved).2
      simp only [Option.map_some, Option.some.injEq, forall_eq']
      exact Property.view_reread_iff (hfits property hproperty) hview

namespace Blueprint

theorem rereadAll_eq_map (children : List Blueprint) :
    rereadAll children = children.map reread := by
  induction children with
  | nil => rfl
  | cons child rest ih => rw [rereadAll, ih, List.map_cons]

theorem component_reread (blueprint : Blueprint) :
    blueprint.reread.component = blueprint.component := by
  obtain ⟨id, fields, children⟩ := blueprint
  cases children <;> rfl

theorem fields_reread (blueprint : Blueprint) :
    blueprint.reread.fields = blueprint.fields.map Datum.reread := by
  obtain ⟨id, fields, children⟩ := blueprint
  cases children <;> rfl

theorem childList_reread (blueprint : Blueprint) :
    blueprint.reread.childList = blueprint.childList.map reread := by
  obtain ⟨id, fields, children⟩ := blueprint
  cases children with
  | none => rfl
  | some children => exact rereadAll_eq_map children

/-- Every element comes back in its place. -/
theorem descend_reread (blueprint : Blueprint) (path : List Nat) :
    Option.Rel (fun element back => back = element.reread) (blueprint.descend path)
      (blueprint.reread.descend path) := by
  induction path generalizing blueprint with
  | nil => exact .some rfl
  | cons index rest ih =>
      rw [descend, descend, childList_reread, List.getElem?_map, Option.bind_map]
      cases blueprint.childList[index]? with
      | none => exact .none
      | some child => exact ih child

end Blueprint

namespace Editor

variable {registry : Registry}

mutual

/-- What is read of a blueprint of known components is of known components. -/
theorem checkKnown_reread : ∀ blueprint : Blueprint, checkKnown registry blueprint = .ok () →
    checkKnown registry blueprint.reread = .ok ()
  | ⟨id, fields, none⟩, h => by
      obtain ⟨hroot, -⟩ := checkKnown_iff.mp h
      exact checkKnown_iff.mpr ⟨hroot, fun _ hmem => absurd hmem List.not_mem_nil⟩
  | ⟨id, fields, some children⟩, h => by
      obtain ⟨hroot, hbelow⟩ := checkKnown_iff.mp h
      exact checkKnown_iff.mpr ⟨hroot, checkKnown_rereadAll children hbelow⟩

theorem checkKnown_rereadAll : ∀ children : List Blueprint,
    (∀ child ∈ children, checkKnown registry child = .ok ()) →
      ∀ child ∈ Blueprint.rereadAll children, checkKnown registry child = .ok ()
  | [], _ => fun _ hmem => absurd hmem List.not_mem_nil
  | child :: rest, h => by
      obtain ⟨hfirst, hothers⟩ := List.forall_mem_cons.mp h
      exact List.forall_mem_cons.mpr
        ⟨checkKnown_reread child hfirst, checkKnown_rereadAll rest hothers⟩

end

end Editor

namespace Document

variable {registry : Registry} {tree : Tree}

/-- The image of a node after it was saved as text, read and loaded.  It differs from the node
unless all that is saved of this has a JSON form of its own. -/
structure Reread (registry : Registry) (saved loaded : Node) : Prop where
  component : loaded.component = saved.component
  same : Editor.differs registry saved.component saved.fields loaded.fields = .ok false ↔
    registry.SavesOnly Value.Storable saved
  same' : Editor.differs registry loaded.component loaded.fields saved.fields = .ok false ↔
    registry.SavesOnly Value.Storable saved

/-- The image of a node can be written. -/
theorem Image.writable (hfits : registry.FitsJson) {node : Node} {saved : Blueprint}
    (h : Image registry node saved) : saved.Writable := by
  obtain ⟨component, hfind, hsaves⟩ := h.values
  intro field hmem
  obtain ⟨-, property, hvisible, hname, -⟩ :=
    (hsaves field.1 field.2).mp (Fields.get?_eq_some_iff.mpr hmem)
  rw [← hname]
  exact (hfits component (List.mem_of_find?_eq_some hfind) property
    (Component.mem_properties_of_visible hvisible)).name

section Image

variable {node : Node} {saved : Blueprint} (h : Image registry node saved)

include h

/-- What holds of all that is saved of a node holds of its image. -/
theorem Image.allFields {p : Value → Prop} (hall : registry.SavesOnly p node) :
    Value.AllFields p saved.fields.values := by
  obtain ⟨component, hfind, hsaves⟩ := h.values
  apply Value.allFields_iff.mpr
  intro field hmem
  obtain ⟨⟨name, datum⟩, hentry, rfl⟩ := List.mem_map.mp hmem
  have hsaved := Fields.get?_eq_some_iff.mpr hentry
  obtain ⟨-, property, hvisible, rfl, -⟩ := (hsaves name datum).mp hsaved
  obtain ⟨hstored, hview⟩ := (hsaves.get?_property_iff hvisible).mp hsaved
  exact hall component hfind property hvisible datum hstored hview

/-- What was written, read and restored of a node differs from it unless all that is saved has a
JSON form of its own. -/
theorem Image.reread (hfits : registry.FitsJson) {loaded : Node}
    (hrestored : Restored registry saved.reread loaded) : Reread registry node loaded := by
  obtain ⟨component, hfind, hsaves⟩ := h.values
  have hback : saved.reread.component = node.component :=
    saved.component_reread.trans h.component
  have hloaded : loaded.component = node.component := hrestored.component.trans hback
  have hview := hrestored.seen
  rw [hback, saved.fields_reread] at hview
  have hseen : registry.view node.component loaded.fields =
      registry.view node.component node.fields ↔ registry.SavesOnly Value.Storable node := by
    rw [hview, Registry.view_of_find? hfind, Registry.view_of_find? hfind, Option.some.injEq,
      hsaves.view_reread_iff (hfits component (List.mem_of_find?_eq_some hfind))]
    constructor
    · intro hall other hother
      cases hfind.symm.trans hother
      exact hall
    · exact fun hall => hall component hfind
  constructor
  · exact hloaded
  · rw [Editor.differs_eq_false_iff hfind, eq_comm, hseen]
  · rw [hloaded, Editor.differs_eq_false_iff hfind, hseen]

end Image

section Strip

variable (hfits : registry.FitsJson) (htree : tree.WellFormed) {root : NodeId}
  (hroot : root < tree.size) {bound : Nat} {copy saved : Blueprint}
  (hcopy : Editor.copyBelow registry tree bound root = .ok copy)
  (hstrip : Editor.strip registry copy = (saved, none))

include hfits htree hroot hcopy hstrip

/-- What was copied and stripped is read from its text, whatever prints and reads it. -/
theorem parse?_print_of_strip (codec : Json.Codec)
    (hnumbers : ∀ id node, id = root ∨ tree.Ancestor root id → tree.node? id = some node →
      registry.SavesOnly (Value.Kept codec.Keeps) node)
    (hdepth : (ofRoot saved).toJson.depth < 128) :
    parse? codec ((ofRoot saved).print codec) = some (ofRoot saved).reread := by
  have himages := images_of_export htree hroot hcopy hstrip
  have hversion : currentVersion < 2 ^ 32 := by decide
  refine parse?_print codec hversion ?_ ?_ hdepth
  · intro path element helement
    obtain ⟨id, -, node, -, himage⟩ := exists_left_of_rel (himages path) helement
    exact himage.writable hfits
  · intro path element helement
    obtain ⟨id, hid, node, hnode, himage⟩ := exists_left_of_rel (himages path) helement
    exact himage.allFields (hnumbers id node (htree.eq_or_ancestor_of_descend hid) hnode)

/-- What was read is loaded, with the same components in the same places. -/
theorem load_reread (hsaved : Editor.checkKnown registry saved = .ok ()) {target : Tree}
    (htarget : target.WellFormed) :
    ∃ after, load registry (ofRoot saved).reread target = .ok target.size after ∧
      after.WellFormed ∧
      ∀ path, Option.Rel (fun id copy => ∃ node found, tree.node? id = some node ∧
          after.node? copy = some found ∧ Reread registry node found)
        (tree.descend root path) (after.descend target.size path) := by
  have himages := images_of_export htree hroot hcopy hstrip
  obtain ⟨after, hload, hafter, -, hrestored⟩ :=
    load_ok htarget (Editor.checkKnown_reread saved hsaved)
  refine ⟨after, hload, hafter, fun path => ?_⟩
  -- From a node over its image and what was read of that to what was loaded.
  apply rel_imp (rel_comp (rel_comp (himages path) (saved.descend_reread path)) (hrestored path))
  rintro id place - - ⟨_, ⟨element, ⟨node, hnode, himage⟩, rfl⟩, loaded, hloaded, hback⟩
  exact ⟨node, loaded, hnode, hloaded, himage.reread hfits hback⟩

end Strip

/-- A form of the catalog that is saved as text is read from there and loaded, with the same
components in the same places, if fewer than 128 arrays and objects are nested.  A node comes
back without a difference if and only if all that is saved of it has a JSON form of its own. -/
theorem load_read_export {settings : RenderSettings}
    (hbuild : Registry.build Catalog.standard settings = .ok registry) (htree : tree.WellFormed)
    {root : NodeId} (hroot : root < tree.size)
    (hknown : ∀ id node, id = root ∨ tree.Ancestor root id → tree.node? id = some node →
      ∃ component, registry.find? node.component = some component)
    (hnumbers : ∀ id node, id = root ∨ tree.Ancestor root id → tree.node? id = some node →
      registry.SavesOnly Value.Rereadable node)
    {target : Tree} (htarget : target.WellFormed) :
    ∃ document, Document.export registry tree root = .ok document ∧
      (document.toJson.depth < 128 → ∃ back loaded after, read? document.compact = some back ∧
        read? document.pretty = some back ∧ load registry back target = .ok loaded after ∧
        after.WellFormed ∧
        ∀ path, Option.Rel (fun id copy => ∃ node found, tree.node? id = some node ∧
            after.node? copy = some found ∧ Reread registry node found)
          (tree.descend root path) (after.descend loaded path)) := by
  have hfits := Catalog.fitsJson_of_build hbuild
  obtain ⟨copy, saved, hcopy, hstrip, hsaved, hexport⟩ := export_ok htree hroot hknown
  obtain ⟨after, hload, hafter, hpaths⟩ :=
    load_reread hfits htree hroot hcopy hstrip hsaved htarget
  refine ⟨ofRoot saved, hexport, fun hdepth => ?_⟩
  have hread := fun codec hkept =>
    parse?_print_of_strip hfits htree hroot hcopy hstrip codec hkept hdepth
  have hcompact := hread .compact hnumbers
  have hpretty := hread .pretty hnumbers
  rw [parse?_print_compact] at hcompact
  rw [parse?_print_pretty] at hpretty
  exact ⟨(ofRoot saved).reread, target.size, after, hcompact, hpretty, hload, hafter, hpaths⟩

/-! ### Single elements -/

section Single

variable {settings : RenderSettings}
  (hbuild : Registry.build Catalog.standard settings = .ok registry) {id name : String}
  {datum : Datum} (hlisted : id ∈ Catalog.standard.map ComponentDeclaration.id)
  (hkept : ∃ property ∈ (Catalog.resolved.properties id).properties.filter
      fun property => !property.isInternal,
    property.name = name ∧ property.agrees (some datum) property.default? = false)

include hbuild hlisted hkept

theorem exists_visible : ∃ component, registry.find? id = some component ∧
    ∃ property ∈ component.visibleProperties,
      property.name = name ∧ property.agrees (some datum) property.default? = false := by
  obtain ⟨component, hfind, hmem, hid⟩ := Catalog.exists_find?_of_build hbuild hlisted
  refine ⟨component, hfind, ?_⟩
  rwa [Component.visibleProperties, Catalog.properties_of_build hbuild hmem, hid]

/-- A single element is saved as it is if what it stores does not count as a default. -/
theorem strip_single : ∃ copy,
    Editor.copyBelow registry (Tree.empty.plant ⟨id, .single name datum, none⟩).2
      (Tree.empty.plant ⟨id, .single name datum, none⟩).2.size 0 = .ok copy ∧
    Editor.strip registry copy = (⟨id, .single name datum, none⟩, none) ∧
    Editor.checkKnown registry ⟨id, .single name datum, none⟩ = .ok () ∧
    Document.export registry (Tree.empty.plant ⟨id, .single name datum, none⟩).2 0 =
      .ok (ofRoot ⟨id, .single name datum, none⟩) := by
  obtain ⟨component, hfind, hvisible⟩ := exists_visible hbuild hlisted hkept
  have htree : (Tree.empty.plant ⟨id, .single name datum, none⟩).2.WellFormed :=
    Tree.empty_wellFormed.plant _
  have hroot : 0 < (Tree.empty.plant ⟨id, .single name datum, none⟩).2.size :=
    Tree.size_lt_size_plant Tree.empty _
  obtain ⟨copy, saved, hcopy, hstrip, hsaved, hexport⟩ := export_ok htree hroot
    (fun place node _ hnode => by
      cases Tree.node?_plant_empty hnode
      exact ⟨component, hfind⟩)
  have himages := images_of_export htree hroot hcopy hstrip
  obtain ⟨node, hnode, himage⟩ := Option.rel_some_some.mp (himages [])
  cases Tree.node?_plant_empty hnode
  obtain ⟨found, hfound, hsaves⟩ := himage.values
  cases hfind.symm.trans hfound
  have hfields := hsaves.eq_stored (List.forall_mem_singleton.mpr hvisible)
  have hcomponent := himage.component
  have hbelow := himages [0]
  obtain ⟨other, fields, children⟩ := saved
  cases hfields
  cases hcomponent
  match children with
  | none => exact ⟨copy, hcopy, hstrip, hsaved, hexport⟩
  | some [] => exact absurd rfl himage.children
  | some (child :: rest) => cases hbelow

/-- A single element that stores what has no JSON form of its own comes back with a difference. -/
theorem differs_single (hnumbers : datum.value.All Value.Rereadable)
    (hdepth : (ofRoot ⟨id, .single name datum, none⟩).toJson.depth < 128)
    (hlost : ¬datum.value.All Value.Storable) :
    ∃ back loaded after found,
      Document.export registry (Tree.empty.plant ⟨id, .single name datum, none⟩).2 0 =
        .ok (ofRoot ⟨id, .single name datum, none⟩) ∧
      read? (ofRoot ⟨id, .single name datum, none⟩).compact = some back ∧
      load registry back Tree.empty = .ok loaded after ∧ after.node? loaded = some found ∧
      Editor.differs registry id (.single name datum) found.fields = .ok true := by
  have hfits := Catalog.fitsJson_of_build hbuild
  obtain ⟨component, hfind, property, hvisible, rfl, hdiffers⟩ :=
    exists_visible hbuild hlisted hkept
  have htree : (Tree.empty.plant ⟨id, .single property.name datum, none⟩).2.WellFormed :=
    Tree.empty_wellFormed.plant _
  have hroot : 0 < (Tree.empty.plant ⟨id, .single property.name datum, none⟩).2.size :=
    Tree.size_lt_size_plant Tree.empty _
  obtain ⟨copy, hcopy, hstrip, hsaved, hexport⟩ := strip_single hbuild hlisted hkept
  have hread := parse?_print_of_strip hfits htree hroot hcopy hstrip .compact
    (fun place node _ hnode => by
      cases Tree.node?_plant_empty hnode
      exact Registry.savesOnly_single hnumbers id property.name) hdepth
  rw [parse?_print_compact] at hread
  obtain ⟨after, hload, -, hpaths⟩ :=
    load_reread hfits htree hroot hcopy hstrip hsaved Tree.empty_wellFormed
  obtain ⟨node, found, hnode, hfound, hreread⟩ := Option.rel_some_some.mp (hpaths [])
  cases Tree.node?_plant_empty hnode
  refine ⟨_, _, after, found, hexport, hread, hload, hfound, ?_⟩
  obtain ⟨answer, hanswer⟩ := Editor.differs_ok hfind (.single property.name datum) found.fields
  cases answer with
  | true => exact hanswer
  | false =>
      have hview : property.view (some datum) ≠ property.view none := by
        intro hview
        rw [(property.agrees_default_iff datum).mpr hview] at hdiffers
        cases hdiffers
      exact absurd (hreread.same.mp hanswer component hfind property hvisible datum
        (Fields.get?_single property.name datum) hview) hlost

end Single

/-- A text area with a height. -/
def tallText : Tree := (Tree.empty.plant ⟨"textarea", .single "rows" (.ofNat 5), none⟩).2

theorem storable_five : (Datum.ofNat 5).value.All Value.Storable := by
  constructor
  · intro x heq
    cases heq
    decide +kernel
  · intro kind inner heq
    cases heq

theorem rereadable_five : (Datum.ofNat 5).value.All Value.Rereadable := by
  intro x heq hdecimal
  cases heq
  have hinteger : Value.numberToJson (Number.ofInt 5) = .integer 5 := by rfl
  cases hinteger.symm.trans hdecimal

/-- The text area is loaded without a difference from the text that it was saved as. -/
theorem load_read_export_of_tallText :
    ∃ registry, Registry.build Catalog.standard {} = .ok registry ∧ tallText.WellFormed ∧
      0 < tallText.size ∧
      (∀ id node, id = 0 ∨ tallText.Ancestor 0 id → tallText.node? id = some node →
        (∃ component, registry.find? node.component = some component) ∧
        registry.SavesOnly Value.Rereadable node) ∧
      ∃ document, Document.export registry tallText 0 = .ok document ∧
        document.toJson.depth < 128 ∧ ∃ back loaded after, read? document.compact = some back ∧
          load registry back tallText = .ok loaded after ∧
          ∃ found, after.node? loaded = some found ∧
            Editor.differs registry "textarea" (.single "rows" (.ofNat 5)) found.fields =
              .ok false := by
  obtain ⟨registry, hbuild⟩ : ∃ registry, Registry.build Catalog.standard {} = .ok registry :=
    Catalog.exists_build_standard rfl
  have htree : tallText.WellFormed := Tree.empty_wellFormed.plant _
  have hroot : 0 < tallText.size := by decide
  have hlisted : "textarea" ∈ Catalog.standard.map ComponentDeclaration.id := by decide +kernel
  obtain ⟨component, hfind, -⟩ := Catalog.exists_find?_of_build hbuild hlisted
  have hnodes : ∀ id node, id = 0 ∨ tallText.Ancestor 0 id → tallText.node? id = some node →
      (∃ component, registry.find? node.component = some component) ∧
        registry.SavesOnly Value.Rereadable node := by
    intro id node _ hnode
    cases Tree.node?_plant_empty hnode
    exact ⟨⟨component, hfind⟩, Registry.savesOnly_single rereadable_five _ _⟩
  have hkept : ∃ property ∈ (Catalog.resolved.properties "textarea").properties.filter
        fun property => !property.isInternal,
      property.name = "rows" ∧
        property.agrees (some (.ofNat 5)) property.default? = false := by
    decide +kernel
  obtain ⟨-, -, -, -, hsaved⟩ := strip_single hbuild hlisted hkept
  obtain ⟨document, hexport, hloads⟩ := load_read_export hbuild htree hroot
    (fun id node hline hnode => (hnodes id node hline hnode).1)
    (fun id node hline hnode => (hnodes id node hline hnode).2) htree
  cases hsaved.symm.trans hexport
  have hdepth : (ofRoot ⟨"textarea", .single "rows" (.ofNat 5), none⟩).toJson.depth < 128 := by
    decide +kernel
  obtain ⟨back, loaded, after, hread, -, hload, -, hpaths⟩ := hloads hdepth
  obtain ⟨node, found, hnode, hfound, hreread⟩ := Option.rel_some_some.mp (hpaths [])
  cases Tree.node?_plant_empty hnode
  exact ⟨registry, hbuild, htree, hroot, hnodes, _, hexport, hdepth, back, loaded, after, hread,
    hload, found, hfound, hreread.same.mpr (Registry.savesOnly_single storable_five _ _)⟩

/-- Free attributes that look like a binding. -/
def lookalike : Datum := .record (.collect [("kind", .string "value"), ("value", .string "x")])

/-- A label with such attributes. -/
def lookalikeLabel : Tree := (Tree.empty.plant ⟨"label", .single "attributes" lookalike, none⟩).2

theorem rereadable_lookalike : lookalike.value.All Value.Rereadable := by
  have hrecord : lookalike.value.Rereadable := by
    intro x heq
    cases heq
  have hstring : ∀ text, (Value.string text).Rereadable := by
    intro text x heq
    cases heq
  exact ⟨hrecord, hstring _, hstring _, trivial⟩

theorem not_storable_lookalike : ¬lookalike.value.All Value.Storable := by
  rintro ⟨hstorable, -⟩
  exact hstorable.not_binding .literal (.string "x") rfl

/-- The label is accepted, saved as text, read and loaded, and then differs. -/
theorem not_load_read_export :
    ∃ registry, Registry.build Catalog.standard {} = .ok registry ∧ lookalikeLabel.WellFormed ∧
      0 < lookalikeLabel.size ∧
      (∀ id node, lookalikeLabel.node? id = some node → registry.Accepts node) ∧
      ∃ document, Document.export registry lookalikeLabel 0 = .ok document ∧
        document.toJson.depth < 128 ∧ ∃ back loaded after, read? document.compact = some back ∧
          load registry back Tree.empty = .ok loaded after ∧
          ∃ found, after.node? loaded = some found ∧
            Editor.differs registry "label" (.single "attributes" lookalike) found.fields =
              .ok true := by
  obtain ⟨registry, hbuild⟩ : ∃ registry, Registry.build Catalog.standard {} = .ok registry :=
    Catalog.exists_build_standard rfl
  have htree : lookalikeLabel.WellFormed := Tree.empty_wellFormed.plant _
  have hroot : 0 < lookalikeLabel.size := by decide
  have hlisted : "label" ∈ Catalog.standard.map ComponentDeclaration.id := by decide +kernel
  have haccepted : ∃ property ∈ (Catalog.resolved.properties "label").properties,
      property.name = "attributes" ∧ property.accepts lookalike.value = true := by
    decide +kernel
  have hnodes : ∀ id node, lookalikeLabel.node? id = some node → registry.Accepts node := by
    intro id node hnode
    cases Tree.node?_plant_empty hnode
    exact Catalog.accepts_of_build hbuild hlisted haccepted
  have hkept : ∃ property ∈ (Catalog.resolved.properties "label").properties.filter
        fun property => !property.isInternal,
      property.name = "attributes" ∧
        property.agrees (some lookalike) property.default? = false := by
    decide +kernel
  have hdepth : (ofRoot ⟨"label", .single "attributes" lookalike, none⟩).toJson.depth < 128 := by
    decide +kernel
  obtain ⟨back, loaded, after, found, hexport, hread, hload, hfound, hdiffers⟩ :=
    differs_single hbuild hlisted hkept rereadable_lookalike hdepth not_storable_lookalike
  exact ⟨registry, hbuild, htree, hroot, hnodes, _, hexport, hdepth, back, loaded, after, hread,
    hload, found, hfound, hdiffers⟩

end Document

end FormDesigner
