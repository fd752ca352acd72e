import FormDesigner.Editor.Properties
import FormDesigner.Proofs.Answers
import FormDesigner.Proofs.Tree.Links
import FormDesigner.Proofs.Value.Shape

/-!
What the comparison of two elements sees.

The view of an element lists the shapes of its visible properties, with the
defaults in the place of what is missing.  Two elements of a component do not
differ if and only if they have one view.
-/

namespace FormDesigner

/-- All nodes are of components of the registry. -/
def Tree.Declared (registry : Registry) (tree : Tree) : Prop :=
  ∀ id node, tree.node? id = some node →
    ∃ component, registry.find? node.component = some component

/-- The node is of a known component, whose properties accept all that it stores. -/
def Registry.Accepts (registry : Registry) (node : Node) : Prop :=
  ∃ component, registry.find? node.component = some component ∧
    ∀ field ∈ node.fields.entries, ∃ property ∈ component.properties,
      property.name = field.1 ∧ property.accepts field.2.value = true

namespace Property

variable {property : Property}

/-- What is seen of a stored value. -/
def view (property : Property) (stored : Option Datum) : Option Shape :=
  (property.completed stored).map fun datum => datum.value.shape

/-- A binding with nothing inside is completed by the default. -/
theorem completed_binding_null (h : property.bindable = true) (kind : BindingKind) :
    property.completed (some (.binding kind .null)) =
      some (.binding kind property.defaultInner) := by
  have hcompleted : property.completed (some (.binding kind .null)) =
      if property.bindable then some (.binding kind property.defaultInner)
      else some (.binding kind .null) := rfl
  rw [hcompleted, if_pos h]

/-- A value is seen as what it is, or has the default in the place of a `null`. -/
theorem view_cases (property : Property) (datum : Datum) :
    datum = .null ∨
      (property.bindable = true ∧ ∃ kind, datum = .binding kind .null ∧
        property.view (some datum) = some (.binding kind property.defaultInner.value.shape)) ∨
      property.view (some datum) = some datum.value.shape := by
  obtain ⟨value, hordered⟩ := datum
  cases value with
  | null => exact Or.inl rfl
  | binding kind inner =>
      cases inner with
      | null =>
          cases hbindable : property.bindable with
          | false =>
              right; right
              simp only [view, completed, hbindable, Bool.false_eq_true, if_false, Option.map_some]
              rfl
          | true =>
              right; left
              refine ⟨rfl, kind, rfl, ?_⟩
              exact congrArg (Option.map fun datum => datum.value.shape)
                (completed_binding_null hbindable kind)
      | _ => exact Or.inr (Or.inr rfl)
  | _ => exact Or.inr (Or.inr rfl)

theorem differences_eq_nil_iff (property : Property) (path : String) (left right : Option Datum) :
    property.differences path left right = [] ↔ property.view left = property.view right := by
  rw [differences, Value.compare_eq_nil_iff path (Value.orderedOption_value _)
    (Value.orderedOption_value _), Option.map_map, Option.map_map]
  rfl

end Property

namespace Component

variable {component : Component}

/-- What is seen of the values of an element. -/
def view (component : Component) (fields : Fields Datum) : List (Option Shape) :=
  component.visibleProperties.map fun property => property.view (Fields.get? property.name fields)

theorem view_eq_iff {left right : Fields Datum} :
    component.view left = component.view right ↔
      ∀ property ∈ component.visibleProperties,
        property.view (Fields.get? property.name left) =
          property.view (Fields.get? property.name right) :=
  List.map_inj_left

/-- Elements under whose visible names the same is stored have one view. -/
theorem view_congr {left right : Fields Datum}
    (h : ∀ property ∈ component.visibleProperties,
      Fields.get? property.name left = Fields.get? property.name right) :
    component.view left = component.view right :=
  view_eq_iff.2 fun property hmem => by rw [h property hmem]

theorem mem_properties_of_visible {property : Property}
    (h : property ∈ component.visibleProperties) : property ∈ component.properties :=
  List.mem_of_mem_filter h

end Component

namespace Registry

variable {registry : Registry} {component : Component} {id : String}

/-- What is seen of the values of an element of a component. -/
def view (registry : Registry) (id : String) (fields : Fields Datum) :
    Option (List (Option Shape)) :=
  (registry.find? id).map fun component => component.view fields

theorem view_of_find? (h : registry.find? id = some component) (fields : Fields Datum) :
    registry.view id fields = some (component.view fields) := by
  rw [view, h, Option.map_some]

theorem require_ok (h : registry.find? id = some component) :
    registry.require id = .ok component := by
  simp only [require, h]

theorem require_error (h : registry.find? id = none) :
    registry.require id = .error (.unknownComponent id) := by
  simp only [require, h]

end Registry

namespace Editor

variable {registry : Registry} {component : Component} {id : String}

theorem differences_ok (hfind : registry.find? id = some component) (left right : Fields Datum) :
    differences registry id left right = .ok (component.visibleProperties.flatMap fun property =>
      property.differences property.name (Fields.get? property.name left)
        (Fields.get? property.name right)) := by
  rw [differences, Registry.require_ok hfind]
  rfl

theorem differs_ok (hfind : registry.find? id = some component) (left right : Fields Datum) :
    ∃ answer, differs registry id left right = .ok answer := by
  rw [differs, differences_ok hfind]
  exact ⟨_, rfl⟩

/-- Elements do not differ if and only if they have one view. -/
theorem differs_eq_false_iff (hfind : registry.find? id = some component)
    (left right : Fields Datum) :
    differs registry id left right = .ok false ↔
      registry.view id left = registry.view id right := by
  have hempty : differs registry id left right = .ok false ↔
      ∀ property ∈ component.visibleProperties,
        property.differences property.name (Fields.get? property.name left)
          (Fields.get? property.name right) = [] := by
    rw [differs, differences_ok hfind, ← List.flatMap_eq_nil_iff]
    simp [Except.map]
  rw [hempty, Registry.view_of_find? hfind, Registry.view_of_find? hfind, Option.some.injEq,
    Component.view_eq_iff]
  exact forall₂_congr fun property _ => property.differences_eq_nil_iff property.name _ _

theorem get?_copyProperty (source target : Fields Datum) (property : Property) (name : String) :
    Fields.get? name (copyProperty source target property) =
      if name = property.name then Fields.get? name source else Fields.get? name target := by
  rw [copyProperty]
  split
  · next datum hdatum =>
      split
      · next heq => rw [heq, Fields.get?_put_self, hdatum]
      · next hne => exact Fields.get?_put_of_ne hne datum target
  · next hnone =>
      split
      · next heq => rw [heq, Fields.get?_drop_self, hnone]
      · next hne => exact Fields.get?_drop_of_ne hne target

/-- Copying puts under the names of the properties what the source has there, and
leaves the other names alone. -/
theorem get?_copy (source target : Fields Datum) (properties : List Property) (name : String) :
    Fields.get? name (properties.foldl (copyProperty source) target) =
      if name ∈ properties.map Property.name then Fields.get? name source
      else Fields.get? name target := by
  induction properties generalizing target with
  | nil => simp
  | cons property rest ih =>
      rw [List.foldl_cons, ih, get?_copyProperty, List.map_cons]
      by_cases hrest : name ∈ rest.map Property.name
      · rw [if_pos hrest, if_pos (List.mem_cons_of_mem _ hrest)]
      · by_cases hname : name = property.name
        · rw [if_neg hrest, if_pos hname, if_pos (List.mem_cons.2 (Or.inl hname))]
        · rw [if_neg hrest, if_neg hname, if_neg]
          simp [hname, hrest]

theorem copyProperties_ok (hfind : registry.find? id = some component)
    (source target : Fields Datum) :
    copyProperties registry id source target =
      .ok (component.visibleProperties.foldl (copyProperty source) target) := by
  rw [copyProperties, Registry.require_ok hfind]
  rfl

/-- A copy has the view of its source. -/
theorem view_copy (hfind : registry.find? id = some component) (source target : Fields Datum) :
    registry.view id (component.visibleProperties.foldl (copyProperty source) target) =
      registry.view id source := by
  rw [Registry.view_of_find? hfind, Registry.view_of_find? hfind]
  refine congrArg some (Component.view_congr fun property hmem => ?_)
  rw [get?_copy, if_pos (List.mem_map_of_mem hmem)]

theorem copyNode_eq {tree : Tree} {place : NodeId} {node : Node}
    (hnode : tree.node? place = some node) :
    copyNode registry tree place =
      ((copyProperties registry node.component node.fields .empty).mapError .registry >>=
        fun fields => pure (Blueprint.mk node.component fields none)) := by
  have hfound : requireNode tree place = .ok node := by simp only [requireNode, hnode]
  rw [copyNode, hfound]
  rfl

theorem copyNode_ok {tree : Tree} {place : NodeId} {node : Node}
    (hnode : tree.node? place = some node)
    (hfind : registry.find? node.component = some component) :
    copyNode registry tree place = .ok ⟨node.component,
      component.visibleProperties.foldl (copyProperty node.fields) .empty, none⟩ := by
  rw [copyNode_eq hnode, copyProperties_ok hfind]
  rfl

theorem copyNode_error {tree : Tree} {place : NodeId} (h : tree.node? place = none) :
    copyNode registry tree place = .error (.tree (.unknownNode place)) := by
  simp only [copyNode, requireNode, h]
  rfl

theorem of_copyNode_ok {tree : Tree} {place : NodeId} {copy : Blueprint}
    (h : copyNode registry tree place = .ok copy) :
    ∃ node component, tree.node? place = some node ∧
      registry.find? node.component = some component ∧
      copy = ⟨node.component, component.visibleProperties.foldl (copyProperty node.fields) .empty,
        none⟩ := by
  cases hnode : tree.node? place with
  | none =>
      rw [copyNode_error hnode] at h
      cases h
  | some node =>
      cases hfind : registry.find? node.component with
      | none =>
          rw [copyNode_eq hnode, copyProperties, Registry.require_error hfind] at h
          cases h
      | some component =>
          rw [copyNode_ok hnode hfind] at h
          cases h
          exact ⟨node, component, rfl, hfind, rfl⟩

end Editor

/-- A component with one property. -/
def Component.labelled : Component :=
  { id := "text", own := [⟨0, { name := "label", type := .string }⟩]
    shared := ⟨[⟨0, { name := "label", type := .string }⟩], by decide⟩
    templates := none, settings := {}, compiled := fun _ => rfl }

/-- A registry with one component, which has one property. -/
def Registry.labels : Registry := ⟨[.labelled], {}, by decide, List.forall_mem_singleton.mpr rfl⟩

/-- Two nodes of the one component, one in the other. -/
def Tree.labels : Tree := (Tree.empty.plant ⟨"text", .empty, some [⟨"text", .empty, none⟩]⟩).2

theorem Tree.content_labels {id : NodeId} {node : Node} (h : Tree.labels.node? id = some node) :
    node.content = ("text", .empty) := by
  match id with
  | 0 =>
      cases h
      rfl
  | 1 =>
      cases h
      rfl
  | id + 2 => cases h

theorem Tree.labels_declared : Tree.labels.Declared Registry.labels := by
  intro id node hnode
  rw [show node.component = "text" from congrArg Prod.fst (Tree.content_labels hnode)]
  exact ⟨_, rfl⟩

end FormDesigner
