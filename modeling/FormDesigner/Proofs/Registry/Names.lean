import Mathlib.Data.List.Nodup
import FormDesigner.Registry.Basic

/-!
Properties and components are found by their names.
-/

namespace FormDesigner

universe u

/-- When keys differ, an item is found by its key. -/
theorem find?_key_eq_some_iff {α : Type u} {key : α → String} {items : List α}
    (h : (items.map key).Nodup) {name : String} {item : α} :
    items.find? (fun item => key item = name) = some item ↔ item ∈ items ∧ key item = name := by
  constructor
  · intro hfind
    exact ⟨List.mem_of_find?_eq_some hfind, by simpa using List.find?_some hfind⟩
  · rintro ⟨hmem, rfl⟩
    have hsome : (items.find? fun other => key other = key item).isSome = true :=
      List.find?_isSome.mpr ⟨item, hmem, decide_eq_true rfl⟩
    obtain ⟨found, hfind⟩ := Option.isSome_iff_exists.mp hsome
    have hkey : key found = key item := by simpa using List.find?_some hfind
    rw [hfind, List.inj_on_of_nodup_map h (List.mem_of_find?_eq_some hfind) hmem hkey]

namespace Component

/-- No two properties have one name. -/
def NamesDiffer (component : Component) : Prop :=
  (component.properties.map Property.name).Nodup

theorem namesDiffer (component : Component) : component.NamesDiffer :=
  component.shared.properties_nodup

/-- A listed property is found by its name. -/
theorem property?_eq_some_iff {component : Component} {name : String} {property : Property} :
    component.property? name = some property ↔
      property ∈ component.properties ∧ property.name = name :=
  find?_key_eq_some_iff component.namesDiffer

/-- Properties of one name are the same one. -/
theorem eq_of_name_eq {component : Component} {first second : Property}
    (hfirst : first ∈ component.properties) (hsecond : second ∈ component.properties)
    (hname : first.name = second.name) : first = second :=
  List.inj_on_of_nodup_map component.namesDiffer hfirst hsecond hname

end Component

namespace Registry

/-- A component of a registry is found by its id. -/
theorem find?_eq_some_iff {registry : Registry} {id : String} {component : Component} :
    registry.find? id = some component ↔ component ∈ registry.components ∧ component.id = id :=
  find?_key_eq_some_iff registry.ids_nodup

end Registry

end FormDesigner
