import FormDesigner.Proofs.Registry.Building
import FormDesigner.Proofs.Template.Parts
import FormDesigner.Proofs.Tree.Links

/-!
What the components of a registry show of a node.

Markup is made of the properties that the template of the mode shows.  Hooks are given the
whole node, so that two conditions say what they read of it.
-/

namespace FormDesigner

namespace Component

/-- The template for the mode shows the property. -/
def Shows (component : Component) (mode : RenderMode) (property : Property) : Prop :=
  ∃ template, component.template? mode = some template ∧ template.Shows property

/-- Hooks read nothing of a node but its component and its fields. -/
def HooksReadFields (component : Component) : Prop :=
  ∀ property ∈ component.properties, ∀ hook, property.hook = some hook →
    ∀ node other value, node.component = other.component → node.fields = other.fields →
      hook node value = hook other value

/-- A property that can be bound has the name. -/
def Binds (component : Component) (name : String) : Prop :=
  ∃ property ∈ component.properties, property.bindable = true ∧ property.name = name

/-- Hooks read of a node its component and the fields of properties that cannot be bound. -/
def HooksReadPlain (component : Component) : Prop :=
  ∀ property ∈ component.properties, ∀ hook, property.hook = some hook →
    ∀ node other value, node.component = other.component →
      (∀ name, ¬component.Binds name → node.value? name = other.value? name) →
      hook node value = hook other value

section Templates

variable {component : Component} {mode : RenderMode}

/-- The template for a mode is the one that the source for the mode makes. -/
theorem template?_eq_some_iff {template : Template} :
    component.template? mode = some template ↔
      ∃ source, component.source? mode = some source ∧
        Template.compile source mode component.properties component.settings = .ok template := by
  have hcompiled := component.compiled mode
  rw [template?]
  cases hsource : component.source? mode with
  | none =>
      rw [hsource, Option.map_none, eq_comm, Option.map_eq_none_iff] at hcompiled
      simp [hcompiled]
  | some source =>
      rw [hsource, Option.map_some, eq_comm, Option.map_eq_some_iff] at hcompiled
      obtain ⟨templates, htemplates, hmade⟩ := hcompiled
      rw [htemplates, Option.map_some, Option.some.injEq]
      constructor
      · rintro rfl
        exact ⟨source, rfl, hmade.symm⟩
      · rintro ⟨_, hother, hfound⟩
        cases hother
        exact Except.ok.inj (hmade.trans hfound)

/-- What a component shows is one of its properties, and a piece of its source names it. -/
theorem named_of_shows {property : Property} (hshows : component.Shows mode property) :
    property ∈ component.properties ∧ ∃ source tokens, component.source? mode = some source ∧
      Token.scan source = .ok tokens ∧
      ∃ token ∈ tokens, ∃ position, token.named? mode = some (property.name, position) := by
  obtain ⟨template, htemplate, hshown⟩ := hshows
  obtain ⟨source, hsource, hcompile⟩ := template?_eq_some_iff.mp htemplate
  obtain ⟨hmem, tokens, hscan, hnamed⟩ := hshown.exists_named hcompile
  exact ⟨hmem, source, tokens, hsource, hscan, hnamed⟩

/-- The markup of a node depends on what one sees in the properties that its component shows,
and in the running form on the markup of the children. -/
theorem render_congr {node other : Node} {children others : String}
    (hseen : ∀ property, component.Shows mode property →
      (property.exhibit node).seen mode = (property.exhibit other).seen mode)
    (hchildren : mode = .run → children = others) :
    component.render mode children node = component.render mode others other := by
  rw [render, render]
  cases htemplate : component.template? mode with
  | none => rfl
  | some template =>
      obtain ⟨source, -, hcompile⟩ := template?_eq_some_iff.mp htemplate
      apply Template.render_congr hcompile
      · intro property hshows
        exact hseen property ⟨template, htemplate, hshows⟩
      · exact hchildren

end Templates

end Component

namespace Registry

def HooksReadFields (registry : Registry) : Prop :=
  ∀ component ∈ registry.components, component.HooksReadFields

def HooksReadPlain (registry : Registry) : Prop :=
  ∀ component ∈ registry.components, component.HooksReadPlain

variable {registry : Registry} {component : Component} {mode : RenderMode}

/-- Markup of a known node is that of its component. -/
theorem renderBelow_succ {tree : Tree} {bound : Nat} {id : NodeId} {node : Node}
    (hnode : tree.node? id = some node) (hfind : registry.find? node.component = some component) :
    registry.renderBelow tree (bound + 1) mode id =
      component.render mode
        (String.join (node.childList.map (registry.renderBelow tree bound .run))) node := by
  simp only [renderBelow, hnode, hfind]

/-- The markup of a node without children is made of its fields alone. -/
theorem render_of_leaf (mode : RenderMode) {tree : Tree} {id : NodeId} {node : Node}
    (hnode : tree.node? id = some node) (hfind : registry.find? node.component = some component)
    (hleaf : tree.children id = []) :
    registry.render tree mode id = component.render mode "" node := by
  obtain ⟨bound, hbound⟩ : ∃ bound, tree.size = bound + 1 :=
    Nat.exists_eq_succ_of_ne_zero (Nat.ne_zero_of_lt (Tree.lt_size_of_node? hnode))
  rw [Tree.children_of_node? hnode] at hleaf
  rw [render, hbound, renderBelow_succ hnode hfind, hleaf]
  rfl

theorem renderBelow_eq_empty_of_unknown {tree : Tree} {bound : Nat} {id : NodeId} {node : Node}
    (hnode : tree.node? id = some node) (hfind : registry.find? node.component = none) :
    registry.renderBelow tree bound mode id = "" := by
  cases bound with
  | zero => rfl
  | succ bound => simp only [renderBelow, hnode, hfind]

theorem renderBelow_eq_empty_of_missing {tree : Tree} {bound : Nat} {id : NodeId}
    (hnode : tree.node? id = none) : registry.renderBelow tree bound mode id = "" := by
  cases bound with
  | zero => rfl
  | succ bound => simp only [renderBelow, hnode]

theorem exists_children_render (mode : RenderMode) {tree : Tree} {id : NodeId} {node : Node}
    (hnode : tree.node? id = some node) (hfind : registry.find? node.component = some component) :
    ∃ children, registry.render tree mode id = component.render mode children node := by
  obtain ⟨bound, hbound⟩ : ∃ bound, tree.size = bound + 1 :=
    Nat.exists_eq_succ_of_ne_zero (Nat.ne_zero_of_lt (Tree.lt_size_of_node? hnode))
  rw [render, hbound, renderBelow_succ hnode hfind]
  exact ⟨_, rfl⟩

end Registry

end FormDesigner
