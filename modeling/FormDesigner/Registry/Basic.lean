import FormDesigner.Answers
import FormDesigner.Registry.Inheritance

/-!
Registries: the components that a designer works with.

A registry is built from declarations.  Building looks up what every component
inherits and makes its templates, so that nothing of this can fail later.
-/

namespace FormDesigner

/-- Components with different ids and the same settings, ready for use. -/
@[ext]
structure Registry where
  components : List Component
  settings : RenderSettings
  ids_nodup : (components.map fun component => component.id).Nodup
  settings_eq : ∀ component ∈ components, component.settings = settings

namespace Registry

def empty : Registry := ⟨[], {}, List.nodup_nil, fun _ hmem => absurd hmem List.not_mem_nil⟩

/-- The first id that stands twice in a list, at its second place. -/
def firstRepeat? : List String → List String → Option String
  | _, [] => none
  | seen, id :: rest =>
      if seen.contains id then some id else firstRepeat? (id :: seen) rest

theorem firstRepeat?_eq_none_iff {seen ids : List String} :
    firstRepeat? seen ids = none ↔ ids.Nodup ∧ ∀ id ∈ ids, id ∉ seen := by
  induction ids generalizing seen with
  | nil => simp [firstRepeat?]
  | cons id rest ih =>
      by_cases hseen : id ∈ seen
      · simp [firstRepeat?, hseen]
      · simp only [firstRepeat?, List.contains_eq_mem, hseen, decide_false, Bool.false_eq_true,
          if_false, ih, List.nodup_cons, List.mem_cons, not_or, forall_eq_or_imp, not_false_eq_true,
          true_and]
        grind

/-- The template is the one that the source makes. -/
def MadeOf (settings : RenderSettings) (properties : List Property) (mode : RenderMode)
    (source : String) (template : Template) : Prop :=
  Template.compile source mode properties settings = .ok template

/-- Makes a template of a component. -/
def compileTemplate (settings : RenderSettings) (component : String)
    (properties : List Property) (mode : RenderMode) (source : String) :
    Except RegistryError { template // MadeOf settings properties mode source template } :=
  match h : Template.compile source mode properties settings with
  | .ok template => .ok ⟨template, h⟩
  | .error cause => .error (.template component mode cause)

section Compiled

variable {settings : RenderSettings} {declaration : ComponentDeclaration}
  {properties : List Property}

theorem compiled_of_bare (h : declaration.templateSources = none) (mode : RenderMode) :
    (declaration.source? mode).map
        (fun source => Template.compile source mode properties settings) =
      (none : Option Templates).map fun templates => .ok (templates.get mode) := by
  rw [ComponentDeclaration.source?, h]
  rfl

theorem compiled_of_sources {editSource runSource : String} {templates : Templates}
    (h : declaration.templateSources = some (editSource, runSource))
    (hedit : MadeOf settings properties .edit editSource templates.edit)
    (hrun : MadeOf settings properties .run runSource templates.run)
    (mode : RenderMode) :
    (declaration.source? mode).map
        (fun source => Template.compile source mode properties settings) =
      (some templates).map fun templates => .ok (templates.get mode) := by
  rw [ComponentDeclaration.source?, h]
  cases mode with
  | edit => exact congrArg some hedit
  | run => exact congrArg some hrun

end Compiled

/-- Makes a component from its declaration and all its properties. -/
def makeComponent (settings : RenderSettings) (declaration : ComponentDeclaration)
    (shared : PropertyList) : Except RegistryError Component :=
  match h : declaration.templateSources with
  | none =>
      .ok { declaration with
        shared, templates := none, settings, compiled := compiled_of_bare h }
  | some (editSource, runSource) => do
      let edit ← compileTemplate settings declaration.id shared.properties .edit editSource
      let run ← compileTemplate settings declaration.id shared.properties .run runSource
      return { declaration with
        shared, templates := some ⟨edit, run⟩, settings
        compiled := compiled_of_sources h edit.property run.property }

/-- A component that is made has the declaration, the properties and the settings. -/
theorem of_makeComponent_ok {settings : RenderSettings} {declaration : ComponentDeclaration}
    {shared : PropertyList} {component : Component}
    (h : makeComponent settings declaration shared = .ok component) :
    component.toComponentDeclaration = declaration ∧ component.shared = shared ∧
      component.settings = settings := by
  rw [makeComponent] at h
  split at h
  · cases h
    exact ⟨rfl, rfl, rfl⟩
  · obtain ⟨edit, _, hmore⟩ := Answer.of_bind_ok h
    obtain ⟨run, _, hlast⟩ := Answer.of_bind_ok hmore
    cases hlast
    exact ⟨rfl, rfl, rfl⟩

/-- Makes all components. -/
def makeComponents (settings : RenderSettings) (resolved : Inheritance.Resolved)
    (declarations : List ComponentDeclaration) : Except RegistryError (List Component) :=
  declarations.mapM fun declaration =>
    makeComponent settings declaration (resolved.properties declaration.id)

section Made

variable {settings : RenderSettings} {resolved : Inheritance.Resolved}
  {declarations : List ComponentDeclaration} {components : List Component}

theorem declarations_of_makeComponents
    (h : makeComponents settings resolved declarations = .ok components) :
    components.map Component.toComponentDeclaration = declarations := by
  have hsame := Answer.map_eq_of_mapM_ok (fun _ _ hmake => (of_makeComponent_ok hmake).1) h
  exact hsame.trans (List.map_id declarations)

/-- Components made of declarations with different ids have different ids. -/
theorem nodup_of_makeComponents (hids : firstRepeat? [] (declarations.map (·.id)) = none)
    (h : makeComponents settings resolved declarations = .ok components) :
    (components.map fun component => component.id).Nodup := by
  have hnodup := (firstRepeat?_eq_none_iff.mp hids).1
  rwa [← declarations_of_makeComponents h, List.map_map] at hnodup

theorem settings_of_makeComponents
    (h : makeComponents settings resolved declarations = .ok components) :
    ∀ component ∈ components, component.settings = settings := by
  have hsame : components.map Component.settings = declarations.map fun _ => settings :=
    Answer.map_eq_of_mapM_ok (fun _ _ hmake => (of_makeComponent_ok hmake).2.2) h
  intro component hmem
  have hsettings := List.mem_map_of_mem (f := Component.settings) hmem
  rw [hsame] at hsettings
  obtain ⟨_, _, heq⟩ := List.mem_map.mp hsettings
  exact heq.symm

end Made

/-- Builds a registry. -/
def build (declarations : List ComponentDeclaration) (settings : RenderSettings) :
    Except RegistryError Registry := do
  if settings.rejections ≠ [] then throw (.invalidSettings settings.rejections)
  match hrepeat : firstRepeat? [] (declarations.map (·.id)) with
  | some id => throw (.duplicateComponent id)
  | none =>
      let resolved ← Inheritance.resolveAll declarations
      match hcomponents : makeComponents settings resolved declarations with
      | .error failure => throw failure
      | .ok components =>
          return ⟨components, settings, nodup_of_makeComponents hrepeat hcomponents,
            settings_of_makeComponents hcomponents⟩

/-- The component of an id.  An index by id would find the same one, as no two components
have one id. -/
def find? (registry : Registry) (id : String) : Option Component :=
  registry.components.find? fun component => component.id = id

/-- The component of an id, which has to be there. -/
def require (registry : Registry) (id : String) : Except RegistryError Component :=
  match registry.find? id with
  | some component => .ok component
  | none => .error (.unknownComponent id)

/-- The property of a name, which the component has to have. -/
def requireProperty (component : Component) (name : String) : Except RegistryError Property :=
  match component.property? name with
  | some property => .ok property
  | none => .error (.unknownProperty component.id name)

/-- The components that elements are made of, under their headings. -/
def palette (registry : Registry) : List (String × List Component) :=
  groupBy (fun component => component.group.getD "")
    (registry.components.filter fun component => !component.isAbstract)

/-- The markup of a node and of at most `bound` levels below it. -/
def renderBelow (registry : Registry) (tree : Tree) : Nat → RenderMode → NodeId → String
  | 0, _, _ => ""
  | bound + 1, mode, id =>
      match tree.node? id with
      | none => ""
      | some node =>
          match registry.find? node.component with
          | none => ""
          | some component =>
              component.render mode
                (String.join (node.childList.map (renderBelow registry tree bound .run))) node

/-- The markup of a node; empty for unknown nodes and components.  No line of
descent is longer than the arena. -/
def render (registry : Registry) (tree : Tree) (mode : RenderMode) (id : NodeId) : String :=
  registry.renderBelow tree tree.size mode id

end Registry

end FormDesigner
