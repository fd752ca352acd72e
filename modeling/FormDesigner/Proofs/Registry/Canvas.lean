import FormDesigner.Proofs.Catalog.Standard

/-!
The canvas shows no expression and no child.

Two nodes that are the same but for the texts of expressions cannot be told apart on the
canvas, wherever they stand and whatever is below them.
-/

namespace FormDesigner

/-- Values that are the same, but for expressions in properties that can be bound. -/
def Component.SameButExpressions (component : Component) (left right : Fields Datum) : Prop :=
  ∀ name, Fields.get? name left = Fields.get? name right ∨
    component.Binds name ∧
      (∃ inner, Fields.get? name left = some (.binding .expression inner)) ∧
      ∃ inner, Fields.get? name right = some (.binding .expression inner)

/-- Nodes of one component with values that are the same but for expressions.  Nothing is
said of their children and parents. -/
structure Registry.SameButExpressions (registry : Registry) (left right : Node) : Prop where
  component : left.component = right.component
  values : ∀ component, registry.find? left.component = some component →
    component.SameButExpressions left.fields right.fields

namespace Component

variable {component : Component} {left right : Node}

/-- Another expression is stored in the place of one. -/
theorem sameButExpressions_put {name : String} {fields : Fields Datum} {inner : Datum}
    (hbinds : component.Binds name)
    (h : Fields.get? name fields = some (.binding .expression inner)) (other : Datum) :
    component.SameButExpressions fields
      (Fields.put name (.binding .expression other) fields) := by
  intro found
  by_cases hname : found = name
  · subst hname
    exact Or.inr ⟨hbinds, ⟨inner, h⟩, other, Fields.get?_put_self found _ fields⟩
  · exact Or.inl (Fields.get?_put_of_ne hname _ fields).symm

/-- On the canvas one sees the same in every property of such nodes. -/
theorem SameButExpressions.seen_eq (h : component.SameButExpressions left.fields right.fields)
    (hname : left.component = right.component) (hhooks : component.HooksReadPlain)
    {property : Property}
    (hproperty : property ∈ component.properties) :
    (property.exhibit left).seen .edit = (property.exhibit right).seen .edit := by
  rcases h property.name with hsame | ⟨hbinds, ⟨first, hfirst⟩, second, hsecond⟩
  · congr 1
    apply Property.exhibit_congr (Node.value?_congr hsame)
    intro hook hhook value
    apply hhooks property hproperty hook hhook left right value hname
    intro name hplain
    rcases h name with hequal | ⟨hbinds, -⟩
    · exact Node.value?_congr hequal
    · exact absurd hbinds hplain
  · obtain ⟨bound, hbound, hbindable, hsame⟩ := hbinds
    cases component.eq_of_name_eq hbound hproperty hsame
    rw [Property.exhibit_expression hbindable (Node.value?_of_get? hfirst),
      Property.exhibit_expression hbindable (Node.value?_of_get? hsecond)]
    rfl

end Component

namespace Registry

/-- The canvas shows no expressions, in every registry whose hooks read neither the fields of
properties that can be bound nor children and parents, as those of the standard catalog do.
Nodes that are the same but for the texts of expressions have the same markup on it, in any
two trees. -/
theorem render_edit_of_sameButExpressions :
    (∀ settings catalog, build Catalog.standard settings = .ok catalog →
      catalog.HooksReadPlain) ∧
    ∀ registry : Registry, registry.HooksReadPlain →
      ∀ (tree other : Tree) (id place : NodeId),
        Option.Rel registry.SameButExpressions (tree.node? id) (other.node? place) →
          registry.render tree .edit id = registry.render other .edit place := by
  constructor
  · intro settings catalog hbuild
    exact Catalog.hooksReadPlain_of_build hbuild
  · intro registry hhooks tree other id place hrel
    generalize hleft : tree.node? id = left at hrel
    generalize hright : other.node? place = right at hrel
    cases hrel with
    | none =>
        rw [render, render, renderBelow_eq_empty_of_missing hleft,
          renderBelow_eq_empty_of_missing hright]
    | @some left right hsame =>
        cases hfind : registry.find? left.component with
        | none =>
            rw [render, render, renderBelow_eq_empty_of_unknown hleft hfind,
              renderBelow_eq_empty_of_unknown hright (hsame.component ▸ hfind)]
        | some component =>
            obtain ⟨hmem, -⟩ := find?_eq_some_iff.mp hfind
            obtain ⟨children, hchildren⟩ := exists_children_render .edit hleft hfind
            obtain ⟨others, hothers⟩ :=
              exists_children_render .edit hright (hsame.component ▸ hfind)
            rw [hchildren, hothers]
            apply Component.render_congr
            · intro property hshows
              exact (hsame.values component hfind).seen_eq hsame.component
                (hhooks component hmem) (Component.named_of_shows hshows).1
            · intro hmode
              cases hmode

/-- A fieldset with an expression as its legend. -/
def fieldsetWith (legend : String) (children : List Blueprint) : Blueprint :=
  ⟨"fieldset", .single "value" (.expression legend), some children⟩

/-- Two fieldsets with different expressions, one of them with a child, look the same. -/
theorem render_edit_of_sameButExpressions_of_fieldset :
    ∃ registry, build Catalog.standard {} = .ok registry ∧ registry.HooksReadPlain ∧
      Option.Rel registry.SameButExpressions
        ((Tree.empty.plant (fieldsetWith "user.name" [])).2.node? 0)
        ((Tree.empty.plant (fieldsetWith "user.key" [⟨"br", .empty, none⟩])).2.node? 0) ∧
      registry.render (Tree.empty.plant (fieldsetWith "user.name" [])).2 .edit 0 =
        registry.render (Tree.empty.plant (fieldsetWith "user.key" [⟨"br", .empty, none⟩])).2
          .edit 0 := by
  obtain ⟨hcatalog, hcanvas⟩ := render_edit_of_sameButExpressions
  obtain ⟨registry, hbuild⟩ : ∃ registry, build Catalog.standard {} = .ok registry :=
    Catalog.exists_build_standard rfl
  have hhooks := hcatalog {} registry hbuild
  have hsame : registry.SameButExpressions
      ⟨"fieldset", .single "value" (.expression "user.name"), some [], none⟩
      ⟨"fieldset", .single "value" (.expression "user.key"), some [1], none⟩ := by
    refine ⟨rfl, ?_⟩
    intro component hfind
    obtain ⟨hmem, hid⟩ := find?_eq_some_iff.mp hfind
    dsimp only at hid ⊢
    have hlisted : ∃ shared ∈ (Catalog.resolved.properties "fieldset").items,
        shared.property.bindable = true ∧ shared.property.name = "value" := by decide +kernel
    obtain ⟨shared, hshared, hbound⟩ := hlisted
    rw [← hid, ← (Catalog.declared_of_build hbuild hmem).2] at hshared
    exact Component.sameButExpressions_put ⟨_, List.mem_map_of_mem hshared, hbound⟩ rfl
      (.string "user.key")
  exact ⟨registry, hbuild, hhooks, .some hsame,
    hcanvas registry hhooks _ _ 0 0 (.some hsame)⟩

end Registry

end FormDesigner
