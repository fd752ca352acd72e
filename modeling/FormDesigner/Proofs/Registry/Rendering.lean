import FormDesigner.Proofs.Catalog.Standard
import FormDesigner.Proofs.Tree.Copying
import FormDesigner.Proofs.Tree.Runs

/-!
Rendering ends, and reads nothing but the blueprint of a node.

A node shows the pieces of its component's template one after the other.  With that the markup
of a blueprint is read off by recursion on its shape, and the markup of a node in a tree is
described by rules without any bound, where a node needs the markup of its children.  In a
well-formed tree every node has exactly one markup by these rules, and it is that of its blueprint.
-/

namespace FormDesigner

/-- What a node shows whose children have the given markup: nothing without a template, and else
the pieces of the source of the template, one after the other. -/
def Component.markupOfPieces (component : Component) (mode : RenderMode) (children : String)
    (node : Node) : String :=
  match component.template? mode with
  | none => ""
  | some template =>
      match Token.scan template.source with
      | .error _ => ""
      | .ok tokens => String.join (tokens.map
          (Token.piece mode component.properties component.settings children node))

namespace Component

variable {component : Component} {mode : RenderMode}

theorem render_of_bare (h : component.template? mode = none) (children : String) (node : Node) :
    component.render mode children node = "" := by
  rw [render, h]

/-- A template shows the pieces of its source. -/
theorem exists_pieces {template : Template} (h : component.template? mode = some template) :
    ∃ tokens, Token.scan template.source = .ok tokens ∧
      ∀ children node, component.render mode children node = String.join (tokens.map
        (Token.piece mode component.properties component.settings children node)) := by
  obtain ⟨source, -, hcompile⟩ := template?_eq_some_iff.mp h
  obtain ⟨tokens, hscan, -, hpieces⟩ := Template.exists_pieces hcompile
  refine ⟨tokens, Template.source_of_compile hcompile ▸ hscan, fun children node => ?_⟩
  rw [render, h]
  exact hpieces children node

theorem render_eq_markupOfPieces (component : Component) (mode : RenderMode) (children : String)
    (node : Node) :
    component.render mode children node = component.markupOfPieces mode children node := by
  cases htemplate : component.template? mode with
  | none => rw [render_of_bare htemplate, markupOfPieces, htemplate]
  | some template =>
      obtain ⟨tokens, hscan, hpieces⟩ := exists_pieces htemplate
      rw [hpieces, markupOfPieces, htemplate]
      dsimp only
      rw [hscan]

end Component

namespace Registry

mutual

/-- The markup of a blueprint: nothing for an unknown component, and else the pieces of the
component's template, in the places of which stand the fields and the markup of the children. -/
def preview (registry : Registry) (mode : RenderMode) : Blueprint → String
  | ⟨id, fields, none⟩ =>
      match registry.find? id with
      | none => ""
      | some component => component.markupOfPieces mode "" ⟨id, fields, none, none⟩
  | ⟨id, fields, some children⟩ =>
      match registry.find? id with
      | none => ""
      | some component =>
          component.markupOfPieces mode (previewChildren registry children)
            ⟨id, fields, none, none⟩

/-- The markup of all children, one behind the other, in the running form. -/
def previewChildren (registry : Registry) : List Blueprint → String
  | [] => ""
  | child :: rest => preview registry .run child ++ previewChildren registry rest

end

/-- The markup of a node by the rules.  Nothing is shown for an unknown node, an unknown
component and a component without a template, and else the pieces of the template, with the
markup of all children in the running form. -/
inductive Renders (registry : Registry) (tree : Tree) : RenderMode → NodeId → String → Prop where
  | missing {mode : RenderMode} {id : NodeId} (hnode : tree.node? id = none) :
      Renders registry tree mode id ""
  | unknown {mode : RenderMode} {id : NodeId} {node : Node} (hnode : tree.node? id = some node)
      (hfind : registry.find? node.component = none) : Renders registry tree mode id ""
  | bare {mode : RenderMode} {id : NodeId} {node : Node} {component : Component}
      (hnode : tree.node? id = some node)
      (hfind : registry.find? node.component = some component)
      (htemplate : component.template? mode = none) : Renders registry tree mode id ""
  | known {mode : RenderMode} {id : NodeId} {node : Node} {component : Component}
      {template : Template} {tokens : List Token} {texts : List String}
      (hnode : tree.node? id = some node)
      (hfind : registry.find? node.component = some component)
      (htemplate : component.template? mode = some template)
      (hscan : Token.scan template.source = .ok tokens)
      (hchildren : List.Forall₂ (Renders registry tree .run) node.childList texts) :
      Renders registry tree mode id (String.join (tokens.map
        (Token.piece mode component.properties component.settings (String.join texts) node)))

variable {registry : Registry} {tree : Tree}

/-- Where a blueprint can be taken, as many levels are enough for rendering, and the rules
give nothing else. -/
theorem renders_iff_of_copyBelow {bound : Nat} {mode : RenderMode} {id : NodeId} {text : String}
    {copy : Blueprint} (h : tree.copyBelow bound id = .ok copy) :
    registry.Renders tree mode id text ↔ text = registry.renderBelow tree bound mode id := by
  induction bound generalizing mode id text copy with
  | zero => cases h
  | succ bound ih =>
      obtain ⟨node, hnode, -, -, hbelow⟩ := Tree.of_copyBelow_ok h
      have hchildren : ∀ texts, List.Forall₂ (registry.Renders tree .run) node.childList texts ↔
          texts = node.childList.map (registry.renderBelow tree bound .run) := fun texts =>
        forall₂_iff_eq_map hbelow fun _ _ hcopy _ => ih hcopy
      constructor
      · intro hrenders
        cases hrenders with
        | missing hmissing =>
            rw [hnode] at hmissing
            cases hmissing
        | unknown hfound hfind =>
            rw [renderBelow_eq_empty_of_unknown hfound hfind]
        | bare hfound hfind htemplate =>
            rw [renderBelow_succ hfound hfind, Component.render_of_bare htemplate]
        | known hfound hfind htemplate hscan htexts =>
            cases hnode.symm.trans hfound
            obtain ⟨tokens, hpieces, hrender⟩ := Component.exists_pieces htemplate
            cases hscan.symm.trans hpieces
            rw [renderBelow_succ hnode hfind, hrender, (hchildren _).mp htexts]
      · rintro rfl
        cases hfind : registry.find? node.component with
        | none =>
            rw [renderBelow_eq_empty_of_unknown hnode hfind]
            exact .unknown hnode hfind
        | some component =>
            rw [renderBelow_succ hnode hfind]
            cases htemplate : component.template? mode with
            | none =>
                rw [Component.render_of_bare htemplate]
                exact .bare hnode hfind htemplate
            | some template =>
                obtain ⟨tokens, hscan, hrender⟩ := Component.exists_pieces htemplate
                rw [hrender]
                exact .known hnode hfind htemplate hscan ((hchildren _).mpr rfl)

/-- In a well-formed tree the rules give every node its markup and no other. -/
theorem renders_iff (h : tree.WellFormed) {mode : RenderMode} {id : NodeId} {text : String} :
    registry.Renders tree mode id text ↔ text = registry.render tree mode id := by
  cases hnode : tree.node? id with
  | none =>
      rw [render, renderBelow_eq_empty_of_missing hnode]
      constructor
      · intro hrenders
        cases hrenders with
        | missing _ => rfl
        | unknown hfound _ => cases hnode.symm.trans hfound
        | bare hfound _ _ => cases hnode.symm.trans hfound
        | known hfound _ _ _ _ => cases hnode.symm.trans hfound
      · rintro rfl
        exact .missing hnode
  | some node =>
      obtain ⟨copy, hcopy⟩ := h.exists_blueprint (Tree.lt_size_of_node? hnode)
      exact renders_iff_of_copyBelow hcopy

/-- More levels than there are nodes do not count. -/
theorem renderBelow_eq_render (h : tree.WellFormed) {bound : Nat} (hbound : tree.size ≤ bound)
    {mode : RenderMode} {id : NodeId} (hid : id < tree.size) :
    registry.renderBelow tree bound mode id = registry.render tree mode id := by
  have hpositive : 0 < (tree.lineage (tree.size + 1) id).length := by simp [Tree.lineage]
  have henough : tree.size < bound + (tree.lineage (tree.size + 1) id).length := by omega
  obtain ⟨copy, hcopy⟩ := h.exists_copyBelow hid henough
  exact (renders_iff h).mp ((renders_iff_of_copyBelow hcopy).mpr rfl)

theorem preview_of_find? {mode : RenderMode} {blueprint : Blueprint} {component : Component}
    (hfind : registry.find? blueprint.component = some component) :
    registry.preview mode blueprint =
      component.markupOfPieces mode
        (String.join (blueprint.childList.map (registry.preview .run)))
        ⟨blueprint.component, blueprint.fields, none, none⟩ := by
  have hjoin : ∀ children, previewChildren registry children =
      String.join (children.map (registry.preview .run)) := by
    intro children
    induction children with
    | nil => rfl
    | cons child rest ih => rw [previewChildren, ih, List.map_cons, String.join_cons]
  obtain ⟨id, fields, children⟩ := blueprint
  cases children with
  | none =>
      simp only [preview, hfind]
      rfl
  | some children =>
      simp only [preview, hfind, hjoin]
      rfl

theorem preview_of_unknown {mode : RenderMode} {blueprint : Blueprint}
    (hfind : registry.find? blueprint.component = none) : registry.preview mode blueprint = "" := by
  obtain ⟨id, fields, children⟩ := blueprint
  cases children <;> simp only [preview, hfind]

/-- A node has the markup of its blueprint. -/
theorem renderBelow_eq_preview (hhooks : registry.HooksReadFields) {bound : Nat}
    {mode : RenderMode} {id : NodeId} {copy : Blueprint} (h : tree.copyBelow bound id = .ok copy) :
    registry.renderBelow tree bound mode id = registry.preview mode copy := by
  induction bound generalizing mode id copy with
  | zero => cases h
  | succ bound ih =>
      obtain ⟨node, hnode, hname, hfields, hbelow⟩ := Tree.of_copyBelow_ok h
      cases hfind : registry.find? node.component with
      | none =>
          rw [renderBelow_eq_empty_of_unknown hnode hfind, preview_of_unknown (hname ▸ hfind)]
      | some component =>
          have hmem := List.mem_of_find?_eq_some hfind
          rw [renderBelow_succ hnode hfind, preview_of_find? (hname ▸ hfind),
            ← Component.render_eq_markupOfPieces]
          have hchildren : node.childList.map (registry.renderBelow tree bound .run) =
              copy.childList.map (registry.preview .run) := by
            rw [← List.forall₂_eq_eq_eq, List.forall₂_map_left_iff, List.forall₂_map_right_iff]
            exact hbelow.imp fun _ _ hcopy => ih hcopy
          rw [hchildren]
          apply Component.render_congr
          · intro property hshows
            have hproperty := (Component.named_of_shows hshows).1
            congr 1
            apply Property.exhibit_congr
            · rw [Node.value?, Node.value?, hfields]
            · intro hook hhook value
              exact hhooks component hmem property hproperty hook hhook node _ value hname.symm
                hfields.symm
          · exact fun _ => rfl

/-- Rendering is a function of blueprints, in every registry whose hooks read of a node its
component and its fields, as those of the standard catalog do.  The template of a component is
the one that its source makes, and a node shows the pieces of it: in a well-formed tree these
rules give every node one markup, which is that of the node's blueprint, and nothing to an unknown
node.  Wherever else a node has this blueprint, it has this markup. -/
theorem render_of_blueprint :
    (∀ settings catalog, build Catalog.standard settings = .ok catalog →
      catalog.HooksReadFields) ∧
    ∀ registry : Registry,
      (∀ component ∈ registry.components, ∀ mode template,
        component.template? mode = some template ↔ ∃ source,
          component.source? mode = some source ∧
          Template.compile source mode component.properties registry.settings = .ok template) ∧
      (registry.HooksReadFields → ∀ tree : Tree, tree.WellFormed →
        (∀ mode id text, registry.Renders tree mode id text ↔
          text = registry.render tree mode id) ∧
        (∀ mode id, tree.size ≤ id → registry.render tree mode id = "") ∧
        ∀ id < tree.size, ∃ copy, tree.blueprint id = .ok copy ∧
          (∀ mode, registry.render tree mode id = registry.preview mode copy) ∧
          ∀ other place, other.blueprint place = .ok copy → ∀ mode,
            registry.render other mode place = registry.render tree mode id) := by
  refine ⟨fun settings catalog hbuild => Catalog.hooksReadFields_of_build hbuild,
    fun registry => ⟨?_, ?_⟩⟩
  · intro component hmem mode template
    rw [Component.template?_eq_some_iff, registry.settings_eq component hmem]
  · intro hhooks tree htree
    refine ⟨fun mode id text => renders_iff htree, ?_, ?_⟩
    · intro mode id hid
      have hnode : tree.node? id = none := Array.getElem?_eq_none hid
      rw [render, renderBelow_eq_empty_of_missing hnode]
    · intro id hid
      obtain ⟨copy, hcopy⟩ := htree.exists_blueprint hid
      refine ⟨copy, hcopy, fun mode => renderBelow_eq_preview hhooks hcopy, ?_⟩
      intro other place hplace mode
      rw [render, render, renderBelow_eq_preview hhooks hcopy,
        renderBelow_eq_preview hhooks hplace]

/-- A row with one column. -/
def narrowRow : Blueprint := ⟨"row", .empty, some [⟨"col", .single "columns" (.ofNat 3), some []⟩]⟩

/-- The markup of the row, from the templates of the two components. -/
theorem preview_narrowRow (hbuild : build Catalog.standard {} = .ok registry) :
    registry.preview .run narrowRow =
      "<div class='row'><div class='col col-md-3 col-md-offset-0'></div></div>" := by
  have hlisted : ∀ id ∈ ["row", "col"], id ∈ Catalog.standard.map ComponentDeclaration.id := by
    decide +kernel
  have hknown : ∀ id ∈ ["row", "col"], ∀ fields children,
      registry.preview .run ⟨id, fields, some children⟩ = Catalog.markupOf {} id .run
        (String.join (children.map (registry.preview .run))) ⟨id, fields, none, none⟩ := by
    intro id hid fields children
    obtain ⟨component, hfind, hmem, rfl⟩ := Catalog.exists_find?_of_build hbuild (hlisted id hid)
    rw [preview_of_find? hfind, ← Component.render_eq_markupOfPieces,
      Catalog.render_of_build hbuild hmem]
    rfl
  rw [narrowRow, hknown "row" (by simp), List.map_singleton, hknown "col" (by simp), List.map_nil]
  decide +kernel

/-- A row has the same markup alone in a tree and behind another node. -/
theorem render_of_blueprint_of_row :
    ∃ registry, build Catalog.standard {} = .ok registry ∧ registry.HooksReadFields ∧
      (Tree.empty.plant narrowRow).2.WellFormed ∧ 0 < (Tree.empty.plant narrowRow).2.size ∧
      registry.render (Tree.empty.plant narrowRow).2 .run 0 =
        "<div class='row'><div class='col col-md-3 col-md-offset-0'></div></div>" ∧
      ((Tree.empty.insert ⟨"br", .empty, none, none⟩).2.plant narrowRow).2.blueprint 1 =
        .ok narrowRow ∧
      registry.render ((Tree.empty.insert ⟨"br", .empty, none, none⟩).2.plant narrowRow).2 .run 1 =
        registry.render (Tree.empty.plant narrowRow).2 .run 0 := by
  obtain ⟨hcatalog, hrender⟩ := render_of_blueprint
  obtain ⟨registry, hbuild⟩ : ∃ registry, build Catalog.standard {} = .ok registry :=
    Catalog.exists_build_standard rfl
  have hhooks := hcatalog {} registry hbuild
  have htree : (Tree.empty.plant narrowRow).2.WellFormed := Tree.empty_wellFormed.plant _
  have hroot : 0 < (Tree.empty.plant narrowRow).2.size := by decide
  obtain ⟨-, -, hknown⟩ := (hrender registry).2 hhooks _ htree
  obtain ⟨copy, hcopy, hpreview, hother⟩ := hknown 0 hroot
  have hsame : (Tree.empty.plant narrowRow).2.blueprint 0 = .ok narrowRow := rfl
  cases hsame.symm.trans hcopy
  exact ⟨registry, hbuild, hhooks, htree, hroot,
    (hpreview .run).trans (preview_narrowRow hbuild), rfl, hother _ 1 rfl .run⟩

end Registry

end FormDesigner
