import FormDesigner.Proofs.Document.Appearance

/-!
Connecting a subtree changes no markup.

Markup has the default wherever a value is missing, so that nothing shows whether the default is
stored.  Connecting fills every node of the subtree once and leaves all others as they are.  When
it is done again, there is nothing left to fill.
-/

namespace FormDesigner

open Program

namespace Property

variable {property : Property} {before after : Option Datum} {node other : Node}

/-- A default that was stored is what was shown before. -/
theorem held_of_supplies (h : property.Supplies before after) :
    property.held after = property.held before := by
  rcases h with rfl | ⟨rfl | rfl, rfl⟩
  · rfl
  · exact property.held_default
  · exact property.held_default

theorem exhibit_of_supplies
    (h : property.Supplies (Fields.get? property.name node.fields)
      (Fields.get? property.name other.fields))
    (hhook : ∀ hook, property.hook = some hook → ∀ value, hook node value = hook other value) :
    property.exhibit node = property.exhibit other := by
  have hdisplay : property.display node = property.display other := by
    funext value
    unfold display
    split
    · next hook hsome => exact hhook hook hsome _
    · rfl
  rw [exhibit_eq, exhibit_eq, held_of_supplies h]
  unfold shownAs
  rw [hdisplay]

end Property

/-! ### What hooks may read -/

namespace Registry

/-- Hooks read nothing but the value that they are given. -/
def HooksReadValues (registry : Registry) : Prop :=
  ∀ component ∈ registry.components, ∀ property ∈ component.properties,
    ∀ hook, property.hook = some hook → ∀ node other value, hook node value = hook other value

/-- Hooks do not show which defaults are stored. -/
def HooksMissDefaults (registry : Registry) : Prop :=
  ∀ component ∈ registry.components, ∀ property ∈ component.properties,
    ∀ hook, property.hook = some hook → ∀ node other,
      (∀ property ∈ component.properties,
        property.Supplies (Fields.get? property.name node.fields)
          (Fields.get? property.name other.fields)) →
      ∀ value, hook node value = hook other value

theorem HooksReadValues.missDefaults {registry : Registry} (h : registry.HooksReadValues) :
    registry.HooksMissDefaults :=
  fun component hmem property hproperty hook hhook node other _ value =>
    h component hmem property hproperty hook hhook node other value

end Registry

namespace Catalog

theorem givenPart_of_supplies {node other : Node} {property : Property}
    (hdefault : property.default? = some (.record .empty))
    (h : property.Supplies (Fields.get? property.name node.fields)
      (Fields.get? property.name other.fields))
    (part : String) : givenPart node property.name part = givenPart other property.name part := by
  rcases h with hsame | ⟨hmissing, hsupplied⟩
  · exact givenPart_congr (Node.value?_congr hsame.symm) part
  · have hempty : node.value? property.name = none ∨ node.value? property.name = some .null :=
      hmissing.imp (congrArg (Option.map Datum.value)) Node.value?_of_get?
    rw [givenPart_of_empty (hempty.imp_right Or.inl),
      givenPart_of_empty (Or.inr (Or.inr (Node.value?_of_get? (hsupplied.trans hdefault))))]

/-- The parts of the style are empty by default, as if they were missing. -/
theorem hooksMissDefaults_of_build {settings : RenderSettings} {registry : Registry}
    (hbuild : Registry.build standard settings = .ok registry) : registry.HooksMissDefaults := by
  intro component hmem property hproperty hook hhook node other hsupplies value
  rcases hook_cases (mem_properties_of_build hbuild hmem hproperty) hhook with
    ⟨-, rfl⟩ | ⟨hname, rfl⟩
  · rfl
  · have hparts : ∀ name, name = "font" ∨ name = "box" → ∀ part,
        givenPart node name part = givenPart other name part := by
      intro name hpart part
      obtain ⟨found, hvisible, rfl, -, hdefault⟩ :=
        style_parts hbuild hmem ⟨property, hproperty, hname⟩ hpart
      exact givenPart_of_supplies hdefault
        (hsupplies found (Component.mem_properties_of_visible hvisible)) part
    exact styleMarkup_congr (fun part _ => by rw [hparts "font" (Or.inl rfl)])
      (fun part _ => by rw [hparts "box" (Or.inr rfl)]) value

/-- In a component with a style the missing parts of it are filled with empty records. -/
theorem get?_addDefaults_of_style {settings : RenderSettings} {registry : Registry}
    (hbuild : Registry.build standard settings = .ok registry) {component : Component}
    (hmem : component ∈ registry.components)
    (hstyle : ∃ property ∈ component.properties, property.name = "style") {part : String}
    (hpart : part = "font" ∨ part = "box") {fields : Fields Datum}
    (hmissing : Fields.get? part fields = none ∨ Fields.get? part fields = some .null) :
    Fields.get? part (component.addDefaults fields) = some (.record .empty) := by
  obtain ⟨property, hvisible, rfl, -, hdefault⟩ := style_parts hbuild hmem hstyle hpart
  exact (component.completes_addDefaults fields).supplied property
    (Component.mem_properties_of_visible hvisible) _ hdefault hmissing

end Catalog

/-! ### Markup of a filled tree -/

namespace Registry

variable {registry : Registry} {tree after : Tree}

/-- The markup of a node does not show which defaults are stored in it. -/
theorem render_component_of_supplied (hhooks : registry.HooksMissDefaults) {component : Component}
    (hmem : component ∈ registry.components) {node found : Node}
    (hsupplies : ∀ property ∈ component.properties,
      property.Supplies (Fields.get? property.name node.fields)
        (Fields.get? property.name found.fields))
    (mode : RenderMode) (children : String) :
    component.render mode children found = component.render mode children node := by
  symm
  apply Component.render_congr
  · intro property hshows
    have hproperty := (Component.named_of_shows hshows).1
    congr 1
    apply Property.exhibit_of_supplies (hsupplies property hproperty)
    intro hook hhook
    exact hhooks component hmem property hproperty hook hhook node found hsupplies
  · exact fun _ => rfl

/-- Trees with the same links, where one has more defaults stored, have the same markup. -/
theorem renderBelow_of_supplied (hhooks : registry.HooksMissDefaults)
    (hlinks : after.links = tree.links) (h : Editor.SuppliedAll registry tree after)
    (bound : Nat) (mode : RenderMode) (id : NodeId) :
    registry.renderBelow after bound mode id = registry.renderBelow tree bound mode id := by
  induction bound generalizing mode id with
  | zero => rfl
  | succ bound ih =>
      cases hnode : tree.node? id with
      | none =>
          have hmissing : (after.node? id).map Node.links = none := by
            rw [← Tree.links_getElem?, hlinks, Tree.links_getElem?, hnode, Option.map_none]
          rw [Option.map_eq_none_iff] at hmissing
          rw [renderBelow_eq_empty_of_missing hnode, renderBelow_eq_empty_of_missing hmissing]
      | some node =>
          obtain ⟨found, hfound, hsupplied⟩ := h id node hnode
          cases hfind : registry.find? node.component with
          | none =>
              rw [renderBelow_eq_empty_of_unknown hnode hfind,
                renderBelow_eq_empty_of_unknown hfound (hsupplied.component.symm ▸ hfind)]
          | some component =>
              have hchildren : found.childList = node.childList := by
                rw [← Tree.children_of_node? hfound, ← Tree.children_of_node? hnode,
                  Tree.children_eq_links, Tree.children_eq_links, hlinks]
              rw [renderBelow_succ hnode hfind,
                renderBelow_succ hfound (hsupplied.component.symm ▸ hfind), hchildren,
                List.map_congr_left fun child _ => ih .run child]
              exact render_component_of_supplied hhooks (List.mem_of_find?_eq_some hfind)
                (hsupplied.values component hfind) mode _

theorem render_of_supplied (hhooks : registry.HooksMissDefaults)
    (hlinks : after.links = tree.links) (h : Editor.SuppliedAll registry tree after)
    (mode : RenderMode) (id : NodeId) :
    registry.render after mode id = registry.render tree mode id := by
  rw [render, render, Tree.size_eq_of_links hlinks]
  exact renderBelow_of_supplied hhooks hlinks h tree.size mode id

end Registry

/-! ### Connecting -/

namespace Editor

variable {registry : Registry} {tree after : Tree} {root : NodeId}

/-- In a well-formed tree connecting is filling. -/
theorem connect_eq (htree : tree.WellFormed) (hroot : root < tree.size) :
    connect registry root tree = (tree.descendants root).forM (fillNode registry) tree := by
  have hrelink : onTree (Tree.relink root) tree = .ok () tree :=
    adaptExcept_ok (htree.relink_ok hroot)
  rw [connect, bind_ok hrelink, bind_ok (get_apply tree)]

/-- Connecting succeeds if and only if the root and the components below it are known. -/
theorem exists_connect_ok_iff (htree : tree.WellFormed) :
    (∃ after, connect registry root tree = .ok () after) ↔
      root < tree.size ∧ ∀ id ∈ tree.descendants root, ∃ node component,
        tree.node? id = some node ∧ registry.find? node.component = some component := by
  constructor
  · rintro ⟨after, h⟩
    by_cases hroot : root < tree.size
    · rw [connect_eq htree hroot] at h
      exact ⟨hroot, known_of_fillNodes h⟩
    · have hfailed : onTree (Tree.relink root) tree = .error _ tree :=
        adaptExcept_error (bind_error (Tree.requireNode_error (Nat.le_of_not_lt hroot)))
      rw [connect, bind_error hfailed] at h
      cases h
  · rintro ⟨hroot, hknown⟩
    obtain ⟨after, hfill, -⟩ := fillNodes_once (htree.nodup_descendants root) hknown
    exact ⟨after, (connect_eq htree hroot).trans hfill⟩

/-- Connecting fills every node of the subtree once. -/
theorem defaulted_of_connect (htree : tree.WellFormed)
    (h : connect registry root tree = .ok () after) :
    Defaulted registry (tree.descendants root) tree after := by
  obtain ⟨hroot, hknown⟩ := (exists_connect_ok_iff htree).mp ⟨after, h⟩
  obtain ⟨filled, hfill, hdefaulted⟩ := fillNodes_once (htree.nodup_descendants root) hknown
  rw [connect_eq htree hroot, hfill] at h
  cases h
  exact hdefaulted

/-- What is filled already is left as it is. -/
theorem connect_again (htree : tree.WellFormed)
    (h : connect registry root tree = .ok () after) :
    connect registry root after = .ok () after := by
  obtain ⟨hroot, hknown⟩ := (exists_connect_ok_iff htree).mp ⟨after, h⟩
  have hdefaulted := defaulted_of_connect htree h
  have hafter := htree.of_links_eq hdefaulted.links
  rw [connect_eq hafter (Tree.size_eq_of_links hdefaulted.links ▸ hroot),
    Tree.descendants_of_links_eq hdefaulted.links]
  apply Tree.forM_stays
  intro id hmem
  obtain ⟨node, component, hnode, hfind⟩ := hknown id hmem
  have hfilled := hdefaulted.filled id hmem node component hnode hfind
  rw [fillNode_apply hfilled hfind, Tree.mapNode_of_fixed hfilled]
  exact congrArg (Node.mk node.component · node.children node.parent)
    (component.addDefaults_addDefaults node.fields)

/-- Connecting a part of a well-formed tree changes no markup, with the standard catalog and with
every registry whose hooks read nothing but their value.  It stores every missing default of the
part, and changes no link, no node outside of it, and no value but `null`.  Connecting again
changes nothing at all. -/
theorem connect_changes_no_markup
    (hhooks : (∃ settings, Registry.build Catalog.standard settings = .ok registry) ∨
      registry.HooksReadValues)
    (htree : tree.WellFormed) (h : connect registry root tree = .ok () after) :
    (∀ mode id, registry.render after mode id = registry.render tree mode id) ∧
    after.links = tree.links ∧
    (∀ id, id = root ∨ Tree.Ancestor tree root id → ∃ node component found,
      tree.node? id = some node ∧ registry.find? node.component = some component ∧
      after.node? id = some found ∧ component.Completes node.fields found.fields) ∧
    (∀ id, id ≠ root → ¬Tree.Ancestor tree root id → after.node? id = tree.node? id) ∧
    (∀ id node, tree.node? id = some node → ∃ found, after.node? id = some found ∧
      found.component = node.component ∧
      ∀ name value, node.value? name = some value → value ≠ .null →
        found.value? name = some value) ∧
    connect registry root after = .ok () after := by
  have hmiss : registry.HooksMissDefaults := by
    rcases hhooks with ⟨settings, hbuild⟩ | hvalues
    · exact Catalog.hooksMissDefaults_of_build hbuild
    · exact hvalues.missDefaults
  obtain ⟨hroot, hknown⟩ := (exists_connect_ok_iff htree).mp ⟨after, h⟩
  have hdefaulted := defaulted_of_connect htree h
  refine ⟨?_, hdefaulted.links, ?_, ?_, ?_, connect_again htree h⟩
  · exact Registry.render_of_supplied hmiss hdefaulted.links (hdefaulted.suppliedAll hknown)
  · intro id hline
    have hmem := (htree.mem_descendants_iff hroot).mpr (htree.exists_descend hline)
    obtain ⟨node, component, hnode, hfind⟩ := hknown id hmem
    exact ⟨node, component, _, hnode, hfind, hdefaulted.filled id hmem node component hnode hfind,
      component.completes_addDefaults node.fields⟩
  · intro id hne hline
    apply hdefaulted.kept
    rw [htree.mem_descendants_iff hroot]
    rintro ⟨path, hpath⟩
    exact (htree.eq_or_ancestor_of_descend hpath).elim hne hline
  · intro id node hnode
    by_cases hmem : id ∈ tree.descendants root
    · obtain ⟨live, component, hlive, hfind⟩ := hknown id hmem
      cases hlive.symm.trans hnode
      refine ⟨_, hdefaulted.filled id hmem node component hnode hfind, rfl, ?_⟩
      intro name value hvalue hnull
      obtain ⟨datum, hdatum, rfl⟩ := Option.map_eq_some_iff.mp hvalue
      exact Node.value?_of_get? (component.get?_addDefaults_of_stored hdatum
        fun heq => hnull (congrArg Datum.value heq))
    · exact ⟨node, (hdefaulted.kept id hmem).trans hnode, rfl, fun _ _ hvalue _ => hvalue⟩

/-- What a label stores that has a value, no font and an empty place for its box. -/
def captionFields : Fields Datum :=
  .collect [("box", .null), ("value", .literal (.string "Name"))]

/-- The label in an element. -/
def captioned : Tree := (Tree.empty.plant ⟨"div", .empty, some [⟨"label", captionFields, none⟩]⟩).2

/-- The label has an empty font when it is connected, and looks as it did without one. -/
theorem connect_changes_no_markup_of_captioned :
    ∃ registry after, Registry.build Catalog.standard {} = .ok registry ∧
      captioned.WellFormed ∧ connect registry 0 captioned = .ok () after ∧
      (∃ found, after.node? 1 = some found ∧ found.value? "font" = some (.record [])) ∧
      ∀ mode id, registry.render after mode id = registry.render captioned mode id := by
  obtain ⟨registry, hbuild⟩ : ∃ registry, Registry.build Catalog.standard {} = .ok registry :=
    Catalog.exists_build_standard rfl
  have htree : captioned.WellFormed := Tree.empty_wellFormed.plant _
  have hfound : ∀ id ∈ ["div", "label"], ∃ component, registry.find? id = some component ∧
      component ∈ registry.components ∧ component.id = id := by
    intro id hid
    have hlisted : ∀ id ∈ ["div", "label"], id ∈ Catalog.standard.map ComponentDeclaration.id := by
      decide +kernel
    exact Catalog.exists_find?_of_build hbuild (hlisted id hid)
  obtain ⟨element, helement, -⟩ := hfound "div" (by decide)
  obtain ⟨label, hlabel, hmem, hid⟩ := hfound "label" (by decide)
  have hwalk : captioned.descendants 0 = [0, 1] := rfl
  obtain ⟨after, hconnect⟩ : ∃ after, connect registry 0 captioned = .ok () after := by
    refine (exists_connect_ok_iff htree).mpr ⟨by decide, ?_⟩
    rw [hwalk]
    exact List.forall_mem_cons.mpr ⟨⟨_, element, rfl, helement⟩,
      List.forall_mem_singleton.mpr ⟨_, label, rfl, hlabel⟩⟩
  have hfilled := (defaulted_of_connect htree hconnect).filled 1 (by rw [hwalk]; decide) _ label rfl
    hlabel
  have hstyle : ∃ property ∈ label.properties, property.name = "style" := by
    rw [Catalog.properties_of_build hbuild hmem, hid]
    decide +kernel
  have hfont : Fields.get? "font" (label.addDefaults captionFields) = some (.record .empty) :=
    Catalog.get?_addDefaults_of_style hbuild hmem hstyle (Or.inl rfl) (Or.inl rfl)
  obtain ⟨hrender, -⟩ := connect_changes_no_markup (Or.inl ⟨{}, hbuild⟩) htree hconnect
  exact ⟨registry, after, hbuild, htree, hconnect,
    ⟨_, hfilled, congrArg (Option.map Datum.value) hfont⟩, hrender⟩

end Editor

end FormDesigner
