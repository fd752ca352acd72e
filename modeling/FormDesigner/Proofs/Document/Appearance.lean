import FormDesigner.Proofs.Document.Minimal
import FormDesigner.Proofs.Editor.Completion
import FormDesigner.Proofs.Registry.Rendering
import FormDesigner.Proofs.Value.Markup

/-!
How a form looks after it was saved and loaded.

A value that is saved comes back as it was.  A value that counts as the default comes back as
the default, and has the same markup.  There is one exception: a bound `null` counts as the
default of a switch, but has no markup where the switch has one.
-/

namespace FormDesigner

namespace Property

variable {property : Property} {node other : Node} {stored loaded : Option Datum}

/-- What markup is made of: what is stored, or the default where nothing or `null` is. -/
def held (property : Property) (stored : Option Datum) : Option Datum :=
  (stored.filter fun datum => !datum.value.isNull).or property.default?

theorem held_of_ne_null {datum : Datum} (h : datum ≠ .null) :
    property.held (some datum) = some datum := by
  obtain ⟨value, hordered⟩ := datum
  cases value with
  | null => exact absurd rfl h
  | _ => rfl

theorem held_default (property : Property) :
    property.held property.default? = property.default? := by
  rw [held]
  cases property.default? with
  | none => rfl
  | some datum =>
      obtain ⟨value, hordered⟩ := datum
      cases value <;> rfl

/-- What is shown of a held value. -/
def shownAs (property : Property) (node : Node) (held : Option Value) : Exhibit :=
  match property.bindable, held with
  | true, some (.binding .expression inner) => .expression inner.markup
  | true, some (.binding .literal inner) => .value (property.display node (some inner))
  | true, none => .value (property.display node (some .null))
  | _, _ => .value (property.display node held)

/-- Of a node that is what it stores, unless that is `null`, or else the default. -/
theorem map_value_held (property : Property) (node : Node) :
    (property.held (Fields.get? property.name node.fields)).map Datum.value =
      ((node.value? property.name).filter fun value => !value.isNull).or
        (property.default?.map Datum.value) := by
  rw [Node.value?]
  cases Fields.get? property.name node.fields with
  | none => rfl
  | some datum =>
      obtain ⟨value, hordered⟩ := datum
      cases value <;> rfl

theorem exhibit_eq (property : Property) (node : Node) :
    property.exhibit node = property.shownAs node
      ((property.held (Fields.get? property.name node.fields)).map Datum.value) := by
  rw [map_value_held]
  rfl

/-- Values of one shape that are displayed alike are shown alike. -/
theorem shownAs_congr {left right : Option Value}
    (hshape : left.map Value.shape = right.map Value.shape)
    (hdisplay : ∀ left right : Option Value, left.map Value.shape = right.map Value.shape →
      property.display node left = property.display other right) :
    property.shownAs node left = property.shownAs other right := by
  have hvalue := congrArg Exhibit.value (hdisplay left right hshape)
  unfold shownAs
  cases property.bindable with
  | false => exact hvalue
  | true =>
      cases left with
      | none =>
          cases right with
          | none => exact congrArg Exhibit.value (hdisplay (some .null) (some .null) rfl)
          | some _ => cases hshape
      | some value =>
          cases right with
          | none => cases hshape
          | some found =>
              have hsame : value.shape = found.shape := Option.some.inj hshape
              cases value with
              | binding kind inner =>
                  cases found with
                  | binding kind' content =>
                      obtain ⟨rfl, hinner⟩ := Shape.binding.inj hsame
                      cases kind with
                      | expression =>
                          exact congrArg Exhibit.expression (Value.markup_eq_of_shape_eq hinner)
                      | literal =>
                          exact congrArg Exhibit.value (hdisplay (some inner) (some content)
                            (congrArg some hinner))
                  | _ => cases hsame
              | _ =>
                  cases found with
                  | binding _ _ => cases hsame
                  | _ => exact hvalue

/-- What comes back of a value after saving and loading: the default for what counts as it,
and else the value itself. -/
structure Returns (property : Property) (stored loaded : Option Datum) : Prop where
  reset : property.view stored = property.view none → loaded = property.default?
  kept : property.view stored ≠ property.view none → loaded = stored

/-- A value that counts as the default is held as the default is, unless it is a bound
`null`. -/
theorem held_of_view (hview : property.view stored = property.view none)
    (hnull : property.bindable = true → stored ≠ some (.literal .null)) :
    ((property.held stored).map Datum.value).map Value.shape =
      (property.default?.map Datum.value).map Value.shape := by
  have hdefault : property.view none = (property.default?.map Datum.value).map Value.shape := by
    rw [Option.map_map]
    rfl
  cases stored with
  | none => rfl
  | some datum =>
      rcases property.view_cases datum with rfl | ⟨hbindable, kind, rfl, hseen⟩ | hseen
      · rfl
      · -- Only a literal can count as the default, and here that is the exception.
        rw [hseen, hdefault, default?_of_bindable hbindable] at hview
        obtain ⟨rfl, -⟩ := Shape.binding.inj (Option.some.inj hview)
        exact absurd rfl (hnull hbindable)
      · by_cases hdatum : datum = .null
        · rw [hdatum]
          rfl
        · rw [held_of_ne_null hdatum, ← hdefault, ← hview, hseen]
          rfl

end Property

namespace Catalog

open Registry

theorem attributesMarkup_congr {node other : Node} {left right : Value}
    (h : left.shape = right.shape) : attributesMarkup node left = attributesMarkup other right := by
  have hfields : ∀ fields others : Entries Value,
      Value.shapeFields fields = Value.shapeFields others →
        (fields.map fun field => " " ++ field.1 ++ "=\"" ++ field.2.markup ++ "\"") =
          others.map fun field => " " ++ field.1 ++ "=\"" ++ field.2.markup ++ "\"" := by
    intro fields
    induction fields with
    | nil =>
        intro others hsame
        cases others with
        | nil => rfl
        | cons _ _ => cases hsame
    | cons field rest ih =>
        intro others hsame
        cases others with
        | nil => cases hsame
        | cons first others =>
            obtain ⟨hfirst, hrest⟩ := List.cons.inj hsame
            obtain ⟨hname, hvalue⟩ := Prod.mk.inj hfirst
            rw [List.map_cons, List.map_cons, ih others hrest, hname,
              Value.markup_eq_of_shape_eq hvalue]
  cases left with
  | record fields =>
      cases right with
      | record others =>
          rw [attributesMarkup, attributesMarkup, hfields fields others (Shape.record.inj h)]
      | _ => cases h
  | _ =>
      cases right with
      | record _ => cases h
      | _ => rfl

theorem givenPart_of_empty {node : Node} {name : String}
    (h : node.value? name = none ∨ node.value? name = some .null ∨
      node.value? name = some (.record [])) (part : String) : givenPart node name part = none := by
  rcases h with h | h | h <;> rw [givenPart, h] <;> rfl

/-- A part of the style that counts as the default is empty. -/
theorem givenPart_of_view {node : Node} {property : Property} (hplain : property.bindable = false)
    (hdefault : property.default? = some (.record .empty))
    (h : property.view (Fields.get? property.name node.fields) = property.view none)
    (part : String) : givenPart node property.name part = none := by
  have hheld := Property.held_of_view h (by simp [hplain])
  apply givenPart_of_empty
  cases hstored : Fields.get? property.name node.fields with
  | none => exact Or.inl (congrArg (Option.map Datum.value) hstored)
  | some datum =>
      right
      rw [Node.value?_of_get? hstored]
      by_cases hnull : datum = .null
      · exact Or.inl (congrArg (fun datum => some datum.value) hnull)
      · right
        rw [hstored, Property.held_of_ne_null hnull, hdefault] at hheld
        have hshape : datum.value.shape = .record [] := Option.some.inj hheld
        obtain ⟨value, hordered⟩ := datum
        cases value with
        | record fields =>
            cases fields with
            | nil => rfl
            | cons _ _ => cases hshape
        | _ => cases hshape

theorem givenPart_of_returns {node other : Node} {property : Property}
    (hplain : property.bindable = false) (hdefault : property.default? = some (.record .empty))
    (h : property.Returns (Fields.get? property.name node.fields)
      (Fields.get? property.name other.fields))
    (part : String) : givenPart node property.name part = givenPart other property.name part := by
  by_cases hview : property.view (Fields.get? property.name node.fields) = property.view none
  · have hempty := (h.reset hview).trans hdefault
    rw [givenPart_of_view hplain hdefault hview,
      givenPart_of_empty (Or.inr (Or.inr (Node.value?_of_get? hempty)))]
  · exact givenPart_congr (Node.value?_congr (h.kept hview).symm) part

section Built

variable {settings : RenderSettings} {registry : Registry}
  (hbuild : build standard settings = .ok registry) {component : Component}
  (hmem : component ∈ registry.components) {node other : Node}

include hbuild hmem

/-- Values of one shape are displayed alike in nodes that have one style. -/
theorem display_congr {property : Property} (hproperty : property ∈ component.properties)
    (hstyle : (∃ property ∈ component.properties, property.name = "style") →
      ∀ value, styleMarkup node value = styleMarkup other value)
    {left right : Option Value} (hshape : left.map Value.shape = right.map Value.shape) :
    property.display node left = property.display other right := by
  have hinner : (left.getD .null).shape = (right.getD .null).shape := by
    cases left with
    | none =>
        cases right with
        | none => rfl
        | some _ => cases hshape
    | some value =>
        cases right with
        | none => cases hshape
        | some found => exact Option.some.inj hshape
  cases hhook : property.hook with
  | none =>
      have hmarkup : ∀ value : Option Value,
          (value.map Value.markup).getD "" = (value.getD .null).markup := by
        intro value
        cases value <;> rfl
      simp only [Property.display, hhook, hmarkup]
      exact Value.markup_eq_of_shape_eq hinner
  | some hook =>
      simp only [Property.display, hhook]
      rcases hook_cases (mem_properties_of_build hbuild hmem hproperty) hhook with
        ⟨-, rfl⟩ | ⟨hname, rfl⟩
      · exact attributesMarkup_congr hinner
      · exact hstyle ⟨property, hproperty, hname⟩ _

variable (hreturns : ∀ property ∈ component.visibleProperties,
    property.Returns (Fields.get? property.name node.fields)
      (Fields.get? property.name other.fields))

include hreturns

/-- The style comes back. -/
theorem styleMarkup_of_returns
    (hstyle : ∃ property ∈ component.properties, property.name = "style") (value : Value) :
    styleMarkup node value = styleMarkup other value := by
  have hparts : ∀ name, name = "font" ∨ name = "box" → ∀ part,
      givenPart node name part = givenPart other name part := by
    intro name hname part
    obtain ⟨property, hvisible, rfl, hplain, hdefault⟩ := style_parts hbuild hmem hstyle hname
    exact givenPart_of_returns hplain hdefault (hreturns property hvisible) part
  exact styleMarkup_congr (fun part _ => by rw [hparts "font" (Or.inl rfl)])
    (fun part _ => by rw [hparts "box" (Or.inr rfl)]) value

/-- A property is shown as before, unless a bound `null` stands for a default with markup. -/
theorem exhibit_of_returns {property : Property} (hvisible : property ∈ component.visibleProperties)
    (hnull : property.bindable = true →
      Fields.get? property.name node.fields = some (.literal .null) →
        property.defaultInner.value.isBlank = true) :
    property.exhibit node = property.exhibit other := by
  have hproperty := Component.mem_properties_of_visible hvisible
  have hstyle := styleMarkup_of_returns hbuild hmem hreturns
  rw [Property.exhibit_eq, Property.exhibit_eq]
  by_cases hview : property.view (Fields.get? property.name node.fields) = property.view none
  · rw [(hreturns property hvisible).reset hview, Property.held_default]
    by_cases hhollow : property.bindable = true ∧
        Fields.get? property.name node.fields = some (.literal .null)
    · obtain ⟨hbindable, hstored⟩ := hhollow
      obtain ⟨hhook, -⟩ := plain_of_bindable property
        (mem_properties_of_build hbuild hmem hproperty) hbindable
      have hplain : property.hook = none := Option.isNone_iff_eq_none.mp hhook
      have hblank := Value.markup_of_isBlank (hnull hbindable hstored)
      have hshown : ∀ (node : Node) (inner : Datum),
          property.shownAs node (some (Datum.literal inner).value) =
            .value inner.value.markup := by
        intro node inner
        simp only [Property.shownAs, hbindable, Datum.literal, Datum.binding, Property.display,
          hplain, Option.map_some, Option.getD_some]
      have hheld : property.held (some (.literal .null)) = some (.literal .null) := rfl
      rw [hstored, hheld, Property.default?_of_bindable hbindable, Option.map_some,
        Option.map_some, hshown, hshown, hblank]
      rfl
    · apply Property.shownAs_congr
      · exact Property.held_of_view hview fun hbindable hstored => hhollow ⟨hbindable, hstored⟩
      · exact fun _ _ hshape => display_congr hbuild hmem hproperty hstyle hshape
  · rw [(hreturns property hvisible).kept hview]
    exact Property.shownAs_congr rfl fun _ _ hshape =>
      display_congr hbuild hmem hproperty hstyle hshape

/-- The markup of a node comes back, if that of its children does. -/
theorem render_of_returns {mode : RenderMode} {children others : String}
    (hnull : mode = .run → ∀ property, component.Shows .run property → property.bindable = true →
      Fields.get? property.name node.fields = some (.literal .null) →
        property.defaultInner.value.isBlank = true)
    (hchildren : mode = .run → children = others) :
    component.render mode children node = component.render mode others other := by
  apply Component.render_congr
  · intro property hshows
    obtain ⟨hvisible, -, hcanvas⟩ := nameable_of_shows hbuild hmem hshows
    congr 1
    apply exhibit_of_returns hbuild hmem hreturns hvisible
    intro hbindable hstored
    cases mode with
    | edit => exact hcanvas rfl hbindable
    | run => exact hnull rfl property hshows hbindable hstored
  · exact hchildren

end Built

end Catalog

/-! ### The whole form -/

/-- No bound `null` is stored for what the running form shows and whose default has markup. -/
def Registry.NullsAreBlank (registry : Registry) (node : Node) : Prop :=
  ∀ component, registry.find? node.component = some component →
    ∀ property, component.Shows .run property → property.bindable = true →
      Fields.get? property.name node.fields = some (.literal .null) →
        property.defaultInner.value.isBlank = true

namespace Document

variable {registry : Registry} {tree : Tree}

/-- The values of a node come back in another one. -/
structure Returned (registry : Registry) (node other : Node) : Prop where
  component : other.component = node.component
  values : ∀ component, registry.find? node.component = some component →
    ∀ property ∈ component.visibleProperties,
      property.Returns (Fields.get? property.name node.fields)
        (Fields.get? property.name other.fields)

/-- What was saved of a node, and then loaded, is what comes back. -/
theorem Image.returned {node planted loaded : Node} {saved : Blueprint}
    (hsaved : Image registry node saved) (hname : planted.component = saved.component)
    (hfields : planted.fields = saved.fields) (hsupplied : Editor.Supplied registry planted loaded)
    (hcomplete : ∀ component, registry.find? planted.component = some component →
      component.Complete loaded.fields) : Returned registry node loaded := by
  obtain ⟨component, hfind, hsaves⟩ := hsaved.values
  have hall : planted.component = node.component := hname.trans hsaved.component
  refine ⟨hsupplied.component.trans hall, ?_⟩
  intro other hother property hvisible
  cases hfind.symm.trans hother
  have hproperty := Component.mem_properties_of_visible hvisible
  have hsupply := hsupplied.values component (hall ▸ hfind) property hproperty
  rw [hfields] at hsupply
  constructor
  · intro hview
    rw [hsaves.get?_of_view hvisible hview] at hsupply
    rcases hsupply with hnone | ⟨-, hloaded⟩
    · cases hdefault : property.default? with
      | none => exact hnone
      | some datum =>
          have hhas := hcomplete component (hall ▸ hfind) property hproperty (by rw [hdefault]; rfl)
          rw [Fields.has, hnone] at hhas
          cases hhas
    · exact hloaded
  · intro hview
    rw [hsaves.get?_of_view_ne hvisible hview] at hsupply
    rcases hsupply with hsame | ⟨hmissing | hmissing, -⟩
    · exact hsame
    · exact absurd (congrArg property.view hmissing) hview
    · exact absurd (congrArg property.view hmissing) hview

/-- Loading what was saved brings every node back, at the end of the same path. -/
theorem returned_of_load (htree : tree.WellFormed) {root : NodeId} (hroot : root < tree.size)
    (hknown : ∀ id node, id = root ∨ tree.Ancestor root id → tree.node? id = some node →
      ∃ component, registry.find? node.component = some component)
    {target : Tree} (htarget : target.WellFormed) :
    ∃ document loaded after, Document.export registry tree root = .ok document ∧
      load registry document target = .ok loaded after ∧ after.WellFormed ∧
      loaded < after.size ∧
      ∀ path, Option.Rel (fun id place => (id = root ∨ tree.Ancestor root id) ∧
          ∃ node found, tree.node? id = some node ∧ after.node? place = some found ∧
            Returned registry node found)
        (tree.descend root path) (after.descend loaded path) := by
  obtain ⟨copy, saved, hcopy, hstrip, hsaved, hexport⟩ := export_ok htree hroot hknown
  obtain ⟨after, hinstantiate, hfilled⟩ := Editor.instantiate_ok target hsaved
  have hsupplied := Editor.suppliedAll_instantiate hsaved hinstantiate
  have hplant := htarget.plant saved
  have hsize := target.size_lt_size_plant saved
  refine ⟨ofRoot saved, target.size, after, hexport, ?_, hplant.of_links_eq hfilled.links, ?_, ?_⟩
  · rw [load_of_version rfl]
    exact Program.adaptExcept_ok hinstantiate
  · rwa [Tree.size_eq_of_links hfilled.links]
  · intro path
    rw [Tree.descend_of_links_eq hfilled.links]
    have hsteps := rel_comp (images_of_export htree hroot hcopy hstrip path)
      ((target.holds_plant saved).descend path)
    refine rel_imp hsteps fun id place hid hplace hstep => ?_
    obtain ⟨other, ⟨node, hnode, himage⟩, hholds⟩ := hstep
    have hline := htree.eq_or_ancestor_of_descend hid
    obtain ⟨parent, hplanted⟩ := hholds.node
    obtain ⟨found, hfound, hsupply⟩ := hsupplied place _ hplanted
    obtain ⟨filled, hfill, -, hcomplete, -⟩ := hfilled.node place _ hplanted
    cases hfound.symm.trans hfill
    have hbelow : place ∈ (target.plant saved).2.descendants target.size :=
      (hplant.mem_descendants_iff hsize).mpr ⟨path, hplace⟩
    exact ⟨hline, node, found, hnode, hfound,
      himage.returned rfl rfl hsupply (hcomplete hbelow)⟩

section Built

variable {settings : RenderSettings}
  (hbuild : Registry.build Catalog.standard settings = .ok registry)

include hbuild

/-- Nodes that come back on all paths have the same markup in the running form. -/
theorem renderBelow_of_returned {other : Tree} {bound : Nat} {id place : NodeId}
    (h : ∀ path, Option.Rel (fun id place => ∃ node found, tree.node? id = some node ∧
        other.node? place = some found ∧ Returned registry node found ∧
        registry.NullsAreBlank node)
      (tree.descend id path) (other.descend place path)) :
    registry.renderBelow tree bound .run id = registry.renderBelow other bound .run place := by
  induction bound generalizing id place with
  | zero => rfl
  | succ bound ih =>
      obtain ⟨node, found, hnode, hfound, hreturned, hnull⟩ := Option.rel_some_some.mp (h [])
      cases hfind : registry.find? node.component with
      | none =>
          rw [Registry.renderBelow_eq_empty_of_unknown hnode hfind,
            Registry.renderBelow_eq_empty_of_unknown hfound (hreturned.component.symm ▸ hfind)]
      | some component =>
          have hchildren : node.childList.map (registry.renderBelow tree bound .run) =
              found.childList.map (registry.renderBelow other bound .run) := by
            have hbelow := Tree.forall₂_children_of_descend h
            rw [Tree.children_of_node? hnode, Tree.children_of_node? hfound] at hbelow
            rw [← List.forall₂_eq_eq_eq, List.forall₂_map_left_iff, List.forall₂_map_right_iff]
            exact hbelow.imp fun _ _ hpaths => ih hpaths
          rw [Registry.renderBelow_succ hnode hfind,
            Registry.renderBelow_succ hfound (hreturned.component.symm ▸ hfind), hchildren]
          exact Catalog.render_of_returns hbuild (List.mem_of_find?_eq_some hfind)
            (hreturned.values component hfind) (fun _ => hnull component hfind) (fun _ => rfl)

/-- Saving a form and loading it changes nothing of how it looks on the canvas.  In the
running form nothing changes if no bound `null` is stored where it shows a default that has
markup. -/
theorem render_load_export (htree : tree.WellFormed) {root : NodeId} (hroot : root < tree.size)
    (hknown : ∀ id node, id = root ∨ tree.Ancestor root id → tree.node? id = some node →
      ∃ component, registry.find? node.component = some component)
    {target : Tree} (htarget : target.WellFormed) :
    ∃ document loaded after, Document.export registry tree root = .ok document ∧
      load registry document target = .ok loaded after ∧
      registry.render after .edit loaded = registry.render tree .edit root ∧
      ((∀ id node, id = root ∨ tree.Ancestor root id → tree.node? id = some node →
          registry.NullsAreBlank node) →
        registry.render after .run loaded = registry.render tree .run root) := by
  obtain ⟨document, loaded, after, hexport, hload, hafter, hloaded, hpaths⟩ :=
    returned_of_load htree hroot hknown htarget
  refine ⟨document, loaded, after, hexport, hload, ?_, ?_⟩
  · obtain ⟨-, node, found, hnode, hfound, hreturned⟩ := Option.rel_some_some.mp (hpaths [])
    obtain ⟨component, hfind⟩ := hknown root node (Or.inl rfl) hnode
    obtain ⟨children, hchildren⟩ := Registry.exists_children_render .edit hnode hfind
    obtain ⟨others, hothers⟩ :=
      Registry.exists_children_render .edit hfound (hreturned.component.symm ▸ hfind)
    rw [hchildren, hothers]
    symm
    apply Catalog.render_of_returns hbuild (List.mem_of_find?_eq_some hfind)
      (hreturned.values component hfind)
    · intro hmode
      cases hmode
    · intro hmode
      cases hmode
  · intro hnull
    have hmost : tree.size ≤ max tree.size after.size := Nat.le_max_left _ _
    have hmost' : after.size ≤ max tree.size after.size := Nat.le_max_right _ _
    rw [← Registry.renderBelow_eq_render htree hmost hroot,
      ← Registry.renderBelow_eq_render hafter hmost' hloaded]
    symm
    apply renderBelow_of_returned hbuild
    intro path
    apply rel_imp (hpaths path)
    rintro id place - - ⟨hline, node, found, hnode, hfound, hreturned⟩
    exact ⟨node, found, hnode, hfound, hreturned, hnull id node hline hnode⟩

end Built

/-- A heading in an element that stores the default of its class. -/
def greeting : Tree :=
  (Tree.empty.plant ⟨"div", .single "class" (.string ""),
    some [⟨"h1", .single "value" (.literal (.string "Hello")), none⟩]⟩).2

theorem content_greeting {id : NodeId} {node : Node} (h : greeting.node? id = some node) :
    node.content = ("div", .single "class" (.string "")) ∨
      node.content = ("h1", .single "value" (.literal (.string "Hello"))) := by
  match id with
  | 0 =>
      cases h
      exact Or.inl rfl
  | 1 =>
      cases h
      exact Or.inr rfl
  | id + 2 => cases h

/-- A form without a bound `null` looks the same after loading, also in the running form. -/
theorem render_load_export_of_greeting :
    ∃ registry, Registry.build Catalog.standard {} = .ok registry ∧ greeting.WellFormed ∧
      0 < greeting.size ∧
      (∀ id node, id = 0 ∨ greeting.Ancestor 0 id → greeting.node? id = some node →
        (∃ component, registry.find? node.component = some component) ∧
        registry.NullsAreBlank node) ∧
      ∃ document loaded after, Document.export registry greeting 0 = .ok document ∧
        load registry document greeting = .ok loaded after ∧
        registry.render after .run loaded = registry.render greeting .run 0 := by
  obtain ⟨registry, hbuild⟩ : ∃ registry, Registry.build Catalog.standard {} = .ok registry :=
    Catalog.exists_build_standard rfl
  have htree : greeting.WellFormed := Tree.empty_wellFormed.plant _
  have hroot : 0 < greeting.size := by decide
  have hfound : ∀ id ∈ ["div", "h1"], ∃ component, registry.find? id = some component := by
    intro id hid
    have hlisted : ∀ id ∈ ["div", "h1"], id ∈ Catalog.standard.map ComponentDeclaration.id := by
      decide +kernel
    exact (Catalog.exists_find?_of_build hbuild (hlisted id hid)).imp fun _ hfind => hfind.1
  have hnodes : ∀ id node, id = 0 ∨ greeting.Ancestor 0 id → greeting.node? id = some node →
      (∃ component, registry.find? node.component = some component) ∧
      registry.NullsAreBlank node := by
    rintro id ⟨component, fields, children, parent⟩ - hnode
    rcases content_greeting hnode with hcontent | hcontent <;> cases hcontent
    · refine ⟨hfound "div" (by simp), ?_⟩
      intro _ _ property _ _ hstored
      have hmem := List.mem_singleton.mp (Fields.get?_eq_some_iff.mp hstored)
      cases congrArg Prod.snd hmem
    · refine ⟨hfound "h1" (by simp), ?_⟩
      intro _ _ property _ _ hstored
      have hmem := List.mem_singleton.mp (Fields.get?_eq_some_iff.mp hstored)
      cases congrArg Prod.snd hmem
  obtain ⟨document, loaded, after, hexport, hload, -, hrun⟩ := render_load_export hbuild htree hroot
    (fun id node hline hnode => (hnodes id node hline hnode).1) htree
  exact ⟨registry, hbuild, htree, hroot, hnodes, document, loaded, after, hexport, hload,
    hrun fun id node hline hnode => (hnodes id node hline hnode).2⟩

/-- An input whose switch `required` holds a bound `null`. -/
def hollowInput : Tree :=
  (Tree.empty.plant ⟨"input", .single "required" (.literal .null), none⟩).2

section Input

variable {registry : Registry} (hbuild : Registry.build Catalog.standard {} = .ok registry)
  {component : Component} (hmem : component ∈ registry.components) (hid : component.id = "input")

include hbuild hmem hid

/-- The markup of an input shows whether nothing or a bound `null` is stored for its switch. -/
theorem render_input_ne :
    component.render .run "" ⟨"input", .empty, none, none⟩ ≠
      component.render .run "" ⟨"input", .single "required" (.literal .null), none, none⟩ := by
  rw [Catalog.render_of_build hbuild hmem, Catalog.render_of_build hbuild hmem, hid]
  decide +kernel

/-- A bound `null` counts as the default of the switch. -/
theorem view_hollow {property : Property} (hproperty : property ∈ component.properties) :
    property.view (Fields.get? property.name (.single "required" (.literal .null))) =
      property.view none := by
  have hswitch : ∀ property ∈ (Catalog.resolved.properties "input").properties,
      property.name = "required" → property.bindable = true := by
    decide +kernel
  rw [Catalog.properties_of_build hbuild hmem, hid] at hproperty
  by_cases hname : property.name = "required"
  · have hbindable := hswitch property hproperty hname
    rw [hname, Fields.get?_single, Property.view, Datum.literal,
      Property.completed_binding_null hbindable, Property.view, Property.completed,
      Property.default?_of_bindable hbindable]
    rfl
  · have hmissing :
        Fields.get? property.name (.single "required" (Datum.literal .null)) = none :=
      if_neg (Ne.symm hname)
    rw [hmissing]

end Input

/-- Saving and loading changes the running form of an input whose switch holds a bound `null`:
the switch is left empty at first, and then has its default. -/
theorem not_render_load_export :
    ∃ registry, Registry.build Catalog.standard {} = .ok registry ∧ hollowInput.WellFormed ∧
      0 < hollowInput.size ∧
      (∀ id node, hollowInput.node? id = some node → registry.Accepts node) ∧
      ∃ document loaded after, Document.export registry hollowInput 0 = .ok document ∧
        load registry document hollowInput = .ok loaded after ∧
        registry.render after .run loaded ≠ registry.render hollowInput .run 0 := by
  obtain ⟨registry, hbuild⟩ : ∃ registry, Registry.build Catalog.standard {} = .ok registry :=
    Catalog.exists_build_standard rfl
  have htree : hollowInput.WellFormed := Tree.empty_wellFormed.plant _
  have hroot : 0 < hollowInput.size := by decide
  have hlisted : "input" ∈ Catalog.standard.map ComponentDeclaration.id := by decide +kernel
  obtain ⟨component, hfind, hmem, hid⟩ := Catalog.exists_find?_of_build hbuild hlisted
  have haccepted : ∃ property ∈ (Catalog.resolved.properties "input").properties,
      property.name = "required" ∧ property.accepts (Datum.literal .null).value = true := by
    decide +kernel
  have hnodes : ∀ id node, hollowInput.node? id = some node → registry.Accepts node := by
    intro id node hnode
    cases Tree.node?_plant_empty hnode
    exact Catalog.accepts_of_build hbuild hlisted haccepted
  obtain ⟨document, loaded, after, hexport, hload, -, -, hpaths⟩ :=
    returned_of_load htree hroot
      (fun id node _ hnode => (hnodes id node hnode).imp fun _ haccepts => haccepts.1) htree
  refine ⟨registry, hbuild, htree, hroot, hnodes, document, loaded, after, hexport, hload, ?_⟩
  obtain ⟨-, node, found, hnode, hfound, hreturned⟩ := Option.rel_some_some.mp (hpaths [])
  cases Tree.node?_plant_empty hnode
  have hleaf : after.children loaded = [] := by
    have hbelow := (Tree.forall₂_children_of_descend hpaths).length_eq
    exact List.length_eq_zero_iff.mp hbelow.symm
  have hknown : registry.find? found.component = some component :=
    hreturned.component.symm ▸ hfind
  rw [Registry.render_of_leaf .run hfound hknown hleaf,
    Registry.render_of_leaf .run hnode hfind rfl]
  -- What is loaded is what would be loaded of an input that stores nothing.
  have hreset : ∀ property ∈ component.visibleProperties,
      property.Returns (Fields.get? property.name (Node.fields ⟨"input", .empty, none, none⟩))
        (Fields.get? property.name found.fields) := by
    intro property hvisible
    have hview := view_hollow hbuild hmem hid (Component.mem_properties_of_visible hvisible)
    constructor
    · exact fun _ => (hreturned.values component hfind property hvisible).reset hview
    · exact fun hdiffers => absurd rfl hdiffers
  have hsame : component.render .run "" ⟨"input", .empty, none, none⟩ =
      component.render .run "" found := by
    apply Catalog.render_of_returns hbuild hmem hreset
    · intro _ property _ _ hstored
      cases hstored
    · exact fun _ => rfl
  rw [← hsame]
  exact render_input_ne hbuild hmem hid

end Document

end FormDesigner
