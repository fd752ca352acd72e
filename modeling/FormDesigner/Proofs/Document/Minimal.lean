import FormDesigner.Proofs.Document.RoundTrip

/-!
What is saved of a form, and that saving it again saves the same.

Saved are the declared values that do not count as defaults.  A form that was loaded has
these values and defaults, so that the same values are saved of it.
-/

namespace FormDesigner

open Program

namespace Property

variable {property : Property}

/-- What does not count as the default is not `null`. -/
theorem ne_null_of_not_agrees {datum : Datum}
    (h : property.agrees (some datum) property.default? = false) : datum ≠ .null := by
  rintro rfl
  have hnull : property.agrees (some .null) property.default? = true :=
    (property.agrees_default_iff .null).mpr (view_null property)
  rw [hnull] at h
  cases h

end Property

namespace Component

variable {component : Component}

theorem get?_stripDefault_iff {property : Property} {fields : Fields Datum} {name : String}
    {datum : Datum} :
    Fields.get? name (stripDefault fields property) = some datum ↔
      Fields.get? name fields = some datum ∧
        (property.name = name → property.agrees (some datum) property.default? = false) := by
  by_cases hname : name = property.name
  · subst hname
    rw [stripDefault]
    split
    · next hnone => simp [hnone]
    · next stored hstored =>
        split
        · next hagrees =>
            rw [Fields.get?_drop_self, hstored]
            constructor
            · intro hdropped
              cases hdropped
            · rintro ⟨heq, hkept⟩
              cases heq
              rw [hkept rfl] at hagrees
              cases hagrees
        · next hdiffers =>
            constructor
            · intro hdatum
              cases hstored.symm.trans hdatum
              exact ⟨hdatum, fun _ => Bool.eq_false_of_not_eq_true hdiffers⟩
            · exact And.left
  · rw [get?_stripDefault_of_ne hname]
    constructor
    · exact fun hdatum => ⟨hdatum, fun heq => absurd heq.symm hname⟩
    · exact And.left

/-- Left are the values that no property of their name counts as its default. -/
theorem get?_foldl_stripDefault_iff (properties : List Property) {fields : Fields Datum}
    {name : String} {datum : Datum} :
    Fields.get? name (properties.foldl stripDefault fields) = some datum ↔
      Fields.get? name fields = some datum ∧ ∀ property ∈ properties, property.name = name →
        property.agrees (some datum) property.default? = false := by
  induction properties generalizing fields with
  | nil => simp
  | cons property rest ih =>
      rw [List.foldl_cons, ih, get?_stripDefault_iff, List.forall_mem_cons, and_assoc]

/-- The saved values are the declared ones that do not count as defaults. -/
def Saves (component : Component) (stored saved : Fields Datum) : Prop :=
  ∀ name datum, Fields.get? name saved = some datum ↔
    Fields.get? name stored = some datum ∧ ∃ property ∈ component.visibleProperties,
      property.name = name ∧ property.agrees (some datum) property.default? = false

/-- What is copied and stripped is what is to be saved. -/
theorem saves_strip (component : Component) (stored : Fields Datum) :
    component.Saves stored (component.deleteDefaults
      (component.visibleProperties.foldl (Editor.copyProperty stored) .empty)) := by
  intro name datum
  rw [deleteDefaults, get?_foldl_stripDefault_iff component.properties, Editor.get?_copy]
  constructor
  · rintro ⟨hdatum, hkept⟩
    split at hdatum
    · next hmem =>
        obtain ⟨property, hvisible, hname⟩ := List.mem_map.1 hmem
        exact ⟨hdatum, property, hvisible, hname,
          hkept property (mem_properties_of_visible hvisible) hname⟩
    · cases hdatum
  · rintro ⟨hdatum, property, hvisible, hname, hdiffers⟩
    have hmem : name ∈ component.visibleProperties.map Property.name :=
      List.mem_map.2 ⟨property, hvisible, hname⟩
    rw [if_pos hmem]
    refine ⟨hdatum, fun other hother hsame => ?_⟩
    have heq : other = property := eq_of_name_eq hother
      (mem_properties_of_visible hvisible) (hsame.trans hname.symm)
    rw [heq]
    exact hdiffers

namespace Saves

variable {stored saved loaded again : Fields Datum} {property : Property}

/-- Of an element that has the saved values and otherwise looks alike, the same is saved. -/
theorem eq_of_view (h : component.Saves stored saved) (hagain : component.Saves loaded again)
    (hview : component.view loaded = component.view saved)
    (hkept : ∀ name datum, Fields.get? name saved = some datum → datum ≠ .null →
      Fields.get? name loaded = some datum) : again = saved := by
  have hkeeps : ∀ name datum, Fields.get? name saved = some datum →
      Fields.get? name loaded = some datum := by
    intro name datum hdatum
    obtain ⟨_, property, _, _, hdiffers⟩ := (h name datum).1 hdatum
    exact hkept name datum hdatum (Property.ne_null_of_not_agrees hdiffers)
  apply Fields.ext_get?
  intro name
  apply Option.ext
  intro datum
  constructor
  · intro hdatum
    obtain ⟨hfound, property, hvisible, rfl, hdiffers⟩ := (hagain name datum).1 hdatum
    cases hsaved : Fields.get? property.name saved with
    | some other =>
        rw [hkeeps property.name other hsaved] at hfound
        exact hfound
    | none =>
        -- Where nothing is saved, a default is loaded, and that is not saved again.
        have hseen := view_eq_iff.1 hview property hvisible
        rw [hfound, hsaved] at hseen
        rw [(property.agrees_default_iff datum).mpr hseen] at hdiffers
        cases hdiffers
  · intro hdatum
    obtain ⟨_, hdeclared⟩ := (h name datum).1 hdatum
    exact (hagain name datum).2 ⟨hkeeps name datum hdatum, hdeclared⟩

/-- All is saved if nothing that is stored counts as a default. -/
theorem eq_stored (h : component.Saves stored saved)
    (hkept : ∀ field ∈ stored.entries, ∃ property ∈ component.visibleProperties,
      property.name = field.1 ∧ property.agrees (some field.2) property.default? = false) :
    saved = stored := by
  apply Fields.ext_get?
  intro name
  cases hstored : Fields.get? name stored with
  | none =>
      cases hsaved : Fields.get? name saved with
      | none => rfl
      | some datum =>
          rw [((h name datum).mp hsaved).1] at hstored
          cases hstored
  | some datum =>
      exact (h name datum).mpr ⟨hstored, hkept _ (Fields.get?_eq_some_iff.mp hstored)⟩

section Shown

variable (h : component.Saves stored saved) (hvisible : property ∈ component.visibleProperties)

include h hvisible

/-- Saved for a property is what does not count as its default. -/
theorem get?_property_iff {datum : Datum} :
    Fields.get? property.name saved = some datum ↔
      Fields.get? property.name stored = some datum ∧
        property.view (some datum) ≠ property.view none := by
  rw [h property.name datum]
  refine and_congr_right fun _ => ?_
  have hagrees := property.agrees_default_iff datum
  constructor
  · rintro ⟨found, hfound, hname, hdiffers⟩
    cases eq_of_name_eq (mem_properties_of_visible hfound)
      (mem_properties_of_visible hvisible) hname
    intro hview
    rw [hagrees.mpr hview] at hdiffers
    cases hdiffers
  · intro hview
    exact ⟨property, hvisible, rfl, Bool.eq_false_of_not_eq_true (hagrees.not.mpr hview)⟩

/-- What counts as the default is not saved. -/
theorem get?_of_view
    (hview : property.view (Fields.get? property.name stored) = property.view none) :
    Fields.get? property.name saved = none := by
  apply Option.eq_none_iff_forall_ne_some.mpr
  intro datum hsaved
  obtain ⟨hstored, hdiffers⟩ := (h.get?_property_iff hvisible).mp hsaved
  exact hdiffers (hstored ▸ hview)

/-- What does not count as the default is saved. -/
theorem get?_of_view_ne
    (hview : property.view (Fields.get? property.name stored) ≠ property.view none) :
    Fields.get? property.name saved = Fields.get? property.name stored := by
  cases hstored : Fields.get? property.name stored with
  | none => exact absurd (congrArg property.view hstored) hview
  | some datum => exact (h.get?_property_iff hvisible).mpr ⟨hstored, hstored ▸ hview⟩

/-- What is saved for a property is seen as what is stored for it. -/
theorem view_get? : property.view (Fields.get? property.name saved) =
    property.view (Fields.get? property.name stored) := by
  by_cases hview : property.view (Fields.get? property.name stored) = property.view none
  · rw [h.get?_of_view hvisible hview, hview]
  · rw [h.get?_of_view_ne hvisible hview]

end Shown

end Saves

end Component

namespace Blueprint

/-- Two elements look alike but for what is below them, and neither has an empty child
list. -/
structure Matches (left right : Blueprint) : Prop where
  component : left.component = right.component
  fields : left.fields = right.fields
  left_children : left.children ≠ some []
  right_children : right.children ≠ some []

mutual

/-- Blueprints that match everywhere are the same. -/
theorem eq_of_matches : ∀ left right : Blueprint,
    (∀ path, Option.Rel Matches (left.descend path) (right.descend path)) → left = right
  | ⟨_, _, none⟩, ⟨_, _, none⟩, h => by
      cases h [] with
      | some hroot =>
          cases hroot.component
          cases hroot.fields
          rfl
  | ⟨_, _, none⟩, ⟨_, _, some []⟩, h => by
      cases h [] with
      | some hroot => exact absurd rfl hroot.right_children
  | ⟨_, _, none⟩, ⟨_, _, some (_ :: _)⟩, h => by
      cases h [0]
  | ⟨_, _, some []⟩, _, h => by
      cases h [] with
      | some hroot => exact absurd rfl hroot.left_children
  | ⟨_, _, some (_ :: _)⟩, ⟨_, _, none⟩, h => by
      cases h [0]
  | ⟨_, _, some list⟩, ⟨_, _, some others⟩, h => by
      have hchildren : list = others := eq_of_all_match list others fun index path =>
        h (index :: path)
      cases h [] with
      | some hroot =>
          cases hroot.component
          cases hroot.fields
          rw [hchildren]

theorem eq_of_all_match : ∀ left right : List Blueprint,
    (∀ (index : Nat) (path : List Nat), Option.Rel Matches
      (left[index]?.bind fun child => child.descend path)
      (right[index]?.bind fun child => child.descend path)) → left = right
  | [], [], _ => rfl
  | [], other :: others, h => by
      cases h 0 []
  | child :: rest, [], h => by
      cases h 0 []
  | child :: rest, other :: others, h => by
      have hfirst : child = other := eq_of_matches child other fun path => h 0 path
      have hrest : rest = others := eq_of_all_match rest others fun index path =>
        h (index + 1) path
      rw [hfirst, hrest]

end

end Blueprint

namespace Editor

variable {registry : Registry} {tree : Tree}

/-- Stripping leaves no empty child list. -/
theorem children_of_strip_ok {blueprint stripped : Blueprint}
    (h : strip registry blueprint = (stripped, none)) : stripped.children ≠ some [] := by
  obtain ⟨id, fields, children⟩ := blueprint
  rw [strip] at h
  split at h
  · cases h
  · rcases children with _ | _ | ⟨first, rest⟩
    · cases h
      intro hempty
      cases hempty
    · cases h
      intro hempty
      cases hempty
    · rcases hall : stripAll registry (first :: rest) with ⟨others, failure⟩
      dsimp only at h
      rw [hall] at h
      cases h
      intro hempty
      cases hempty
      have hlength := (of_stripAll_ok hall).length_eq
      cases hlength

end Editor

namespace Document

variable {registry : Registry} {tree : Tree}

/-- What is saved of a node. -/
structure Image (registry : Registry) (node : Node) (saved : Blueprint) : Prop where
  component : saved.component = node.component
  values : ∃ component, registry.find? node.component = some component ∧
    component.Saves node.fields saved.fields
  children : saved.children ≠ some []

/-- Every element of a saved form is the image of a node. -/
theorem image_of_strip {bound : Nat} {id : NodeId} {copy saved : Blueprint}
    (hcopy : Editor.copyBelow registry tree bound id = .ok copy)
    (hstrip : Editor.strip registry copy = (saved, none)) {node : Node}
    (hnode : tree.node? id = some node) : Image registry node saved := by
  cases bound with
  | zero => cases hcopy
  | succ bound =>
      obtain ⟨found, component, hfound, hfind, hname, hvalues, _⟩ := Editor.of_copyBelow_ok hcopy
      cases hfound.symm.trans hnode
      obtain ⟨other, hother, hname', hvalues', _⟩ := Editor.of_strip_ok hstrip
      rw [hname, hfind] at hother
      cases hother
      constructor
      · exact hname'.trans hname
      · refine ⟨component, hfind, ?_⟩
        rw [hvalues', hvalues]
        exact component.saves_strip node.fields
      · exact Editor.children_of_strip_ok hstrip

/-- Everywhere below a node, what is saved is the image of what is there. -/
theorem images_of_export (htree : tree.WellFormed) {root : NodeId} (hroot : root < tree.size)
    {bound : Nat} {copy saved : Blueprint}
    (hcopy : Editor.copyBelow registry tree bound root = .ok copy)
    (hstrip : Editor.strip registry copy = (saved, none)) (path : List Nat) :
    Option.Rel (fun id saved => ∃ node, tree.node? id = some node ∧ Image registry node saved)
      (tree.descend root path) (saved.descend path) := by
  have hsteps := rel_comp (Editor.descend_copyBelow hcopy path) (Editor.descend_strip hstrip path)
  apply rel_imp hsteps
  rintro id found hid _ ⟨copied, ⟨below, hcopied⟩, hfound⟩
  obtain ⟨node, hnode⟩ := Tree.exists_node?_of_lt (htree.lt_size_of_descend hroot hid)
  exact ⟨node, hnode, image_of_strip hcopied hfound hnode⟩

/-- A node that was loaded: it has what was saved, and defaults. -/
structure Restored (registry : Registry) (saved : Blueprint) (node : Node) : Prop where
  component : node.component = saved.component
  seen : registry.view saved.component node.fields = registry.view saved.component saved.fields
  kept : ∀ name datum, Fields.get? name saved.fields = some datum → datum ≠ .null →
    Fields.get? name node.fields = some datum

/-- Loading restores every saved element. -/
theorem load_ok {target : Tree} (htarget : target.WellFormed) {saved : Blueprint}
    (hknown : Editor.checkKnown registry saved = .ok ()) :
    ∃ after, load registry (ofRoot saved) target = .ok target.size after ∧ after.WellFormed ∧
      target.size < after.size ∧
      ∀ path, Option.Rel (fun found place => ∃ node, after.node? place = some node ∧
        Restored registry found node) (saved.descend path) (after.descend target.size path) := by
  obtain ⟨after, hinstantiate, hfilled⟩ := Editor.instantiate_ok target hknown
  refine ⟨after, ?_, (htarget.plant saved).of_links_eq hfilled.links, ?_, ?_⟩
  · rw [load_of_version rfl]
    exact adaptExcept_ok hinstantiate
  · rw [Tree.size_eq_of_links hfilled.links]
    exact target.size_lt_size_plant saved
  · intro path
    rw [Tree.descend_of_links_eq hfilled.links]
    apply rel_imp ((target.holds_plant saved).descend path)
    intro found place _ _ hholds
    obtain ⟨parent, hnode⟩ := hholds.node
    obtain ⟨node, hfound, hfill, _⟩ := hfilled.node place _ hnode
    exact ⟨node, hfound, hfill.component, hfill.seen, hfill.kept⟩

/-- Of a node that was loaded the same is saved again. -/
theorem Image.matches {stored node : Node} {saved again : Blueprint}
    (hsaved : Image registry stored saved) (hrestored : Restored registry saved node)
    (hagain : Image registry node again) : saved.Matches again := by
  obtain ⟨component, hfind, hsaves⟩ := hsaved.values
  obtain ⟨other, hother, hsaves'⟩ := hagain.values
  have hname : node.component = stored.component := hrestored.component.trans hsaved.component
  rw [hname, hfind] at hother
  cases hother
  have hview := hrestored.seen
  rw [hsaved.component, Registry.view_of_find? hfind, Registry.view_of_find? hfind] at hview
  constructor
  · exact (hagain.component.trans hrestored.component).symm
  · exact (hsaves.eq_of_view hsaves' (Option.some.inj hview) hrestored.kept).symm
  · exact hsaved.children
  · exact hagain.children

/-- If all elements of a saved form are restored below a node, then the same form is saved of
that node. -/
theorem export_of_restored (htree : tree.WellFormed) {root : NodeId} (hroot : root < tree.size)
    {saved : Blueprint}
    (hplaces : ∀ path, Option.Rel (fun found place => ∃ stored node, Image registry stored found ∧
      tree.node? place = some node ∧ Restored registry found node)
        (saved.descend path) (tree.descend root path)) :
    Document.export registry tree root = .ok (ofRoot saved) := by
  have hrestored : ∀ id node, id = root ∨ tree.Ancestor root id → tree.node? id = some node →
      ∃ stored found, Image registry stored found ∧ Restored registry found node := by
    intro id node hline hnode
    obtain ⟨path, hpath⟩ := htree.exists_descend hline
    obtain ⟨found, _, stored, live, himage, hlive, hback⟩ :=
      exists_left_of_rel (hplaces path) hpath
    cases hlive.symm.trans hnode
    exact ⟨stored, found, himage, hback⟩
  have hknown : ∀ id node, id = root ∨ tree.Ancestor root id → tree.node? id = some node →
      ∃ component, registry.find? node.component = some component := by
    intro id node hline hnode
    obtain ⟨stored, found, himage, hback⟩ := hrestored id node hline hnode
    obtain ⟨component, hfind, _⟩ := himage.values
    rw [hback.component, himage.component]
    exact ⟨component, hfind⟩
  obtain ⟨copy, again, hcopy, hstrip, _, hexport⟩ := export_ok htree hroot hknown
  have himages := images_of_export htree hroot hcopy hstrip
  have hsame : saved = again := by
    apply Blueprint.eq_of_matches
    intro path
    apply rel_imp (rel_comp (hplaces path) (himages path))
    rintro found other _ _ ⟨place, ⟨stored, node, himage, hnode, hback⟩, live, hlive, himage'⟩
    cases hlive.symm.trans hnode
    exact himage.matches hback himage'
  rw [hsame]
  exact hexport

/-- Saved are exactly the declared values that do not count as defaults, and no empty child
lists.  Of a form that was loaded, wherever that was, the same document is saved. -/
theorem export_minimal (htree : tree.WellFormed) {root : NodeId} (hroot : root < tree.size)
    (hknown : ∀ id node, id = root ∨ tree.Ancestor root id → tree.node? id = some node →
      ∃ component, registry.find? node.component = some component) :
    ∃ document, Document.export registry tree root = .ok document ∧
      (∀ path, Option.Rel (fun id saved => ∃ node, tree.node? id = some node ∧
        Image registry node saved) (tree.descend root path) (document.root.descend path)) ∧
      ∀ target : Tree, target.WellFormed →
        ∃ loaded after, load registry document target = .ok loaded after ∧
          Document.export registry after loaded = .ok document := by
  obtain ⟨copy, saved, hcopy, hstrip, hsaved, hexport⟩ := export_ok htree hroot hknown
  have himages := images_of_export htree hroot hcopy hstrip
  refine ⟨ofRoot saved, hexport, himages, ?_⟩
  intro target htarget
  obtain ⟨after, hload, hafter, hnew, hrestored⟩ := load_ok htarget hsaved
  refine ⟨target.size, after, hload, export_of_restored hafter hnew ?_⟩
  intro path
  apply rel_imp (hrestored path)
  rintro found place hfound _ ⟨node, hnode, hback⟩
  obtain ⟨_, _, stored, _, himage⟩ := exists_left_of_rel (himages path) hfound
  exact ⟨stored, node, himage, hnode, hback⟩

/-- Two texts, the second of which has the default as its label and an empty child list. -/
def texts : Tree := (Tree.empty.plant
  ⟨"text", .single "label" (.string "x"), some [⟨"text", .single "label" (.string ""), some []⟩]⟩).2

/-- What is saved of the two texts. -/
def savedTexts : Document := ofRoot
  ⟨"text", .single "label" (.string "x"), some [⟨"text", .empty, none⟩]⟩

theorem texts_declared : texts.Declared Registry.labels := by
  intro id node hnode
  match id with
  | 0 =>
      cases hnode
      exact ⟨_, rfl⟩
  | 1 =>
      cases hnode
      exact ⟨_, rfl⟩
  | id + 2 => cases hnode

/-- The two texts are saved, loaded and saved again. -/
theorem export_minimal_of_texts :
    Registry.build [{ id := "text", own := [⟨0, { name := "label", type := .string }⟩] }] {} =
      .ok Registry.labels ∧ texts.WellFormed ∧ 0 < texts.size ∧
    texts.Declared Registry.labels ∧
    Document.export Registry.labels texts 0 = .ok savedTexts ∧
    ∃ loaded after, load Registry.labels savedTexts texts = .ok loaded after ∧
      Document.export Registry.labels after loaded = .ok savedTexts := by
  have hbuild : Registry.build
      [{ id := "text", own := [⟨0, { name := "label", type := .string }⟩] }] {} =
        .ok Registry.labels := rfl
  have htree : texts.WellFormed := Tree.empty_wellFormed.plant _
  have hroot : 0 < texts.size := by decide
  have hsaved : Document.export Registry.labels texts 0 = .ok savedTexts := rfl
  obtain ⟨document, hexport, _, hstable⟩ :=
    export_minimal htree hroot fun id node _ hnode => texts_declared id node hnode
  cases hsaved.symm.trans hexport
  exact ⟨hbuild, htree, hroot, texts_declared, hsaved, hstable texts htree⟩

end Document

end FormDesigner
