import FormDesigner.Proofs.Document.Minimal
import FormDesigner.Proofs.Editor.Completion
import FormDesigner.Proofs.Tree.Walking

/-!
What loading a document does to a tree.

A document is loaded as a whole or not at all.  The check before it looks at the same elements
as the walk that stores the defaults: every element of the document is looked up once, planted
once and filled once.
-/

namespace FormDesigner

open Program

namespace Editor

variable {registry : Registry}

/-- Nothing is added if a component is unknown. -/
theorem instantiate_unknown {blueprint : Blueprint} {failure : RegistryError}
    (h : checkKnown registry blueprint = .error failure) (tree : Tree) :
    instantiate registry blueprint tree = .error (.registry failure) tree := by
  rw [instantiate, h]
  rfl

end Editor

namespace Document

variable {registry : Registry} {tree : Tree}

/-- A node made of an element of a document. -/
structure Made (registry : Registry) (element : Blueprint) (node : Node) : Prop where
  component : node.component = element.component
  children : node.children.isSome = element.children.isSome
  fields : ∃ component, registry.find? element.component = some component ∧
    component.Completes element.fields node.fields

/-- The tree after a document was loaded behind its nodes. -/
structure Loaded (registry : Registry) (tree : Tree) (saved : Blueprint) (root : NodeId)
    (after : Tree) : Prop where
  place : root = tree.size
  size : after.size = tree.size + saved.count
  kept : ∀ id < tree.size, after.node? id = tree.node? id
  wellFormed : after.WellFormed
  detached : after.parent? root = none
  walk : after.descendants root = List.range' tree.size saved.count
  made : ∀ offset element, saved.elements[offset]? = some element →
    ∃ node, after.node? (tree.size + offset) = some node ∧ Made registry element node
  shape : ∀ path, Option.Rel
    (fun element id => ∃ offset, id = tree.size + offset ∧ saved.elements[offset]? = some element)
    (saved.descend path) (after.descend root path)

theorem loaded_of_defaulted
    (htree : tree.WellFormed) {saved : Blueprint} {after : Tree}
    (hknown : Editor.checkKnown registry saved = .ok ())
    (h : Editor.Defaulted registry (List.range' tree.size saved.count) (tree.plant saved).2 after) :
    Loaded registry tree saved tree.size after where
  place := rfl
  size := by rw [Tree.size_eq_of_links h.links, Tree.size_plant]
  kept id hid := by
    have hold : id ∉ List.range' tree.size saved.count := by
      rw [List.mem_range'_1]
      omega
    rw [h.kept id hold, Tree.plant_eq, Tree.node?_grow_of_lt hid]
  wellFormed := (htree.plant saved).of_links_eq h.links
  detached := by
    rw [Tree.parent?_eq_links, h.links, ← Tree.parent?_eq_links, Tree.parent?_plant_root]
  walk := by rw [Tree.descendants_of_links_eq h.links, Tree.descendants_plant]
  made offset element helement := by
    obtain ⟨node, hnode, hlays⟩ := tree.exists_node?_plant helement
    obtain ⟨component, hfind⟩ :=
      (Editor.checkKnown_iff_elements saved).mp hknown element (List.mem_of_getElem? helement)
    have hnew : tree.size + offset ∈ List.range' tree.size saved.count := by
      obtain ⟨hlt, _⟩ := List.getElem?_eq_some_iff.mp helement
      rw [Blueprint.length_elements] at hlt
      rw [List.mem_range'_1]
      omega
    refine ⟨_, h.filled _ hnew node component hnode (hlays.component ▸ hfind), ?_⟩
    constructor
    · exact hlays.component
    · exact hlays.children
    · exact ⟨component, hfind, hlays.fields ▸ component.completes_addDefaults node.fields⟩
  shape path := by
    rw [Tree.descend_of_links_eq h.links]
    exact Tree.Holds.place_descend 0 (tree.holds_plant saved) List.prefix_rfl path

theorem load_of_known {document : Document} (hversion : document.version = currentVersion)
    (hknown : Editor.checkKnown registry document.root = .ok ()) (tree : Tree) :
    ∃ after, load registry document tree = .ok tree.size after ∧
      Editor.Defaulted registry (List.range' tree.size document.root.count)
        (tree.plant document.root).2 after := by
  obtain ⟨after, hinstantiate, hdefaulted⟩ := Editor.instantiate_once tree hknown
  refine ⟨after, ?_, hdefaulted⟩
  rw [load_of_version hversion]
  exact adaptExcept_ok hinstantiate

/-- A document of another format is refused. -/
theorem load_of_version_ne {document : Document} (h : document.version ≠ currentVersion)
    (tree : Tree) : load registry document tree =
      .error (.unsupportedVersion document.version currentVersion) tree := by
  rw [load, if_pos h]
  rfl

/-- A document with an unknown component is refused, before anything is planted. -/
theorem load_of_unknown {document : Document} (hversion : document.version = currentVersion)
    {failure : RegistryError} (h : Editor.checkKnown registry document.root = .error failure)
    (tree : Tree) : load registry document tree = .error (.editor (.registry failure)) tree := by
  rw [load_of_version hversion]
  exact adaptExcept_error (Editor.instantiate_unknown h tree)

/-- Whether a document can be loaded. -/
structure Loadable (registry : Registry) (document : Document) : Prop where
  version : document.version = currentVersion
  known : ∀ element ∈ document.root.elements,
    ∃ component, registry.find? element.component = some component

theorem not_loadable_iff {document : Document} :
    ¬document.Loadable registry ↔ document.version ≠ currentVersion ∨
      ∃ element ∈ document.root.elements, registry.find? element.component = none := by
  constructor
  · intro h
    by_contra hneither
    push Not at hneither
    exact h ⟨hneither.1, fun element helement =>
      Option.ne_none_iff_exists'.mp (hneither.2 element helement)⟩
  · rintro (hversion | ⟨element, helement, hnone⟩) h
    · exact hversion h.version
    · obtain ⟨component, hfind⟩ := h.known element helement
      cases hnone.symm.trans hfind

/-- Loading either refuses the document and leaves the tree, or adds all of the document. -/
theorem load_cases (document : Document) (tree : Tree) :
    (¬document.Loadable registry ∧ ∃ failure, load registry document tree = .error failure tree) ∨
      (document.Loadable registry ∧
        ∃ after, load registry document tree = .ok tree.size after ∧
          Editor.Defaulted registry (List.range' tree.size document.root.count)
            (tree.plant document.root).2 after) := by
  by_cases hversion : document.version = currentVersion
  · have hknown_iff : Editor.checkKnown registry document.root = .ok () ↔ _ :=
      Editor.checkKnown_iff_elements document.root
    cases hknown : Editor.checkKnown registry document.root with
    | ok _ =>
        exact .inr ⟨⟨hversion, hknown_iff.mp hknown⟩, load_of_known hversion hknown tree⟩
    | error failure =>
        refine .inl ⟨fun h => ?_, _, load_of_unknown hversion hknown tree⟩
        cases hknown.symm.trans (hknown_iff.mpr h.known)
  · exact .inl ⟨fun h => hversion h.version, _, load_of_version_ne hversion tree⟩

/-- A document can be loaded into any tree or into none. -/
theorem exists_load_iff {document : Document} (tree : Tree) :
    (∃ root after, load registry document tree = .ok root after) ↔ document.Loadable registry := by
  rcases load_cases document tree with ⟨hrefused, failure, hload⟩ | ⟨hloadable, after, hload, -⟩
  · refine ⟨?_, fun h => absurd h hrefused⟩
    rintro ⟨root, place, h⟩
    cases hload.symm.trans h
  · exact ⟨fun _ => hloadable, fun _ => ⟨_, _, hload⟩⟩

/-- A document is loaded exactly if it has the current format and all its components are known.
If not, the tree stays as it was; else the nodes of the document are added behind the others, in
the order of a walk, with the defaults that the document leaves out. -/
theorem load_whole (htree : tree.WellFormed) (document : Document) :
    ((∃ failure after, load registry document tree = .error failure after) ↔
      document.version ≠ currentVersion ∨
        ∃ element ∈ document.root.elements, registry.find? element.component = none) ∧
    (∀ failure after, load registry document tree = .error failure after → after = tree) ∧
    ∀ root after, load registry document tree = .ok root after →
      Loaded registry tree document.root root after := by
  rw [← not_loadable_iff]
  rcases load_cases document tree with
    ⟨hrefused, failure, hload⟩ | ⟨hloadable, after, hload, hdefaulted⟩
  · refine ⟨⟨fun _ => hrefused, fun _ => ⟨failure, tree, hload⟩⟩, ?_, ?_⟩
    · intro cause place h
      cases hload.symm.trans h
      rfl
    · intro root place h
      cases hload.symm.trans h
  · refine ⟨⟨?_, fun hrefused => absurd hloadable hrefused⟩, ?_, ?_⟩
    · rintro ⟨failure, place, h⟩
      cases hload.symm.trans h
    · intro failure place h
      cases hload.symm.trans h
    · intro root place h
      cases hload.symm.trans h
      have hknown := (Editor.checkKnown_iff_elements document.root).mpr hloadable.known
      exact loaded_of_defaulted htree hknown hdefaulted

/-- A text, below which stands an element of an unknown component. -/
def strangeText : Document := ofRoot ⟨"text", .empty, some [⟨"image", .empty, none⟩]⟩

/-- Of two documents one is loaded behind the two texts, and one is refused. -/
theorem load_whole_of_texts :
    Registry.build [{ id := "text", own := [⟨0, { name := "label", type := .string }⟩] }] {} =
      .ok Registry.labels ∧ texts.WellFormed ∧
    (∃ root after, load Registry.labels savedTexts texts = .ok root after ∧
      Loaded Registry.labels texts savedTexts.root root after) ∧
    ∃ failure, load Registry.labels strangeText texts = .error failure texts := by
  have hbuild : Registry.build
      [{ id := "text", own := [⟨0, { name := "label", type := .string }⟩] }] {} =
        .ok Registry.labels := rfl
  have htree : texts.WellFormed := Tree.empty_wellFormed.plant _
  obtain ⟨_, _, hloaded⟩ := load_whole htree savedTexts
  obtain ⟨hfails, hkept, _⟩ := load_whole htree strangeText
  have hload : ∃ root after, load Registry.labels savedTexts texts = .ok root after := ⟨_, _, rfl⟩
  obtain ⟨root, after, hafter⟩ := hload
  have hstrange : ∃ element ∈ strangeText.root.elements,
      Registry.labels.find? element.component = none :=
    ⟨⟨"image", .empty, none⟩, .tail _ (.head _), rfl⟩
  obtain ⟨failure, place, hfailed⟩ := hfails.mpr (.inr hstrange)
  cases hkept failure place hfailed
  exact ⟨hbuild, htree, ⟨root, after, hafter, hloaded root after hafter⟩, failure, hfailed⟩

end Document

end FormDesigner
