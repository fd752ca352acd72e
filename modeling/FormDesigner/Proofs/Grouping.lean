import Mathlib.Data.List.Basic
import Mathlib.Data.List.Induction
import FormDesigner.Registry.Basic

/-!
What is shown under headings.

One item after another is put under its heading, and a heading that is not there yet comes last.
So the headings stand in the order in which they are first met, and under each of them are just
its own items, in the order in which they were listed.
-/

namespace FormDesigner

universe u

variable {α : Type u} {heading : α → String} {items : List α} {groups : List (String × List α)}

/-- One name is first met before another one is. -/
def MetBefore (names : List String) (first second : String) : Prop :=
  names.idxOf first < names.idxOf second

theorem MetBefore.ne {names : List String} {first second : String}
    (h : MetBefore names first second) : first ≠ second := by
  rintro rfl
  exact Nat.lt_irrefl _ h

/-- More names at the end do not change where the earlier ones are first met. -/
theorem MetBefore.append {names : List String} {first second : String}
    (h : MetBefore names first second) (hfirst : first ∈ names) (hsecond : second ∈ names)
    (others : List String) : MetBefore (names ++ others) first second := by
  rwa [MetBefore, List.idxOf_append_of_mem hfirst, List.idxOf_append_of_mem hsecond]

theorem metBefore_last {names : List String} {first last : String} (hfirst : first ∈ names)
    (hlast : last ∉ names) : MetBefore (names ++ [last]) first last := by
  rw [MetBefore, List.idxOf_append_of_mem hfirst, List.idxOf_append_of_notMem hlast]
  exact Nat.lt_add_right _ (List.idxOf_lt_length_of_mem hfirst)

/-- The groups are the items under their headings. -/
structure SortedUnder (heading : α → String) (items : List α) (groups : List (String × List α)) :
    Prop where
  /-- A heading stands before those that are first met after it, and so no two are the same. -/
  headings : (groups.map Prod.fst).Pairwise (MetBefore (items.map heading))
  /-- The items of a heading keep their order. -/
  members : ∀ group ∈ groups, group.2 = items.filter fun item => heading item = group.1
  filled : ∀ group ∈ groups, group.2 ≠ []
  /-- All groups together have each item once. -/
  once : (groups.flatMap Prod.snd).Perm items

/-- An item joins the one group of its heading, or makes a new one at the end. -/
theorem addToGroup_cases (name : String) (item : α) (groups : List (String × List α)) :
    (∃ before members after, groups = before ++ (name, members) :: after ∧
      addToGroup name item groups = before ++ (name, members ++ [item]) :: after) ∨
    ((∀ group ∈ groups, group.1 ≠ name) ∧
      addToGroup name item groups = groups ++ [(name, [item])]) := by
  induction groups with
  | nil => exact .inr ⟨nofun, rfl⟩
  | cons first rest ih =>
      obtain ⟨found, members⟩ := first
      by_cases hname : found = name
      · subst hname
        exact .inl ⟨[], members, rest, rfl, if_pos rfl⟩
      · have hskip : addToGroup name item ((found, members) :: rest) =
            (found, members) :: addToGroup name item rest := if_neg hname
        rcases ih with ⟨before, joined, after, hrest, hadd⟩ | ⟨hnone, hadd⟩
        · refine .inl ⟨(found, members) :: before, joined, after, ?_, ?_⟩
          · rw [hrest, List.cons_append]
          · rw [hskip, hadd, List.cons_append]
        · refine .inr ⟨?_, ?_⟩
          · rw [List.forall_mem_cons]
            exact ⟨hname, hnone⟩
          · rw [hskip, hadd, List.cons_append]

namespace SortedUnder

theorem nil : SortedUnder heading [] [] where
  headings := .nil
  members := nofun
  filled := nofun
  once := .nil

/-- The headings are those of the items. -/
theorem exists_group_iff (h : SortedUnder heading items groups) {name : String} :
    (∃ group ∈ groups, group.1 = name) ↔ name ∈ items.map heading := by
  rw [List.mem_map]
  constructor
  · rintro ⟨group, hgroup, rfl⟩
    obtain ⟨item, hitem⟩ := List.exists_mem_of_ne_nil _ (h.filled group hgroup)
    rw [h.members group hgroup, List.mem_filter, decide_eq_true_iff] at hitem
    exact ⟨item, hitem⟩
  · rintro ⟨item, hitem, rfl⟩
    obtain ⟨group, hgroup, hmem⟩ := List.mem_flatMap.mp (h.once.mem_iff.mpr hitem)
    rw [h.members group hgroup, List.mem_filter, decide_eq_true_iff] at hmem
    exact ⟨group, hgroup, hmem.2.symm⟩

/-- The headings of the groups stand in order also when there are more items. -/
theorem headings_append (h : SortedUnder heading items groups) (others : List String) :
    (groups.map Prod.fst).Pairwise (MetBefore (items.map heading ++ others)) := by
  refine h.headings.imp_of_mem ?_
  intro first second hfirst hsecond hbefore
  exact hbefore.append (h.exists_group_iff.mp (List.mem_map.mp hfirst))
    (h.exists_group_iff.mp (List.mem_map.mp hsecond)) others

/-- The items of one heading, with one more item of this or another heading. -/
theorem filter_snoc (items : List α) (item : α) (name : String) :
    ((items ++ [item]).filter fun other => heading other = name) =
      (items.filter fun other => heading other = name) ++
        if heading item = name then [item] else [] := by
  rw [List.filter_append]
  congr 1
  split
  · next hname => exact List.filter_cons_of_pos (decide_eq_true hname)
  · next hname => exact List.filter_cons_of_neg (mt of_decide_eq_true hname)

/-- An item may join the group of its heading. -/
theorem join {item : α} {before after : List (String × List α)} {members : List α}
    (h : SortedUnder heading items (before ++ (heading item, members) :: after)) :
    SortedUnder heading (items ++ [item])
      (before ++ (heading item, members ++ [item]) :: after) where
  headings := by
    have hnames := h.headings_append [heading item]
    rw [List.map_append, List.map_cons] at hnames
    rw [List.map_append, List.map_append, List.map_cons]
    exact hnames
  members := by
    have hothers := h.headings
    rw [List.map_append, List.map_cons, List.pairwise_append, List.pairwise_cons] at hothers
    obtain ⟨-, ⟨hlater, -⟩, hearlier⟩ := hothers
    have hkept : ∀ group ∈ before ++ (heading item, members) :: after, heading item ≠ group.1 →
        group.2 = (items ++ [item]).filter fun other => heading other = group.1 := by
      intro group hgroup hname
      rw [filter_snoc, if_neg hname, List.append_nil]
      exact h.members group hgroup
    intro group hgroup
    rcases List.mem_append.mp hgroup with hbefore | hrest
    · have hmet := hearlier group.1 (List.mem_map_of_mem hbefore) _ List.mem_cons_self
      exact hkept group (List.mem_append_left _ hbefore) hmet.ne.symm
    · rcases List.mem_cons.mp hrest with rfl | hafter
      · rw [filter_snoc, if_pos rfl]
        exact congrArg (· ++ [item]) (h.members _ (List.mem_append_right _ List.mem_cons_self))
      · have hmet := hlater group.1 (List.mem_map_of_mem hafter)
        exact hkept group (List.mem_append_right _ (List.mem_cons_of_mem _ hafter)) hmet.ne
  filled := by
    intro group hgroup
    rcases List.mem_append.mp hgroup with hbefore | hrest
    · exact h.filled group (List.mem_append_left _ hbefore)
    · rcases List.mem_cons.mp hrest with rfl | hafter
      · exact List.append_ne_nil_of_right_ne_nil members (List.cons_ne_nil item [])
      · exact h.filled group (List.mem_append_right _ (List.mem_cons_of_mem _ hafter))
  once := by
    have honce := h.once.append_right [item]
    rw [List.flatMap_append, List.flatMap_cons, List.append_assoc, List.append_assoc] at honce
    rw [List.flatMap_append, List.flatMap_cons, List.append_assoc]
    have hmove : ([item] ++ after.flatMap Prod.snd).Perm (after.flatMap Prod.snd ++ [item]) :=
      List.perm_append_comm
    exact ((hmove.append_left members).append_left (before.flatMap Prod.snd)).trans honce

/-- An item whose heading is not there yet makes a group at the end. -/
theorem begin (h : SortedUnder heading items groups) {item : α}
    (hnew : ∀ group ∈ groups, group.1 ≠ heading item) :
    SortedUnder heading (items ++ [item]) (groups ++ [(heading item, [item])]) := by
  have hunmet : heading item ∉ items.map heading := by
    intro hmet
    obtain ⟨group, hgroup, hname⟩ := h.exists_group_iff.mpr hmet
    exact hnew group hgroup hname
  constructor
  · rw [List.map_append, List.map_append, List.pairwise_append]
    refine ⟨h.headings_append [heading item], List.pairwise_singleton _ _, ?_⟩
    intro first hfirst last hlast
    obtain rfl : last = heading item := List.mem_singleton.mp hlast
    exact metBefore_last (h.exists_group_iff.mp (List.mem_map.mp hfirst)) hunmet
  · intro group hgroup
    rcases List.mem_append.mp hgroup with hold | hlast
    · rw [filter_snoc, if_neg (hnew group hold).symm, List.append_nil]
      exact h.members group hold
    · obtain rfl : group = _ := List.mem_singleton.mp hlast
      have hnone : (items.filter fun other => heading other = heading item) = [] := by
        rw [List.filter_eq_nil_iff]
        intro other hother hname
        exact hunmet (of_decide_eq_true hname ▸ List.mem_map_of_mem hother)
      rw [filter_snoc, if_pos rfl, hnone]
      rfl
  · intro group hgroup
    rcases List.mem_append.mp hgroup with hold | hlast
    · exact h.filled group hold
    · obtain rfl : group = _ := List.mem_singleton.mp hlast
      exact List.cons_ne_nil item []
  · rw [List.flatMap_append]
    exact h.once.append_right [item]

/-- One item is put under its heading. -/
theorem add (h : SortedUnder heading items groups) (item : α) :
    SortedUnder heading (items ++ [item]) (addToGroup (heading item) item groups) := by
  rcases addToGroup_cases (heading item) item groups with
    ⟨before, members, after, rfl, hadd⟩ | ⟨hnew, hadd⟩
  · rw [hadd]
    exact h.join
  · rw [hadd]
    exact h.begin hnew

theorem nodup_headings (h : SortedUnder heading items groups) : (groups.map Prod.fst).Nodup :=
  h.headings.imp MetBefore.ne

/-- Of the items that are not shown none stands anywhere. -/
theorem of_mem {shown : α → Bool} (h : SortedUnder heading (items.filter shown) groups)
    {group : String × List α} (hgroup : group ∈ groups) {item : α} (hitem : item ∈ group.2) :
    item ∈ items ∧ shown item = true ∧ heading item = group.1 := by
  rw [h.members group hgroup, List.mem_filter, List.mem_filter, decide_eq_true_iff] at hitem
  obtain ⟨⟨hmem, hshown⟩, hname⟩ := hitem
  exact ⟨hmem, hshown, hname⟩

end SortedUnder

theorem sortedUnder_groupBy (heading : α → String) (items : List α) :
    SortedUnder heading items (groupBy heading items) := by
  induction items using List.reverseRecOn with
  | nil => exact .nil
  | append_singleton rest item ih =>
      rw [groupBy, List.foldl_append]
      exact ih.add item

/-- The palette shows the components that elements are made of and the property editor shows the
properties that are not artificial, each of them once and under its own heading.  A component
without a heading stands under the empty one. -/
theorem Registry.palette_and_groups_sorted (registry : Registry) :
    (registry.palette.map Prod.fst).Nodup ∧
    SortedUnder (fun component => component.group.getD "")
      (registry.components.filter fun component => !component.isAbstract) registry.palette ∧
    (∀ group ∈ registry.palette, ∀ component ∈ group.2,
      component ∈ registry.components ∧ component.isAbstract = false ∧
        component.group.getD "" = group.1) ∧
    ∀ component : Component,
      (component.propertyGroups.map Prod.fst).Nodup ∧
      SortedUnder Property.group
        (component.properties.filter fun property => !property.artificial)
        component.propertyGroups ∧
      ∀ group ∈ component.propertyGroups, ∀ property ∈ group.2,
        property ∈ component.properties ∧ property.artificial = false ∧
          property.group = group.1 := by
  have hpalette := sortedUnder_groupBy (fun component : Component => component.group.getD "")
    (registry.components.filter fun component => !component.isAbstract)
  refine ⟨hpalette.nodup_headings, hpalette, ?_, ?_⟩
  · intro group hgroup component hcomponent
    obtain ⟨hmem, hshown, hname⟩ := hpalette.of_mem hgroup hcomponent
    exact ⟨hmem, by simpa using hshown, hname⟩
  · intro component
    have hproperties := sortedUnder_groupBy Property.group
      (component.properties.filter fun property => !property.artificial)
    refine ⟨hproperties.nodup_headings, hproperties, ?_⟩
    intro group hgroup property hproperty
    obtain ⟨hmem, hshown, hname⟩ := hproperties.of_mem hgroup hproperty
    exact ⟨hmem, by simpa using hshown, hname⟩

/-- A component of which only the palette is seen. -/
def paletteEntry (id : String) (group : Option String) (isAbstract : Bool) : Component :=
  { id, group, isAbstract, shared := .empty, templates := none, settings := {}
    compiled := fun _ => rfl }

/-- Two headings, one of them with components that are not listed together, and a component
that is not shown. -/
def paletteRegistry : Registry :=
  ⟨[paletteEntry "input" (some "fields") false, paletteEntry "row" none false,
    paletteEntry "base" (some "fields") true, paletteEntry "check" (some "fields") false], {},
    by decide, by simp [paletteEntry]⟩

theorem Registry.palette_and_groups_sorted_of_two :
    paletteRegistry.palette =
        [("fields", [paletteEntry "input" (some "fields") false,
          paletteEntry "check" (some "fields") false]), ("", [paletteEntry "row" none false])] ∧
      paletteEntry "row" none false ∈ paletteRegistry.components ∧
      (paletteEntry "row" none false).group.getD "" = "" := by
  have hpalette : paletteRegistry.palette =
      [("fields", [paletteEntry "input" (some "fields") false,
        paletteEntry "check" (some "fields") false]), ("", [paletteEntry "row" none false])] := rfl
  have hrow : ("", [paletteEntry "row" none false]) ∈ paletteRegistry.palette := by
    rw [hpalette]
    exact List.mem_cons_of_mem _ List.mem_cons_self
  obtain ⟨-, -, hmembers, -⟩ := paletteRegistry.palette_and_groups_sorted
  obtain ⟨hmem, -, hname⟩ := hmembers _ hrow _ List.mem_cons_self
  exact ⟨hpalette, hmem, hname⟩

end FormDesigner
