import Mathlib.Data.List.Nodup
import Mathlib.Data.List.Perm.Subperm
import FormDesigner.Proofs.Tree.Links

/-!
Lines of ancestors.

In a well-formed tree no node occurs twice in a line of ancestors, so that a
line is no longer than the arena.  Looking for an ancestor therefore ends, and
`isAncestorOrSelf` finds the ancestors, all of them and no other node.
-/

namespace FormDesigner

namespace Tree

variable {tree : Tree}

/-- The node is there if it has a parent. -/
theorem lt_size_of_parent? {node parent : NodeId} (h : tree.parent? node = some parent) :
    node < tree.size := by
  obtain ⟨found, hfound, _⟩ := Option.bind_eq_some_iff.1 h
  exact lt_size_of_node? hfound

theorem parent?_eq_none_of_le {node : NodeId} (h : tree.size ≤ node) :
    tree.parent? node = none := by
  rw [parent?, node?_eq_none_of_le h]
  rfl

/-- There are no more different known nodes than nodes. -/
theorem length_le_size_of_nodup {ids : List NodeId} (hnodup : ids.Nodup)
    (hknown : ∀ id ∈ ids, id < tree.size) : ids.length ≤ tree.size := by
  have hsubset : ids ⊆ List.range tree.size := fun id hid => List.mem_range.2 (hknown id hid)
  have hperm := hnodup.subperm hsubset
  simpa using hperm.length_le

namespace WellFormed

/-- The children of a node are the nodes that have it as their parent. -/
theorem mem_children_iff (h : tree.WellFormed) {parent child : NodeId} :
    child ∈ tree.children parent ↔ tree.parent? child = some parent := by
  have hcount := h.linked parent child
  rw [← List.count_pos_iff, hcount]
  split <;> simp_all

theorem nodup_children (h : tree.WellFormed) (parent : NodeId) : (tree.children parent).Nodup := by
  rw [List.nodup_iff_count_le_one]
  intro child
  rw [h.linked parent child]
  split <;> omega

/-- The parent of a node is there. -/
theorem parent_lt_size (h : tree.WellFormed) {node parent : NodeId}
    (hparent : tree.parent? node = some parent) : parent < tree.size := by
  have hmem := h.mem_children_iff.2 hparent
  by_contra hnot
  rw [children, node?_eq_none_of_le (Nat.le_of_not_lt hnot)] at hmem
  simp at hmem

end WellFormed

/-- The ancestors of an ancestor are ancestors. -/
theorem Ancestor.trans {above middle below : NodeId} (hupper : Ancestor tree above middle)
    (hlower : Ancestor tree middle below) : Ancestor tree above below := by
  induction hlower with
  | parent h => exact .step h hupper
  | step h _ ih => exact .step h ih

theorem Ancestor.lt_size {above below : NodeId} (h : Ancestor tree above below) :
    below < tree.size := by
  cases h with
  | parent h => exact lt_size_of_parent? h
  | step h _ => exact lt_size_of_parent? h

theorem Ancestor.above_lt_size (h : tree.WellFormed) {above below : NodeId}
    (hline : Ancestor tree above below) : above < tree.size := by
  induction hline with
  | parent hparent => exact h.parent_lt_size hparent
  | step _ _ ih => exact ih

/-- Of two ancestors of a node one is the other or above it. -/
theorem Ancestor.linear {first second below : NodeId} (h : Ancestor tree first below)
    (hother : Ancestor tree second below) :
    first = second ∨ Ancestor tree first second ∨ Ancestor tree second first := by
  induction h with
  | parent hparent =>
      cases hother with
      | parent hsame => exact Or.inl (Option.some.inj (hparent.symm.trans hsame))
      | step hsame hline =>
          cases hparent.symm.trans hsame
          exact Or.inr (Or.inr hline)
  | step hparent hline ih =>
      cases hother with
      | parent hsame =>
          cases hparent.symm.trans hsame
          exact Or.inr (Or.inl hline)
      | step hsame hrest =>
          cases hparent.symm.trans hsame
          exact ih hrest

/-- With fewer parents there are fewer ancestors. -/
theorem Ancestor.mono {other : Tree}
    (h : ∀ node parent, tree.parent? node = some parent → other.parent? node = some parent)
    {above below : NodeId} (hline : Ancestor tree above below) : Ancestor other above below := by
  induction hline with
  | parent hparent => exact .parent (h _ _ hparent)
  | step hparent _ ih => exact .step (h _ _ hparent) ih

section Extension

variable {base : Tree} {added : List Links}

theorem parent?_of_links_append (h : tree.links = base.links ++ added) {id : NodeId}
    (hid : id < base.size) : tree.parent? id = base.parent? id := by
  rw [parent?_eq_links, parent?_eq_links, h, List.getElem?_append_left (by simpa using hid)]

theorem children_of_links_append (h : tree.links = base.links ++ added) {id : NodeId}
    (hid : id < base.size) : tree.children id = base.children id := by
  rw [children_eq_links, children_eq_links, h, List.getElem?_append_left (by simpa using hid)]

theorem size_le_of_links_append (h : tree.links = base.links ++ added) : base.size ≤ tree.size := by
  rw [← length_links tree, h, List.length_append, length_links]
  exact Nat.le_add_right _ _

/-- New nodes are no ancestors of old ones. -/
theorem Ancestor.of_links_append (hbase : base.WellFormed) (h : tree.links = base.links ++ added)
    {above below : NodeId} (hline : Ancestor tree above below) (hbelow : below < base.size) :
    Ancestor base above below := by
  induction hline with
  | parent hparent =>
      rw [parent?_of_links_append h hbelow] at hparent
      exact .parent hparent
  | step hparent _ ih =>
      rw [parent?_of_links_append h hbelow] at hparent
      exact .step hparent (ih (hbase.parent_lt_size hparent))

end Extension

/-- The lineage of a node that has a parent goes on with that of the parent. -/
theorem lineage_of_parent {node parent : NodeId} (h : tree.parent? node = some parent)
    (bound : Nat) : tree.lineage (bound + 1) node = node :: tree.lineage bound parent := by
  simp [lineage, h]

theorem lineage_of_root {node : NodeId} (h : tree.parent? node = none) (bound : Nat) :
    tree.lineage (bound + 1) node = [node] := by
  simp [lineage, h]

theorem eq_or_ancestor_of_mem_lineage {bound : Nat} {above below : NodeId}
    (h : above ∈ tree.lineage bound below) : above = below ∨ Ancestor tree above below := by
  induction bound generalizing below with
  | zero => simp [lineage] at h
  | succ bound ih =>
      cases hparent : tree.parent? below with
      | none =>
          rw [lineage_of_root hparent] at h
          exact Or.inl (List.mem_singleton.1 h)
      | some parent =>
          rw [lineage_of_parent hparent] at h
          rcases List.mem_cons.1 h with heq | hrest
          · exact Or.inl heq
          · rcases ih hrest with rfl | hline
            · exact Or.inr (.parent hparent)
            · exact Or.inr (.step hparent hline)

/-- A lineage that ends below its bound holds every ancestor. -/
theorem mem_lineage_of_ancestor {bound : Nat} {above below : NodeId}
    (hshort : (tree.lineage bound below).length < bound) (h : Ancestor tree above below) :
    above ∈ tree.lineage bound below := by
  induction h generalizing bound with
  | @parent below hparent =>
      cases bound with
      | zero => simp at hshort
      | succ bound =>
          rw [lineage_of_parent hparent, List.length_cons] at hshort
          cases bound with
          | zero => omega
          | succ bound =>
              rw [lineage_of_parent hparent, lineage]
              simp
  | @step middle below hparent _ ih =>
      cases bound with
      | zero => simp at hshort
      | succ bound =>
          rw [lineage_of_parent hparent, List.length_cons] at hshort
          rw [lineage_of_parent hparent]
          exact List.mem_cons_of_mem _ (ih (by omega))

/-- A lineage that ends below its bound is the same under every larger one. -/
theorem lineage_succ_of_length_lt {bound : Nat} {node : NodeId}
    (h : (tree.lineage bound node).length < bound) :
    tree.lineage (bound + 1) node = tree.lineage bound node := by
  induction bound generalizing node with
  | zero => simp at h
  | succ bound ih =>
      cases hparent : tree.parent? node with
      | none => rw [lineage_of_root hparent, lineage_of_root hparent]
      | some parent =>
          rw [lineage_of_parent hparent, List.length_cons] at h
          rw [lineage_of_parent hparent, lineage_of_parent hparent, ih (by omega)]

namespace WellFormed

/-- A lineage holds no node twice. -/
theorem nodup_lineage (h : tree.WellFormed) (bound : Nat) (node : NodeId) :
    (tree.lineage bound node).Nodup := by
  induction bound generalizing node with
  | zero => simp [lineage]
  | succ bound ih =>
      cases hparent : tree.parent? node with
      | none => simp [lineage_of_root hparent]
      | some parent =>
          rw [lineage_of_parent hparent, List.nodup_cons]
          refine ⟨fun hmem => ?_, ih parent⟩
          rcases eq_or_ancestor_of_mem_lineage hmem with rfl | hline
          · exact h.acyclic node (.parent hparent)
          · exact h.acyclic node (.step hparent hline)

/-- The lineage of a known node stays in the arena. -/
theorem lt_size_of_mem_lineage (h : tree.WellFormed) {bound : Nat} {above below : NodeId}
    (hbelow : below < tree.size) (hmem : above ∈ tree.lineage bound below) : above < tree.size := by
  induction bound generalizing below with
  | zero => simp [lineage] at hmem
  | succ bound ih =>
      cases hparent : tree.parent? below with
      | none =>
          rw [lineage_of_root hparent, List.mem_singleton] at hmem
          rwa [hmem]
      | some parent =>
          rw [lineage_of_parent hparent] at hmem
          rcases List.mem_cons.1 hmem with rfl | hrest
          · exact hbelow
          · exact ih (h.parent_lt_size hparent) hrest

/-- A child of a node is not above another one. -/
theorem not_ancestor_sibling (h : tree.WellFormed) {parent first second : NodeId}
    (hfirst : tree.parent? first = some parent) (hsecond : tree.parent? second = some parent) :
    ¬Ancestor tree first second := by
  intro hline
  cases hline with
  | parent hsame =>
      cases hsecond.symm.trans hsame
      exact h.acyclic _ (.parent hfirst)
  | step hsame hrest =>
      cases hsecond.symm.trans hsame
      exact h.acyclic _ (.step hfirst hrest)

/-- Different children of a node have nothing below them in common. -/
theorem eq_of_siblings (h : tree.WellFormed) {parent first second below : NodeId}
    (hfirst : tree.parent? first = some parent) (hsecond : tree.parent? second = some parent)
    (hline : below = first ∨ Ancestor tree first below)
    (hother : below = second ∨ Ancestor tree second below) : first = second := by
  rcases hline with rfl | hline
  · rcases hother with heq | hother
    · exact heq
    · exact absurd hother (h.not_ancestor_sibling hsecond hfirst)
  · rcases hother with rfl | hother
    · exact absurd hline (h.not_ancestor_sibling hfirst hsecond)
    · rcases hline.linear hother with heq | hbelow | habove
      · exact heq
      · exact absurd hbelow (h.not_ancestor_sibling hfirst hsecond)
      · exact absurd habove (h.not_ancestor_sibling hsecond hfirst)

/-- A line of ancestors is no longer than the arena. -/
theorem length_lineage_le (h : tree.WellFormed) {node : NodeId} (hnode : node < tree.size)
    (bound : Nat) : (tree.lineage bound node).length ≤ tree.size :=
  length_le_size_of_nodup (h.nodup_lineage bound node) fun _ => h.lt_size_of_mem_lineage hnode

/-- A child has one ancestor more than its parent. -/
theorem length_lineage_child (h : tree.WellFormed) {parent child : NodeId}
    (hparent : tree.parent? child = some parent) :
    (tree.lineage (tree.size + 1) child).length =
      (tree.lineage (tree.size + 1) parent).length + 1 := by
  have hlength := h.length_lineage_le (lt_size_of_parent? hparent) (tree.size + 1)
  rw [lineage_of_parent hparent, List.length_cons] at hlength ⊢
  rw [lineage_succ_of_length_lt (Nat.lt_of_succ_le hlength)]

end WellFormed

/-- The search for an ancestor by the parent links alone: `Climb tree above below
answer steps` says that from `below` it follows that many links and answers
whether it met `above`. -/
inductive Climb (tree : Tree) (above : NodeId) : NodeId → Bool → Nat → Prop where
  | found : Climb tree above above true 0
  | top {below : NodeId} (hne : below ≠ above) (h : tree.parent? below = none) :
      Climb tree above below false 0
  | up {below middle : NodeId} {answer : Bool} {steps : Nat} (hne : below ≠ above)
      (h : tree.parent? below = some middle) (rest : Climb tree above middle answer steps) :
      Climb tree above below answer (steps + 1)

/-- A lineage that ends below its bound is a finished search. -/
theorem exists_climb_of_length_lt (above : NodeId) {bound : Nat} {below : NodeId}
    (h : (tree.lineage bound below).length < bound) :
    ∃ steps, steps < (tree.lineage bound below).length ∧
      Climb tree above below ((tree.lineage bound below).contains above) steps := by
  induction bound generalizing below with
  | zero => simp at h
  | succ bound ih =>
      by_cases heq : below = above
      · subst heq
        refine ⟨0, by simp [lineage], ?_⟩
        rw [show (tree.lineage (bound + 1) below).contains below = true by simp [lineage]]
        exact .found
      · cases hparent : tree.parent? below with
        | none =>
            refine ⟨0, by simp [lineage], ?_⟩
            rw [lineage_of_root hparent,
              show [below].contains above = false by simpa using Ne.symm heq]
            exact .top heq hparent
        | some parent =>
            rw [lineage_of_parent hparent, List.length_cons] at h
            have hshort : (tree.lineage bound parent).length < bound := by omega
            obtain ⟨steps, hsteps, hclimb⟩ := ih hshort
            refine ⟨steps + 1, ?_, ?_⟩
            · rw [lineage_of_parent hparent, List.length_cons]
              omega
            · rw [lineage_of_parent hparent, List.contains_cons,
                show (above == below) = false by simpa using Ne.symm heq, Bool.false_or]
              exact .up heq hparent hclimb

namespace WellFormed

/-- The search for an ancestor ends after at most as many links as there are
nodes, with the answer of `isAncestorOrSelf`. -/
theorem exists_climb (h : tree.WellFormed) (above below : NodeId) :
    ∃ steps ≤ tree.size, Climb tree above below (tree.isAncestorOrSelf above below) steps := by
  by_cases hbelow : below < tree.size
  · have hlength := h.length_lineage_le hbelow (tree.size + 1)
    have hshort : (tree.lineage (tree.size + 1) below).length < tree.size + 1 := by omega
    obtain ⟨steps, hsteps, hclimb⟩ := exists_climb_of_length_lt above hshort
    exact ⟨steps, by omega, hclimb⟩
  · have hparent := parent?_eq_none_of_le (Nat.le_of_not_lt hbelow)
    refine ⟨0, Nat.zero_le _, ?_⟩
    rw [isAncestorOrSelf, lineage_of_root hparent]
    by_cases heq : below = above
    · subst heq
      simpa using Climb.found
    · rw [show [below].contains above = false by simpa using Ne.symm heq]
      exact .top heq hparent

/-- `isAncestorOrSelf` is the line of ancestors with its own lower end. -/
theorem isAncestorOrSelf_iff (h : tree.WellFormed) {above below : NodeId} :
    tree.isAncestorOrSelf above below = true ↔ above = below ∨ Ancestor tree above below := by
  rw [isAncestorOrSelf, List.contains_iff_mem]
  constructor
  · exact eq_or_ancestor_of_mem_lineage
  · rintro (rfl | hline)
    · simp [lineage]
    · have hlength := h.length_lineage_le hline.lt_size (tree.size + 1)
      exact mem_lineage_of_ancestor (by omega) hline

end WellFormed

end Tree

end FormDesigner
