import FormDesigner.Proofs.Tree.Planting

/-!
Places below an element.

A path leads from an element to one below it by the places among the children.
It means the same in a tree and in a blueprint that was planted there.
-/

namespace FormDesigner

/-- The node that a path leads to. -/
def Tree.descend (tree : Tree) (id : NodeId) : List Nat → Option NodeId
  | [] => some id
  | index :: rest => ((tree.children id)[index]?).bind fun child => tree.descend child rest

/-- The element that a path leads to. -/
def Blueprint.descend (blueprint : Blueprint) : List Nat → Option Blueprint
  | [] => some blueprint
  | index :: rest => (blueprint.childList[index]?).bind fun child => child.descend rest

namespace Blueprint

theorem count_eq (blueprint : Blueprint) : blueprint.count = 1 + countAll blueprint.childList := by
  obtain ⟨component, fields, children⟩ := blueprint
  cases children <;> simp [count, childList, countAll]

@[simp] theorem length_roots (first : NodeId) (children : List Blueprint) :
    (roots first children).length = children.length := by
  induction children generalizing first with
  | nil => rfl
  | cons child rest ih => simp [roots, ih]

end Blueprint

namespace Tree

variable {tree : Tree}

/-- Where all paths from two nodes lead to nodes that correspond, their children correspond in
this sense, place by place. -/
theorem forall₂_children_of_descend {other : Tree} {corresponds : NodeId → NodeId → Prop}
    {id place : NodeId} (h : ∀ path,
      Option.Rel corresponds (tree.descend id path) (other.descend place path)) :
    List.Forall₂ (fun child copy => ∀ path,
        Option.Rel corresponds (tree.descend child path) (other.descend copy path))
      (tree.children id) (other.children place) := by
  have hsteps : ∀ index path, Option.Rel corresponds
      ((tree.children id)[index]?.bind fun child => tree.descend child path)
      ((other.children place)[index]?.bind fun copy => other.descend copy path) :=
    fun index path => h (index :: path)
  generalize tree.children id = children at hsteps
  generalize other.children place = copies at hsteps
  induction children generalizing copies with
  | nil =>
      cases copies with
      | nil => exact .nil
      | cons _ _ => cases hsteps 0 []
  | cons child rest ih =>
      cases copies with
      | nil => cases hsteps 0 []
      | cons copy others =>
          exact .cons (hsteps 0) (ih others fun index path => hsteps (index + 1) path)

/-- A path that is short enough leads to a node of the walk. -/
theorem mem_preorder_of_descend {bound : Nat} {path : List Nat} {root id : NodeId}
    (h : tree.descend root path = some id) (hlength : path.length < bound) :
    id ∈ tree.preorder bound root := by
  induction path generalizing bound root with
  | nil =>
      cases h
      cases bound with
      | zero => exact absurd hlength (Nat.not_lt_zero _)
      | succ bound => exact List.mem_cons_self
  | cons index rest ih =>
      obtain ⟨child, hchild, hrest⟩ := Option.bind_eq_some_iff.1 h
      cases bound with
      | zero => exact absurd hlength (Nat.not_lt_zero _)
      | succ bound =>
          have hbelow := ih hrest (Nat.lt_of_succ_lt_succ hlength)
          exact List.mem_cons_of_mem _
            (List.mem_flatMap.2 ⟨child, List.mem_of_getElem? hchild, hbelow⟩)

/-- Every node of the walk is reached by a path. -/
theorem exists_descend_of_mem_preorder {bound : Nat} {root id : NodeId}
    (h : id ∈ tree.preorder bound root) : ∃ path, tree.descend root path = some id := by
  induction bound generalizing root with
  | zero => cases h
  | succ bound ih =>
      rcases List.mem_cons.1 h with rfl | hbelow
      · exact ⟨[], rfl⟩
      · obtain ⟨child, hchild, hmem⟩ := List.mem_flatMap.1 hbelow
        obtain ⟨path, hpath⟩ := ih hmem
        obtain ⟨index, hindex⟩ := List.getElem?_of_mem hchild
        refine ⟨index :: path, ?_⟩
        rw [descend, hindex]
        exact hpath

/-- Paths lead to the node itself or to nodes below it. -/
theorem WellFormed.eq_or_ancestor_of_descend (h : tree.WellFormed) {path : List Nat}
    {root id : NodeId} (hpath : tree.descend root path = some id) :
    id = root ∨ Ancestor tree root id := by
  induction path generalizing root with
  | nil => exact Or.inl (Option.some.inj hpath).symm
  | cons index rest ih =>
      obtain ⟨child, hchild, hrest⟩ := Option.bind_eq_some_iff.1 hpath
      have hline : Ancestor tree root child :=
        .parent (h.mem_children_iff.1 (List.mem_of_getElem? hchild))
      rcases ih hrest with rfl | hbelow
      · exact Or.inr hline
      · exact Or.inr (hline.trans hbelow)

theorem descend_concat (tree : Tree) (root : NodeId) (path : List Nat) (index : Nat) :
    tree.descend root (path ++ [index]) =
      (tree.descend root path).bind fun id => (tree.children id)[index]? := by
  induction path generalizing root with
  | nil =>
      rw [List.nil_append, descend, descend, Option.bind_some]
      exact Option.bind_fun_some _
  | cons first rest ih =>
      rw [List.cons_append, descend, descend, Option.bind_assoc]
      congr 1
      funext child
      exact ih child

/-- Paths lead to the node itself and to all nodes below it. -/
theorem WellFormed.exists_descend (h : tree.WellFormed) {root id : NodeId}
    (hline : id = root ∨ Ancestor tree root id) : ∃ path, tree.descend root path = some id := by
  rcases hline with rfl | hline
  · exact ⟨[], rfl⟩
  · induction hline with
    | parent hparent =>
        obtain ⟨index, hindex⟩ := List.getElem?_of_mem (h.mem_children_iff.2 hparent)
        refine ⟨[index], ?_⟩
        rw [descend, hindex]
        rfl
    | step hparent _ ih =>
        obtain ⟨path, hpath⟩ := ih
        obtain ⟨index, hindex⟩ := List.getElem?_of_mem (h.mem_children_iff.2 hparent)
        refine ⟨path ++ [index], ?_⟩
        rw [descend_concat, hpath]
        exact hindex

theorem WellFormed.lt_size_of_descend (h : tree.WellFormed) {path : List Nat} {root id : NodeId}
    (hroot : root < tree.size) (hpath : tree.descend root path = some id) : id < tree.size := by
  rcases h.eq_or_ancestor_of_descend hpath with rfl | hline
  · exact hroot
  · exact hline.lt_size

/-- Every step of a path adds an ancestor. -/
theorem WellFormed.length_lineage_descend (h : tree.WellFormed) {path : List Nat}
    {root id : NodeId} (hpath : tree.descend root path = some id) :
    (tree.lineage (tree.size + 1) id).length =
      (tree.lineage (tree.size + 1) root).length + path.length := by
  induction path generalizing root with
  | nil =>
      cases hpath
      rfl
  | cons index rest ih =>
      obtain ⟨child, hchild, hrest⟩ := Option.bind_eq_some_iff.1 hpath
      have hparent := h.mem_children_iff.1 (List.mem_of_getElem? hchild)
      rw [ih hrest, h.length_lineage_child hparent, List.length_cons]
      omega

/-- A path is shorter than the number of nodes. -/
theorem WellFormed.length_lt_size_of_descend (h : tree.WellFormed) {path : List Nat}
    {root id : NodeId} (hroot : root < tree.size) (hpath : tree.descend root path = some id) :
    path.length < tree.size := by
  have hlength := h.length_lineage_le (h.lt_size_of_descend hroot hpath) (tree.size + 1)
  have hpositive : 0 < (tree.lineage (tree.size + 1) root).length := by simp [lineage]
  rw [h.length_lineage_descend hpath] at hlength
  omega

theorem descendants_of_lt {root : NodeId} (h : root < tree.size) :
    tree.descendants root = tree.preorder tree.size root :=
  if_pos (decide_eq_true h)

/-- The walk below a node comes to the nodes that paths lead to. -/
theorem WellFormed.mem_descendants_iff (h : tree.WellFormed) {root : NodeId}
    (hroot : root < tree.size) {id : NodeId} :
    id ∈ tree.descendants root ↔ ∃ path, tree.descend root path = some id := by
  rw [descendants_of_lt hroot]
  constructor
  · exact exists_descend_of_mem_preorder
  · rintro ⟨path, hpath⟩
    exact mem_preorder_of_descend hpath (h.length_lt_size_of_descend hroot hpath)

/-- The walk below a node comes to no node twice. -/
theorem WellFormed.nodup_preorder (h : tree.WellFormed) (bound : Nat) (root : NodeId) :
    (tree.preorder bound root).Nodup := by
  induction bound generalizing root with
  | zero => exact List.nodup_nil
  | succ bound ih =>
      have hbelow : ∀ {child id : NodeId}, id ∈ tree.preorder bound child →
          id = child ∨ Ancestor tree child id := fun hmem =>
        have ⟨_, hpath⟩ := exists_descend_of_mem_preorder hmem
        h.eq_or_ancestor_of_descend hpath
      rw [preorder, List.nodup_cons, List.nodup_flatMap]
      refine ⟨?_, fun child _ => ih child, ?_⟩
      · intro hmem
        obtain ⟨child, hchild, hmem⟩ := List.mem_flatMap.mp hmem
        have hparent := h.mem_children_iff.mp hchild
        rcases hbelow hmem with rfl | hline
        · exact h.acyclic root (.parent hparent)
        · exact h.acyclic child (.step hparent hline)
      · refine (h.nodup_children root).imp_of_mem ?_
        intro first second hfirst hsecond hne id hmem hother
        exact hne (h.eq_of_siblings (h.mem_children_iff.mp hfirst) (h.mem_children_iff.mp hsecond)
          (hbelow hmem) (hbelow hother))

theorem WellFormed.nodup_descendants (h : tree.WellFormed) (root : NodeId) :
    (tree.descendants root).Nodup := by
  rw [descendants]
  split
  · exact h.nodup_preorder tree.size root
  · exact List.nodup_nil

theorem descend_of_links_eq {other : Tree} (h : other.links = tree.links) (root : NodeId)
    (path : List Nat) : other.descend root path = tree.descend root path := by
  induction path generalizing root with
  | nil => rfl
  | cons index rest ih =>
      rw [descend, descend, children_eq_links, h, ← children_eq_links]
      congr 1
      funext child
      exact ih child

/-- The nodes from `place` on are those of the planted blueprint. -/
def Holds (tree : Tree) (place : NodeId) (blueprint : Blueprint) : Prop :=
  ∃ parent, ∀ offset < blueprint.count,
    tree.node? (place + offset) = (blueprint.layout place parent)[offset]?

/-- The nodes from `first` on are those of the planted siblings. -/
def HoldsAll (tree : Tree) (parent first : NodeId) (children : List Blueprint) : Prop :=
  ∀ offset < Blueprint.countAll children,
    tree.node? (first + offset) = (Blueprint.layoutAll parent first children)[offset]?

theorem Holds.node {place : NodeId} {blueprint : Blueprint} (h : tree.Holds place blueprint) :
    ∃ parent, tree.node? place = some ⟨blueprint.component, blueprint.fields,
      blueprint.children.map (Blueprint.roots (place + 1)), parent⟩ := by
  obtain ⟨parent, hnodes⟩ := h
  have hfirst := hnodes 0 blueprint.count_pos
  rw [Nat.add_zero] at hfirst
  refine ⟨parent, hfirst.trans ?_⟩
  obtain ⟨component, fields, children⟩ := blueprint
  cases children <;> rfl

theorem Holds.children {place : NodeId} {blueprint : Blueprint} (h : tree.Holds place blueprint) :
    tree.children place = Blueprint.roots (place + 1) blueprint.childList := by
  obtain ⟨parent, hnode⟩ := h.node
  rw [Tree.children, hnode, Blueprint.childList]
  cases blueprint.children <;> rfl

theorem Holds.below {place : NodeId} {blueprint : Blueprint} (h : tree.Holds place blueprint) :
    tree.HoldsAll place (place + 1) blueprint.childList := by
  obtain ⟨parent, hnodes⟩ := h
  obtain ⟨component, fields, children⟩ := blueprint
  cases children with
  | none => exact fun offset hoffset => absurd hoffset (Nat.not_lt_zero offset)
  | some children =>
      intro offset hoffset
      have hnext := hnodes (offset + 1) (by
        rw [Blueprint.count_eq]
        omega)
      rw [Nat.add_assoc, Nat.add_comm 1 offset, hnext]
      rfl

theorem HoldsAll.first {parent first : NodeId} {child : Blueprint} {rest : List Blueprint}
    (h : tree.HoldsAll parent first (child :: rest)) : tree.Holds first child := by
  refine ⟨some parent, fun offset hoffset => ?_⟩
  rw [h offset (Nat.lt_of_lt_of_le hoffset (Nat.le_add_right _ _)), Blueprint.layoutAll,
    List.getElem?_append_left (by rwa [Blueprint.length_layout])]

theorem HoldsAll.rest {parent first : NodeId} {child : Blueprint} {rest : List Blueprint}
    (h : tree.HoldsAll parent first (child :: rest)) :
    tree.HoldsAll parent (first + child.count) rest := by
  intro offset hoffset
  have hlength := Blueprint.length_layout first (some parent) child
  have hnode := h (child.count + offset) (by
    rw [Blueprint.countAll]
    omega)
  rw [Blueprint.layoutAll, List.getElem?_append_right (by omega), hlength,
    Nat.add_sub_cancel_left, ← Nat.add_assoc] at hnode
  exact hnode

/-- The siblings stand one behind the other. -/
theorem HoldsAll.child {parent first : NodeId} {children : List Blueprint}
    (h : tree.HoldsAll parent first children) {index : Nat} {child : Blueprint}
    (hchild : children[index]? = some child) :
    ∃ place, (Blueprint.roots first children)[index]? = some place ∧ tree.Holds place child := by
  induction children generalizing first index with
  | nil => cases hchild
  | cons sibling rest ih =>
      cases index with
      | zero =>
          cases hchild
          exact ⟨first, rfl, h.first⟩
      | succ index => exact ih h.rest hchild

/-- A path leads to corresponding places in a planted blueprint and in its tree. -/
theorem Holds.descend {place : NodeId} {blueprint : Blueprint} (h : tree.Holds place blueprint)
    (path : List Nat) :
    Option.Rel (fun found below => tree.Holds below found) (blueprint.descend path)
      (tree.descend place path) := by
  induction path generalizing place blueprint with
  | nil => exact .some h
  | cons index rest ih =>
      rw [Tree.descend, Blueprint.descend, h.children]
      cases hchild : blueprint.childList[index]? with
      | none =>
          have hnone : (Blueprint.roots (place + 1) blueprint.childList)[index]? = none := by
            rw [List.getElem?_eq_none_iff] at hchild ⊢
            rwa [Blueprint.length_roots]
          rw [hnone]
          exact .none
      | some child =>
          obtain ⟨below, hbelow, hholds⟩ := h.below.child hchild
          rw [hbelow]
          exact ih hholds

/-- A planted blueprint stands behind the old nodes. -/
theorem holds_plant (tree : Tree) (blueprint : Blueprint) :
    (tree.plant blueprint).2.Holds tree.size blueprint := by
  refine ⟨none, fun offset _ => ?_⟩
  rw [plant_eq, node?_grow, if_neg (Nat.not_lt.2 (Nat.le_add_right _ _)), Nat.add_sub_cancel_left]

end Tree

end FormDesigner
