import FormDesigner.Proofs.Program
import FormDesigner.Proofs.Tree.Ancestry

/-!
What the changes of links do.

Each change is described once, with all its ways out: the failures, and for a
success the tree that it leaves.  From these descriptions it follows that every
change keeps a tree well formed, also one that fails.
-/

namespace FormDesigner

open Program

namespace Tree

variable {tree : Tree}

/-- The tree with `child` put at `index` among the children of `parent`. -/
def attach (tree : Tree) (parent : NodeId) (index : Nat) (child : NodeId) : Tree :=
  (tree.setChildren parent (some ((tree.children parent).insertIdx index child))).setParent child
    (some parent)

/-- The tree with `child` taken out of `parent`. -/
def release (tree : Tree) (parent child : NodeId) : Tree :=
  (tree.setChildren parent (some ((tree.children parent).erase child))).setParent child none

@[simp] theorem size_attach (parent : NodeId) (index : Nat) (child : NodeId) :
    (tree.attach parent index child).size = tree.size := by
  simp [attach]

@[simp] theorem size_release (parent child : NodeId) :
    (tree.release parent child).size = tree.size := by
  simp [release]

@[simp] theorem contents_attach (parent : NodeId) (index : Nat) (child : NodeId) :
    (tree.attach parent index child).contents = tree.contents := by
  simp [attach]

theorem requireNode_ok {id : NodeId} {node : Node} (h : tree.node? id = some node) :
    requireNode id tree = .ok node tree := by
  rw [requireNode, bind_ok (get_apply tree)]
  simp [h]

theorem requireNode_error {id : NodeId} (h : tree.size ≤ id) :
    requireNode id tree = .error (.unknownNode id) tree := by
  rw [requireNode, bind_ok (get_apply tree)]
  simp [node?_eq_none_of_le h]

theorem update_ok {id : NodeId} (h : id < tree.size) (change : Node → Node) :
    update id change tree = .ok () (tree.mapNode id change) := by
  obtain ⟨node, hnode⟩ := exists_node?_of_lt h
  rw [update, bind_ok (requireNode_ok hnode)]
  rfl

/-- Giving a node the child list that it has already, or an empty one in place
of none. -/
theorem mapNode_ensureChildren (tree : Tree) (id : NodeId) :
    tree.mapNode id Node.ensureChildren = tree.setChildren id (some (tree.children id)) := by
  apply ext_node?
  intro place
  simp only [setChildren, node?_mapNode]
  split
  · next hplace =>
      subst hplace
      cases hnode : tree.node? place with
      | none => rfl
      | some node => simp [Node.ensureChildren, children, hnode]
  · rfl

theorem mapNode_clearEmptyChildren {id : NodeId} {node : Node} (h : tree.node? id = some node) :
    tree.mapNode id Node.clearEmptyChildren =
      if node.children = some [] then tree.setChildren id none else tree := by
  apply ext_node?
  intro place
  by_cases hempty : node.children = some []
  · rw [if_pos hempty, setChildren, node?_mapNode, node?_mapNode]
    split
    · next hplace =>
        subst hplace
        simp [h, Node.clearEmptyChildren, hempty]
    · rfl
  · rw [if_neg hempty, node?_mapNode]
    split
    · next hplace =>
        subst hplace
        simp [h, Node.clearEmptyChildren, hempty]
    · rfl

theorem lt_size_of_children_ne_nil {id : NodeId} (h : tree.children id ≠ []) : id < tree.size := by
  by_contra hnot
  rw [children, node?_eq_none_of_le (Nat.le_of_not_lt hnot)] at h
  exact h rfl

/-- A node with children has a child list. -/
theorem exists_children_of_ne_nil {id : NodeId} (h : tree.children id ≠ []) :
    ∃ node, tree.node? id = some node ∧ node.children = some (tree.children id) := by
  obtain ⟨node, hnode⟩ := exists_node?_of_lt (lt_size_of_children_ne_nil h)
  refine ⟨node, hnode, ?_⟩
  rw [children, hnode] at h ⊢
  cases hlist : node.children with
  | none => simp [Node.childList, hlist] at h
  | some list => simp [Node.childList, hlist]

/-- A change of an existing child list. -/
theorem mapNode_children {id : NodeId} (h : tree.children id ≠ [])
    (change : List NodeId → List NodeId) :
    (tree.mapNode id fun node => { node with children := node.children.map change }) =
      tree.setChildren id (some (change (tree.children id))) := by
  obtain ⟨node, hnode, hlist⟩ := exists_children_of_ne_nil h
  apply ext_node?
  intro place
  simp only [setChildren, node?_mapNode]
  split
  · next hplace =>
      subst hplace
      simp [hnode, hlist]
  · rfl

/-- Setting a child list twice is setting it to the second one. -/
theorem setChildren_setChildren (tree : Tree) (id : NodeId) (first second : Option (List NodeId)) :
    (tree.setChildren id first).setChildren id second = tree.setChildren id second :=
  mapNode_mapNode tree id _ _

/-- Once its other checks are passed, `insertChild` gives the parent a child list
and then looks at the index. -/
theorem insertChild_checked {parent child : NodeId} (hparent : parent < tree.size)
    (hchild : child < tree.size) (hfree : tree.parent? child = none)
    (hcycle : tree.isAncestorOrSelf child parent = false) (index : Nat) :
    insertChild parent index child tree =
      if (tree.children parent).length < index then
        .error (.indexOutOfRange parent index (tree.children parent).length)
          (tree.setChildren parent (some (tree.children parent)))
      else .ok () (tree.attach parent index child) := by
  obtain ⟨above, habove⟩ := exists_node?_of_lt hparent
  obtain ⟨node, hnode⟩ := exists_node?_of_lt hchild
  have hdetached : node.parent = none := by simpa [parent?, hnode] using hfree
  have hlist : (tree.setChildren parent (some (tree.children parent))).children parent =
      tree.children parent := by
    rw [children_setChildren hparent, if_pos rfl]
    rfl
  rw [insertChild, bind_ok (requireNode_ok habove), bind_ok (requireNode_ok hnode)]
  simp only [hdetached]
  rw [bind_ok (get_apply tree), hcycle, if_neg Bool.false_ne_true, bind_ok (update_ok hparent _),
    mapNode_ensureChildren, bind_ok (get_apply _), hlist]
  by_cases hindex : (tree.children parent).length < index
  · rw [if_pos hindex, if_pos hindex]
    rfl
  · rw [if_neg hindex, if_neg hindex, bind_ok (update_ok (by simpa using hparent) _)]
    change update child _ ((tree.setChildren parent _).setChildren parent _) = _
    rw [setChildren_setChildren, update_ok (by simpa using hchild)]
    rfl

/-- A child without a parent can be put under a node that is not below it. -/
theorem WellFormed.insertChild_ok (h : tree.WellFormed) {parent child : NodeId}
    (hparent : parent < tree.size) (hchild : child < tree.size) (hfree : tree.parent? child = none)
    (hcycle : ¬(child = parent ∨ Ancestor tree child parent)) {index : Nat}
    (hindex : index ≤ (tree.children parent).length) :
    insertChild parent index child tree = .ok () (tree.attach parent index child) := by
  have hanswer : tree.isAncestorOrSelf child parent = false := by
    rw [← Bool.not_eq_true, h.isAncestorOrSelf_iff]
    exact hcycle
  rw [insertChild_checked hparent hchild hfree hanswer, if_neg (Nat.not_lt.2 hindex)]

/-- `insertChild` leaves the tree as it is where it looks at the two nodes, unless it finds
nothing wrong with them. -/
theorem insertChild_checks (tree : Tree) (parent : NodeId) (index : Nat) (child : NodeId) :
    (∃ failure, insertChild parent index child tree = .error failure tree) ∨
    (parent < tree.size ∧ child < tree.size ∧ tree.parent? child = none ∧
      tree.isAncestorOrSelf child parent = false) := by
  by_cases hparent : parent < tree.size
  case neg =>
    refine Or.inl ⟨.unknownNode parent, ?_⟩
    rw [insertChild, bind_error (requireNode_error (Nat.le_of_not_lt hparent))]
  by_cases hchild : child < tree.size
  case neg =>
    obtain ⟨above, habove⟩ := exists_node?_of_lt hparent
    refine Or.inl ⟨.unknownNode child, ?_⟩
    rw [insertChild, bind_ok (requireNode_ok habove),
      bind_error (requireNode_error (Nat.le_of_not_lt hchild))]
  obtain ⟨above, habove⟩ := exists_node?_of_lt hparent
  obtain ⟨node, hnode⟩ := exists_node?_of_lt hchild
  cases hfree : tree.parent? child with
  | some existing =>
      have hattached : node.parent = some existing := by simpa [parent?, hnode] using hfree
      refine Or.inl ⟨.attached child existing, ?_⟩
      rw [insertChild, bind_ok (requireNode_ok habove), bind_ok (requireNode_ok hnode)]
      simp only [hattached]
      rfl
  | none =>
      cases hcycle : tree.isAncestorOrSelf child parent with
      | true =>
          have hdetached : node.parent = none := by simpa [parent?, hnode] using hfree
          refine Or.inl ⟨.cycle child parent, ?_⟩
          rw [insertChild, bind_ok (requireNode_ok habove), bind_ok (requireNode_ok hnode)]
          simp only [hdetached]
          rw [bind_ok (get_apply tree), hcycle]
          rfl
      | false => exact Or.inr ⟨hparent, hchild, rfl, rfl⟩

/-- The ways out of `insertChild`. -/
theorem insertChild_cases (tree : Tree) (parent : NodeId) (index : Nat) (child : NodeId) :
    (∃ failure, insertChild parent index child tree = .error failure tree) ∨
    (parent < tree.size ∧ (tree.children parent).length < index ∧
      ∃ failure, insertChild parent index child tree =
        .error failure (tree.setChildren parent (some (tree.children parent)))) ∨
    (parent < tree.size ∧ child < tree.size ∧ tree.parent? child = none ∧
      tree.isAncestorOrSelf child parent = false ∧ index ≤ (tree.children parent).length ∧
      insertChild parent index child tree = .ok () (tree.attach parent index child)) := by
  rcases insertChild_checks tree parent index child with
    hrefused | ⟨hparent, hchild, hfree, hcycle⟩
  · exact Or.inl hrefused
  · have hresult := insertChild_checked hparent hchild hfree hcycle index
    by_cases hindex : (tree.children parent).length < index
    · rw [if_pos hindex] at hresult
      exact Or.inr (Or.inl ⟨hparent, hindex, _, hresult⟩)
    · rw [if_neg hindex] at hresult
      exact Or.inr (Or.inr
        ⟨hparent, hchild, hfree, hcycle, Nat.le_of_not_lt hindex, hresult⟩)

theorem appendChild_eq (tree : Tree) (parent child : NodeId) :
    appendChild parent child tree =
      insertChild parent (tree.children parent).length child tree := by
  rw [appendChild, bind_ok (get_apply tree)]

/-- The place that `indexOf?` finds for a child. -/
theorem WellFormed.indexOf?_eq (h : tree.WellFormed) {parent child : NodeId}
    (hparent : tree.parent? child = some parent) :
    tree.indexOf? parent child = some ((tree.children parent).idxOf child) := by
  have hmem := h.mem_children_iff.2 hparent
  rw [indexOf?, List.findIdx?_eq_some_iff_findIdx_eq]
  exact ⟨List.idxOf_lt_length_of_mem hmem, by simp [List.idxOf, beq_eq_decide]⟩

theorem detach_unknown {child : NodeId} (h : tree.size ≤ child) :
    detach child tree = .error (.unknownNode child) tree := by
  rw [detach, bind_error (requireNode_error h)]

theorem detach_free {child : NodeId} (hchild : child < tree.size)
    (hfree : tree.parent? child = none) : detach child tree = .ok none tree := by
  obtain ⟨node, hnode⟩ := exists_node?_of_lt hchild
  have hdetached : node.parent = none := by simpa [parent?, hnode] using hfree
  rw [detach, bind_ok (requireNode_ok hnode)]
  simp only [hdetached]
  rfl

theorem WellFormed.detach_attached (h : tree.WellFormed) {parent child : NodeId}
    (hparent : tree.parent? child = some parent) :
    detach child tree = .ok (some (parent, (tree.children parent).idxOf child))
      (tree.release parent child) := by
  have hchild := lt_size_of_parent? hparent
  have habove := h.parent_lt_size hparent
  obtain ⟨node, hnode⟩ := exists_node?_of_lt hchild
  have hattached : node.parent = some parent := by simpa [parent?, hnode] using hparent
  rw [detach, bind_ok (requireNode_ok hnode)]
  simp only [hattached]
  rw [bind_ok (get_apply tree), h.indexOf?_eq hparent]
  simp only []
  rw [bind_ok (update_ok habove _), bind_ok (update_ok (by simpa using hchild) _),
    mapNode_children (List.ne_nil_of_mem (h.mem_children_iff.2 hparent)),
    ← List.erase_eq_eraseIdx_of_idxOf rfl]
  rfl

theorem swapChildren_ok {parent : NodeId} {first second : Nat}
    (hfirst : first < (tree.children parent).length)
    (hsecond : second < (tree.children parent).length) :
    swapChildren parent first second tree =
      .ok () (tree.setChildren parent (some (swapItems (tree.children parent) first second))) := by
  have hne : tree.children parent ≠ [] := by
    intro hnil
    rw [hnil] at hfirst
    exact Nat.not_lt_zero first hfirst
  rw [swapChildren, bind_ok (get_apply tree), if_neg (Nat.not_le.2 hfirst),
    if_neg (Nat.not_le.2 hsecond)]
  beta_reduce
  rw [update_ok (lt_size_of_children_ne_nil hne), mapNode_children hne]

/-- The ways out of `swapChildren`. -/
theorem swapChildren_cases (tree : Tree) (parent : NodeId) (first second : Nat) :
    (∃ failure, swapChildren parent first second tree = .error failure tree) ∨
    (first < (tree.children parent).length ∧ second < (tree.children parent).length ∧
      swapChildren parent first second tree =
        .ok () (tree.setChildren parent
          (some (swapItems (tree.children parent) first second)))) := by
  by_cases hfirst : first < (tree.children parent).length
  · by_cases hsecond : second < (tree.children parent).length
    · exact Or.inr ⟨hfirst, hsecond, swapChildren_ok hfirst hsecond⟩
    · rw [swapChildren, bind_ok (get_apply tree), if_neg (Nat.not_le.2 hfirst),
        if_pos (Nat.le_of_not_lt hsecond)]
      exact Or.inl ⟨_, rfl⟩
  · rw [swapChildren, bind_ok (get_apply tree), if_pos (Nat.le_of_not_lt hfirst)]
    exact Or.inl ⟨_, rfl⟩

section Swap

variable {α : Type} {items : List α} {first second : Nat}

theorem swapItems_eq_set (hfirst : first < items.length) (hsecond : second < items.length) :
    swapItems items first second = (items.set first items[second]).set second items[first] := by
  simp [swapItems, hfirst, hsecond]

theorem swapItems_perm (hfirst : first < items.length) (hsecond : second < items.length) :
    (swapItems items first second).Perm items := by
  rw [swapItems_eq_set hfirst hsecond]
  exact List.set_set_perm hfirst hsecond

/-- Exchanging two items twice gives the list back. -/
theorem swapItems_swapItems (hfirst : first < items.length) (hsecond : second < items.length) :
    swapItems (swapItems items first second) first second = items := by
  rw [swapItems_eq_set hfirst hsecond,
    swapItems_eq_set (by simpa using hfirst) (by simpa using hsecond)]
  apply List.ext_getElem?
  intro place
  simp only [List.getElem?_set, List.getElem_set, List.length_set]
  grind

end Swap

section Links

variable {parent child : NodeId}

theorem parent?_attach (hchild : child < tree.size) (index : Nat) (node : NodeId) :
    (tree.attach parent index child).parent? node =
      if node = child then some parent else tree.parent? node := by
  rw [attach, parent?_setParent (by simpa using hchild), parent?_setChildren]

theorem children_attach (hparent : parent < tree.size) (index : Nat) (node : NodeId) :
    (tree.attach parent index child).children node =
      if node = parent then (tree.children parent).insertIdx index child
      else tree.children node := by
  rw [attach, children_setParent, children_setChildren hparent]
  rfl

theorem parent?_release (hchild : child < tree.size) (node : NodeId) :
    (tree.release parent child).parent? node =
      if node = child then none else tree.parent? node := by
  rw [release, parent?_setParent (by simpa using hchild), parent?_setChildren]

theorem children_release (hparent : parent < tree.size) (node : NodeId) :
    (tree.release parent child).children node =
      if node = parent then (tree.children parent).erase child else tree.children node := by
  rw [release, children_setParent, children_setChildren hparent]
  rfl

/-- A line of ancestors after an attachment: an old one, or one that passes from
the subtree of `child` to `parent`. -/
theorem ancestor_attach (hchild : child < tree.size) {index : Nat} {above below : NodeId}
    (h : Ancestor (tree.attach parent index child) above below) :
    Ancestor tree above below ∨
      ((below = child ∨ Ancestor tree child below) ∧
        (above = parent ∨ Ancestor tree above parent)) := by
  induction h with
  | @parent below hparent =>
      rw [parent?_attach hchild] at hparent
      split at hparent
      · next heq => exact Or.inr ⟨Or.inl heq, Or.inl (Option.some.inj hparent).symm⟩
      · exact Or.inl (.parent hparent)
  | @step middle below hparent _ ih =>
      rw [parent?_attach hchild] at hparent
      split at hparent
      · next heq =>
          cases Option.some.inj hparent
          rcases ih with hline | ⟨_, hline⟩
          · exact Or.inr ⟨Or.inl heq, Or.inr hline⟩
          · exact Or.inr ⟨Or.inl heq, hline⟩
      · rcases ih with hline | ⟨rfl | hlower, hupper⟩
        · exact Or.inl (.step hparent hline)
        · exact Or.inr ⟨Or.inr (.parent hparent), hupper⟩
        · exact Or.inr ⟨Or.inr (.step hparent hlower), hupper⟩

end Links

namespace WellFormed

/-- Only sizes, parents and the numbers in child lists count. -/
theorem of_same_links (h : tree.WellFormed) {other : Tree} (hsize : other.size = tree.size)
    (hparent : ∀ node, other.parent? node = tree.parent? node)
    (hchildren : ∀ parent child,
      (other.children parent).count child = (tree.children parent).count child) :
    other.WellFormed where
  known parent child hmem := by
    rw [hsize]
    apply h.known parent child
    rw [← List.count_pos_iff, ← hchildren, List.count_pos_iff]
    exact hmem
  linked parent child := by rw [hchildren, hparent, h.linked]
  acyclic id hline := h.acyclic id (hline.mono fun node parent hnode => hparent node ▸ hnode)

theorem of_links_eq (h : tree.WellFormed) {other : Tree} (hlinks : other.links = tree.links) :
    other.WellFormed := by
  refine h.of_same_links (size_eq_of_links hlinks) (fun node => ?_) fun parent child => ?_
  · rw [parent?_eq_links, hlinks, ← parent?_eq_links]
  · rw [children_eq_links, hlinks, ← children_eq_links]

theorem setChildren (h : tree.WellFormed) {parent : NodeId} (hparent : parent < tree.size)
    {list : Option (List NodeId)} (hperm : (list.getD []).Perm (tree.children parent)) :
    (tree.setChildren parent list).WellFormed := by
  refine h.of_same_links (by simp) (by simp) fun node child => ?_
  rw [children_setChildren hparent]
  split
  · next heq => rw [heq, hperm.count_eq]
  · rfl

theorem mapNode_clearEmptyChildren (h : tree.WellFormed) (id : NodeId) :
    (tree.mapNode id Node.clearEmptyChildren).WellFormed := by
  by_cases hid : id < tree.size
  · obtain ⟨node, hnode⟩ := exists_node?_of_lt hid
    rw [Tree.mapNode_clearEmptyChildren hnode]
    split
    · next hempty =>
        refine h.setChildren hid ?_
        rw [children, hnode]
        simp [Node.childList, hempty]
    · exact h
  · rwa [mapNode_of_le (Nat.le_of_not_lt hid)]

theorem mapNode_ensureChildren (h : tree.WellFormed) (id : NodeId) :
    (tree.mapNode id Node.ensureChildren).WellFormed := by
  by_cases hid : id < tree.size
  · rw [Tree.mapNode_ensureChildren]
    exact h.setChildren hid (List.Perm.refl _)
  · rwa [mapNode_of_le (Nat.le_of_not_lt hid)]

theorem attach (h : tree.WellFormed) {parent child : NodeId} (hparent : parent < tree.size)
    (hchild : child < tree.size) (hfree : tree.parent? child = none)
    (hcycle : ¬(child = parent ∨ Ancestor tree child parent)) {index : Nat}
    (hindex : index ≤ (tree.children parent).length) :
    (tree.attach parent index child).WellFormed where
  known above below hmem := by
    rw [children_attach hparent] at hmem
    rw [size_attach]
    split at hmem
    · rcases List.eq_or_mem_of_mem_insertIdx hmem with rfl | hold
      · exact hchild
      · exact h.known parent below hold
    · exact h.known above below hmem
  linked above below := by
    rw [children_attach hparent, parent?_attach hchild]
    by_cases habove : above = parent
    · subst habove
      rw [if_pos rfl, (List.perm_insertIdx child _ hindex).count_eq, List.count_cons, h.linked]
      by_cases hbelow : below = child
      · simp [hbelow, hfree]
      · simp [hbelow, Ne.symm hbelow]
    · rw [if_neg habove, h.linked]
      by_cases hbelow : below = child
      · simp [hbelow, hfree, Ne.symm habove]
      · simp [hbelow]
  acyclic node hline := by
    rcases ancestor_attach hchild hline with hold | ⟨rfl | hlower, rfl | hupper⟩
    · exact h.acyclic node hold
    · exact hcycle (Or.inl rfl)
    · exact hcycle (Or.inr hupper)
    · exact hcycle (Or.inr hlower)
    · exact hcycle (Or.inr (hlower.trans hupper))

theorem release (h : tree.WellFormed) {parent child : NodeId}
    (hparent : tree.parent? child = some parent) : (tree.release parent child).WellFormed where
  known above below hmem := by
    rw [children_release (h.parent_lt_size hparent)] at hmem
    rw [size_release]
    split at hmem
    · exact h.known parent below (List.mem_of_mem_erase hmem)
    · exact h.known above below hmem
  linked above below := by
    rw [children_release (h.parent_lt_size hparent), parent?_release (lt_size_of_parent? hparent)]
    by_cases habove : above = parent
    · subst habove
      rw [if_pos rfl, List.count_erase, h.linked]
      by_cases hbelow : below = child
      · simp [hbelow, hparent]
      · simp [hbelow, Ne.symm hbelow]
    · rw [if_neg habove, h.linked]
      by_cases hbelow : below = child
      · simp [hbelow, hparent, Ne.symm habove]
      · simp [hbelow]
  acyclic node hline := by
    refine h.acyclic node (hline.mono fun below above hbelow => ?_)
    rw [parent?_release (lt_size_of_parent? hparent)] at hbelow
    split at hbelow
    · cases hbelow
    · exact hbelow

end WellFormed

end Tree

end FormDesigner
