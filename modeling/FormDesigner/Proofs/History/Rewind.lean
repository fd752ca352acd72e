import FormDesigner.History.Action
import FormDesigner.Proofs.Tree.Edits

/-!
Programs that take the links of a tree back.

Such a program is known by the links that it starts from and those that it
leads to.  Nodes that were added to the tree in between stand behind the
others, and their links stay as they are.
-/

namespace FormDesigner

open Program

namespace Tree

variable {tree base : Tree} {added : List Links}

theorem links_mapNode_append (h : tree.links = base.links ++ added) {id : NodeId}
    (hid : id < base.size) {change : Node → Node} (relink : Links → Links)
    (hchange : ∀ node, (change node).links = relink node.links) :
    (tree.mapNode id change).links = (base.mapNode id change).links ++ added := by
  rw [links_mapNode tree id relink hchange, links_mapNode base id relink hchange, h]
  apply List.ext_getElem?
  intro place
  simp only [List.getElem?_modify, List.getElem?_append, List.length_modify, length_links]
  by_cases hplace : place < base.size
  · simp [hplace]
  · have hne : ¬id = place := fun heq => hplace (heq ▸ hid)
    simp [hplace, hne]

theorem links_setChildren_append (h : tree.links = base.links ++ added) {id : NodeId}
    (hid : id < base.size) (list : Option (List NodeId)) :
    (tree.setChildren id list).links = (base.setChildren id list).links ++ added :=
  links_mapNode_append h hid (fun links => { links with children := list }) fun _ => rfl

theorem links_setParent_append (h : tree.links = base.links ++ added) {id : NodeId}
    (hid : id < base.size) (above : Option NodeId) :
    (tree.setParent id above).links = (base.setParent id above).links ++ added :=
  links_mapNode_append h hid (fun links => { links with parent := above }) fun _ => rfl

theorem setChildren_of_node? {id : NodeId} {node : Node} (h : tree.node? id = some node) :
    tree.setChildren id node.children = tree :=
  mapNode_of_fixed h rfl

theorem setParent_of_parent? {id : NodeId} {above : Option NodeId}
    (h : tree.parent? id = above) : tree.setParent id above = tree := by
  subst h
  by_cases hid : id < tree.size
  · obtain ⟨node, hnode⟩ := exists_node?_of_lt hid
    exact mapNode_of_fixed hnode (by simp [parent?, hnode])
  · exact mapNode_of_le (Nat.le_of_not_lt hid) _

theorem setParent_setParent (tree : Tree) (id : NodeId) (first second : Option NodeId) :
    (tree.setParent id first).setParent id second = tree.setParent id second :=
  mapNode_mapNode tree id _ _

theorem setChildren_setParent (tree : Tree) (id other : NodeId) (list : Option (List NodeId))
    (above : Option NodeId) :
    (tree.setParent other above).setChildren id list =
      (tree.setChildren id list).setParent other above := by
  apply ext_node?
  intro place
  simp only [setParent, setChildren, node?_mapNode]
  cases tree.node? place <;> grind

/-- A node that is put back at its place was never away. -/
theorem WellFormed.attach_release (h : tree.WellFormed) {parent child : NodeId}
    (hparent : tree.parent? child = some parent) :
    (tree.release parent child).attach parent ((tree.children parent).idxOf child) child =
      tree := by
  have hmem := h.mem_children_iff.2 hparent
  have hplace := List.idxOf_lt_length_of_mem hmem
  obtain ⟨node, hnode, hlist⟩ := exists_children_of_ne_nil (List.ne_nil_of_mem hmem)
  have hback : ((tree.children parent).erase child).insertIdx
      ((tree.children parent).idxOf child) child = tree.children parent := by
    rw [List.erase_eq_eraseIdx_of_idxOf rfl]
    have hinsert := List.insertIdx_eraseIdx_getElem hplace
    rwa [List.getElem_idxOf] at hinsert
  rw [Tree.attach, children_release (h.parent_lt_size hparent), if_pos rfl, hback, Tree.release,
    setChildren_setParent, setChildren_setChildren, setParent_setParent, ← hlist,
    setChildren_of_node? hnode, setParent_of_parent? hparent]

/-- A node that is put behind the others and taken out again leaves a child list. -/
theorem WellFormed.release_attach (h : tree.WellFormed) {parent child : NodeId}
    (hparent : parent < tree.size) (hfree : tree.parent? child = none) :
    (tree.attach parent (tree.children parent).length child).release parent child =
      tree.setChildren parent (some (tree.children parent)) := by
  have hnot : child ∉ tree.children parent := by
    rw [h.mem_children_iff, hfree]
    exact nofun
  have hback : ((tree.children parent).insertIdx (tree.children parent).length child).erase child =
      tree.children parent := by
    rw [List.insertIdx_length_self, List.erase_append_right _ hnot, List.erase_cons_head,
      List.append_nil]
  rw [Tree.release, children_attach hparent, if_pos rfl, hback, Tree.attach, setChildren_setParent,
    setChildren_setChildren, setParent_setParent]
  exact setParent_of_parent? (by rw [parent?_setChildren, hfree])

end Tree

/-- From the links `after` the program leads to the links `before`.  Links of
further nodes behind them stay. -/
def Rewinds {ε α : Type} (program : TreeM ε α) (after before : List Links) : Prop :=
  ∀ (tree : Tree) (added : List Links), tree.WellFormed → tree.links = after ++ added →
    ∃ value back, program tree = .ok value back ∧ back.WellFormed ∧ back.links = before ++ added

namespace Rewinds

section Sequences

variable {ε ε' α β : Type} {program : TreeM ε α} {after middle before : List Links}

theorem pure (value : α) : Rewinds (pure value : TreeM ε α) before before :=
  fun tree _ htree hlinks => ⟨value, tree, rfl, htree, hlinks⟩

theorem bind {next : α → TreeM ε β} (hfirst : Rewinds program after middle)
    (hnext : ∀ value, Rewinds (next value) middle before) :
    Rewinds (program >>= next) after before := by
  intro tree added htree hlinks
  obtain ⟨value, between, hrun, hbetween, hmiddle⟩ := hfirst tree added htree hlinks
  obtain ⟨answer, back, hrest, hback, hbefore⟩ := hnext value between added hbetween hmiddle
  exact ⟨answer, back, by rw [bind_ok hrun, hrest], hback, hbefore⟩

theorem adaptExcept (h : Rewinds program after before) (wrap : ε → ε') :
    Rewinds (program.adaptExcept wrap) after before := by
  intro tree added htree hlinks
  obtain ⟨value, back, hrun, hrest⟩ := h tree added htree hlinks
  exact ⟨value, back, adaptExcept_ok hrun, hrest⟩

theorem append (h : Rewinds program after before) (more : List Links) :
    Rewinds program (after ++ more) (before ++ more) := by
  intro tree added htree hlinks
  rw [List.append_assoc] at hlinks
  obtain ⟨value, back, hrun, hback, hbefore⟩ := h tree (more ++ added) htree hlinks
  exact ⟨value, back, hrun, hback, by rw [hbefore, List.append_assoc]⟩

end Sequences

section Steps

variable {base : Tree} {parent child : NodeId}

theorem detach_free (hchild : child < base.size) (hfree : base.parent? child = none) :
    Rewinds (Tree.detach child) base.links base.links := by
  intro tree added htree hlinks
  have hknown := Nat.lt_of_lt_of_le hchild (Tree.size_le_of_links_append hlinks)
  rw [← Tree.parent?_of_links_append hlinks hchild] at hfree
  exact ⟨_, tree, Tree.detach_free hknown hfree, htree, hlinks⟩

theorem detach (h : base.WellFormed) (hparent : base.parent? child = some parent) :
    Rewinds (Tree.detach child) base.links (base.release parent child).links := by
  intro tree added htree hlinks
  have hchild := Tree.lt_size_of_parent? hparent
  have habove := h.parent_lt_size hparent
  have hattached : tree.parent? child = some parent := by
    rw [Tree.parent?_of_links_append hlinks hchild, hparent]
  refine ⟨_, _, htree.detach_attached hattached, htree.release hattached, ?_⟩
  rw [Tree.release, Tree.children_of_links_append hlinks habove]
  exact Tree.links_setParent_append (Tree.links_setChildren_append hlinks habove _)
    (by simpa using hchild) none

theorem insertChild (h : base.WellFormed) (hparent : parent < base.size)
    (hchild : child < base.size) (hfree : base.parent? child = none)
    (hcycle : ¬(child = parent ∨ Tree.Ancestor base child parent)) {index : Nat}
    (hindex : index ≤ (base.children parent).length) :
    Rewinds (Tree.insertChild parent index child) base.links
      (base.attach parent index child).links := by
  intro tree added htree hlinks
  have hsize := Tree.size_le_of_links_append hlinks
  have habove := Nat.lt_of_lt_of_le hparent hsize
  have hbelow := Nat.lt_of_lt_of_le hchild hsize
  have hlist := Tree.children_of_links_append hlinks hparent
  have hdetached : tree.parent? child = none := by
    rw [Tree.parent?_of_links_append hlinks hchild, hfree]
  have hline : ¬(child = parent ∨ Tree.Ancestor tree child parent) := by
    rintro (heq | hline)
    · exact hcycle (Or.inl heq)
    · exact hcycle (Or.inr (hline.of_links_append h hlinks hparent))
  have hroom : index ≤ (tree.children parent).length := by rwa [hlist]
  refine ⟨(), tree.attach parent index child,
    htree.insertChild_ok habove hbelow hdetached hline hroom,
    htree.attach habove hbelow hdetached hline hroom, ?_⟩
  rw [Tree.attach, hlist]
  exact Tree.links_setParent_append (Tree.links_setChildren_append hlinks hparent _)
    (by simpa using hchild) (some parent)

theorem swapChildren {first second : Nat} (hfirst : first < (base.children parent).length)
    (hsecond : second < (base.children parent).length) :
    Rewinds (Tree.swapChildren parent first second) base.links
      (base.setChildren parent
        (some (Tree.swapItems (base.children parent) first second))).links := by
  intro tree added htree hlinks
  have hne : base.children parent ≠ [] := List.ne_nil_of_length_pos (Nat.zero_lt_of_lt hfirst)
  have hparent := Tree.lt_size_of_children_ne_nil hne
  have hlist := Tree.children_of_links_append hlinks hparent
  rw [← hlist] at hfirst hsecond ⊢
  refine ⟨(), _, Tree.swapChildren_ok hfirst hsecond, ?_,
    Tree.links_setChildren_append hlinks hparent _⟩
  exact htree.setChildren (Nat.lt_of_lt_of_le hparent (Tree.size_le_of_links_append hlinks))
    (Tree.swapItems_perm hfirst hsecond)

end Steps

end Rewinds

end FormDesigner
