import FormDesigner.Proofs.Tree.Contents
import FormDesigner.Proofs.Tree.Runs

/-!
Which parent links a change of a tree can make.

Every change keeps the components of the nodes, and a link that is new afterwards is one of
those that the change is said to make.  This holds of changes that fail too.
-/

namespace FormDesigner

open Program

/-- The nodes are still of their components, and the parent links that are new are among
those allowed. -/
structure Tree.Relinked (allowed : NodeId → NodeId → Prop) (tree after : Tree) : Prop where
  wellFormed : after.WellFormed
  component : ∀ id node, tree.node? id = some node →
    ∃ found, after.node? id = some found ∧ found.component = node.component
  parent : ∀ child above, after.parent? child = some above →
    tree.parent? child = some above ∨ allowed child above

/-- Whatever the program does to a well-formed tree, it makes no links but those allowed. -/
def Relinks {ε α : Type} (allowed : NodeId → NodeId → Prop) (program : TreeM ε α) : Prop :=
  ∀ tree : Tree, tree.WellFormed → tree.Relinked allowed (finish program tree)

/-- No link at all. -/
def NoLink (_ _ : NodeId) : Prop := False

namespace Tree.Relinked

variable {allowed : NodeId → NodeId → Prop} {tree middle after : Tree}

theorem refl (h : tree.WellFormed) : tree.Relinked allowed tree where
  wellFormed := h
  component := fun _ node hnode => ⟨node, hnode, rfl⟩
  parent := fun _ _ hparent => Or.inl hparent

theorem trans (hfirst : tree.Relinked allowed middle) (hsecond : middle.Relinked allowed after) :
    tree.Relinked allowed after where
  wellFormed := hsecond.wellFormed
  component := by
    intro id node hnode
    obtain ⟨between, hbetween, hname⟩ := hfirst.component id node hnode
    obtain ⟨found, hfound, hsame⟩ := hsecond.component id between hbetween
    exact ⟨found, hfound, hsame.trans hname⟩
  parent := by
    intro child above hparent
    rcases hsecond.parent child above hparent with hold | hnew
    · exact hfirst.parent child above hold
    · exact Or.inr hnew

/-- A change of links alone. -/
theorem of_contents (hafter : after.WellFormed) (hcontents : after.contents = tree.contents)
    (hparent : ∀ child above, after.parent? child = some above →
      tree.parent? child = some above ∨ allowed child above) : tree.Relinked allowed after where
  wellFormed := hafter
  component := by
    intro id node hnode
    obtain ⟨found, hfound, hname, _⟩ := exists_of_contents_eq hcontents hnode
    exact ⟨found, hfound, hname⟩
  parent := hparent

/-- A change of the values of one node. -/
theorem refill (h : tree.WellFormed) (id : NodeId) (change : Node → Fields Datum) :
    tree.Relinked allowed (tree.mapNode id fun node => { node with fields := change node }) := by
  have hlinks : (tree.mapNode id fun node => { node with fields := change node }).links =
      tree.links := links_mapNode_of_links_eq tree id fun _ => rfl
  constructor
  · exact h.of_links_eq hlinks
  · intro place node hnode
    rw [node?_mapNode, hnode]
    split
    · exact ⟨_, rfl, rfl⟩
    · exact ⟨node, rfl, rfl⟩
  · intro child above hparent
    rw [parent?_eq_links, hlinks, ← parent?_eq_links] at hparent
    exact Or.inl hparent

/-- Every change keeps the nodes. -/
theorem size_le (h : tree.Relinked allowed after) : tree.size ≤ after.size := by
  by_contra hless
  obtain ⟨node, hnode⟩ := exists_node?_of_lt (Nat.lt_of_not_le hless)
  obtain ⟨found, hfound, _⟩ := h.component after.size node hnode
  exact Nat.lt_irrefl _ (lt_size_of_node? hfound)

end Tree.Relinked

namespace Relinks

variable {ε ε' α β : Type} {allowed : NodeId → NodeId → Prop} {program : TreeM ε α}

theorem pure (value : α) : Relinks allowed (pure value : TreeM ε α) := by
  intro tree htree
  exact .refl htree

theorem throw (failure : ε) : Relinks allowed (throw failure : TreeM ε α) := by
  intro tree htree
  exact .refl htree

theorem get : Relinks allowed (get : TreeM ε Tree) := by
  intro tree htree
  exact .refl htree

theorem bind {next : α → TreeM ε β} (hfirst : Relinks allowed program)
    (hnext : ∀ value, Relinks allowed (next value)) : Relinks allowed (program >>= next) := by
  intro tree htree
  have hmiddle := hfirst tree htree
  rcases finish_bind_cases program next tree with ⟨value, hrest⟩ | hfailed
  · rw [hrest]
    exact hmiddle.trans (hnext value _ hmiddle.wellFormed)
  · rw [hfailed]
    exact hmiddle

theorem adaptExcept (h : Relinks allowed program) (wrap : ε → ε') :
    Relinks allowed (program.adaptExcept wrap) := by
  intro tree htree
  rw [finish_adaptExcept]
  exact h tree htree

theorem forM {ids : List NodeId} {visit : NodeId → TreeM ε Unit}
    (h : ∀ id, Relinks allowed (visit id)) : Relinks allowed (ids.forM visit) := by
  induction ids with
  | nil =>
      intro tree htree
      exact .refl htree
  | cons id rest ih => exact (h id).bind fun _ => ih

theorem requireNode (id : NodeId) : Relinks allowed (Tree.requireNode id) := by
  apply get.bind
  intro tree
  cases tree.node? id with
  | none => exact throw _
  | some node => exact pure node

theorem refill (id : NodeId) (change : Node → Fields Datum) :
    Relinks allowed (Tree.update id fun node => { node with fields := change node }) := by
  apply (requireNode id).bind
  intro _ tree htree
  exact .refill htree id change

theorem store (id : NodeId) (name : String) (datum : Datum) :
    Relinks allowed (Tree.store id name datum) := by
  intro tree htree
  rw [Tree.finish_store]
  exact .refill htree id fun node => Fields.put name datum node.fields

theorem clearEmptyChildren (id : NodeId) :
    Relinks allowed (Tree.update id Node.clearEmptyChildren) := by
  intro tree htree
  have hcontents := KeepsContents.clearEmptyChildren id tree
  rw [Tree.finish_update] at hcontents ⊢
  apply Tree.Relinked.of_contents (htree.mapNode_clearEmptyChildren id) hcontents
  intro child above hparent
  left
  rw [Tree.parent?, Tree.node?_mapNode] at hparent
  rw [Tree.parent?]
  split at hparent
  · cases hnode : tree.node? child with
    | none =>
        rw [hnode] at hparent
        cases hparent
    | some node =>
        rw [hnode, Option.map_some, Option.bind_some, Node.clearEmptyChildren] at hparent
        split at hparent
        · exact hparent
        · exact hparent
  · exact hparent

/-- A node is put under another one. -/
theorem insertChild {parent child : NodeId} (h : allowed child parent) (index : Nat) :
    Relinks allowed (Tree.insertChild parent index child) := by
  intro tree htree
  apply Tree.Relinked.of_contents (htree.insertChild parent index child)
    (KeepsContents.insertChild parent index child tree)
  intro node above hparent
  rcases Tree.insertChild_cases tree parent index child with
    ⟨_, hresult⟩ | ⟨_, _, _, hresult⟩ | ⟨_, hchild, _, _, _, hresult⟩
  · rw [finish_of_error hresult] at hparent
    exact Or.inl hparent
  · rw [finish_of_error hresult, Tree.parent?_setChildren] at hparent
    exact Or.inl hparent
  · rw [finish_of_ok hresult, Tree.parent?_attach hchild] at hparent
    split at hparent
    · next heq =>
        cases hparent
        right
        rw [heq]
        exact h
    · exact Or.inl hparent

theorem appendChild {parent child : NodeId} (h : allowed child parent) :
    Relinks allowed (Tree.appendChild parent child) :=
  get.bind fun _ => insertChild h _

/-- A node is taken out of its parent. -/
theorem detach (child : NodeId) : Relinks allowed (Tree.detach child) := by
  intro tree htree
  apply Tree.Relinked.of_contents (htree.detach child) (KeepsContents.detach child tree)
  intro node above hparent
  left
  cases hattached : tree.parent? child with
  | some parent =>
      have hchild := Tree.lt_size_of_parent? hattached
      rw [finish_of_ok (htree.detach_attached hattached), Tree.parent?_release hchild] at hparent
      split at hparent
      · cases hparent
      · exact hparent
  | none =>
      by_cases hchild : child < tree.size
      · rwa [finish_of_ok (Tree.detach_free hchild hattached)] at hparent
      · rwa [finish_of_error (Tree.detach_unknown (Nat.le_of_not_lt hchild))] at hparent

theorem swapChildren (parent : NodeId) (first second : Nat) :
    Relinks allowed (Tree.swapChildren parent first second) := by
  intro tree htree
  apply Tree.Relinked.of_contents (htree.swapChildren parent first second)
    (KeepsContents.swapChildren parent first second tree)
  intro node above hparent
  left
  rcases Tree.swapChildren_cases tree parent first second with ⟨_, hresult⟩ | ⟨_, _, hresult⟩
  · rwa [finish_of_error hresult] at hparent
  · rwa [finish_of_ok hresult, Tree.parent?_setChildren] at hparent

/-- In a well-formed tree the parent links are set already. -/
theorem relink (root : NodeId) : Relinks allowed (Tree.relink root) := by
  intro tree htree
  by_cases hroot : root < tree.size
  · rw [finish_of_ok (htree.relink_ok hroot)]
    exact .refl htree
  · have hnone := Tree.requireNode_error (Nat.le_of_not_lt hroot)
    rw [finish_of_error (show Tree.relink root tree = _ from bind_error hnone)]
    exact .refl htree

end Relinks

/-- What is noted of a node that is taken out is the parent that it had. -/
theorem Tree.WellFormed.parent?_of_detach {tree after : Tree} (h : tree.WellFormed)
    {child above : NodeId} {index : Nat}
    (hdetach : Tree.detach child tree = .ok (some (above, index)) after) :
    tree.parent? child = some above := by
  cases hattached : tree.parent? child with
  | some parent =>
      rw [h.detach_attached hattached] at hdetach
      cases hdetach
      rfl
  | none =>
      by_cases hchild : child < tree.size
      · rw [Tree.detach_free hchild hattached] at hdetach
        cases hdetach
      · rw [Tree.detach_unknown (Nat.le_of_not_lt hchild)] at hdetach
        cases hdetach

/-- No change takes nodes away, also if it fails. -/
theorem Tree.size_le_perform (tree : Tree) (edit : TreeEdit) :
    tree.size ≤ (edit.perform tree).size := by
  have hcontents : ∀ {α : Type} {program : TreeM TreeError α}, KeepsContents program →
      tree.size ≤ (finish program tree).size := by
    intro α program h
    apply Nat.le_of_eq
    rw [← length_contents, ← h tree, length_contents]
  cases edit with
  | insert node => exact Nat.le_of_lt (by simp [TreeEdit.perform])
  | plant blueprint => exact Nat.le_of_lt (size_lt_size_plant tree blueprint)
  | appendChild parent child => exact hcontents (.appendChild parent child)
  | insertChild parent index child => exact hcontents (.insertChild parent index child)
  | detach child => exact hcontents (.detach child)
  | swapChildren parent first second => exact hcontents (.swapChildren parent first second)
  | relink root => exact hcontents (.relink root)
  | ensureChildren id => exact hcontents (.update id fun _ => rfl)
  | clearEmptyChildren id => simp [TreeEdit.perform, finish_clearEmptyChildren]
  | store id name datum => simp [TreeEdit.perform, finish_store, setValue]
  | remove id name => simp [TreeEdit.perform, finish_remove, dropValue]
  | refill id change => simp [TreeEdit.perform, finish_update]

end FormDesigner
