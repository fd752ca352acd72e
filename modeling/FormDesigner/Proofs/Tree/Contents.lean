import FormDesigner.Proofs.Tree.Edits

/-!
Changes of links leave alone what the nodes hold.

This is so in every tree, well formed or not, and also for changes that fail.
-/

namespace FormDesigner

open Program

/-- Whatever the program does, the nodes hold the same as before. -/
def KeepsContents {ε α : Type} (program : TreeM ε α) : Prop :=
  ∀ tree, (finish program tree).contents = tree.contents

namespace KeepsContents

variable {ε ε' α β : Type} {program : TreeM ε α}

theorem pure (value : α) : KeepsContents (pure value : TreeM ε α) :=
  fun _ => rfl

theorem throw (failure : ε) : KeepsContents (throw failure : TreeM ε α) :=
  fun _ => rfl

theorem get : KeepsContents (get : TreeM ε Tree) :=
  fun _ => rfl

theorem bind {next : α → TreeM ε β} (hfirst : KeepsContents program)
    (hnext : ∀ value, KeepsContents (next value)) : KeepsContents (program >>= next) := by
  intro tree
  have hkept := hfirst tree
  rcases finish_bind_cases program next tree with ⟨value, hrest⟩ | hfailed
  · rw [hrest, hnext value]
    exact hkept
  · rw [hfailed]
    exact hkept

theorem throw_bind (failure : ε) (next : α → TreeM ε β) :
    KeepsContents (MonadExcept.throw failure >>= next) :=
  fun _ => rfl

theorem adaptExcept (h : KeepsContents program) (wrap : ε → ε') :
    KeepsContents (program.adaptExcept wrap) := by
  intro tree
  rw [finish_adaptExcept]
  exact h tree

theorem of_ok {tree after : Tree} {value : α} (h : KeepsContents program)
    (hrun : program tree = .ok value after) : after.contents = tree.contents := by
  rw [← h tree, finish_of_ok hrun]

theorem requireNode (id : NodeId) : KeepsContents (Tree.requireNode id) := by
  refine get.bind fun tree => ?_
  cases tree.node? id with
  | none => exact throw _
  | some node => exact pure node

theorem update (id : NodeId) {change : Node → Node}
    (h : ∀ node, (change node).content = node.content) : KeepsContents (Tree.update id change) :=
  (requireNode id).bind fun _ tree => Tree.contents_mapNode_of_content_eq tree id h

theorem insertChild (parent : NodeId) (index : Nat) (child : NodeId) :
    KeepsContents (Tree.insertChild parent index child) := by
  intro tree
  rcases Tree.insertChild_cases tree parent index child with
    ⟨_, hresult⟩ | ⟨_, _, _, hresult⟩ | ⟨_, _, _, _, _, hresult⟩
  · rw [finish_of_error hresult]
  · rw [finish_of_error hresult, Tree.contents_setChildren]
  · rw [finish_of_ok hresult, Tree.contents_attach]

theorem appendChild (parent child : NodeId) : KeepsContents (Tree.appendChild parent child) :=
  get.bind fun _ => insertChild parent _ child

theorem detach (child : NodeId) : KeepsContents (Tree.detach child) := by
  refine (requireNode child).bind fun node => ?_
  cases node.parent with
  | none => exact pure none
  | some parent =>
      refine get.bind fun tree => ?_
      cases tree.indexOf? parent child with
      | none =>
          refine bind (update child ?_) fun _ => pure _
          exact fun _ => rfl
      | some place =>
          refine bind (update parent ?_) fun _ => bind (update child ?_) fun _ => pure _
          · exact fun _ => rfl
          · exact fun _ => rfl

theorem swapChildren (parent : NodeId) (first second : Nat) :
    KeepsContents (Tree.swapChildren parent first second) := by
  intro tree
  rcases Tree.swapChildren_cases tree parent first second with ⟨_, hresult⟩ | ⟨_, _, hresult⟩
  · rw [finish_of_error hresult]
  · rw [finish_of_ok hresult, Tree.contents_setChildren]

theorem clearEmptyChildren (id : NodeId) :
    KeepsContents (Tree.update id Node.clearEmptyChildren) := by
  refine update id fun node => ?_
  rw [Node.clearEmptyChildren]
  split <;> rfl

theorem forM {ids : List NodeId} {visit : NodeId → TreeM ε Unit}
    (h : ∀ id, KeepsContents (visit id)) : KeepsContents (ids.forM visit) := by
  induction ids with
  | nil => exact fun _ => rfl
  | cons id rest ih => exact (h id).bind fun _ => ih

theorem relink (root : NodeId) : KeepsContents (Tree.relink root) := by
  refine (requireNode root).bind fun _ => get.bind fun tree => forM fun id => ?_
  exact get.bind fun middle => forM fun child => update child fun _ => rfl

end KeepsContents

end FormDesigner
