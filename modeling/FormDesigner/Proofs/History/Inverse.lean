import FormDesigner.Proofs.History.Rewind
import FormDesigner.Proofs.Tree.Contents
import FormDesigner.Proofs.Tree.Placing

/-!
Taking an action back is the inverse of applying it.

An action that is applied notes enough about the links it changes that taking
it back restores them.  The values of nodes play no part in it.
-/

namespace FormDesigner

open Program

namespace Rewinds

variable {base : Tree} {parent child : NodeId}

theorem clearEmptyChildren (hparent : parent < base.size) :
    Rewinds (Tree.update parent Node.clearEmptyChildren) base.links
      (base.mapNode parent Node.clearEmptyChildren).links := by
  intro tree added htree hlinks
  have hknown := Nat.lt_of_lt_of_le hparent (Tree.size_le_of_links_append hlinks)
  refine ⟨(), _, Tree.update_ok hknown _, htree.mapNode_clearEmptyChildren parent, ?_⟩
  refine Tree.links_mapNode_append hlinks hparent
    (fun links => if links.children = some [] then { links with children := none } else links)
    fun node => ?_
  by_cases hempty : node.children = some [] <;> simp [Node.clearEmptyChildren, Node.links, hempty]

/-- A child list that the action created goes away again. -/
theorem clearCreated {node : Node} (hnode : base.node? parent = some node) :
    Rewinds (Action.clearCreated parent node.children.isNone)
      (base.setChildren parent (some (base.children parent))).links base.links := by
  have hlist : base.children parent = node.childList := by simp [Tree.children, hnode]
  have hself := Tree.setChildren_of_node? hnode
  cases hchildren : node.children with
  | none =>
      rw [hlist, Node.childList, hchildren]
      have hset : (base.setChildren parent (some [])).node? parent =
          some { node with children := some [] } := by
        rw [Tree.setChildren, Tree.node?_mapNode, if_pos rfl, hnode]
        rfl
      have hparent : parent < (base.setChildren parent (some [])).size := by
        simpa using Tree.lt_size_of_node? hnode
      have hclear := clearEmptyChildren hparent
      rw [Tree.mapNode_clearEmptyChildren hset, if_pos rfl, Tree.setChildren_setChildren,
        ← hchildren, hself] at hclear
      exact hclear
  | some list =>
      rw [hlist, Node.childList, hchildren, Option.getD_some, ← hchildren, hself, hchildren]
      exact Rewinds.pure ()

/-- The links before a child was put behind the others. -/
theorem unattach (h : base.WellFormed) {node : Node} (hnode : base.node? parent = some node)
    (hchild : child < base.size) (hfree : base.parent? child = none)
    (hcycle : ¬(child = parent ∨ Tree.Ancestor base child parent)) :
    Rewinds (do
        let _ ← Action.onTree (Tree.detach child)
        Action.onTree (Action.clearCreated parent node.children.isNone))
      (base.attach parent (base.children parent).length child).links base.links := by
  have hparent := Tree.lt_size_of_node? hnode
  have hafter := h.attach hparent hchild hfree hcycle (Nat.le_refl _)
  have hattached : (base.attach parent (base.children parent).length child).parent? child =
      some parent := by
    rw [Tree.parent?_attach hchild, if_pos rfl]
  have hdetach := Rewinds.detach hafter hattached
  rw [h.release_attach hparent hfree] at hdetach
  exact (hdetach.adaptExcept HistoryError.tree).bind fun _ => (clearCreated hnode).adaptExcept _

/-- The links before a child was taken out. -/
theorem restore (h : base.WellFormed) (hparent : base.parent? child = some parent) :
    Rewinds (Action.restore child (some (parent, (base.children parent).idxOf child)))
      (base.release parent child).links base.links := by
  have hchild := Tree.lt_size_of_parent? hparent
  have habove := h.parent_lt_size hparent
  have hplace := List.idxOf_lt_length_of_mem (h.mem_children_iff.2 hparent)
  have hcycle : ¬(child = parent ∨ Tree.Ancestor (base.release parent child) child parent) := by
    rintro (rfl | hline)
    · exact h.acyclic child (.parent hparent)
    · refine h.acyclic child (.step hparent (hline.mono fun below above hbelow => ?_))
      rw [Tree.parent?_release hchild] at hbelow
      split at hbelow
      · cases hbelow
      · exact hbelow
  have hroom : (base.children parent).idxOf child ≤
      ((base.release parent child).children parent).length := by
    rw [Tree.children_release habove, if_pos rfl,
      List.length_erase_of_mem (h.mem_children_iff.2 hparent)]
    omega
  have hinsert := Rewinds.insertChild (h.release hparent) (by simpa using habove)
    (by simpa using hchild) (by rw [Tree.parent?_release hchild, if_pos rfl]) hcycle hroom
  rwa [h.attach_release hparent] at hinsert

end Rewinds

namespace Action

variable {tree : Tree} {registry : Registry}

/-- Whether an action changes links.  The others note a change of values. -/
def isStructural : Action → Bool
  | .modification _ _ => false
  | _ => true

theorem onTree_ok {α : Type} {change : TreeM TreeError α} {after : Tree} {value : α}
    (h : change tree = .ok value after) : onTree change tree = .ok value after :=
  adaptExcept_ok h

theorem onTree_error {α : Type} {change : TreeM TreeError α} {after : Tree} {failure : TreeError}
    (h : change tree = .error failure after) :
    onTree change tree = .error (.tree failure) after :=
  adaptExcept_error h

theorem lacksList_ok {id : NodeId} {node : Node} (h : tree.node? id = some node) :
    lacksList id tree = .ok node.children.isNone tree := by
  rw [lacksList, bind_ok (Tree.requireNode_ok h)]
  rfl

theorem lacksList_error {id : NodeId} (h : tree.size ≤ id) :
    lacksList id tree = .error (.unknownNode id) tree := by
  rw [lacksList, bind_error (Tree.requireNode_error h)]

/-- Taking out a known node: it has no parent afterwards, there are no new links,
and `restore` puts it back. -/
theorem detach_known (h : tree.WellFormed) {child : NodeId} (hchild : child < tree.size) :
    ∃ origin between, Tree.detach child tree = .ok origin between ∧ between.WellFormed ∧
      between.size = tree.size ∧ between.parent? child = none ∧
      (∀ node parent, between.parent? node = some parent → tree.parent? node = some parent) ∧
      Rewinds (restore child origin) between.links tree.links := by
  cases hparent : tree.parent? child with
  | none =>
      exact ⟨none, tree, Tree.detach_free hchild hparent, h, rfl, hparent,
        fun _ _ hnode => hnode, Rewinds.pure ()⟩
  | some parent =>
      refine ⟨_, _, h.detach_attached hparent, h.release hparent, by simp, ?_, ?_,
        Rewinds.restore h hparent⟩
      · rw [Tree.parent?_release hchild, if_pos rfl]
      · intro node above hnode
        rw [Tree.parent?_release hchild] at hnode
        split at hnode
        · cases hnode
        · exact hnode

/-- The ways out of an action that changes links: it fails and does nothing, or
it notes how to take it back. -/
def Invertible (registry : Registry) (action : Action) (tree : Tree) : Prop :=
  (∃ failure, action.apply tree = .error failure tree) ∨
  ∃ applied after, action.apply tree = .ok applied after ∧ applied.isStructural = true ∧
    after.WellFormed ∧ Rewinds (applied.revert registry) after.links tree.links

/-- An action that succeeds, puts a node behind the children of another one, and notes how to take
that back. -/
def Places (registry : Registry) (action : Action) (tree : Tree) (parent child : NodeId) : Prop :=
  ∃ applied after, action.apply tree = .ok applied after ∧ applied.isStructural = true ∧
    after.WellFormed ∧ Rewinds (applied.revert registry) after.links tree.links ∧
    tree.PutLast parent child after

theorem Places.invertible {action : Action} {parent child : NodeId}
    (h : action.Places registry tree parent child) : action.Invertible registry tree := by
  obtain ⟨applied, after, happly, hkind, hafter, hrewinds, -⟩ := h
  exact Or.inr ⟨applied, after, happly, hkind, hafter, hrewinds⟩

theorem invertible_reorder (h : tree.WellFormed) (parent : NodeId) (first second : Nat) :
    (Action.reorder parent first second).Invertible registry tree := by
  rcases Tree.swapChildren_cases tree parent first second with
    ⟨failure, hresult⟩ | ⟨hfirst, hsecond, hresult⟩
  · left
    exact ⟨.tree failure, by rw [apply, bind_error (onTree_error hresult)]⟩
  · right
    have hne : tree.children parent ≠ [] := List.ne_nil_of_length_pos (Nat.zero_lt_of_lt hfirst)
    have hparent := Tree.lt_size_of_children_ne_nil hne
    have hlist : (tree.setChildren parent
        (some (Tree.swapItems (tree.children parent) first second))).children parent =
          Tree.swapItems (tree.children parent) first second := by
      rw [Tree.children_setChildren hparent, if_pos rfl]
      rfl
    have hlength := (Tree.swapItems_perm hfirst hsecond).length_eq
    have hback := Rewinds.swapChildren (by rw [hlist, hlength]; exact hfirst)
      (by rw [hlist, hlength]; exact hsecond)
    rw [hlist, Tree.swapItems_swapItems hfirst hsecond, Tree.setChildren_setChildren] at hback
    obtain ⟨node, hnode, hchildren⟩ := Tree.exists_children_of_ne_nil hne
    rw [← hchildren, Tree.setChildren_of_node? hnode] at hback
    have hafter : (tree.setChildren parent
        (some (Tree.swapItems (tree.children parent) first second))).WellFormed :=
      h.setChildren hparent (Tree.swapItems_perm hfirst hsecond)
    refine ⟨.reorder parent first second, _, ?_, rfl, hafter,
      hback.adaptExcept HistoryError.tree⟩
    rw [apply, bind_ok (onTree_ok hresult)]
    rfl

theorem invertible_delete (h : tree.WellFormed) (child : NodeId) (noted : Option (NodeId × Nat)) :
    (Action.delete child noted).Invertible registry tree := by
  by_cases hchild : child < tree.size
  · obtain ⟨node, hnode⟩ := Tree.exists_node?_of_lt hchild
    have hfound : onTree (Tree.requireNode child) tree = .ok node tree :=
      onTree_ok (Tree.requireNode_ok hnode)
    by_cases hfree : node.parent.isNone = true
    · left
      refine ⟨.notAttached child, ?_⟩
      rw [apply, bind_ok hfound, if_pos hfree]
      rfl
    · right
      obtain ⟨origin, between, hdetach, hbetween, hsize, hdetached, _, hrestore⟩ :=
        detach_known h hchild
      refine ⟨.delete child origin, between, ?_, rfl, hbetween, ?_⟩
      · rw [apply, bind_ok hfound, if_neg hfree]
        beta_reduce
        rw [bind_ok (onTree_ok hdetach)]
        rfl
      · have hfirst := Rewinds.detach_free (hsize.symm ▸ hchild) hdetached
        exact (hfirst.adaptExcept HistoryError.tree).bind fun _ =>
          hrestore.adaptExcept HistoryError.tree
  · left
    refine ⟨.tree (.unknownNode child), ?_⟩
    rw [apply, bind_error (onTree_error (Tree.requireNode_error (Nat.le_of_not_lt hchild)))]

/-- A node without a parent is put under one that is not below it. -/
theorem places_create (h : tree.WellFormed) {child parent : NodeId} (hchild : child < tree.size)
    (hparent : parent < tree.size) (hfree : tree.parent? child = none)
    (hcycle : ¬(child = parent ∨ Tree.Ancestor tree child parent)) (noted : Bool) :
    (Action.create child parent noted).Places registry tree parent child := by
  obtain ⟨node, hnode⟩ := Tree.exists_node?_of_lt hparent
  have happend : Tree.appendChild parent child tree =
      .ok () (tree.attach parent (tree.children parent).length child) := by
    rw [Tree.appendChild_eq]
    exact h.insertChild_ok hparent hchild hfree hcycle (Nat.le_refl _)
  refine ⟨.create child parent node.children.isNone, _, ?_, rfl,
    h.attach hparent hchild hfree hcycle (Nat.le_refl _),
    Rewinds.unattach h hnode hchild hfree hcycle,
    (h.freed_self hfree).putLast h rfl hchild hparent⟩
  rw [apply, bind_ok (onTree_ok (lacksList_ok hnode)), bind_ok (onTree_ok happend)]
  rfl

theorem invertible_create (h : tree.WellFormed) (child parent : NodeId) (noted : Bool) :
    (Action.create child parent noted).Invertible registry tree := by
  by_cases hparent : parent < tree.size
  · obtain ⟨node, hnode⟩ := Tree.exists_node?_of_lt hparent
    rcases Tree.insertChild_cases tree parent (tree.children parent).length child with
      ⟨failure, hresult⟩ | ⟨_, hindex, _⟩ | ⟨_, hchild, hfree, hcycle, _, _⟩
    · rw [← Tree.appendChild_eq] at hresult
      left
      refine ⟨.tree failure, ?_⟩
      rw [apply, bind_ok (onTree_ok (lacksList_ok hnode)), bind_error (onTree_error hresult)]
    · exact absurd hindex (Nat.lt_irrefl _)
    · have hline : ¬(child = parent ∨ Tree.Ancestor tree child parent) := by
        rw [← h.isAncestorOrSelf_iff, hcycle]
        exact Bool.false_ne_true
      exact (places_create h hchild hparent hfree hline noted).invertible
  · left
    refine ⟨.tree (.unknownNode parent), ?_⟩
    rw [apply, bind_error (onTree_error (lacksList_error (Nat.le_of_not_lt hparent)))]

theorem invertible_leave (h : tree.WellFormed) (child : NodeId) (noted : Option (NodeId × Nat))
    (created : Bool) : (Action.reparent child none noted created).Invertible registry tree := by
  by_cases hchild : child < tree.size
  · obtain ⟨origin, between, hdetach, hbetween, hsize, hdetached, _, hrestore⟩ :=
      detach_known h hchild
    right
    refine ⟨.reparent child none origin created, between, ?_, rfl, hbetween, ?_⟩
    · rw [apply, bind_ok (onTree_ok hdetach)]
      rfl
    · exact ((Rewinds.detach_free (hsize.symm ▸ hchild) hdetached).adaptExcept
        HistoryError.tree).bind fun _ => hrestore.adaptExcept HistoryError.tree
  · left
    refine ⟨.tree (.unknownNode child), ?_⟩
    rw [apply, bind_error (onTree_error (Tree.detach_unknown (Nat.le_of_not_lt hchild)))]

/-- A node moves under one that is not below it: it is taken out of its place and
put behind the children there. -/
theorem places_move (h : tree.WellFormed) {child parent : NodeId} (hchild : child < tree.size)
    (hparent : parent < tree.size) (hcycle : tree.isAncestorOrSelf child parent = false)
    (noted : Option (NodeId × Nat)) (created : Bool) :
    (Action.reparent child (some parent) noted created).Places registry tree parent child := by
  obtain ⟨node, hnode⟩ := Tree.exists_node?_of_lt hchild
  obtain ⟨target, htarget⟩ := Tree.exists_node?_of_lt hparent
  obtain ⟨origin, between, hdetach, hbetween, hsize, hdetached, hfewer, hrestore⟩ :=
    detach_known h hchild
  have hbelow : child < between.size := hsize.symm ▸ hchild
  have habove : parent < between.size := hsize.symm ▸ hparent
  -- Taking the child out adds no ancestors, so that it is still not above its new parent.
  have hapart : ¬(child = parent ∨ Tree.Ancestor between child parent) := by
    intro hor
    have hanswer := h.isAncestorOrSelf_iff.2 (hor.imp_right fun hline => hline.mono hfewer)
    rw [hcycle] at hanswer
    cases hanswer
  obtain ⟨heir, hheir⟩ := Tree.exists_node?_of_lt habove
  have happend : Tree.appendChild parent child between =
      .ok () (between.attach parent (between.children parent).length child) := by
    rw [Tree.appendChild_eq]
    exact hbetween.insertChild_ok habove hbelow hdetached hapart (Nat.le_refl _)
  refine ⟨.reparent child (some parent) origin heir.children.isNone, _, ?_, rfl,
    hbetween.attach habove hbelow hdetached hapart (Nat.le_refl _), ?_,
    (h.freed_of_detach hchild hdetach).putLast h hsize hchild hparent⟩
  · rw [apply, bind_ok (onTree_ok (Tree.requireNode_ok hnode)),
      bind_ok (onTree_ok (Tree.requireNode_ok htarget)), bind_ok (get_apply tree), hcycle,
      if_neg Bool.false_ne_true]
    beta_reduce
    rw [bind_ok (onTree_ok hdetach), bind_ok (onTree_ok (lacksList_ok hheir)),
      bind_ok (onTree_ok happend)]
    rfl
  · have hunattach := Rewinds.unattach hbetween hheir hbelow hdetached hapart
    have hback := hunattach.bind fun _ => hrestore.adaptExcept HistoryError.tree
    rw [bind_assoc] at hback
    exact hback

theorem invertible_move (h : tree.WellFormed) (child parent : NodeId)
    (noted : Option (NodeId × Nat)) (created : Bool) :
    (Action.reparent child (some parent) noted created).Invertible registry tree := by
  by_cases hchild : child < tree.size
  case neg =>
    left
    refine ⟨.tree (.unknownNode child), ?_⟩
    rw [apply, bind_error (onTree_error (Tree.requireNode_error (Nat.le_of_not_lt hchild)))]
  obtain ⟨node, hnode⟩ := Tree.exists_node?_of_lt hchild
  by_cases hparent : parent < tree.size
  case neg =>
    left
    refine ⟨.tree (.unknownNode parent), ?_⟩
    rw [apply, bind_ok (onTree_ok (Tree.requireNode_ok hnode)),
      bind_error (onTree_error (Tree.requireNode_error (Nat.le_of_not_lt hparent)))]
  obtain ⟨target, htarget⟩ := Tree.exists_node?_of_lt hparent
  cases hcycle : tree.isAncestorOrSelf child parent with
  | true =>
      left
      refine ⟨.tree (.cycle child parent), ?_⟩
      rw [apply, bind_ok (onTree_ok (Tree.requireNode_ok hnode)),
        bind_ok (onTree_ok (Tree.requireNode_ok htarget)), bind_ok (get_apply tree), if_pos hcycle]
      rfl
  | false => exact (places_move h hchild hparent hcycle noted created).invertible

/-- Every action that changes links can be taken back after it succeeds, and has
done nothing after it fails. -/
theorem invertible (registry : Registry) (h : tree.WellFormed) {action : Action}
    (hstructural : action.isStructural = true) : action.Invertible registry tree := by
  cases action with
  | modification node baseline => cases hstructural
  | reparent node target origin createdList =>
      cases target with
      | none => exact invertible_leave h node origin createdList
      | some parent => exact invertible_move h node parent origin createdList
  | reorder parent first second => exact invertible_reorder h parent first second
  | create node parent createdList => exact invertible_create h node parent createdList
  | delete node origin => exact invertible_delete h node origin

theorem keepsContents_lacksList (id : NodeId) : KeepsContents (lacksList id) :=
  (KeepsContents.requireNode id).bind fun _ => KeepsContents.pure _

theorem keepsContents_clearCreated (parent : NodeId) (createdList : Bool) :
    KeepsContents (clearCreated parent createdList) := by
  cases createdList with
  | false => exact KeepsContents.pure ()
  | true => exact KeepsContents.clearEmptyChildren parent

theorem keepsContents_restore (node : NodeId) (origin : Option (NodeId × Nat)) :
    KeepsContents (restore node origin) := by
  cases origin with
  | none => exact KeepsContents.pure ()
  | some place => exact KeepsContents.insertChild place.1 place.2 node

theorem keepsContents_onTree {α : Type} {change : TreeM TreeError α} (h : KeepsContents change) :
    KeepsContents (onTree change) :=
  h.adaptExcept HistoryError.tree

/-- To apply an action changes no values. -/
theorem keepsContents_apply (action : Action) : KeepsContents action.apply := by
  cases action with
  | modification node baseline =>
      exact (keepsContents_onTree (.requireNode node)).bind fun _ => .pure _
  | reparent node target origin createdList =>
      cases target with
      | none => exact (keepsContents_onTree (.detach node)).bind fun _ => .pure _
      | some parent =>
          refine (keepsContents_onTree (.requireNode node)).bind fun _ =>
            (keepsContents_onTree (.requireNode parent)).bind fun _ =>
              KeepsContents.get.bind fun tree => ?_
          cases tree.isAncestorOrSelf node parent with
          | true => exact KeepsContents.throw_bind _ _
          | false =>
              exact (keepsContents_onTree (.detach node)).bind fun _ =>
                (keepsContents_onTree (keepsContents_lacksList parent)).bind fun _ =>
                  (keepsContents_onTree (.appendChild parent node)).bind fun _ => .pure _
  | reorder parent first second =>
      exact (keepsContents_onTree (.swapChildren parent first second)).bind fun _ => .pure _
  | create node parent createdList =>
      exact (keepsContents_onTree (keepsContents_lacksList parent)).bind fun _ =>
        (keepsContents_onTree (.appendChild parent node)).bind fun _ => .pure _
  | delete node origin =>
      refine (keepsContents_onTree (.requireNode node)).bind fun found => ?_
      cases found.parent with
      | none => exact KeepsContents.throw_bind _ _
      | some parent => exact (keepsContents_onTree (.detach node)).bind fun _ => .pure _

/-- To take an action back that changed links changes no values. -/
theorem keepsContents_revert (registry : Registry) {action : Action}
    (hstructural : action.isStructural = true) : KeepsContents (action.revert registry) := by
  cases action with
  | modification node baseline => cases hstructural
  | reparent node target origin createdList =>
      cases target with
      | none =>
          exact (keepsContents_onTree (.detach node)).bind fun _ =>
            keepsContents_onTree (keepsContents_restore node origin)
      | some parent =>
          exact (keepsContents_onTree (.detach node)).bind fun _ =>
            (keepsContents_onTree (keepsContents_clearCreated parent createdList)).bind fun _ =>
              keepsContents_onTree (keepsContents_restore node origin)
  | reorder parent first second =>
      exact keepsContents_onTree (.swapChildren parent first second)
  | create node parent createdList =>
      exact (keepsContents_onTree (.detach node)).bind fun _ =>
        keepsContents_onTree (keepsContents_clearCreated parent createdList)
  | delete node origin =>
      exact (keepsContents_onTree (.detach node)).bind fun _ =>
        keepsContents_onTree (keepsContents_restore node origin)

end Action

end FormDesigner
