import FormDesigner.Proofs.Tree.Copying
import FormDesigner.Proofs.Tree.Paths
import FormDesigner.Proofs.Tree.Runs

/-!
The walk below a node.

The walk goes down the child lists with a stack of nodes that it has still to come to; looking
for an ancestor climbs the parent links.  Neither has a bound of its own.  In a well-formed tree
both end, the walk lists every node before what is below its children, child by child, and it
comes to exactly the nodes from which the climb meets the node it started at.
-/

namespace FormDesigner

namespace Tree

variable {tree : Tree}

/-- A node and all that is below it, each node before what is below its children, child by
child. -/
inductive Preorder (tree : Tree) : NodeId → List NodeId → Prop where
  | node {id : NodeId} {parts : List (List NodeId)}
      (hparts : List.Forall₂ (Preorder tree) (tree.children id) parts) :
      Preorder tree id (id :: parts.flatten)

/-- The walk with a stack, whose top is its end: `Walk tree stack listed result rounds` says that
the walk, with these nodes on the stack and those in the list, ends after that many rounds with
the list `result`.  One round takes the top, lists it and puts its children on the stack, the
last one first. -/
inductive Walk (tree : Tree) : List NodeId → List NodeId → List NodeId → Nat → Prop where
  | done {listed : List NodeId} : Walk tree [] listed listed 0
  | visit {stack listed result : List NodeId} {id : NodeId} {rounds : Nat}
      (rest : Walk tree (stack ++ (tree.children id).reverse) (listed ++ [id]) result rounds) :
      Walk tree (stack ++ [id]) listed result (rounds + 1)

/-- The walk has one end. -/
theorem Walk.unique {stack listed first second : List NodeId} {rounds others : Nat}
    (h : Walk tree stack listed first rounds) (hother : Walk tree stack listed second others) :
    first = second ∧ rounds = others := by
  induction h generalizing second others with
  | done =>
      generalize hstack : ([] : List NodeId) = stack at hother
      cases hother with
      | done => exact ⟨rfl, rfl⟩
      | visit _ => simp at hstack
  | @visit stack _ _ id _ _ ih =>
      generalize hstack : stack ++ [id] = whole at hother
      cases hother with
      | done => simp at hstack
      | visit hrest =>
          obtain ⟨rfl, htop⟩ := List.append_inj' hstack rfl
          cases htop
          obtain ⟨hresult, hrounds⟩ := ih hrest
          exact ⟨hresult, congrArg (· + 1) hrounds⟩

/-- Where a blueprint can be taken, as many levels are enough for `preorder`, and the rules give
no other list. -/
theorem preorder_iff_of_copyBelow {bound : Nat} {id : NodeId} {copy : Blueprint}
    (h : tree.copyBelow bound id = .ok copy) {listed : List NodeId} :
    Preorder tree id listed ↔ listed = tree.preorder bound id := by
  induction bound generalizing id copy listed with
  | zero => cases h
  | succ bound ih =>
      obtain ⟨node, hnode, -, -, hbelow⟩ := of_copyBelow_ok h
      rw [← children_of_node? hnode] at hbelow
      have hparts : ∀ parts, List.Forall₂ (Preorder tree) (tree.children id) parts ↔
          parts = (tree.children id).map (tree.preorder bound) := fun parts =>
        forall₂_iff_eq_map hbelow fun _ _ hcopy _ => ih hcopy
      rw [preorder, List.flatMap_def]
      constructor
      · rintro ⟨hchildren⟩
        rw [(hparts _).mp hchildren]
      · rintro rfl
        exact .node ((hparts _).mpr rfl)

/-- What the walk has still to list: all that is below the nodes on its stack, from the top
down. -/
def pending (tree : Tree) (stack : List NodeId) : List NodeId :=
  stack.reverse.flatMap tree.descendants

namespace WellFormed

variable {root id : NodeId}

/-- In a well-formed tree `descendants` is the list by the rules. -/
theorem preorder_iff (h : tree.WellFormed) (hid : id < tree.size) {listed : List NodeId} :
    Preorder tree id listed ↔ listed = tree.descendants id := by
  obtain ⟨copy, hcopy⟩ := h.exists_blueprint hid
  rw [descendants_of_lt hid]
  exact preorder_iff_of_copyBelow hcopy

/-- What is below a node is the node and what is below its children. -/
theorem descendants_eq (h : tree.WellFormed) (hid : id < tree.size) :
    tree.descendants id = id :: (tree.children id).flatMap tree.descendants := by
  have hbelow : List.Forall₂ (Preorder tree) (tree.children id)
      ((tree.children id).map tree.descendants) := by
    rw [List.forall₂_map_right_iff, List.forall₂_same]
    exact fun child hchild => (h.preorder_iff (h.known id child hchild)).mpr rfl
  rw [List.flatMap_def]
  exact ((h.preorder_iff hid).mp (.node hbelow)).symm

/-- One round takes one node off what is still to be listed. -/
theorem pending_visit (h : tree.WellFormed) (hid : id < tree.size) (stack : List NodeId) :
    tree.pending (stack ++ [id]) = id :: tree.pending (stack ++ (tree.children id).reverse) := by
  simp [pending, h.descendants_eq hid]

/-- One round leaves known nodes on the stack. -/
theorem known_visit (h : tree.WellFormed) {stack : List NodeId}
    (hknown : ∀ node ∈ stack ++ [id], node < tree.size) :
    ∀ node ∈ stack ++ (tree.children id).reverse, node < tree.size := by
  intro node hnode
  rcases List.mem_append.mp hnode with hstack | hchild
  · exact hknown node (List.mem_append_left _ hstack)
  · exact h.known id node (List.mem_reverse.mp hchild)

/-- The walk ends, in one round for every node that it has still to list. -/
theorem walk_pending (h : tree.WellFormed) {stack : List NodeId}
    (hknown : ∀ node ∈ stack, node < tree.size) (listed : List NodeId) :
    Walk tree stack listed (listed ++ tree.pending stack) (tree.pending stack).length := by
  -- The induction is on what is still to be listed, which every round makes shorter; the stack
  -- itself may grow.
  induction hrest : tree.pending stack generalizing stack listed with
  | nil =>
      rcases stack.eq_nil_or_concat' with rfl | ⟨below, id, rfl⟩
      · rw [List.append_nil]
        exact .done
      · rw [h.pending_visit (hknown id (by simp))] at hrest
        cases hrest
  | cons first rest ih =>
      rcases stack.eq_nil_or_concat' with rfl | ⟨below, id, rfl⟩
      · cases hrest
      · rw [h.pending_visit (hknown id (by simp))] at hrest
        obtain ⟨rfl, hbelow⟩ := List.cons.inj hrest
        have hwalk := ih (h.known_visit hknown) (listed ++ [id]) hbelow
        rw [List.append_assoc, List.singleton_append] at hwalk
        exact .visit hwalk

/-- The walk below a node comes to that node and to all nodes that have it as an ancestor. -/
theorem mem_descendants_iff_isAncestorOrSelf (h : tree.WellFormed) (hroot : root < tree.size) :
    id ∈ tree.descendants root ↔ tree.isAncestorOrSelf root id = true := by
  rw [h.mem_descendants_iff hroot, h.isAncestorOrSelf_iff, eq_comm (a := root)]
  constructor
  · rintro ⟨path, hpath⟩
    exact h.eq_or_ancestor_of_descend hpath
  · exact h.exists_descend

/-- The walk below a node comes to no more nodes than there are. -/
theorem length_descendants_le (h : tree.WellFormed) (hroot : root < tree.size) :
    (tree.descendants root).length ≤ tree.size := by
  apply length_le_size_of_nodup (h.nodup_descendants root)
  intro id hid
  obtain ⟨path, hpath⟩ := (h.mem_descendants_iff hroot).mp hid
  exact h.lt_size_of_descend hroot hpath

/-- The walk below a known node ends with its `descendants`, in one round for each of them. -/
theorem walk_iff (h : tree.WellFormed) (hroot : root < tree.size) {listed : List NodeId}
    {rounds : Nat} : Walk tree [root] [] listed rounds ↔
      listed = tree.descendants root ∧ rounds = (tree.descendants root).length := by
  have hknown : ∀ node ∈ [root], node < tree.size := by simpa using hroot
  have hwalk := h.walk_pending hknown []
  have hpending : tree.pending [root] = tree.descendants root := by simp [pending]
  rw [hpending, List.nil_append] at hwalk
  constructor
  · exact fun hother => hother.unique hwalk
  · rintro ⟨rfl, rfl⟩
    exact hwalk

/-- The walk down the child lists and the climb up the parent links both end, after at most as
many rounds and links as there are nodes, and agree: the walk lists the known node `root` and what
is below it, each node once and before what is below its children, child by child, and these are
the nodes from which the climb meets `root`. -/
theorem walk_and_climb_agree (h : tree.WellFormed) (hroot : root < tree.size) :
    (∀ listed rounds, Walk tree [root] [] listed rounds ↔
      listed = tree.descendants root ∧ rounds = (tree.descendants root).length) ∧
    (tree.descendants root).length ≤ tree.size ∧
    (∀ listed, Preorder tree root listed ↔ listed = tree.descendants root) ∧
    (tree.descendants root).Nodup ∧
    ∀ node, (node ∈ tree.descendants root ↔ tree.isAncestorOrSelf root node = true) ∧
      ∃ links ≤ tree.size, Climb tree root node (tree.isAncestorOrSelf root node) links := by
  refine ⟨fun listed rounds => h.walk_iff hroot, h.length_descendants_le hroot,
    fun listed => h.preorder_iff hroot, h.nodup_descendants root, fun node => ⟨?_, ?_⟩⟩
  · exact h.mem_descendants_iff_isAncestorOrSelf hroot
  · exact h.exists_climb root node

end WellFormed

/-- A division with two paragraphs, of which the first gets one of its own at the end. -/
def lateParagraph : Tree :=
  [.insert ⟨"div", .empty, none, none⟩, .insert ⟨"p", .empty, none, none⟩,
    .insert ⟨"p", .empty, none, none⟩, .appendChild 0 1, .appendChild 0 2,
    .insert ⟨"p", .empty, none, none⟩, .appendChild 1 3].foldl TreeEdit.perform empty

theorem walk_and_climb_agree_of_lateParagraph :
    lateParagraph.WellFormed ∧ 0 < lateParagraph.size ∧ Walk lateParagraph [0] [] [0, 1, 3, 2] 4 ∧
      Preorder lateParagraph 0 [0, 1, 3, 2] ∧ lateParagraph.isAncestorOrSelf 0 3 = true := by
  have htree : lateParagraph.WellFormed := empty_wellFormed.performAll _
  have hroot : 0 < lateParagraph.size := by decide
  have hlisted : [0, 1, 3, 2] = lateParagraph.descendants 0 := by decide
  obtain ⟨hwalk, -, hpreorder, -, hclimb⟩ := htree.walk_and_climb_agree hroot
  refine ⟨htree, hroot, ?_, (hpreorder _).mpr hlisted, (hclimb 3).1.mp ?_⟩
  · exact (hwalk _ _).mpr ⟨hlisted, congrArg List.length hlisted⟩
  · rw [← hlisted]
    decide

end Tree

end FormDesigner
