import FormDesigner.Proofs.Tree.Placing
import FormDesigner.Proofs.Tree.Runs

/-!
What a change of links that is refused leaves behind.

All changes look at everything before they write, except for `insertChild`: it gives the parent
a child list before it looks at the index.  So a node that had no child list has an empty one
when an index is refused.
-/

namespace FormDesigner

open Program

namespace Tree

variable {tree left : Tree} {parent child : NodeId} {index : Nat} {failure : TreeError}

/-- The node `child` can become a child of `parent`: both are there, `child` has no parent, and
`parent` is neither the node itself nor below it. -/
structure Joinable (tree : Tree) (parent child : NodeId) : Prop where
  parent_lt : parent < tree.size
  child_lt : child < tree.size
  free : tree.parent? child = none
  apart : ¬(child = parent ∨ Ancestor tree child parent)

theorem WellFormed.not_isAncestorOrSelf (h : tree.WellFormed) (hjoin : tree.Joinable parent child) :
    tree.isAncestorOrSelf child parent = false := by
  rw [← Bool.not_eq_true, h.isAncestorOrSelf_iff]
  exact hjoin.apart

/-- A child list that a node has already. -/
theorem setChildren_of_childList? {list : List NodeId} (h : tree.childList? parent = some list) :
    tree.setChildren parent (some list) = tree := by
  obtain ⟨node, hnode, hchildren⟩ := Option.bind_eq_some_iff.mp h
  apply mapNode_of_fixed hnode
  rw [← hchildren]

/-- An empty child list in place of none shows. -/
theorem setChildren_ne (hparent : parent < tree.size) (hnone : tree.childList? parent = none) :
    tree.setChildren parent (some []) ≠ tree := by
  intro hsame
  have hlist := childList?_setChildren hparent (some []) parent
  rw [hsame, hnone, if_pos rfl] at hlist
  cases hlist

/-- The two ways in which `insertChild` fails: it leaves the tree as it is, or an empty child
list where there was none. -/
theorem WellFormed.insertChild_error (h : tree.WellFormed)
    (hfail : Tree.insertChild parent index child tree = .error failure left) :
    (left = tree ∧ ¬(tree.Joinable parent child ∧ tree.childList? parent = none)) ∨
    (left = tree.setChildren parent (some []) ∧ tree.Joinable parent child ∧
      tree.childList? parent = none) := by
  by_cases hjoin : tree.Joinable parent child
  · rw [insertChild_checked hjoin.parent_lt hjoin.child_lt hjoin.free
      (h.not_isAncestorOrSelf hjoin)] at hfail
    split at hfail
    · cases hfail
      rw [children_eq_childList?]
      cases hlist : tree.childList? parent with
      | none => exact Or.inr ⟨rfl, hjoin, rfl⟩
      | some list =>
          refine Or.inl ⟨setChildren_of_childList? hlist, ?_⟩
          intro hnone
          cases hnone.2
    · cases hfail
  · rcases insertChild_checks tree parent index child with
      ⟨_, hrefused⟩ | ⟨hparent, hchild, hfree, hcycle⟩
    · rw [hrefused] at hfail
      cases hfail
      exact Or.inl ⟨rfl, fun hboth => hjoin hboth.1⟩
    · refine absurd ⟨hparent, hchild, hfree, ?_⟩ hjoin
      rw [← h.isAncestorOrSelf_iff, hcycle]
      exact Bool.false_ne_true

/-- A refused `insertChild` leaves the parent links as they are. -/
theorem parent?_of_insertChild_error
    (hfail : insertChild parent index child tree = .error failure left) (id : NodeId) :
    left.parent? id = tree.parent? id := by
  rcases insertChild_cases tree parent index child with
    ⟨_, hother⟩ | ⟨_, _, _, hother⟩ | ⟨_, _, _, _, _, hother⟩
  · rw [hother] at hfail
    cases hfail
    rfl
  · rw [hother] at hfail
    cases hfail
    exact parent?_setChildren tree parent _ id
  · rw [hother] at hfail
    cases hfail

/-- A refused `insertChild` gives no other node a child list. -/
theorem childList?_of_insertChild_error
    (hfail : insertChild parent index child tree = .error failure left) {id : NodeId}
    (hother : id ≠ parent) : left.childList? id = tree.childList? id := by
  rcases insertChild_cases tree parent index child with
    ⟨_, hresult⟩ | ⟨hparent, _, _, hresult⟩ | ⟨_, _, _, _, _, hresult⟩
  · rw [hresult] at hfail
    cases hfail
    rfl
  · rw [hresult] at hfail
    cases hfail
    rw [childList?_setChildren hparent, if_neg hother]
  · rw [hresult] at hfail
    cases hfail

/-- A refused `insertChild` leaves the tree as it is if it refuses the nodes, and if the parent
has a child list. -/
theorem WellFormed.insertChild_error_iff (h : tree.WellFormed)
    (hfail : Tree.insertChild parent index child tree = .error failure left) :
    left = tree ↔ ¬(tree.Joinable parent child ∧ tree.childList? parent = none) := by
  rcases h.insertChild_error hfail with ⟨hsame, hnot⟩ | ⟨hleft, hboth⟩
  · exact iff_of_true hsame hnot
  · refine iff_of_false ?_ (not_not_intro hboth)
    rw [hleft]
    exact setChildren_ne hboth.1.parent_lt hboth.2

theorem WellFormed.insertChild_ok_iff (h : tree.WellFormed) (parent : NodeId) (index : Nat)
    (child : NodeId) :
    (∃ after, Tree.insertChild parent index child tree = .ok () after) ↔
      tree.Joinable parent child ∧ index ≤ (tree.children parent).length := by
  constructor
  · rintro ⟨after, hresult⟩
    rcases insertChild_cases tree parent index child with
      ⟨_, hother⟩ | ⟨_, _, _, hother⟩ | ⟨hparent, hchild, hfree, hcycle, hindex, _⟩
    · rw [hother] at hresult
      cases hresult
    · rw [hother] at hresult
      cases hresult
    · refine ⟨⟨hparent, hchild, hfree, ?_⟩, hindex⟩
      rw [← h.isAncestorOrSelf_iff, hcycle]
      exact Bool.false_ne_true
  · rintro ⟨hjoin, hindex⟩
    exact ⟨_, h.insertChild_ok hjoin.parent_lt hjoin.child_lt hjoin.free hjoin.apart hindex⟩

theorem appendChild_error (hfail : appendChild parent child tree = .error failure left) :
    left = tree := by
  rw [appendChild_eq] at hfail
  rcases insertChild_cases tree parent (tree.children parent).length child with
    ⟨_, hother⟩ | ⟨_, hindex, _⟩ | ⟨_, _, _, _, _, hother⟩
  · rw [hother] at hfail
    cases hfail
    rfl
  · exact absurd hindex (Nat.lt_irrefl _)
  · rw [hother] at hfail
    cases hfail

theorem WellFormed.detach_error (h : tree.WellFormed)
    (hfail : Tree.detach child tree = .error failure left) : left = tree ∧ tree.size ≤ child := by
  by_cases hchild : child < tree.size
  · cases hparent : tree.parent? child with
    | none =>
        rw [detach_free hchild hparent] at hfail
        cases hfail
    | some above =>
        rw [h.detach_attached hparent] at hfail
        cases hfail
  · rw [detach_unknown (Nat.le_of_not_lt hchild)] at hfail
    cases hfail
    exact ⟨rfl, Nat.le_of_not_lt hchild⟩

theorem swapChildren_error {first second : Nat}
    (hfail : swapChildren parent first second tree = .error failure left) : left = tree := by
  rcases swapChildren_cases tree parent first second with ⟨_, hother⟩ | ⟨_, _, hother⟩
  · rw [hother] at hfail
    cases hfail
    rfl
  · rw [hother] at hfail
    cases hfail

/-- What is refused changes nothing, but for an index that `insertChild` refuses under a node
without a child list, which has an empty one then.  Nothing is refused but unknown nodes, a
child that has a parent, a child that the parent is or stands below, and an index behind the
end. -/
theorem WellFormed.refused_stays_iff (h : tree.WellFormed) :
    (∀ parent child failure left,
      Tree.appendChild parent child tree = .error failure left → left = tree) ∧
    (∀ child failure left, Tree.detach child tree = .error failure left → left = tree) ∧
    (∀ parent first second failure left,
      Tree.swapChildren parent first second tree = .error failure left → left = tree) ∧
    ∀ parent index child,
      ((∃ after, Tree.insertChild parent index child tree = .ok () after) ↔
        tree.Joinable parent child ∧ index ≤ (tree.children parent).length) ∧
      ∀ failure left, Tree.insertChild parent index child tree = .error failure left →
        (left = tree ↔ ¬(tree.Joinable parent child ∧ tree.childList? parent = none)) ∧
        (left ≠ tree → left = tree.setChildren parent (some [])) := by
  refine ⟨fun _ _ _ _ => appendChild_error, fun _ _ _ hfail => (h.detach_error hfail).1,
    fun _ _ _ _ _ => swapChildren_error, fun parent index child => ?_⟩
  refine ⟨h.insertChild_ok_iff parent index child, fun failure left hfail => ?_⟩
  refine ⟨h.insertChild_error_iff hfail, fun hchanged => ?_⟩
  rcases h.insertChild_error hfail with ⟨hsame, _⟩ | ⟨hleft, _⟩
  · exact absurd hsame hchanged
  · exact hleft

/-- Two labels, none of them with a child list. -/
def pairOfLabels : Tree := ⟨#[⟨"label", .empty, none, none⟩, ⟨"label", .empty, none, none⟩]⟩

theorem pairOfLabels_wellFormed : pairOfLabels.WellFormed :=
  (empty_wellFormed.insert ⟨"label", .empty, none, none⟩).insert ⟨"label", .empty, none, none⟩

/-- A label does not take a child at index 1, and then has an empty child list. -/
theorem refused_stays_iff_of_labels :
    pairOfLabels.WellFormed ∧
    insertChild 0 1 1 pairOfLabels =
      .error (.indexOutOfRange 0 1 0) (pairOfLabels.setChildren 0 (some [])) ∧
    pairOfLabels.Joinable 0 1 ∧ pairOfLabels.childList? 0 = none ∧
    ¬∃ after, insertChild 0 1 1 pairOfLabels = .ok () after := by
  have hrefused : insertChild 0 1 1 pairOfLabels =
      .error (.indexOutOfRange 0 1 0) (pairOfLabels.setChildren 0 (some [])) := rfl
  have hsuccess := pairOfLabels_wellFormed.refused_stays_iff.2.2.2 0 1 1
  have hchanged : pairOfLabels.setChildren 0 (some []) ≠ pairOfLabels :=
    setChildren_ne Nat.zero_lt_two rfl
  obtain ⟨hjoin, hnone⟩ := not_not.mp ((hsuccess.2 _ _ hrefused).1.not.mp hchanged)
  refine ⟨pairOfLabels_wellFormed, hrefused, hjoin, hnone, ?_⟩
  rw [hsuccess.1]
  exact fun hboth => absurd hboth.2 (by decide)

/-- A refused index is not always without a trace. -/
theorem not_refused_stays :
    ¬∀ tree : Tree, tree.WellFormed → ∀ parent index child failure left,
      insertChild parent index child tree = .error failure left → left = tree := by
  intro hstays
  have hsame := hstays pairOfLabels pairOfLabels_wellFormed 0 1 1 _ _ rfl
  exact setChildren_ne Nat.zero_lt_two rfl hsame

end Tree

end FormDesigner
