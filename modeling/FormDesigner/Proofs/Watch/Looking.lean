import Mathlib.Data.List.Induction
import FormDesigner.Watch

/-!
A watch finds every change, and finds it once.

A check keeps what it sees in different ways: a list of parts is overwritten one by one, a
value as a whole, and a list of children only if it differs.  In the end it always holds its
view of the node that was looked at last, so that the next look compares with that node.
-/

namespace FormDesigner

/-- What a check sees of a node. -/
inductive View where
  | value (stored : Option Value)
  /-- The parts of the stored value; none if no value or `null` is stored. -/
  | parts (stored : Option (List (Option Value)))
  | children (ids : Option (List NodeId))

namespace View

/-- Equality of lists of parts. -/
def sameParts : List (Option Value) → List (Option Value) → Bool
  | [], [] => true
  | left :: rest, right :: others => Value.equalsOption left right && sameParts rest others
  | _, _ => false

/-- Whether two views are equal, as values are equal: NaN differs from itself. -/
def same : View → View → Bool
  | .value left, .value right => Value.equalsOption left right
  | .parts none, .parts none => true
  | .parts (some left), .parts (some right) => sameParts left right
  | .children left, .children right => left = right
  | _, _ => false

end View

namespace Subject

/-- The view of a node, or of nothing if there was no node yet. -/
def view : Subject → Option Node → View
  | .property name, node => .value (node.bind fun node => node.value? name)
  | .composite name parts, node =>
      .parts ((node.bind fun node =>
        (node.value? name).filter fun value => !value.isNull).map fun value =>
          parts.map fun part => value.field? part)
  | .children, node => .children (node.bind Node.children)

/-- A check whose last view was that of a node, or of nothing. -/
def seeing : Subject → Option Node → Check
  | .property name, node => .property name (node.bind fun node => node.value? name)
  | .composite name parts, node =>
      .composite name parts
        ((node.bind fun node => Check.present? node name).map (Check.partsOf parts))
  | .children, node => .children (node.bind Node.children)

theorem check_eq (subject : Subject) : subject.check = subject.seeing none := by
  cases subject <;> rfl

theorem takeSnapshot_seeing (subject : Subject) (last : Option Node) (node : Node) :
    (subject.seeing last).takeSnapshot node = subject.seeing (some node) := by
  cases subject <;> rfl

/-- Overwriting the parts one by one compares them all, and leaves none of the old ones. -/
theorem refresh_partsOf (old value : Value) (parts : List String) :
    Check.refresh value (Check.partsOf parts old) parts =
      (!View.sameParts (Check.partsOf parts old) (Check.partsOf parts value),
        Check.partsOf parts value) := by
  induction parts with
  | nil => rfl
  | cons part rest ih =>
      simp only [Check.partsOf, List.map_cons, Check.refresh, View.sameParts] at ih ⊢
      rw [ih, Bool.not_and]

/-- One look: the answer compares the views, and the check then holds that of the node. -/
theorem look_seeing (subject : Subject) (last : Option Node) (node : Node) :
    (subject.seeing last).look node =
      (!(subject.view last).same (subject.view (some node)), subject.seeing (some node)) := by
  cases subject with
  | property name => rfl
  | composite name parts =>
      have hview : ∀ node : Option Node, Subject.view (.composite name parts) node =
          .parts ((node.bind fun node => Check.present? node name).map (Check.partsOf parts)) := by
        intro node
        rfl
      simp only [hview, seeing, Check.look, Option.bind_some]
      generalize (last.bind fun node => Check.present? node name) = earlier
      cases Check.present? node name with
      | none => cases earlier <;> rfl
      | some value =>
          cases earlier with
          | none => rfl
          | some old =>
              simp only [Option.map_some, refresh_partsOf]
              rfl
  | children =>
      simp only [seeing, Check.look, view, View.same]
      split
      · next hsame => simp [hsame]
      · next hdiffers => simp [hdiffers]

end Subject

/-- A call of a watch. -/
inductive Look where
  | snapshot (node : Node)
  | check (node : Node)

/-- The node of a call. -/
def Look.node : Look → Node
  | .snapshot node => node
  | .check node => node

namespace Watch

/-- The watch after a call. -/
def after (watch : Watch) : Look → Watch
  | .snapshot node => watch.takeSnapshot node
  | .check node => (watch.check node).2

/-- The watch after a run of calls. -/
def run (watch : Watch) (looks : List Look) : Watch := looks.foldl after watch

/-- A watch that saw a node last, or nothing yet. -/
def seeing (subjects : List Subject) (last : Option Node) : Watch :=
  ⟨subjects.map fun subject => subject.seeing last⟩

theorem ofSubjects_eq (subjects : List Subject) : ofSubjects subjects = seeing subjects none := by
  rw [ofSubjects, seeing]
  exact congrArg Watch.mk (List.map_congr_left fun subject _ => subject.check_eq)

theorem takeSnapshot_seeing (subjects : List Subject) (last : Option Node) (node : Node) :
    (seeing subjects last).takeSnapshot node = seeing subjects (some node) := by
  rw [takeSnapshot, seeing, seeing, List.map_map]
  exact congrArg Watch.mk (List.map_congr_left fun subject _ =>
    subject.takeSnapshot_seeing last node)

theorem lookAll_seeing (subjects : List Subject) (last : Option Node) (node : Node) :
    lookAll node (seeing subjects last).checks =
      (subjects.any fun subject => !(subject.view last).same (subject.view (some node)),
        (seeing subjects (some node)).checks) := by
  induction subjects with
  | nil => rfl
  | cons subject rest ih =>
      simp only [seeing, List.map_cons, lookAll, List.any_cons] at ih ⊢
      rw [ih, subject.look_seeing]

/-- Every check looks, also after another one found a difference. -/
theorem check_seeing (subjects : List Subject) (last : Option Node) (node : Node) :
    (seeing subjects last).check node =
      (subjects.any fun subject => !(subject.view last).same (subject.view (some node)),
        seeing subjects (some node)) := by
  rw [check, lookAll_seeing]

theorem after_seeing (subjects : List Subject) (last : Option Node) (look : Look) :
    (seeing subjects last).after look = seeing subjects (some look.node) := by
  cases look with
  | snapshot node => exact takeSnapshot_seeing subjects last node
  | check node => rw [after, check_seeing, Look.node]

/-- However it was called, a watch has seen the node of the latest call. -/
theorem run_ofSubjects (subjects : List Subject) (looks : List Look) :
    (ofSubjects subjects).run looks = seeing subjects (looks.getLast?.map Look.node) := by
  rw [ofSubjects_eq]
  induction looks using List.reverseRecOn with
  | nil => rfl
  | append_singleton earlier look ih =>
      rw [run] at ih ⊢
      rw [List.foldl_append, ih, List.foldl_cons, List.foldl_nil, after_seeing,
        List.getLast?_concat, Option.map_some]

/-- After any run of calls, a look finds a difference exactly if the view of some check
differs from that of the node of the latest call, or from that of nothing if there was none.
The watch then is as if it had seen nothing but the node. -/
theorem check_run_iff (subjects : List Subject) (looks : List Look) (node : Node) :
    (((ofSubjects subjects).run looks).check node).2 = (ofSubjects subjects).takeSnapshot node ∧
      ((((ofSubjects subjects).run looks).check node).1 = true ↔
        ∃ subject ∈ subjects,
          (subject.view (looks.getLast?.map Look.node)).same (subject.view (some node)) =
            false) := by
  rw [run_ofSubjects, check_seeing, ofSubjects_eq, takeSnapshot_seeing]
  refine ⟨rfl, ?_⟩
  rw [List.any_eq_true]
  exact exists_congr fun subject => and_congr_right fun _ => by rw [Bool.not_eq_true']

end Watch

end FormDesigner
