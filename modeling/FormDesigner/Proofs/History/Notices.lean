import FormDesigner.Proofs.History.Freshness

/-!
When the edits of a node have an entry.

While a node stays selected and no links change, the log is what it was with at most one entry
on top.  Only a notice that finds that entry compares the node with the remembered copy.  One
that finds none makes the entry without looking, so that an entry may stand for no difference
at all.
-/

namespace FormDesigner

open Program

/-- The entry for the edits of the selected node. -/
def Selection.entry (selection : Selection) (number : Nat) : Entry :=
  let action := Action.modification selection.node selection.baseline
  ⟨action.label, number, action⟩

/-- What happens while a node stays selected and no links change. -/
inductive Touch where
  /-- Values of the selected node are changed in place. -/
  | edit (changes : List (String × Option Datum))
  /-- The session is told of edits. -/
  | notice

namespace Session

/-- Changes values of the selected node in place. -/
def editSelected (changes : List (String × Option Datum)) : SessionM Unit :=
  modify fun session =>
    match session.selection with
    | some selection =>
        { session with tree := session.tree.changeValues selection.node changes }
    | none => session

/-- Edits and notices, one after another. -/
def touch (registry : Registry) (touches : List Touch) : SessionM Unit :=
  touches.forM fun
    | .edit changes => editSelected changes
    | .notice => objectChanged registry

/-- A session right after a selection or a change of links. -/
inductive Begins (registry : Registry) (session : Session) : Prop where
  | select {earlier : Session} {node : Option NodeId}
      (h : Session.select registry node earlier = .ok () session)
  | structural {earlier : Session} {action : Action} {number : Nat}
      (h : pushStructural registry action earlier = .ok number session)

/-- The log is `base`, with an entry for the edits of the selected node on top if they are
noted. -/
def Coalesced (selection : Selection) (base : Log) (noted : Bool) (session : Session) : Prop :=
  if noted then ∃ number, session.log.entries = selection.entry number :: base.entries
  else session.log.entries = base.entries

variable {registry : Registry} {session : Session} {selection : Selection}

/-! ### The start -/

theorem pending_of_select {node : Option NodeId}
    (h : (finish (select registry node) session).selection = some selection) :
    selection.pending = none := by
  cases node with
  | none => cases h
  | some id =>
      rw [finish, select, bind_ok (setSelection_apply none session), bind_ok (get_apply _)] at h
      cases hcopy : Editor.copyNode registry session.tree id with
      | ok baseline =>
          simp only [hcopy] at h
          cases h
          rfl
      | error failure =>
          simp only [hcopy] at h
          cases h

/-- After a change of links the selection remembers a copy of its node as it is then. -/
theorem of_pushStructural_ok {action : Action} {earlier : Session} {number : Nat}
    (h : pushStructural registry action earlier = .ok number session)
    (hselection : session.selection = some selection) :
    selection.pending = none ∧
      Editor.copyNode registry session.tree selection.node = .ok selection.baseline := by
  obtain ⟨pushed, middle, -, hrest⟩ := of_bind_ok h
  rw [bind_ok (get_apply middle)] at hrest
  cases hchosen : middle.selection with
  | none =>
      simp only [hchosen] at hrest
      cases hrest
      rw [hchosen] at hselection
      cases hselection
  | some chosen =>
      simp only [hchosen] at hrest
      rw [bind_ok (setSelection_apply _ middle), bind_ok (get_apply _)] at hrest
      cases hcopy : Editor.copyNode registry middle.tree chosen.node with
      | ok baseline =>
          simp only [hcopy] at hrest
          cases hrest
          cases hselection
          exact ⟨rfl, hcopy⟩
      | error failure =>
          simp only [hcopy] at hrest
          cases hrest

/-- At the start nothing is noted, and the selection remembers a copy of its node. -/
theorem Begins.copy (h : Begins registry session)
    (hselection : session.selection = some selection) :
    selection.pending = none ∧
      Editor.copyNode registry session.tree selection.node = .ok selection.baseline := by
  cases h with
  | structural h => exact of_pushStructural_ok h hselection
  | @select earlier node h =>
      have hfinish := finish_of_ok h
      have htree : session.toJournal = earlier.toJournal := by
        rw [← hfinish]
        exact toJournal_select registry node earlier
      rw [← hfinish] at hselection
      rw [htree]
      exact ⟨pending_of_select hselection, copyNode_of_select hselection⟩

/-! ### One step -/

/-- The selected node is there, and the log is `base` with the pending entry on top, if there is
one. -/
structure Noting (selection : Selection) (base : Log) (pending : Option Nat) (session : Session) :
    Prop where
  selected : session.selection = some { selection with pending }
  entries : session.log.entries = (pending.map selection.entry).toList ++ base.entries
  live : ∃ live, session.tree.node? selection.node = some live

namespace Noting

variable {base : Log} {pending : Option Nat}

theorem coalesced (h : Noting selection base pending session) :
    Coalesced selection base pending.isSome session := by
  cases pending with
  | none => exact h.entries
  | some number => exact ⟨number, h.entries⟩

/-- The mark of the selection is that of the pending entry. -/
theorem pendingEntry_eq (h : Noting selection base pending session) :
    session.pendingEntry { selection with pending } = pending := by
  cases pending with
  | none => rfl
  | some number =>
      have hthere : session.log.contains number = true := by
        rw [Log.contains, h.entries]
        exact List.any_eq_true.mpr ⟨_, List.mem_cons_self, decide_eq_true rfl⟩
      exact Option.filter_some_pos hthere

/-- Edits change nothing of the log. -/
theorem edit (h : Noting selection base pending session) (changes : List (String × Option Datum)) :
    ∃ after, editSelected changes session = .ok () after ∧ Noting selection base pending after := by
  refine ⟨_, modify_apply _ session, ?_⟩
  obtain ⟨live, hlive⟩ := h.live
  simp only [h.selected]
  exact ⟨rfl, h.entries, Tree.exists_node?_changeValues hlive changes⟩

/-- A notice leaves an entry if it finds a difference, or if it finds no entry. -/
theorem notice (h : Noting selection base pending session) {component : Component}
    (hfind : registry.find? selection.baseline.component = some component) :
    ∃ after live differs left, objectChanged registry session = .ok () after ∧
      after.tree = session.tree ∧ session.tree.node? selection.node = some live ∧
      Editor.differs registry selection.baseline.component selection.baseline.fields live.fields =
        .ok differs ∧
      Noting selection base left after ∧ left.isSome = (differs || pending.isNone) := by
  obtain ⟨live, hlive⟩ := h.live
  obtain ⟨differs, hdiffers⟩ := Editor.differs_ok hfind selection.baseline.fields live.fields
  cases pending with
  | none =>
      refine ⟨_, live, differs, some session.log.next,
        objectChanged_unnoted h.selected h.pendingEntry_eq hlive, rfl, hlive, hdiffers, ?_, ?_⟩
      · refine ⟨rfl, ?_, ⟨live, hlive⟩⟩
        have hentries : session.log.entries = base.entries := h.entries
        rw [Log.add, hentries]
        rfl
      · exact (Bool.or_true differs).symm
  | some number =>
      have hnotice := objectChanged_noted h.selected h.pendingEntry_eq hlive hdiffers
      cases differs with
      | true => exact ⟨_, live, true, some number, hnotice, rfl, hlive, hdiffers, h, rfl⟩
      | false =>
          refine ⟨_, live, false, none, hnotice, rfl, hlive, hdiffers, ?_, rfl⟩
          refine ⟨rfl, ?_, ⟨live, hlive⟩⟩
          have hentries : session.log.entries = selection.entry number :: base.entries := h.entries
          simp only [Bool.false_eq_true, if_false, Log.remove, hentries]
          exact List.eraseP_cons_of_pos (decide_eq_true rfl)

/-- Edits and notices never fail, and keep the log as it was but for the entry on top. -/
theorem touch (h : Noting selection base pending session) {component : Component}
    (hfind : registry.find? selection.baseline.component = some component) (touches : List Touch) :
    ∃ after left, Session.touch registry touches session = .ok () after ∧
      Noting selection base left after := by
  induction touches generalizing session pending with
  | nil => exact ⟨session, pending, rfl, h⟩
  | cons first rest ih =>
      cases first with
      | edit changes =>
          obtain ⟨middle, hedit, hmiddle⟩ := h.edit changes
          obtain ⟨after, left, hrest, hafter⟩ := ih hmiddle
          exact ⟨after, left, (bind_ok hedit).trans hrest, hafter⟩
      | notice =>
          obtain ⟨middle, _, _, between, hnotice, -, -, -, hmiddle, -⟩ := h.notice hfind
          obtain ⟨after, left, hrest, hafter⟩ := ih hmiddle
          exact ⟨after, left, (bind_ok hnotice).trans hrest, hafter⟩

end Noting

/-! ### Whole runs -/

/-- Edits and notices after a selection or a change of links never fail.  A notice leaves an entry
with the copy from then if it finds a difference to it, or if there is no entry yet.  So the log
has an entry exactly if there is a difference, unless a notice comes that finds neither. -/
theorem coalesced_iff (hbegins : Begins registry session)
    (hselection : session.selection = some selection) (touches : List Touch) :
    Editor.copyNode registry session.tree selection.node = .ok selection.baseline ∧
    ∃ before after live noted differs,
      touch registry touches session = .ok () before ∧
      Coalesced selection session.log noted before ∧
      objectChanged registry before = .ok () after ∧ after.tree = before.tree ∧
      before.tree.node? selection.node = some live ∧
      Editor.differs registry selection.baseline.component selection.baseline.fields live.fields =
        .ok differs ∧
      Coalesced selection session.log (differs || !noted) after ∧
      (Coalesced selection session.log differs after ↔ differs = true ∨ noted = true) := by
  obtain ⟨hpending, hcopy⟩ := hbegins.copy hselection
  obtain ⟨live, component, hlive, hfind, hbaseline⟩ := Editor.of_copyNode_ok hcopy
  have hstart : Noting selection session.log none session := by
    refine ⟨?_, rfl, ⟨live, hlive⟩⟩
    rw [hselection, ← hpending]
  have hknown : registry.find? selection.baseline.component = some component := by
    rw [hbaseline]
    exact hfind
  obtain ⟨before, pending, htouch, hbefore⟩ := hstart.touch hknown touches
  obtain ⟨after, live, differs, left, hnotice, htree, hlive, hdiffers, hafter, hleft⟩ :=
    hbefore.notice hknown
  have hresult := hafter.coalesced
  have hmissing : pending.isNone = !pending.isSome := by cases pending <;> rfl
  rw [hleft, hmissing] at hresult
  refine ⟨hcopy, before, after, live, pending.isSome, differs, htouch, hbefore.coalesced, hnotice,
    htree, hlive, hdiffers, hresult, ?_⟩
  constructor
  · intro hexact
    by_contra hneither
    obtain ⟨hsame, hunnoted⟩ := not_or.mp hneither
    rw [Bool.not_eq_true] at hsame hunnoted
    rw [hsame, hunnoted] at hresult
    rw [hsame] at hexact
    obtain ⟨number, hentries⟩ := hresult
    have hnothing : after.log.entries = session.log.entries := hexact
    rw [hnothing] at hentries
    exact List.cons_ne_self _ _ hentries.symm
  · rintro (hdiffers | hnoted)
    · rw [hdiffers, Bool.true_or] at hresult
      rw [hdiffers]
      exact hresult
    · rw [hnoted, Bool.not_true, Bool.or_false] at hresult
      exact hresult

/-- A selected node without values. -/
def labelSelected : Session := ⟨⟨Tree.labels, Log.empty⟩, some ⟨0, ⟨"text", .empty, none⟩, none⟩⟩

theorem begins_labelSelected : Begins Registry.labels labelSelected :=
  .select (show select Registry.labels (some 0) (start Tree.labels) = .ok () labelSelected from rfl)

/-- A node gets a label, and the notice of that makes an entry. -/
theorem coalesced_iff_of_label :
    Begins Registry.labels labelSelected ∧
    labelSelected.selection = some ⟨0, ⟨"text", .empty, none⟩, none⟩ ∧
    ∃ before after, touch Registry.labels [.edit (Tree.labelled "x")] labelSelected =
        .ok () before ∧
      objectChanged Registry.labels before = .ok () after ∧
      Coalesced ⟨0, ⟨"text", .empty, none⟩, none⟩ Log.empty true after := by
  obtain
    ⟨-, before, after, live, noted, differs, htouch, -, hnotice, -, hlive, hdiffers, -, hiff⟩ :=
    coalesced_iff begins_labelSelected rfl [.edit (Tree.labelled "x")]
  refine ⟨begins_labelSelected, rfl, before, after, htouch, hnotice, ?_⟩
  cases htouch
  cases hlive
  cases hdiffers
  exact hiff.mpr (Or.inl rfl)

/-- A node gets a label and loses it again, and each time a notice follows.  The node is as it was,
and so is the log.  One more notice makes an entry, although there is no difference. -/
theorem not_coalesced :
    ∃ before after live,
      Begins Registry.labels labelSelected ∧
      touch Registry.labels [.edit (Tree.labelled "x"), .notice, .edit [("label", none)], .notice]
        labelSelected = .ok () before ∧
      before.tree = labelSelected.tree ∧
      Coalesced ⟨0, ⟨"text", .empty, none⟩, none⟩ Log.empty false before ∧
      objectChanged Registry.labels before = .ok () after ∧
      before.tree.node? 0 = some live ∧
      Editor.differs Registry.labels "text" .empty live.fields = .ok false ∧
      ¬Coalesced ⟨0, ⟨"text", .empty, none⟩, none⟩ Log.empty false after := by
  refine ⟨_, _, _, begins_labelSelected, rfl, rfl, rfl, rfl, rfl, rfl, ?_⟩
  intro hexact
  cases hexact

end Session

end FormDesigner
