import FormDesigner.Proofs.History.Gestures
import FormDesigner.Proofs.History.Notices

/-!
The numbers of the entries of a session.

The selection marks the entry of its edits by a number only, and the log gets new entries and
loses others without a look at that mark.  All the same the mark never stands for another entry:
numbers ascend and none comes back, and whatever puts an entry on top of the marked one removes
the mark.
-/

namespace FormDesigner

open Program

/-- What may happen to a session: its operations, and any change of its tree that it is not told
of. -/
inductive Event where
  | select (node : Option NodeId)
  | changed
  | reparent (node : NodeId) (target : Option NodeId)
  | created (node parent : NodeId)
  | deleted (node : NodeId)
  | reorderChild (parent : NodeId) (first second : Nat)
  | undo
  | revert
  | clear
  | edit (after : Tree)

namespace Event

/-- The session after an event, whether the operation succeeds or fails. -/
def perform (registry : Registry) (session : Session) : Event → Session
  | select node => finish (Session.select registry node) session
  | changed => finish (Session.objectChanged registry) session
  | reparent node target => finish (Session.reparent registry node target) session
  | created node parent => finish (Session.created registry node parent) session
  | deleted node => finish (Session.deleted registry node) session
  | reorderChild parent first second =>
      finish (Session.reorderChild registry parent first second) session
  | undo => finish (Session.undo registry) session
  | revert => finish (Session.revert registry) session
  | clear => finish Session.clear session
  | edit after => { session with tree := after }

/-- The change of links that an event is. -/
def change? : Event → Option Action
  | reparent node target => some (.move node target)
  | created node parent => some (.attach node parent)
  | deleted node => some (.remove node)
  | reorderChild parent first second => some (.reorder parent first second)
  | _ => none

/-- An entry of this number is in the log after the event, and was not there before. -/
def Gives (registry : Registry) (session : Session) (event : Event) (number : Nat) : Prop :=
  (event.perform registry session).log.contains number = true ∧
    session.log.contains number = false

end Event

namespace Log

variable {log shorter : Log} {number : Nat}

theorem contains_iff :
    log.contains number = true ↔ ∃ entry ∈ log.entries, entry.number = number := by
  simp only [contains, List.any_eq_true, decide_eq_true_iff]

theorem contains_of_subset (h : shorter.entries ⊆ log.entries)
    (hnumber : shorter.contains number = true) : log.contains number = true := by
  obtain ⟨entry, hentry, rfl⟩ := contains_iff.mp hnumber
  exact contains_iff.mpr ⟨entry, h hentry, rfl⟩

theorem Numbered.not_contains_next (h : log.Numbered) : log.contains log.next = false := by
  rw [Bool.eq_false_iff]
  intro hthere
  obtain ⟨entry, hentry, hnumber⟩ := contains_iff.mp hthere
  have hbelow : log.next > entry.number :=
    List.rel_of_pairwise_cons h (List.mem_map_of_mem hentry)
  exact Nat.ne_of_lt hbelow hnumber

end Log

namespace Session

variable {registry : Registry} {session before after : Session} {selection : Selection}

/-- No entry is marked. -/
def Unmarked (session : Session) : Prop :=
  ∀ selection, session.selection = some selection → selection.pending = none

/-- The log and the selection after an edit was noted. -/
inductive Notes (before after : Session) : Prop where
  | idle (hlog : after.log = before.log) (hselection : after.selection = before.selection)
  | entry {selection : Selection} (hselection : before.selection = some selection)
      (hlog : after.log =
        before.log.add "property change" (.modification selection.node selection.baseline))
      (hmark : after.selection = some { selection with pending := some before.log.next })
  | discard {selection : Selection} {number : Nat} (hselection : before.selection = some selection)
      (hpending : before.pendingEntry selection = some number)
      (hlog : after.log = (before.log.remove number).2) (hunmarked : after.Unmarked)

/-- The log and the selection after any event. -/
inductive Moves (before after : Session) : Prop where
  | note (h : Notes before after)
  | choose (hlog : after.log = before.log) (hunmarked : after.Unmarked)
  | record {label : String} {action : Action} (hlog : after.log = before.log.add label action)
      (hunmarked : after.Unmarked)
  | takeBack (hentries : after.log.entries <:+ before.log.entries)
      (hnext : after.log.next = before.log.next) (hselection : after.selection = before.selection)

/-! ### What the operations do -/

theorem notes_objectChanged (registry : Registry) (session : Session) :
    Notes session (finish (objectChanged registry) session) := by
  rw [finish, objectChanged, bind_ok (get_apply session)]
  cases hselection : session.selection with
  | none => exact .idle rfl rfl
  | some selection =>
      dsimp only
      cases hpending : session.pendingEntry selection with
      | none =>
          dsimp only
          cases happly : (Action.modification selection.node selection.baseline).apply
              session.tree with
          | error failure tree =>
              rw [bind_error (onJournal_error (Journal.push_error happly))]
              exact .idle rfl rfl
          | ok applied tree =>
              rw [bind_ok (onJournal_ok (Journal.push_ok happly))]
              cases Action.applied_of_apply happly
              exact .entry hselection rfl rfl
      | some number =>
          have hsame : finish (isModified registry selection) session = session :=
            (keeps_isModified selection session rfl).symm
          dsimp only
          cases hrun : isModified registry selection session with
          | error failure left =>
              rw [finish_of_error hrun] at hsame
              rw [bind_error hrun, hsame]
              exact .idle rfl rfl
          | ok modified left =>
              rw [finish_of_ok hrun] at hsame
              rw [bind_ok hrun, hsame]
              cases modified with
              | true => exact .idle rfl rfl
              | false =>
                  refine .discard hselection hpending rfl ?_
                  rintro chosen ⟨⟩
                  rfl

theorem moves_select (registry : Registry) (node : Option NodeId) (session : Session) :
    Moves session (finish (select registry node) session) := by
  refine .choose ?_ fun selection hselection => pending_of_select hselection
  rw [toJournal_select]

/-- A failed change of links is not recorded.  Another one takes the mark away, and it answers with
the number of its entry, unless the selected node cannot be copied then. -/
theorem pushStructural_cases (registry : Registry) (action : Action) (session : Session) :
    (∃ failure left, pushStructural registry action session = .error failure left ∧
      left.log = session.log ∧ left.selection = session.selection) ∨
    ∃ applied left, left.log = session.log.add action.label applied ∧ left.Unmarked ∧
      (pushStructural registry action session = .ok session.log.next left ∨
        ∃ failure, pushStructural registry action session = .error failure left) := by
  rw [pushStructural]
  cases happly : action.apply session.tree with
  | error failure tree =>
      rw [bind_error (onJournal_error (Journal.push_error happly))]
      exact .inl ⟨failure, _, rfl, rfl, rfl⟩
  | ok applied tree =>
      refine .inr ⟨applied, ?_⟩
      rw [bind_ok (onJournal_ok (Journal.push_ok happly)), bind_ok (get_apply _)]
      dsimp only
      cases hselection : session.selection with
      | none =>
          refine ⟨⟨⟨tree, session.log.add action.label applied⟩, none⟩, rfl, ?_, .inl rfl⟩
          rintro chosen ⟨⟩
      | some selection =>
          dsimp only
          rw [bind_ok (setSelection_apply _ _), bind_ok (get_apply _)]
          dsimp only
          cases hcopy : Editor.copyNode registry tree selection.node with
          | ok copy =>
              refine ⟨_, rfl, ?_, .inl rfl⟩
              rintro chosen ⟨⟩
              rfl
          | error failure =>
              refine ⟨_, rfl, ?_, .inr ⟨_, rfl⟩⟩
              rintro chosen ⟨⟩
              rfl

theorem moves_pushStructural (registry : Registry) (action : Action) (session : Session) :
    Moves session (finish (pushStructural registry action) session) := by
  rcases pushStructural_cases registry action session with
    ⟨failure, left, hfailed, hlog, hselection⟩ | ⟨applied, left, hlog, hunmarked, hrun⟩
  · rw [finish_of_error hfailed]
    exact .note (.idle hlog hselection)
  · rcases hrun with hdone | ⟨failure, hfailed⟩
    · rw [finish_of_ok hdone]
      exact .record hlog hunmarked
    · rw [finish_of_error hfailed]
      exact .record hlog hunmarked

/-- To undo leaves the oldest entries. -/
theorem keeps_suffix_undo (registry : Registry) (log : Log) :
    Keeps (fun journal : Journal => journal.log.entries <:+ log.entries ∧
      journal.log.next = log.next) (Journal.undo registry) := by
  intro journal h
  cases hentries : journal.log.entries with
  | nil =>
      rw [finish_of_ok (Journal.undo_empty hentries)]
      exact h
  | cons entry rest =>
      cases hrevert : entry.action.revert registry journal.tree with
      | ok done tree =>
          rw [finish_of_ok (Journal.undo_ok hentries hrevert)]
          rw [hentries] at h
          exact ⟨(List.suffix_cons entry rest).trans h.1, h.2⟩
      | error failure tree =>
          rw [finish_of_error (Journal.undo_error hentries hrevert)]
          exact h

theorem moves_onJournal {α : Type} {operation : JournalM α}
    (h : ∀ log : Log, Keeps (fun journal : Journal => journal.log.entries <:+ log.entries ∧
      journal.log.next = log.next) operation) (session : Session) :
    Moves session (finish (onJournal operation) session) := by
  obtain ⟨hentries, hnext⟩ := h session.log session.toJournal ⟨List.suffix_rfl, rfl⟩
  rw [finish_onJournal]
  exact .takeBack hentries hnext rfl

theorem moves_perform (registry : Registry) (session : Session) (event : Event) :
    Moves session (event.perform registry session) := by
  cases event with
  | select node => exact moves_select registry node session
  | changed => exact .note (notes_objectChanged registry session)
  | reparent node target => exact moves_pushStructural registry (.move node target) session
  | created node parent => exact moves_pushStructural registry (.attach node parent) session
  | deleted node => exact moves_pushStructural registry (.remove node) session
  | reorderChild parent first second =>
      exact moves_pushStructural registry (.reorder parent first second) session
  | undo => exact moves_onJournal (keeps_suffix_undo registry) session
  | revert =>
      refine moves_onJournal (fun log => ?_) session
      exact Journal.keeps_revert_of_undo (keeps_suffix_undo registry log)
  | clear => exact .takeBack (List.nil_suffix) rfl rfl
  | edit after => exact .note (.idle rfl rfl)

/-! ### What every event keeps -/

/-- The numbers ascend, and a marked entry that is still in the log is the latest one and that of
the selected node's edits. -/
structure Orderly (session : Session) : Prop where
  numbered : session.log.Numbered
  given : ∀ selection number, session.selection = some selection →
    selection.pending = some number → number < session.log.next
  latest : ∀ selection number, session.selection = some selection →
    selection.pending = some number → session.log.contains number = true →
      ∃ rest, session.log.entries = selection.entry number :: rest

namespace Orderly

theorem start (tree : Tree) : (start tree).Orderly :=
  ⟨Log.numbered_empty, nofun, nofun⟩

/-- Where nothing is marked, only the numbers count. -/
theorem of_unmarked (hnumbered : after.log.Numbered) (hunmarked : after.Unmarked) :
    after.Orderly := by
  have hnothing : ∀ selection number, after.selection = some selection →
      selection.pending = some number → False := by
    intro selection number hselection hpending
    rw [hunmarked selection hselection] at hpending
    cases hpending
  exact ⟨hnumbered, fun selection number hselection hpending =>
      (hnothing selection number hselection hpending).elim,
    fun selection number hselection hpending =>
      (hnothing selection number hselection hpending).elim⟩

/-- An entry that is taken away because the values are back is the latest one. -/
theorem entries_of_pending (h : before.Orderly) {selection : Selection} {number : Nat}
    (hselection : before.selection = some selection)
    (hpending : before.pendingEntry selection = some number) :
    before.log.entries = selection.entry number :: (before.log.remove number).2.entries := by
  obtain ⟨hmark, hthere⟩ := Option.filter_eq_some_iff.mp hpending
  obtain ⟨rest, hentries⟩ := h.latest selection number hselection hmark hthere
  have herase : (selection.entry number :: rest).eraseP (fun entry => entry.number = number) =
      rest := List.eraseP_cons_of_pos (decide_eq_true rfl)
  rw [Log.remove, hentries]
  exact congrArg _ herase.symm

/-- Of the entries that are left after others were taken back, the marked one is the latest or
gone. -/
theorem takeBack (h : before.Orderly) (hentries : after.log.entries <:+ before.log.entries)
    (hnext : after.log.next = before.log.next) (hselection : after.selection = before.selection) :
    after.Orderly where
  numbered := by
    have hshorter := h.numbered.of_sublist hentries.sublist
    rwa [Log.Numbered, ← hnext] at hshorter
  given selection number hchosen hpending := by
    rw [hnext]
    exact h.given selection number (hselection ▸ hchosen) hpending
  latest := by
    intro selection number hchosen hpending hthere
    have hbefore := Log.contains_of_subset hentries.subset hthere
    obtain ⟨rest, hlatest⟩ := h.latest selection number (hselection ▸ hchosen) hpending hbefore
    rw [hlatest, List.suffix_cons_iff] at hentries
    rcases hentries with hall | hrest
    · exact ⟨rest, hall⟩
    · obtain ⟨entry, hentry, hnumber⟩ := Log.contains_iff.mp hthere
      have hgone := h.numbered.not_contains hlatest
      cases hgone.symm.trans (Log.contains_iff.mpr ⟨entry, hrest.subset hentry, hnumber⟩)

theorem note (h : before.Orderly) (hnotes : Notes before after) : after.Orderly := by
  cases hnotes with
  | idle hlog hselection =>
      exact h.takeBack (hlog ▸ List.suffix_rfl) (congrArg Log.next hlog) hselection
  | @entry selection hselection hlog hmark =>
      refine ⟨hlog ▸ h.numbered.add _ _, ?_, ?_⟩
      · intro chosen number hchosen hpending
        cases hmark.symm.trans hchosen
        cases hpending
        rw [hlog]
        exact Nat.lt_succ_self _
      · intro chosen number hchosen hpending _
        cases hmark.symm.trans hchosen
        cases hpending
        rw [hlog]
        exact ⟨before.log.entries, rfl⟩
  | discard hselection hpending hlog hunmarked =>
      exact of_unmarked (hlog ▸ h.numbered.remove _) hunmarked

theorem move (h : before.Orderly) (hmoves : Moves before after) : after.Orderly := by
  cases hmoves with
  | note hnotes => exact h.note hnotes
  | choose hlog hunmarked => exact of_unmarked (hlog ▸ h.numbered) hunmarked
  | record hlog hunmarked => exact of_unmarked (hlog ▸ h.numbered.add _ _) hunmarked
  | takeBack hentries hnext hselection => exact h.takeBack hentries hnext hselection

theorem run (h : before.Orderly) (events : List Event) :
    (events.foldl (Event.perform registry) before).Orderly := by
  induction events generalizing before with
  | nil => exact h
  | cons event rest ih => exact ih (h.move (moves_perform registry before event))

end Orderly

/-! ### The numbers that are given out -/

/-- An event takes entries away, or it puts one on top with the next number. -/
theorem Moves.entries (h : Moves before after) :
    (after.log.entries.Sublist before.log.entries ∧ after.log.next = before.log.next) ∨
    ∃ entry, after.log.entries = entry :: before.log.entries ∧
      entry.number = before.log.next ∧ after.log.next = before.log.next + 1 := by
  cases h with
  | note hnotes =>
      cases hnotes with
      | idle hlog _ => exact .inl (hlog ▸ ⟨List.Sublist.refl _, rfl⟩)
      | entry _ hlog _ => exact .inr (hlog ▸ ⟨_, rfl, rfl, rfl⟩)
      | discard _ _ hlog _ => exact .inl (hlog ▸ ⟨List.eraseP_sublist, rfl⟩)
  | choose hlog _ => exact .inl (hlog ▸ ⟨List.Sublist.refl _, rfl⟩)
  | record hlog _ => exact .inr (hlog ▸ ⟨_, rfl, rfl, rfl⟩)
  | takeBack hentries hnext _ => exact .inl ⟨hentries.sublist, hnext⟩

theorem next_le_perform (session : Session) (event : Event) :
    session.log.next ≤ (event.perform registry session).log.next := by
  rcases (moves_perform registry session event).entries with ⟨-, hnext⟩ | ⟨_, -, -, hnext⟩
  · rw [hnext]
  · rw [hnext]
    exact Nat.le_succ _

theorem next_le_run (registry : Registry) (session : Session) (events : List Event) :
    session.log.next ≤ (events.foldl (Event.perform registry) session).log.next := by
  induction events generalizing session with
  | nil => exact Nat.le_refl _
  | cons event rest ih => exact (next_le_perform session event).trans (ih _)

/-- Only the next number is given out, and then it is no longer the next one. -/
theorem next_of_gives {event : Event} {number : Nat}
    (h : event.Gives registry session number) :
    number = session.log.next ∧
      (event.perform registry session).log.next = session.log.next + 1 := by
  obtain ⟨hthere, hnew⟩ := h
  rcases (moves_perform registry session event).entries with
    ⟨hsublist, -⟩ | ⟨latest, hentries, hlatest, hnext⟩
  · cases hnew.symm.trans (Log.contains_of_subset hsublist.subset hthere)
  · obtain ⟨entry, hentry, rfl⟩ := Log.contains_iff.mp hthere
    rw [hentries] at hentry
    rcases List.mem_cons.mp hentry with rfl | hearlier
    · exact ⟨hlatest, hnext⟩
    · cases hnew.symm.trans (Log.contains_iff.mpr ⟨entry, hearlier, rfl⟩)

/-- The number that a change of links answers with is given out. -/
theorem Orderly.gives_of_answer (h : session.Orderly) {event : Event} {action : Action}
    (hchange : event.change? = some action) {number : Nat} {left : Session}
    (hanswer : pushStructural registry action session = .ok number left) :
    event.Gives registry session number := by
  have hleft : event.perform registry session = left := by
    rw [← finish_of_ok hanswer]
    cases event <;> cases hchange <;> rfl
  rcases pushStructural_cases registry action session with
    ⟨failure, _, hfailed, -⟩ | ⟨applied, after, hlog, -, hdone | ⟨failure, hfailed⟩⟩
  · rw [hfailed] at hanswer
    cases hanswer
  · rw [hdone] at hanswer
    cases hanswer
    constructor
    · rw [hleft, hlog]
      exact Log.contains_iff.mpr ⟨_, List.mem_cons_self, rfl⟩
    · exact h.numbered.not_contains_next
  · rw [hfailed] at hanswer
    cases hanswer

/-- Whatever happens to a session: the numbers in the log ascend and are below the next one.  A
marked entry that is still in the log is the latest one, and that of the selected node's edits from
the remembered values on.  Every number that is given out is above those that were given out
before, and to these belong the answers of changes of links.  An entry that goes away because the
values are back is the marked one, and all other entries stay. -/
theorem numbers_ascend (registry : Registry) (tree : Tree) (events : List Event) :
    let session := events.foldl (Event.perform registry) (start tree)
    session.log.Numbered ∧
    (∀ selection number, session.selection = some selection → selection.pending = some number →
      session.log.contains number = true →
        ∃ rest, session.log.entries = selection.entry number :: rest) ∧
    (∀ (event : Event) (number : Nat), event.Gives registry session number →
      ∀ (later : List Event) (other : Event) (next : Nat),
        other.Gives registry (later.foldl (Event.perform registry)
          (event.perform registry session)) next → number < next) ∧
    (∀ (event : Event) action number left, event.change? = some action →
      pushStructural registry action session = .ok number left →
        event.Gives registry session number) ∧
    ∀ entry ∈ session.log.entries,
      entry ∉ (Event.changed.perform registry session).log.entries →
        session.log.entries = entry :: (Event.changed.perform registry session).log.entries ∧
        ∃ selection number, session.selection = some selection ∧
          selection.pending = some number ∧ entry = selection.entry number := by
  intro session
  have horderly : session.Orderly := (Orderly.start tree).run events
  refine ⟨horderly.numbered, horderly.latest, ?_, ?_, ?_⟩
  · intro event number hgives later other next hother
    obtain ⟨hnumber, hafter⟩ := next_of_gives hgives
    obtain ⟨hnext, -⟩ := next_of_gives hother
    have hlater := next_le_run registry (event.perform registry session) later
    rw [hafter, ← hnumber, ← hnext] at hlater
    exact hlater
  · intro event action number left hchange hanswer
    exact horderly.gives_of_answer hchange hanswer
  · intro entry hentry hgone
    have hnotes : Notes session (Event.changed.perform registry session) :=
      notes_objectChanged registry session
    cases hnotes with
    | idle hlog _ => exact absurd (hlog ▸ hentry) hgone
    | entry _ hlog _ => exact absurd (hlog ▸ List.mem_cons_of_mem _ hentry) hgone
    | @discard selection number hselection hpending hlog _ =>
        have hentries := horderly.entries_of_pending hselection hpending
        rw [← hlog] at hentries
        have hlatest : entry = selection.entry number := by
          rw [hentries] at hentry
          exact (List.mem_cons.mp hentry).resolve_right hgone
        rw [hlatest]
        exact ⟨hentries, selection, number, hselection, pendingEntry_eq hpending, rfl⟩

/-- A node is selected and gets a label, of which the session is told; then it loses the label. -/
def labelTaken : List Event :=
  [.select (some 0), .edit (Tree.labels.changeValues 0 (Tree.labelled "x")), .changed,
    .edit Tree.labels]

/-- The session in which the label was given and taken. -/
def labelTakenSession : Session :=
  labelTaken.foldl (Event.perform Registry.labels) (start Tree.labels)

/-- The entry of the label is marked.  The next notice takes it away, and nothing else.  If a node
is taken out and put back instead, the new entries have new numbers. -/
theorem numbers_ascend_of_label :
    labelTakenSession.selection = some ⟨0, ⟨"text", .empty, none⟩, some 0⟩ ∧
    labelTakenSession.log.contains 0 = true ∧
    (∃ rest, labelTakenSession.log.entries =
      (⟨0, ⟨"text", .empty, none⟩, some 0⟩ : Selection).entry 0 :: rest) ∧
    labelTakenSession.log.entries =
      (⟨0, ⟨"text", .empty, none⟩, some 0⟩ : Selection).entry 0 ::
        (Event.changed.perform Registry.labels labelTakenSession).log.entries ∧
    (Event.deleted 1).Gives Registry.labels labelTakenSession 1 ∧
    (Event.created 1 0).Gives Registry.labels
      ((Event.deleted 1).perform Registry.labels labelTakenSession) 2 ∧ 1 < 2 := by
  obtain ⟨-, hlatest, hascend, hanswer, htaken⟩ :=
    numbers_ascend Registry.labels Tree.labels labelTaken
  have hentries := hlatest ⟨0, ⟨"text", .empty, none⟩, some 0⟩ 0 rfl rfl rfl
  have hgives : (Event.deleted 1).Gives Registry.labels labelTakenSession 1 :=
    hanswer (.deleted 1) (.remove 1) 1 _ rfl rfl
  have hback : (Event.created 1 0).Gives Registry.labels
      ((Event.deleted 1).perform Registry.labels labelTakenSession) 2 := ⟨rfl, rfl⟩
  exact ⟨rfl, rfl, hentries, (htaken _ List.mem_cons_self List.not_mem_nil).1, hgives, hback,
    hascend (.deleted 1) 1 hgives [] (.created 1 0) 2 hback⟩

end Session

end FormDesigner
