import Mathlib.Data.List.Chain
import FormDesigner.Proofs.Registry.Building

/-!
Circles of inheritance.

The search for what components inherit is written down here as it goes, by rules that do not
bound how deep it gets.  It always comes to its end, with the answer of the bounded lookup: the
heirs that wait are different ones, so they are no more than the declarations.  The heirs on
the way are at any time a chain of inheritance, which is what a reported circle is cut from.
-/

namespace FormDesigner

namespace Inheritance

/-- What is left to look up: a component, or the rest of the parents of a heir. -/
inductive Goal where
  | component (declaration : ComponentDeclaration)
  | parents (heir : String) (names : List String)

/-- The component is complete when its parents are. -/
def complete (component : ComponentDeclaration) (done : Resolved) :
    Except RegistryError Resolved :=
  merge component.id
      (component.inherits.flatMap (fun id => (done.properties id).items) ++ component.own) >>=
    fun properties => .ok (done ++ [(component.id, properties)])

/-- The search ends with an answer.  The path holds the heirs that wait. -/
inductive Search (declarations : List ComponentDeclaration) :
    List String → Resolved → Goal → Except RegistryError Resolved → Prop where
  | known {path done component} (isDone : (done.lookup component.id).isSome = true) :
      Search declarations path done (.component component) (.ok done)
  | closed {path done component} (isNew : done.lookup component.id = none)
      (waits : component.id ∈ path) :
      Search declarations path done (.component component)
        (.error (.cyclicInheritance (circle path component.id)))
  | entered {path done component answer} (isNew : done.lookup component.id = none)
      (fresh : component.id ∉ path)
      (parents : Search declarations (path ++ [component.id]) done
        (.parents component.id component.inherits) answer) :
      Search declarations path done (.component component) (answer >>= complete component)
  | finished {path done heir} : Search declarations path done (.parents heir []) (.ok done)
  | missing {path done heir name names}
      (unknown : declarations.find? (fun parent => parent.id = name) = none) :
      Search declarations path done (.parents heir (name :: names))
        (.error (.unknownParent heir name))
  | failed {path done heir name names parent failure}
      (known : declarations.find? (fun parent => parent.id = name) = some parent)
      (first : Search declarations path done (.component parent) (.error failure)) :
      Search declarations path done (.parents heir (name :: names)) (.error failure)
  | found {path done heir name names parent middle answer}
      (known : declarations.find? (fun parent => parent.id = name) = some parent)
      (first : Search declarations path done (.component parent) (.ok middle))
      (rest : Search declarations path middle (.parents heir names) answer) :
      Search declarations path done (.parents heir (name :: names)) answer

/-- Every entry is a heir of the next one. -/
def Descending (declarations : List ComponentDeclaration) (path : List String) : Prop :=
  path.IsChain fun heir parent => Inherits declarations parent heir

/-- The heirs that wait are different ones, each the heir of the next, and the last one is
the heir of what is looked up. -/
def Trail (declarations : List ComponentDeclaration) (path : List String) : Goal → Prop
  | .component declaration =>
      declaration ∈ declarations ∧ path.Nodup ∧ Descending declarations (path ++ [declaration.id])
  | .parents heir names =>
      path.Nodup ∧ Descending declarations path ∧ path.getLast? = some heir ∧
        ∀ name ∈ names, Inherits declarations name heir

variable {declarations : List ComponentDeclaration} {path : List String} {done after : Resolved}
  {goal : Goal} {answer other : Except RegistryError Resolved}

section Trail

variable {component parent : ComponentDeclaration} {heir name : String} {names : List String}

theorem Trail.entered (h : Trail declarations path (.component component))
    (hfresh : component.id ∉ path) :
    Trail declarations (path ++ [component.id]) (.parents component.id component.inherits) := by
  obtain ⟨hknown, hpath, hchain⟩ := h
  have hlonger : (path ++ [component.id]).Nodup := by
    rw [← List.concat_eq_append]
    exact hpath.concat hfresh
  exact ⟨hlonger, hchain, List.getLast?_concat, fun name hname => ⟨component, hknown, rfl, hname⟩⟩

theorem Trail.first (h : Trail declarations path (.parents heir (name :: names)))
    (hfind : declarations.find? (fun parent => parent.id = name) = some parent) :
    Trail declarations path (.component parent) := by
  obtain ⟨hpath, hchain, hlast, hnames⟩ := h
  have hid : parent.id = name := by simpa using List.find?_some hfind
  have hinherits : Inherits declarations parent.id heir :=
    hid ▸ hnames name List.mem_cons_self
  refine ⟨List.mem_of_find?_eq_some hfind, hpath, ?_⟩
  apply List.IsChain.append hchain (List.isChain_singleton _)
  intro last hmem below hbelow
  cases hlast.symm.trans hmem
  cases hbelow
  exact hinherits

theorem Trail.rest (h : Trail declarations path (.parents heir (name :: names))) :
    Trail declarations path (.parents heir names) := by
  obtain ⟨hpath, hchain, hlast, hnames⟩ := h
  exact ⟨hpath, hchain, hlast, fun other hmem => hnames other (List.mem_cons_of_mem name hmem)⟩

/-- Whatever stands above the end of a chain inherits from it. -/
theorem Descending.inherits {id : String} (h : Descending declarations (path ++ [id])) :
    ∀ heir ∈ path, Relation.TransGen (Inherits declarations) id heir := by
  induction path with
  | nil => exact fun _ hmem => absurd hmem List.not_mem_nil
  | cons first rest ih =>
      have hrest := ih h.tail
      have hfirst : Relation.TransGen (Inherits declarations) id first := by
        cases rest with
        | nil => exact .single h.rel
        | cons second others => exact .tail (hrest second List.mem_cons_self) h.rel
      intro heir hmem
      rcases List.mem_cons.mp hmem with rfl | hbelow
      · exact hfirst
      · exact hrest heir hbelow

/-- The heirs that wait for a component are no more than the declarations. -/
theorem Trail.length_le (h : Trail declarations path (.component component)) :
    path.length ≤ declarations.length :=
  length_le_of_heirs h.2.1 h.2.2.inherits

end Trail

section Answers

/-- The search has one answer. -/
theorem Search.unique (h : Search declarations path done goal answer)
    (hother : Search declarations path done goal other) : answer = other := by
  induction h generalizing other with
  | known isDone =>
      cases hother with
      | known => rfl
      | closed isNew => simp [isNew] at isDone
      | entered isNew => simp [isNew] at isDone
  | closed isNew waits =>
      cases hother with
      | known isDone => simp [isNew] at isDone
      | closed => rfl
      | entered _ fresh => exact absurd waits fresh
  | entered isNew fresh _ ih =>
      cases hother with
      | known isDone => simp [isNew] at isDone
      | closed _ waits => exact absurd waits fresh
      | entered _ _ parents => rw [ih parents]
  | finished =>
      cases hother
      rfl
  | missing unknown =>
      cases hother with
      | missing => rfl
      | failed known => cases unknown.symm.trans known
      | found known => cases unknown.symm.trans known
  | failed known _ ih =>
      cases hother with
      | missing unknown => cases unknown.symm.trans known
      | failed known' first =>
          cases known.symm.trans known'
          exact ih first
      | found known' first =>
          cases known.symm.trans known'
          cases ih first
  | found known _ _ ihfirst ihrest =>
      cases hother with
      | missing unknown => cases unknown.symm.trans known
      | failed known' first =>
          cases known.symm.trans known'
          cases ihfirst first
      | found known' first rest =>
          cases known.symm.trans known'
          cases ihfirst first
          exact ihrest rest

/-- The search through the rest of the parents, if that for every one of them ends. -/
theorem search_parents {bound : Nat} {heir : String} {names : List String}
    (hresolve : ∀ state parent, Trail declarations path (.component parent) →
      Search declarations path state (.component parent)
        (resolve declarations bound path state parent))
    (htrail : Trail declarations path (.parents heir names)) :
    Search declarations path done (.parents heir names)
      (names.foldlM (resolveParent declarations bound path heir) done) := by
  induction names generalizing done with
  | nil => exact .finished
  | cons name rest ih =>
      rw [List.foldlM_cons, resolveParent]
      cases hfind : declarations.find? (fun parent => parent.id = name) with
      | none => exact .missing hfind
      | some parent =>
          have hfirst := hresolve done parent (htrail.first hfind)
          dsimp only
          cases hanswer : resolve declarations bound path done parent with
          | error failure => exact .failed hfind (hanswer ▸ hfirst)
          | ok middle => exact .found hfind (hanswer ▸ hfirst) (ih htrail.rest)

/-- The search for a component ends with the answer of the lookup, whose bound it does not
use up. -/
theorem search_resolve {bound : Nat} {component : ComponentDeclaration}
    (htrail : Trail declarations path (.component component))
    (hbound : declarations.length < path.length + bound) :
    Search declarations path done (.component component)
      (resolve declarations bound path done component) := by
  induction bound generalizing path done component with
  | zero =>
      have hlength := htrail.length_le
      omega
  | succ bound ih =>
      cases hthere : done.lookup component.id with
      | some properties =>
          have hdone : (done.lookup component.id).isSome = true := Option.isSome_of_eq_some hthere
          rw [resolve, if_pos hdone]
          exact .known hdone
      | none =>
          by_cases hpath : component.id ∈ path
          · rw [resolve, hthere, Option.isSome_none, if_neg Bool.false_ne_true,
              if_pos (by simpa using hpath)]
            exact .closed hthere hpath
          · rw [resolve_new hthere hpath]
            apply Search.entered hthere hpath
            apply search_parents _ (htrail.entered hpath)
            intro state parent hparent
            apply ih hparent
            rw [List.length_append, List.length_singleton]
            omega

end Answers

section Outcomes

/-- All that is done inherits from nothing that lies in a circle. -/
def Resolved.Grounded (declarations : List ComponentDeclaration) (done : Resolved) : Prop :=
  ∀ id, (done.lookup id).isSome = true → Acc (Inherits declarations) id

/-- What is to be looked up. -/
def Goal.ids : Goal → List String
  | .component declaration => [declaration.id]
  | .parents _ names => names

/-- Nothing that is done gets lost, and the listed ids are done. -/
def Resolved.Gains (done after : Resolved) (ids : List String) : Prop :=
  (∀ id, (done.lookup id).isSome = true → (after.lookup id).isSome = true) ∧
    ∀ id ∈ ids, (after.lookup id).isSome = true

theorem Resolved.isSome_lookup_snoc {id added : String} {properties : PropertyList} :
    ((done ++ [(added, properties)] : Resolved).lookup id).isSome = true ↔
      (done.lookup id).isSome = true ∨ id = added := by
  rw [List.lookup_append, Option.isSome_or, Bool.or_eq_true, List.lookup_cons]
  by_cases hid : id = added
  · simp [hid]
  · simp [beq_eq_false_iff_ne.mpr hid, hid]

theorem Resolved.Gains.trans {middle : Resolved} {ids others : List String}
    (h : done.Gains middle ids) (hrest : middle.Gains after others) :
    done.Gains after (ids ++ others) := by
  refine ⟨fun id hid => hrest.1 id (h.1 id hid), ?_⟩
  intro id hmem
  rcases List.mem_append.mp hmem with hfirst | hlast
  · exact hrest.1 id (h.2 id hfirst)
  · exact hrest.2 id hlast

/-- A component whose parents are all done lies in no circle. -/
theorem Resolved.Grounded.complete {component : ComponentDeclaration} {middle : Resolved}
    (hids : (declarations.map ComponentDeclaration.id).Nodup) (hknown : component ∈ declarations)
    (hmiddle : middle.Grounded declarations) (hgains : done.Gains middle component.inherits)
    (h : Inheritance.complete component middle = .ok after) :
    after.Grounded declarations ∧ done.Gains after [component.id] := by
  obtain ⟨properties, _, hlast⟩ := Answer.of_bind_ok h
  cases hlast
  refine ⟨?_, ?_, ?_⟩
  · intro id hid
    rcases isSome_lookup_snoc.mp hid with hold | rfl
    · exact hmiddle id hold
    · refine ⟨_, fun parent hparent => ?_⟩
      obtain ⟨declaration, hdeclaration, hsame, hnames⟩ := hparent
      cases eq_of_id_eq hids hdeclaration hknown hsame
      exact hmiddle parent (hgains.2 parent hnames)
  · exact fun id hid => isSome_lookup_snoc.mpr (.inl (hgains.1 id hid))
  · exact fun id hid => isSome_lookup_snoc.mpr (.inr (List.mem_singleton.mp hid))

/-- A search that succeeds gains what it was to look up, none of it in a circle. -/
theorem Search.grounded (hids : (declarations.map ComponentDeclaration.id).Nodup)
    (h : Search declarations path done goal answer) (htrail : Trail declarations path goal)
    (hdone : done.Grounded declarations) (hanswer : answer = .ok after) :
    after.Grounded declarations ∧ done.Gains after goal.ids := by
  induction h generalizing after with
  | known isDone =>
      cases hanswer
      refine ⟨hdone, fun _ hid => hid, ?_⟩
      intro id hid
      rwa [List.mem_singleton.mp hid]
  | closed => cases hanswer
  | entered _ fresh _ ih =>
      obtain ⟨middle, rfl, hcomplete⟩ := Answer.of_bind_ok hanswer
      obtain ⟨hmiddle, hgains⟩ := ih (htrail.entered fresh) hdone rfl
      exact hmiddle.complete hids htrail.1 hgains hcomplete
  | finished =>
      cases hanswer
      exact ⟨hdone, fun _ hid => hid, fun _ hid => absurd hid List.not_mem_nil⟩
  | missing => cases hanswer
  | failed => cases hanswer
  | @found _ _ _ name names parent _ _ known _ _ ihfirst ihrest =>
      obtain ⟨hmiddle, hfirst⟩ := ihfirst (htrail.first known) hdone rfl
      obtain ⟨hafter, hrest⟩ := ihrest htrail.rest hmiddle hanswer
      have hid : parent.id = name := by simpa using List.find?_some known
      have hgains := hfirst.trans hrest
      rw [Goal.ids, hid] at hgains
      exact ⟨hafter, hgains⟩

/-- Merging fails only for two properties of one name. -/
theorem of_complete_error {component : ComponentDeclaration} {failure : RegistryError}
    (h : complete component done = .error failure) :
    ∃ name, failure = .duplicateProperty component.id name := by
  rcases Answer.of_bind_error h with hmerge | ⟨properties, _, hlast⟩
  · obtain ⟨added, _, properties, hadd⟩ := Answer.of_foldlM_error hmerge
    rw [addProperty] at hadd
    split at hadd
    · cases hadd
    · split at hadd
      · cases hadd
      · cases hadd
        exact ⟨added.property.name, rfl⟩
  · cases hlast

/-- A circle of inheritance, written from a component to itself. -/
structure IsCircle (declarations : List ComponentDeclaration) (chain : List String) : Prop where
  length : 2 ≤ chain.length
  closed : chain.head? = chain.getLast?
  different : chain.dropLast.Nodup
  descending : Descending declarations chain

theorem isCircle_circle {id : String} (hpath : path.Nodup)
    (hchain : Descending declarations (path ++ [id])) (hmem : id ∈ path) :
    IsCircle declarations (circle path id) := by
  obtain ⟨before, below, rfl⟩ := List.append_of_mem hmem
  have hbefore : ∀ heir ∈ before, decide (heir ≠ id) = true := by
    intro heir hheir
    apply decide_eq_true
    rintro rfl
    exact (List.nodup_append.mp hpath).2.2 heir hheir heir List.mem_cons_self rfl
  have hcircle : circle (before ++ id :: below) id = (id :: below) ++ [id] := by
    rw [circle, List.dropWhile_append_of_pos hbefore, List.dropWhile_cons_of_neg (by simp)]
  rw [hcircle]
  constructor
  · simp
  · rw [List.getLast?_concat]
    rfl
  · rw [List.dropLast_concat]
    exact hpath.of_append_right
  · rw [Descending, List.append_assoc] at hchain
    exact hchain.right_of_append

theorem IsCircle.exists_transGen {chain : List String} (h : IsCircle declarations chain) :
    ∃ id ∈ chain, Relation.TransGen (Inherits declarations) id id := by
  cases chain using List.reverseRecOn with
  | nil => exact absurd h.length (by simp)
  | append_singleton path id =>
      refine ⟨id, List.mem_append_right _ List.mem_cons_self, ?_⟩
      apply h.descending.inherits
      have hclosed := h.closed
      cases path with
      | nil => exact absurd h.length (by simp)
      | cons first rest =>
          rw [List.getLast?_concat] at hclosed
          cases hclosed
          exact List.mem_cons_self

/-- A search reports only circles. -/
theorem Search.isCircle {chain : List String} (h : Search declarations path done goal answer)
    (htrail : Trail declarations path goal)
    (hanswer : answer = .error (.cyclicInheritance chain)) : IsCircle declarations chain := by
  induction h with
  | known => cases hanswer
  | closed _ waits =>
      cases hanswer
      exact isCircle_circle htrail.2.1 htrail.2.2 waits
  | entered _ fresh _ ih =>
      rcases Answer.of_bind_error hanswer with hparents | ⟨middle, _, hcomplete⟩
      · exact ih (htrail.entered fresh) hparents
      · obtain ⟨name, hother⟩ := of_complete_error hcomplete
        cases hother
  | finished => cases hanswer
  | missing => cases hanswer
  | failed known _ ih => exact ih (htrail.first known) hanswer
  | found _ _ _ _ ihrest => exact ihrest htrail.rest hanswer

end Outcomes

section All

variable {component : ComponentDeclaration}

theorem Trail.start (h : component ∈ declarations) :
    Trail declarations [] (.component component) :=
  ⟨h, List.nodup_nil, List.isChain_singleton _⟩

/-- The search from a component on. -/
theorem search_start (h : component ∈ declarations) :
    Search declarations [] done (.component component)
      (resolve declarations (declarations.length + 1) [] done component) := by
  apply search_resolve (Trail.start h)
  rw [List.length_nil]
  omega

theorem grounded_resolveAll {components : List ComponentDeclaration}
    (hids : (declarations.map ComponentDeclaration.id).Nodup)
    (hknown : ∀ component ∈ components, component ∈ declarations)
    (hdone : done.Grounded declarations)
    (h : components.foldlM (fun done component =>
      resolve declarations (declarations.length + 1) [] done component) done = .ok after) :
    after.Grounded declarations ∧ done.Gains after (components.map ComponentDeclaration.id) := by
  induction components generalizing done with
  | nil =>
      cases h
      exact ⟨hdone, fun _ hid => hid, fun _ hid => absurd hid List.not_mem_nil⟩
  | cons component rest ih =>
      rw [List.foldlM_cons] at h
      obtain ⟨middle, hfirst, hrest⟩ := Answer.of_bind_ok h
      have hmem := hknown component List.mem_cons_self
      obtain ⟨hmiddle, hgains⟩ :=
        (search_start hmem).grounded hids (Trail.start hmem) hdone hfirst
      obtain ⟨hafter, hothers⟩ :=
        ih (fun other hother => hknown other (List.mem_cons_of_mem component hother)) hmiddle hrest
      exact ⟨hafter, hgains.trans hothers⟩

/-- If all lookups succeed, no component lies in a circle. -/
theorem not_transGen_of_resolveAll (hids : (declarations.map ComponentDeclaration.id).Nodup)
    (h : resolveAll declarations = .ok done) (id : String) :
    ¬Relation.TransGen (Inherits declarations) id id := by
  intro hcircle
  have hnone : Resolved.Grounded declarations [] := fun _ hid => by cases hid
  obtain ⟨hgrounded, hgains⟩ := grounded_resolveAll hids (fun _ hmem => hmem) hnone h
  have hacc : Acc (Relation.TransGen (Inherits declarations)) id := by
    obtain ⟨_, _, declaration, hmem, rfl, _⟩ := Relation.TransGen.tail'_iff.mp hcircle
    exact (hgrounded _ (hgains.2 _ (List.mem_map_of_mem hmem))).transGen
  induction hacc with
  | intro id _ ih => exact ih id hcircle hcircle

theorem isCircle_of_resolveAll {chain : List String}
    (h : resolveAll declarations = .error (.cyclicInheritance chain)) :
    IsCircle declarations chain := by
  obtain ⟨component, hmem, done, hfailed⟩ := Answer.of_foldlM_error h
  exact (search_start hmem).isCircle (Trail.start hmem) hfailed

end All

end Inheritance

namespace Registry

open Inheritance

variable {declarations : List ComponentDeclaration} {settings : RenderSettings}

theorem of_compileTemplate_error {component : String} {properties : List Property}
    {mode : RenderMode} {source : String} {failure : RegistryError}
    (h : compileTemplate settings component properties mode source = .error failure) :
    ∃ cause, failure = .template component mode cause := by
  rw [compileTemplate] at h
  split at h
  · cases h
  · next cause _ =>
      cases h
      exact ⟨cause, rfl⟩

/-- A component is refused only for its templates. -/
theorem of_makeComponent_error {declaration : ComponentDeclaration}
    {shared : PropertyList} {failure : RegistryError}
    (h : makeComponent settings declaration shared = .error failure) :
    ∃ mode cause, failure = .template declaration.id mode cause := by
  rw [makeComponent] at h
  split at h
  · cases h
  · rcases Answer.of_bind_error h with hedit | ⟨edit, _, hmore⟩
    · exact ⟨.edit, of_compileTemplate_error hedit⟩
    · rcases Answer.of_bind_error hmore with hrun | ⟨run, _, hlast⟩
      · exact ⟨.run, of_compileTemplate_error hrun⟩
      · cases hlast

/-- Only the lookup of what is inherited reports circles. -/
theorem resolveAll_of_build_error {chain : List String}
    (h : build declarations settings = .error (.cyclicInheritance chain)) :
    resolveAll declarations = .error (.cyclicInheritance chain) := by
  rw [build] at h
  split at h
  · cases h
  · split at h
    · cases h
    · rcases Answer.of_bind_error h with hresolve | ⟨resolved, _, hmore⟩
      · exact hresolve
      · split at hmore
        · next hmake =>
            cases hmore
            obtain ⟨_, declaration, _, _, _, hfailed⟩ := Answer.of_mapM_error hmake
            obtain ⟨mode, cause, hother⟩ := of_makeComponent_error hfailed
            cases hother
        · cases hmore

/-- Building ends: from every component on, the search comes to exactly one answer, which is that
of the lookup.  If a component inherits from itself, building fails; and what is reported as a
circle is one, from a component back to itself, in which every entry inherits from the next. -/
theorem circles_of_build (declarations : List ComponentDeclaration) (settings : RenderSettings) :
    (∀ component ∈ declarations, ∀ done answer,
      Search declarations [] done (.component component) answer ↔
        answer = resolve declarations (declarations.length + 1) [] done component) ∧
    (∀ id, Relation.TransGen (Inherits declarations) id id →
      ∃ failure, build declarations settings = .error failure) ∧
    ∀ chain, build declarations settings = .error (.cyclicInheritance chain) →
      IsCircle declarations chain ∧
        ∃ id ∈ chain, Relation.TransGen (Inherits declarations) id id := by
  refine ⟨?_, ?_, ?_⟩
  · intro component hmem done answer
    constructor
    · intro hsearch
      exact hsearch.unique (search_start hmem)
    · rintro rfl
      exact search_start hmem
  · intro id hcircle
    cases hbuild : build declarations settings with
    | error failure => exact ⟨failure, rfl⟩
    | ok registry =>
        obtain ⟨_, hids, ⟨resolved, hresolved, _⟩, _⟩ := build_ok_iff.mp hbuild
        exact absurd hcircle (not_transGen_of_resolveAll hids hresolved id)
  · intro chain h
    have hchain := isCircle_of_resolveAll (resolveAll_of_build_error h)
    exact ⟨hchain, hchain.exists_transGen⟩

/-- A component with two parents, the second of which leads into a circle of two others. -/
def spiral : List ComponentDeclaration :=
  [{ id := "page", inherits := ["plain", "left"] },
    { id := "plain" },
    { id := "left", inherits := ["plain", "right"] },
    { id := "right", inherits := ["left"] }]

theorem circles_of_build_of_spiral :
    build spiral {} = .error (.cyclicInheritance ["left", "right", "left"]) ∧
      IsCircle spiral ["left", "right", "left"] ∧
      ∃ failure, build spiral {} = .error failure := by
  have hbuild : build spiral {} = .error (.cyclicInheritance ["left", "right", "left"]) := rfl
  obtain ⟨_, hcircles, hchains⟩ := circles_of_build spiral {}
  obtain ⟨hcircle, id, _, hself⟩ := hchains _ hbuild
  exact ⟨hbuild, hcircle, hcircles id hself⟩

end Registry

end FormDesigner
