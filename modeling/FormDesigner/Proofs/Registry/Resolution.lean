import Mathlib.Data.List.Perm.Subperm
import FormDesigner.Proofs.Registry.Heritage

/-!
Looking up what components inherit.

The lookup keeps a list of what is done.  Everything in it was found by recursion, so that
it makes no difference in which order the components are looked up.
-/

namespace FormDesigner

namespace Inheritance

variable {declarations : List ComponentDeclaration}

/-- What every component needs so that its properties can be found. -/
structure Heritable (declarations : List ComponentDeclaration) : Prop where
  ids : (declarations.map ComponentDeclaration.id).Nodup
  parents : ∀ declaration ∈ declarations, ∀ parent ∈ declaration.inherits,
    ∃ other ∈ declarations, other.id = parent
  acyclic : ∀ id, ¬Relation.TransGen (Inherits declarations) id id
  names : ∀ declaration ∈ declarations, ∀ properties,
    Collects declarations declaration properties → NamesAgree properties

namespace Resolved

/-- What is done was collected from the parents. -/
def Sound (declarations : List ComponentDeclaration) (done : Resolved) : Prop :=
  ∀ id properties, done.lookup id = some properties →
    ∃ declaration ∈ declarations, declaration.id = id ∧
      ∃ collected, Collects declarations declaration collected ∧ NamesAgree collected ∧
        properties.items = distinct collected

/-- More components are done, the listed ones among them. -/
structure Reaches (declarations : List ComponentDeclaration) (done after : Resolved)
    (ids : List String) : Prop where
  sound : after.Sound declarations
  kept : ∀ id properties, done.lookup id = some properties → after.lookup id = some properties
  found : ∀ id ∈ ids, (after.lookup id).isSome = true

variable {done middle after : Resolved} {ids others : List String}

theorem sound_nil : Sound declarations [] := by
  intro id properties h
  cases h

theorem Sound.effective (h : done.Sound declarations) {id : String}
    {properties : PropertyList} (hfound : done.lookup id = some properties) :
    Effective declarations id properties.items := by
  obtain ⟨declaration, hknown, rfl, collected, hcollects, _, hitems⟩ := h id properties hfound
  exact hitems ▸ hcollects.effective hknown

/-- When all parents are done, a component collects what is done for them. -/
theorem Sound.collects (h : done.Sound declarations) {declaration : ComponentDeclaration}
    (hfound : ∀ parent ∈ declaration.inherits, (done.lookup parent).isSome = true) :
    Collects declarations declaration
      (declaration.inherits.flatMap (fun id => (done.properties id).items) ++
        declaration.own) := by
  refine ⟨fun id => (done.properties id).items, ?_, rfl⟩
  intro parent hmem
  obtain ⟨properties, hproperties⟩ := Option.isSome_iff_exists.mp (hfound parent hmem)
  dsimp only
  rw [Resolved.properties, hproperties]
  exact h.effective hproperties

theorem Sound.snoc (h : done.Sound declarations) {declaration : ComponentDeclaration}
    (hknown : declaration ∈ declarations) {collected : List SharedProperty}
    (hcollects : Collects declarations declaration collected) (hnames : NamesAgree collected)
    {merged : PropertyList} (hitems : merged.items = distinct collected) :
    Reaches declarations done (done ++ [(declaration.id, merged)]) [declaration.id] where
  sound := by
    intro id properties hfound
    rw [List.lookup_append, Option.or_eq_some_iff] at hfound
    rcases hfound with hold | ⟨_, hnew⟩
    · exact h id properties hold
    · rw [List.lookup_cons] at hnew
      split at hnew
      · next heq =>
          cases hnew
          exact ⟨declaration, hknown, (beq_iff_eq.mp heq).symm, collected, hcollects, hnames,
            hitems⟩
      · cases hnew
  kept := by
    intro id properties hfound
    rw [List.lookup_append, hfound, Option.some_or]
  found := by
    intro id hmem
    rw [List.mem_singleton.mp hmem, List.lookup_append]
    cases done.lookup declaration.id with
    | some properties => rfl
    | none => simp

theorem Reaches.refl (h : done.Sound declarations)
    (hfound : ∀ id ∈ ids, (done.lookup id).isSome = true) : Reaches declarations done done ids :=
  ⟨h, fun _ _ hlookup => hlookup, hfound⟩

theorem Reaches.exists_lookup (h : Reaches declarations done after ids) {id : String}
    (hmem : id ∈ ids) : ∃ properties, after.lookup id = some properties :=
  Option.isSome_iff_exists.mp (h.found id hmem)

theorem Reaches.trans (h : Reaches declarations done middle ids)
    (hrest : Reaches declarations middle after others) :
    Reaches declarations done after (ids ++ others) where
  sound := hrest.sound
  kept := fun id properties hlookup => hrest.kept id properties (h.kept id properties hlookup)
  found := by
    intro id hmem
    rcases List.mem_append.mp hmem with hfirst | hlast
    · obtain ⟨properties, hlookup⟩ := h.exists_lookup hfirst
      exact Option.isSome_of_eq_some (hrest.kept id properties hlookup)
    · exact hrest.found id hlast

theorem Reaches.of_subset (h : Reaches declarations done after ids)
    (hsubset : ∀ id ∈ others, id ∈ ids) : Reaches declarations done after others :=
  ⟨h.sound, h.kept, fun id hmem => h.found id (hsubset id hmem)⟩

/-- What every step reaches, all steps reach together. -/
theorem reaches_foldlM {α : Type} {step : Resolved → α → Except RegistryError Resolved}
    {key : α → String} {items : List α}
    (hstep : ∀ item ∈ items, ∀ done after : Resolved, done.Sound declarations →
      step done item = .ok after → Reaches declarations done after [key item])
    (hdone : done.Sound declarations) (h : items.foldlM step done = .ok after) :
    Reaches declarations done after (items.map key) := by
  induction items generalizing done with
  | nil =>
      cases h
      exact .refl hdone fun _ hmem => absurd hmem List.not_mem_nil
  | cons item rest ih =>
      rw [List.foldlM_cons] at h
      obtain ⟨middle, hfirst, hrest⟩ := Answer.of_bind_ok h
      have hmiddle := hstep item List.mem_cons_self done middle hdone hfirst
      have hafter := ih (fun other hmem => hstep other (List.mem_cons_of_mem item hmem))
        hmiddle.sound hrest
      exact hmiddle.trans hafter

end Resolved

open Resolved

/-- The lookup of one parent. -/
def resolveParent (declarations : List ComponentDeclaration) (bound : Nat) (path : List String)
    (heir : String) (done : Resolved) (name : String) : Except RegistryError Resolved :=
  match declarations.find? (fun parent => parent.id = name) with
  | some parent => resolve declarations bound path done parent
  | none => .error (.unknownParent heir name)

/-- The lookup of a component that is not done and not waiting. -/
theorem resolve_new {bound : Nat} {path : List String} {done : Resolved}
    {component : ComponentDeclaration} (hdone : done.lookup component.id = none)
    (hpath : component.id ∉ path) :
    resolve declarations (bound + 1) path done component =
      (component.inherits.foldlM
          (resolveParent declarations bound (path ++ [component.id]) component.id) done >>=
        fun middle => merge component.id
            (component.inherits.flatMap (fun id => (middle.properties id).items) ++
              component.own) >>=
          fun properties => .ok (middle ++ [(component.id, properties)])) := by
  rw [resolve, hdone, Option.isSome_none, if_neg Bool.false_ne_true, if_neg (by simpa using hpath)]
  rfl

/-- If the lookup of every component finds what recursion gives, so does that of all parents. -/
theorem reaches_of_resolveParents {bound : Nat} {path names : List String} {heir : String}
    {done after : Resolved}
    (hresolve : ∀ parent ∈ declarations, ∀ state next : Resolved, state.Sound declarations →
      resolve declarations bound path state parent = .ok next →
        Reaches declarations state next [parent.id])
    (hdone : done.Sound declarations)
    (h : names.foldlM (resolveParent declarations bound path heir) done = .ok after) :
    Reaches declarations done after names := by
  have hstep : ∀ name ∈ names, ∀ state next : Resolved, state.Sound declarations →
      resolveParent declarations bound path heir state name = .ok next →
        Reaches declarations state next [id name] := by
    intro name _ state next hstate hparent
    rw [resolveParent] at hparent
    split at hparent
    · next parent hfind =>
        have hid : parent.id = name := by simpa using List.find?_some hfind
        exact hid ▸ hresolve parent (List.mem_of_find?_eq_some hfind) state next hstate hparent
    · cases hparent
  have hreached := reaches_foldlM hstep hdone h
  rwa [List.map_id] at hreached

theorem Heritable.find?_parent (h : Heritable declarations) {component : ComponentDeclaration}
    (hknown : component ∈ declarations) {name : String} (hname : name ∈ component.inherits) :
    ∃ parent ∈ declarations, parent.id = name ∧
      declarations.find? (fun other => other.id = name) = some parent := by
  obtain ⟨other, hother, hid⟩ := h.parents component hknown name hname
  have hsome : (declarations.find? fun other => other.id = name).isSome = true :=
    List.find?_isSome.mpr ⟨other, hother, decide_eq_true hid⟩
  obtain ⟨parent, hparent⟩ := Option.isSome_iff_exists.mp hsome
  have hsame : parent.id = name := by simpa using List.find?_some hparent
  exact ⟨parent, List.mem_of_find?_eq_some hparent, hsame, hparent⟩

/-- Different heirs of a component are not more than the declarations. -/
theorem length_le_of_heirs {path : List String} (hpath : path.Nodup) {id : String}
    (hheirs : ∀ heir ∈ path, Relation.TransGen (Inherits declarations) id heir) :
    path.length ≤ declarations.length := by
  have hsubset : path ⊆ declarations.map ComponentDeclaration.id := by
    intro heir hmem
    obtain ⟨_, _, declaration, hdeclaration, rfl, _⟩ :=
      Relation.TransGen.tail'_iff.mp (hheirs heir hmem)
    exact List.mem_map_of_mem hdeclaration
  have hlength := (List.subperm_of_subset hpath hsubset).length_le
  rwa [List.length_map] at hlength

variable (hserials : SerialsIdentify (declared declarations))

include hserials

/-- A lookup that succeeds finds what recursion gives. -/
theorem reaches_of_resolve {bound : Nat} {path : List String} {done after : Resolved}
    {component : ComponentDeclaration} (hknown : component ∈ declarations)
    (hdone : done.Sound declarations)
    (h : resolve declarations bound path done component = .ok after) :
    Reaches declarations done after [component.id] := by
  induction bound generalizing path done after component with
  | zero => cases h
  | succ bound ih =>
      cases hthere : done.lookup component.id with
      | some properties =>
          rw [resolve, hthere, if_pos Option.isSome_some] at h
          cases h
          apply Reaches.refl hdone
          intro id hmem
          rw [List.mem_singleton.mp hmem, hthere]
          rfl
      | none =>
          by_cases hpath : component.id ∈ path
          · rw [resolve, hthere, Option.isSome_none, if_neg Bool.false_ne_true,
              if_pos (by simpa using hpath)] at h
            cases h
          · rw [resolve_new hthere hpath] at h
            obtain ⟨middle, hparents, hrest⟩ := Answer.of_bind_ok h
            obtain ⟨merged, hmerge, hlast⟩ := Answer.of_bind_ok hrest
            cases hlast
            have hmiddle := reaches_of_resolveParents (fun _ hmem _ _ => ih hmem) hdone hparents
            have hcollects := hmiddle.sound.collects hmiddle.found
            obtain ⟨hnames, hitems⟩ :=
              (merge_ok_iff (hcollects.serialsIdentify hknown hserials)).mp hmerge
            have hafter := hmiddle.sound.snoc hknown hcollects hnames hitems
            exact (hmiddle.trans hafter).of_subset fun _ => List.mem_append_right _

theorem reaches_of_resolveAll {done : Resolved} (h : resolveAll declarations = .ok done) :
    Reaches declarations [] done (declarations.map ComponentDeclaration.id) :=
  reaches_foldlM (fun _ hmem _ _ hdone => reaches_of_resolve hserials hmem hdone) sound_nil h

/-- A lookup succeeds: the heirs that wait for it are never met again, and there are no
more of them than declarations. -/
theorem exists_resolve (h : Heritable declarations) {bound : Nat} {path : List String}
    {done : Resolved} {component : ComponentDeclaration} (hknown : component ∈ declarations)
    (hdone : done.Sound declarations) (hpath : path.Nodup)
    (hheirs : ∀ heir ∈ path, Relation.TransGen (Inherits declarations) component.id heir)
    (hbound : declarations.length < path.length + bound) :
    ∃ after, resolve declarations bound path done component = .ok after ∧
      after.Sound declarations := by
  induction bound generalizing path done component with
  | zero =>
      -- The bound is not used up, as the heirs on the way are different ones.
      have hlength := length_le_of_heirs hpath hheirs
      omega
  | succ bound ih =>
      cases hthere : done.lookup component.id with
      | some properties =>
          refine ⟨done, ?_, hdone⟩
          rw [resolve, hthere, if_pos Option.isSome_some]
      | none =>
          have hfresh : component.id ∉ path := fun hmem => h.acyclic _ (hheirs _ hmem)
          have hlonger : (path ++ [component.id]).Nodup := by
            rw [← List.concat_eq_append]
            exact hpath.concat hfresh
          have hstep : ∀ name ∈ component.inherits, ∀ state : Resolved,
              state.Sound declarations → ∃ next,
                resolveParent declarations bound (path ++ [component.id]) component.id state name =
                  .ok next ∧ next.Sound declarations := by
            intro name hname state hstate
            obtain ⟨parent, hparent, rfl, hfind⟩ := h.find?_parent hknown hname
            have hinherits : Inherits declarations parent.id component.id :=
              ⟨component, hknown, rfl, hname⟩
            rw [resolveParent, hfind]
            apply ih hparent hstate hlonger
            · intro heir hmem
              rcases List.mem_append.mp hmem with hwaiting | hlast
              · exact .head hinherits (hheirs heir hwaiting)
              · rw [List.mem_singleton.mp hlast]
                exact .single hinherits
            · rw [List.length_append, List.length_singleton]
              omega
          obtain ⟨middle, hparents, _⟩ := Answer.exists_foldlM_ok hstep hdone
          have hmiddle := reaches_of_resolveParents
            (fun _ hmem _ _ => reaches_of_resolve hserials hmem) hdone hparents
          have hcollects := hmiddle.sound.collects hmiddle.found
          have hnames := h.names component hknown _ hcollects
          have hmerge : merge component.id
              (component.inherits.flatMap (fun id => (middle.properties id).items) ++
                component.own) = .ok ⟨_, names_nodup_distinct hnames⟩ :=
            (merge_ok_iff (hcollects.serialsIdentify hknown hserials)).mpr ⟨hnames, rfl⟩
          have hafter := hmiddle.sound.snoc hknown hcollects hnames
            ((merge_ok_iff (hcollects.serialsIdentify hknown hserials)).mp hmerge).2
          refine ⟨_, ?_, hafter.sound⟩
          rw [resolve_new hthere hfresh, hparents]
          change merge _ _ >>= _ = _
          rw [hmerge]
          rfl

theorem exists_resolveAll (h : Heritable declarations) :
    ∃ done, resolveAll declarations = .ok done := by
  have hstep : ∀ component ∈ declarations, ∀ done : Resolved, done.Sound declarations →
      ∃ after, resolve declarations (declarations.length + 1) [] done component = .ok after ∧
        after.Sound declarations := by
    intro component hknown done hdone
    apply exists_resolve hserials h hknown hdone List.nodup_nil
    · intro heir hmem
      cases hmem
    · rw [List.length_nil]
      omega
  obtain ⟨done, hdone, _⟩ := Answer.exists_foldlM_ok hstep sound_nil
  exact ⟨done, hdone⟩

/-- If all lookups succeed, every component has what it needs. -/
theorem heritable_of_resolveAll (hids : (declarations.map ComponentDeclaration.id).Nodup)
    {done : Resolved} (h : resolveAll declarations = .ok done) : Heritable declarations := by
  have hreached := reaches_of_resolveAll hserials h
  have hcollected : ∀ declaration ∈ declarations, ∃ collected,
      Collects declarations declaration collected ∧ NamesAgree collected := by
    intro declaration hmem
    obtain ⟨properties, hfound⟩ := hreached.exists_lookup (List.mem_map_of_mem hmem)
    obtain ⟨other, hother, hid, collected, hcollects, hnames, _⟩ :=
      hreached.sound _ properties hfound
    cases eq_of_id_eq hids hother hmem hid
    exact ⟨collected, hcollects, hnames⟩
  constructor
  · exact hids
  · intro declaration hmem parent hparent
    obtain ⟨_, ⟨share, hparents, _⟩, _⟩ := hcollected declaration hmem
    exact (hparents parent hparent).exists_declaration
  · intro id hcycle
    obtain ⟨_, _, declaration, hmem, rfl, _⟩ := Relation.TransGen.tail'_iff.mp hcycle
    obtain ⟨_, hcollects, _⟩ := hcollected declaration hmem
    exact (hcollects.effective hmem).acyclic hids hcycle
  · intro declaration hmem properties hcollects
    obtain ⟨collected, hcollects', hnames⟩ := hcollected declaration hmem
    rw [hcollects.unique hids hcollects']
    exact hnames

end Inheritance

end FormDesigner
