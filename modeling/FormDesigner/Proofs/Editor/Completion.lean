import FormDesigner.Proofs.Editor.Filling

/-!
What loading stores, value by value.

Every value of a node is left as it is, or the default is stored in the place of nothing or
`null`.  Nothing else is stored, however often a node is visited.
-/

namespace FormDesigner

namespace Property

/-- The value stays, or the default comes in the place of nothing or `null`. -/
def Supplies (property : Property) (before after : Option Datum) : Prop :=
  after = before ∨ (before = none ∨ before = some .null) ∧ after = property.default?

variable {property : Property} {before middle after : Option Datum}

theorem Supplies.trans (hfirst : property.Supplies before middle)
    (hsecond : property.Supplies middle after) : property.Supplies before after := by
  rcases hfirst with rfl | ⟨hmissing, hmiddle⟩
  · exact hsecond
  · rcases hsecond with rfl | ⟨-, hafter⟩
    · exact Or.inr ⟨hmissing, hmiddle⟩
    · exact Or.inr ⟨hmissing, hafter⟩

theorem supplies_fillDefault (property : Property) (fields : Fields Datum) :
    property.Supplies (Fields.get? property.name fields)
      (Fields.get? property.name (Component.fillDefault fields property)) := by
  rw [Component.fillDefault]
  split
  · next datum hnone hdefault =>
      rw [Fields.get?_put_self, hnone]
      exact Or.inr ⟨Or.inl rfl, hdefault.symm⟩
  · next _ datum hnull hdefault =>
      rw [Fields.get?_put_self, hnull]
      exact Or.inr ⟨Or.inr rfl, hdefault.symm⟩
  · exact Or.inl rfl

end Property

namespace Component

variable {component : Component}

/-- Only a missing value that has a default is stored. -/
theorem fillDefault_cases (fields : Fields Datum) (property : Property) :
    fillDefault fields property = fields ∨
      (Fields.get? property.name fields = none ∨
        Fields.get? property.name fields = some .null) ∧
      ∃ datum, property.default? = some datum ∧
        fillDefault fields property = Fields.put property.name datum fields := by
  rw [fillDefault]
  split
  · next datum hnone hdefault => exact .inr ⟨.inl hnone, datum, hdefault, rfl⟩
  · next _ datum hnull hdefault => exact .inr ⟨.inr hnull, datum, hdefault, rfl⟩
  · exact .inl rfl

theorem fillDefault_of_missing {fields : Fields Datum} {property : Property} {datum : Datum}
    (hdefault : property.default? = some datum)
    (hmissing : Fields.get? property.name fields = none ∨
      Fields.get? property.name fields = some .null) :
    fillDefault fields property = Fields.put property.name datum fields := by
  rcases hmissing with hnone | hnull
  · rw [fillDefault, hnone, hdefault]
  · rw [fillDefault, hnull, hdefault]
    rfl

/-- Defaults come in the place of what is missing, and all else stays. -/
theorem supplies_addDefaults (fields : Fields Datum) {property : Property}
    (hproperty : property ∈ component.properties) :
    property.Supplies (Fields.get? property.name fields)
      (Fields.get? property.name (component.addDefaults fields)) := by
  refine List.foldlRecOn (motive := fun reached => property.Supplies
    (Fields.get? property.name fields) (Fields.get? property.name reached))
    component.properties fillDefault (Or.inl rfl) ?_
  intro reached hreached other hother
  by_cases hname : property.name = other.name
  · cases eq_of_name_eq hproperty hother hname
    exact hreached.trans (property.supplies_fillDefault reached)
  · rw [get?_fillDefault_of_ne hname]
    exact hreached

/-- The defaults stand in the place of nothing or `null`, and nothing else has changed. -/
structure Completes (component : Component) (before after : Fields Datum) : Prop where
  supplied : ∀ property ∈ component.properties, ∀ datum, property.default? = some datum →
    (Fields.get? property.name before = none ∨ Fields.get? property.name before = some .null) →
      Fields.get? property.name after = some datum
  changed : ∀ name, Fields.get? name after ≠ Fields.get? name before →
    (Fields.get? name before = none ∨ Fields.get? name before = some .null) ∧
      ∃ property ∈ component.properties, property.name = name ∧ property.default?.isSome = true

/-- The properties of other names leave a value alone. -/
theorem get?_foldl_fillDefault_of_ne {properties : List Property} {name : String}
    (hnames : name ∉ properties.map Property.name) (fields : Fields Datum) :
    Fields.get? name (properties.foldl fillDefault fields) = Fields.get? name fields := by
  induction properties generalizing fields with
  | nil => rfl
  | cons first rest ih =>
      obtain ⟨hfirst, hrest⟩ := not_or.mp (List.mem_cons.not.mp hnames)
      rw [List.foldl_cons, ih hrest, get?_fillDefault_of_ne hfirst]

/-- The default of a property is stored when its turn comes, and stays. -/
theorem get?_foldl_fillDefault {properties : List Property} {property : Property} {datum : Datum}
    (hnames : (properties.map Property.name).Nodup) (hmem : property ∈ properties)
    (hdefault : property.default? = some datum) {fields : Fields Datum}
    (hmissing : Fields.get? property.name fields = none ∨
      Fields.get? property.name fields = some .null) :
    Fields.get? property.name (properties.foldl fillDefault fields) = some datum := by
  induction properties generalizing fields with
  | nil => cases hmem
  | cons first rest ih =>
      obtain ⟨hfirst, hrest⟩ := List.nodup_cons.mp hnames
      rw [List.foldl_cons]
      rcases List.mem_cons.mp hmem with rfl | hlater
      · rw [get?_foldl_fillDefault_of_ne hfirst, fillDefault_of_missing hdefault hmissing,
          Fields.get?_put_self]
      · have hne : property.name ≠ first.name := fun hname =>
          hfirst (hname ▸ List.mem_map_of_mem hlater)
        apply ih hrest hlater
        rwa [get?_fillDefault_of_ne hne]

theorem completes_addDefaults (fields : Fields Datum) :
    component.Completes fields (component.addDefaults fields) where
  supplied _ hmem _ hdefault hmissing :=
    get?_foldl_fillDefault component.namesDiffer hmem hdefault hmissing
  changed name := by
    refine List.foldlRecOn (motive := fun reached : Fields Datum =>
      Fields.get? name reached ≠ Fields.get? name fields → _) component.properties fillDefault
      (fun hsame => absurd rfl hsame) ?_
    intro reached hreached property hmem hchanged
    by_cases hname : name = property.name
    · by_cases hearlier : Fields.get? name reached = Fields.get? name fields
      · subst hname
        rcases fillDefault_cases reached property with hsame | ⟨hmissing, datum, hdefault, _⟩
        · rw [hsame] at hchanged
          exact absurd hearlier hchanged
        · rw [hearlier] at hmissing
          exact ⟨hmissing, property, hmem, rfl, Option.isSome_of_eq_some hdefault⟩
      · exact hreached hearlier
    · rw [get?_fillDefault_of_ne hname] at hchanged
      exact hreached hchanged

/-- After the missing defaults are stored, there is nothing left to store. -/
theorem addDefaults_addDefaults (component : Component) (fields : Fields Datum) :
    component.addDefaults (component.addDefaults fields) = component.addDefaults fields := by
  have hcompletes := component.completes_addDefaults fields
  have hstays : ∀ property ∈ component.properties,
      fillDefault (component.addDefaults fields) property = component.addDefaults fields := by
    intro property hmem
    rcases fillDefault_cases (component.addDefaults fields) property with hsame |
      ⟨hmissing, datum, hdefault, hput⟩
    · exact hsame
    · rw [hput]
      apply Fields.put_of_get?
      apply hcompletes.supplied property hmem datum hdefault
      by_contra hstored
      by_cases hsame : Fields.get? property.name (component.addDefaults fields) =
          Fields.get? property.name fields
      · exact hstored (hsame ▸ hmissing)
      · exact hstored (hcompletes.changed property.name hsame).1
  generalize component.addDefaults fields = filled at hstays ⊢
  rw [addDefaults]
  refine List.foldlRecOn (motive := (· = filled)) component.properties fillDefault rfl ?_
  rintro _ rfl property hmem
  exact hstays property hmem

end Component

namespace Editor

variable {registry : Registry}

/-- Every value of a node was left as it is or supplied. -/
structure Supplied (registry : Registry) (node found : Node) : Prop where
  component : found.component = node.component
  values : ∀ component, registry.find? node.component = some component →
    ∀ property ∈ component.properties,
      property.Supplies (Fields.get? property.name node.fields)
        (Fields.get? property.name found.fields)

theorem Supplied.refl (node : Node) : Supplied registry node node :=
  ⟨rfl, fun _ _ _ _ => Or.inl rfl⟩

/-- Every node of a tree was left as it is or supplied. -/
def SuppliedAll (registry : Registry) (tree after : Tree) : Prop :=
  ∀ id node, tree.node? id = some node →
    ∃ found, after.node? id = some found ∧ Supplied registry node found

/-- Filling nodes of known components supplies what is missing in them. -/
theorem Defaulted.suppliedAll {ids : List NodeId} {tree after : Tree}
    (h : Defaulted registry ids tree after)
    (hknown : ∀ id ∈ ids, ∃ node component, tree.node? id = some node ∧
      registry.find? node.component = some component) : SuppliedAll registry tree after := by
  intro id node hnode
  by_cases hmem : id ∈ ids
  · obtain ⟨live, component, hlive, hfind⟩ := hknown id hmem
    cases hlive.symm.trans hnode
    refine ⟨_, h.filled id hmem node component hnode hfind, rfl, ?_⟩
    intro other hother property hproperty
    cases hother.symm.trans hfind
    exact Component.supplies_addDefaults node.fields hproperty
  · exact ⟨node, (h.kept id hmem).trans hnode, Supplied.refl node⟩

/-- Instantiating a blueprint supplies what is missing in its nodes. -/
theorem suppliedAll_instantiate {tree after : Tree} {root : NodeId} {blueprint : Blueprint}
    (hknown : checkKnown registry blueprint = .ok ())
    (h : instantiate registry blueprint tree = .ok root after) :
    SuppliedAll registry (tree.plant blueprint).2 after := by
  obtain ⟨filled, hinstantiate, hdefaulted⟩ := instantiate_once tree hknown
  cases hinstantiate.symm.trans h
  exact hdefaulted.suppliedAll fun _ => known_of_mem_range' hknown

end Editor

end FormDesigner
