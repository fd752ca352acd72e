import FormDesigner.Domain.Parser
import FormDesigner.Proofs.Editor.Completion
import FormDesigner.Proofs.Registry.Building
import FormDesigner.Proofs.Value.Json

/-!
What new elements hold.

Without a default of its own a property starts with a value that its shape alone determines:
the empty text, zero or all the listed values.  A constraint is not asked, so that the value
need not meet it, and a list that holds NaN is not equal to itself.  In all other cases the
property accepts what it starts with.
-/

namespace FormDesigner

namespace Value

/-- A part of a value that is equal to itself. -/
def NotNaN (part : Value) : Prop := ∀ x, part = .number x → x.isNaN = false

theorem notNaN_number_iff {x : Number} : NotNaN (.number x) ↔ x.isNaN = false := by
  constructor
  · intro h
    exact h x rfl
  · rintro h _ ⟨⟩
    exact h

theorem equals_number_self (x : Number) : x.equals x = true ↔ x.isNaN = false := by
  simp [Number.equals]

mutual

/-- A value is equal to itself if no part of it is NaN. -/
theorem equals_self_iff : ∀ value : Value, value.equals value = true ↔ value.All NotNaN
  | .null | .bool _ | .string _ => by simp [equals, All, NotNaN]
  | .number x => by
      rw [equals, equals_number_self]
      exact notNaN_number_iff.symm
  | .list items => by
      rw [equals, All, equalsItems_self_iff items]
      exact (and_iff_right nofun).symm
  | .record fields => by
      rw [equals, All, equalsFields_self_iff fields]
      exact (and_iff_right nofun).symm
  | .binding kind inner => by
      rw [equals, All, decide_eq_true rfl, Bool.true_and, equals_self_iff inner]
      exact (and_iff_right nofun).symm

theorem equalsItems_self_iff : ∀ items : List Value,
    equalsItems items items = true ↔ AllItems NotNaN items
  | [] => by simp [equalsItems, AllItems]
  | item :: rest => by
      rw [equalsItems, AllItems, Bool.and_eq_true, equals_self_iff item, equalsItems_self_iff rest]

theorem equalsFields_self_iff : ∀ fields : List (String × Value),
    equalsFields fields fields = true ↔ AllFields NotNaN fields
  | [] => by simp [equalsFields, AllFields]
  | (name, value) :: rest => by
      rw [equalsFields, AllFields, beq_self_eq_true, Bool.true_and, Bool.and_eq_true,
        equals_self_iff value, equalsFields_self_iff rest]

end

end Value

namespace PropertyType

/-- Whether the value that a property of this type starts with fits: the empty text or zero
meets the constraint, and no part of a listed value is NaN. -/
def StartsWithin : PropertyType → Prop
  | .domain (.plain .string (some constraint)) => constraint.holds (.string "") = true
  | .domain (.plain .number (some constraint)) => constraint.holds (.number Number.zero) = true
  | .domain (.choice _ values) => Value.AllItems Value.NotNaN (values.map Datum.value)
  | _ => True

theorem accepts_null (type : PropertyType) : type.accepts .null = true := by
  cases type <;> rfl

/-- What stands for a missing default is accepted where it fits, and nowhere else. -/
theorem accepts_defaultValue?_iff {type : PropertyType} {start : Datum}
    (h : type.defaultValue? = some start) :
    type.accepts start.value = true ↔ type.StartsWithin := by
  cases type with
  | string | number =>
      cases h
      exact iff_of_true rfl trivial
  | boolean | record | list | any => cases h
  | domain range =>
      cases range with
      | choice base values =>
          cases h
          exact Value.equalsItems_self_iff (values.map Datum.value)
      | plain base constraint =>
          cases base with
          | boolean => cases h
          | string | number =>
              cases h
              cases constraint with
              | none => exact iff_of_true rfl trivial
              | some constraint => exact Iff.of_eq rfl

theorem startsWithin_of_defaultValue?_eq_none {type : PropertyType}
    (h : type.defaultValue? = none) : type.StartsWithin := by
  cases type with
  | string | number => cases h
  | boolean | record | list | any => trivial
  | domain range =>
      cases range with
      | choice base values => cases h
      | plain base constraint =>
          cases base with
          | boolean => trivial
          | string | number => cases h

end PropertyType

namespace Property

/-- A literal in a property that can be bound is accepted if its inside is. -/
theorem accepts_literal {property : Property} (h : property.bindable = true) (inner : Datum) :
    property.accepts (Datum.literal inner).value = property.type.accepts inner.value := by
  simp [accepts, h, Datum.literal, Datum.binding]

theorem accepts_of_not_bindable {property : Property} (h : property.bindable = false)
    (value : Value) : property.accepts value = property.type.accepts value := by
  simp [accepts, h]

/-- A property without a default of its own accepts what it starts with where that fits. -/
theorem accepts_default?_iff {property : Property} (hown : property.default = none)
    {datum : Datum} (h : property.default? = some datum) :
    property.accepts datum.value = true ↔ property.type.StartsWithin := by
  simp only [default?, hown] at h
  cases hbindable : property.bindable with
  | false =>
      rw [hbindable] at h
      rw [accepts_of_not_bindable hbindable]
      exact PropertyType.accepts_defaultValue?_iff h
  | true =>
      rw [hbindable, if_pos rfl] at h
      cases h
      rw [accepts_literal hbindable]
      cases hstart : property.type.defaultValue? with
      | none =>
          exact iff_of_true property.type.accepts_null
            (PropertyType.startsWithin_of_defaultValue?_eq_none hstart)
      | some start => exact PropertyType.accepts_defaultValue?_iff hstart

end Property

/-- A new element holds the default of each of its properties. -/
theorem Component.get?_create {component : Component} {property : Property}
    (hmem : property ∈ component.properties) :
    Fields.get? property.name component.create.fields = property.default? := by
  rcases component.supplies_addDefaults .empty hmem with hsame | ⟨-, hdefault⟩
  · cases hdefault : property.default? with
    | none => exact hsame
    | some datum =>
        exact (component.completes_addDefaults .empty).supplied property hmem datum hdefault
          (.inl rfl)
  · exact hdefault

/-- A new element holds nothing beside its properties. -/
theorem Component.exists_property_of_create {component : Component} {name : String} {datum : Datum}
    (h : Fields.get? name component.create.fields = some datum) :
    ∃ property ∈ component.properties, property.name = name := by
  obtain ⟨-, property, hmem, hname, -⟩ :=
    (component.completes_addDefaults .empty).changed name
      (fun hsame => nomatch hsame.symm.trans h)
  exact ⟨property, hmem, hname⟩

namespace Editor

open Program

variable {registry : Registry}

/-- The value of a known property is stored if the property accepts it, and refused if not. -/
theorem setProperty_eq {tree : Tree} {id : NodeId} {node : Node} {component : Component}
    {property : Property} (hnode : tree.node? id = some node)
    (hfind : registry.find? node.component = some component)
    (hproperty : component.property? property.name = some property) (datum : Datum) :
    setProperty registry id property.name datum tree =
      if property.accepts datum.value then
        .ok (node.value? property.name) (tree.setValue id property.name datum)
      else .error (.rejected component.id property.name datum.value) tree := by
  have hfound : onTree (Tree.requireNode id) tree = .ok node tree :=
    adaptExcept_ok (Tree.requireNode_ok hnode)
  rw [setProperty, bind_ok hfound, Registry.require_ok hfind, fromRegistry, pure_bind,
    Registry.requireProperty, hproperty, fromRegistry, pure_bind]
  cases property.accepts datum.value with
  | false => rfl
  | true =>
      have hstore : Tree.store id property.name datum tree =
          .ok (node.value? property.name) (tree.setValue id property.name datum) := by
        rw [Tree.store, bind_ok (Tree.requireNode_ok hnode)]
        rfl
      exact adaptExcept_ok hstore

/-- A new element stands in the tree as it was made. -/
theorem instantiate_create {component : Component}
    (hfind : registry.find? component.id = some component) (tree : Tree) :
    ∃ after node, instantiate registry component.create tree = .ok tree.size after ∧
      after.node? tree.size = some node ∧ node.component = component.id ∧
      node.fields = component.create.fields := by
  have hknown : checkKnown registry component.create = .ok () :=
    checkKnown_iff.mpr ⟨⟨component, hfind⟩, nofun⟩
  obtain ⟨after, hinstantiate, hdefaulted⟩ := instantiate_once tree hknown
  have hplanted : (tree.plant component.create).2.node? tree.size =
      some ⟨component.id, component.create.fields, some [], none⟩ := by
    rw [Tree.plant_eq, Tree.node?_grow, if_neg (Nat.lt_irrefl _), Nat.sub_self]
    rfl
  have hroot : tree.size ∈ List.range' tree.size component.create.count := List.mem_singleton_self _
  have hfilled := hdefaulted.filled tree.size hroot _ component hplanted hfind
  refine ⟨after, _, hinstantiate, hfilled, rfl, ?_⟩
  exact component.addDefaults_addDefaults .empty

/-- A property without a default of its own starts with a value that it accepts, bound or not,
unless that is a text or number that does not meet the constraint, or a list with NaN in it.
A new element holds exactly the defaults of its properties, and each of them can be stored
again if and only if its property accepts it. -/
theorem new_elements_hold_defaults :
    (∀ property : Property, property.default = none → ∀ start, property.default? = some start →
      (property.accepts start.value = true ↔ property.type.StartsWithin)) ∧
    ∀ registry : Registry, ∀ component ∈ registry.components, ∀ tree : Tree, ∃ after node,
        instantiate registry component.create tree = .ok tree.size after ∧
        after.node? tree.size = some node ∧ node.component = component.id ∧
        (∀ property ∈ component.properties,
          Fields.get? property.name node.fields = property.default?) ∧
        ∀ name datum, Fields.get? name node.fields = some datum →
          ∃ property ∈ component.properties, property.name = name ∧
            setProperty registry tree.size name datum after =
              if property.accepts datum.value then
                .ok (some datum.value) (after.setValue tree.size name datum)
              else .error (.rejected component.id name datum.value) after := by
  refine ⟨fun property hown start => property.accepts_default?_iff hown, ?_⟩
  intro registry component hmem tree
  have hfind : registry.find? component.id = some component :=
    Registry.find?_eq_some_iff.mpr ⟨hmem, rfl⟩
  obtain ⟨after, node, hinstantiate, hnode, hcomponent, hfields⟩ :=
    instantiate_create hfind tree
  refine ⟨after, node, hinstantiate, hnode, hcomponent, ?_, ?_⟩
  · intro property hproperty
    rw [hfields, Component.get?_create hproperty]
  · intro name datum hstored
    have hcreated := hstored
    rw [hfields] at hcreated
    obtain ⟨property, hproperty, rfl⟩ := Component.exists_property_of_create hcreated
    have hfound : component.property? property.name = some property :=
      Component.property?_eq_some_iff.mpr ⟨hproperty, rfl⟩
    refine ⟨property, hproperty, rfl, ?_⟩
    rw [setProperty_eq hnode (hcomponent ▸ hfind) hfound, Node.value?_of_get? hstored]

/-- A size above zero, which starts as zero. -/
def boxSize : Property :=
  { name := "size", type := .domain (.plain .number (some (.greaterThan Number.zero))) }

/-- A text that can be bound. -/
def boxTitle : Property := { name := "title", type := .string, bindable := true }

/-- Boxes have a size. -/
def boxDeclaration : ComponentDeclaration := { id := "box", own := [⟨0, boxSize⟩] }

/-- The component of boxes. -/
def boxComponent : Component :=
  { boxDeclaration with
    shared := ⟨[⟨0, boxSize⟩], List.nodup_singleton _⟩
    templates := none, settings := {}, compiled := fun _ => rfl }

/-- The registry of boxes. -/
def boxRegistry : Registry :=
  ⟨[boxComponent], {}, List.nodup_singleton _, List.forall_mem_singleton.mpr rfl⟩

theorem new_elements_hold_defaults_of_box :
    Registry.build [boxDeclaration] {} = .ok boxRegistry ∧
      boxTitle.accepts (.literal (.string "")) = true ∧
      boxSize.accepts (.number Number.zero) = false ∧
      ∃ component ∈ boxRegistry.components, ∃ after,
        instantiate boxRegistry component.create Tree.empty = .ok 0 after ∧
        setProperty boxRegistry 0 "size" (.number Number.zero) after =
          .error (.rejected "box" "size" (.number Number.zero)) after := by
  obtain ⟨haccepts, hnew⟩ := new_elements_hold_defaults
  have hbuild : Registry.build [boxDeclaration] {} = .ok boxRegistry := rfl
  have htitle : boxTitle.accepts (.literal (.string "")) = true :=
    (haccepts boxTitle rfl _ rfl).mpr trivial
  have hzero : (Constraint.greaterThan Number.zero).holds (.number Number.zero) = false := by decide
  have hsize : boxSize.accepts (Datum.number Number.zero).value = false := by
    rw [Bool.eq_false_iff, ne_eq, haccepts boxSize rfl _ rfl]
    exact Bool.eq_false_iff.mp hzero
  obtain ⟨after, node, hinstantiate, -, -, hheld, hstores⟩ :=
    hnew boxRegistry _ List.mem_cons_self Tree.empty
  obtain ⟨property, hmem, -, hset⟩ := hstores "size" _ (hheld boxSize List.mem_cons_self)
  obtain rfl : property = boxSize := List.mem_singleton.mp hmem
  rw [hsize] at hset
  exact ⟨hbuild, htitle, hsize, _, List.mem_cons_self, after, hinstantiate, hset⟩

/-- A property need not accept what it starts with: zero is not above zero, and a list of NaN is
not equal to itself. -/
theorem not_new_elements_hold_defaults :
    Domain.parse "type number > 0" = .ok (.plain .number (some (.greaterThan Number.zero))) ∧
      Domain.ofValues? [.number Number.nan] = some (.choice .number [.number Number.nan]) ∧
      ¬(∀ property : Property, property.default = none → ∀ start,
        property.default? = some start → property.accepts start.value = true) ∧
      ¬(∀ values range, Domain.ofValues? values = some range →
        (PropertyType.domain range).accepts (Datum.list values).value = true) := by
  have hzero : boxSize.accepts (.number Number.zero) = false := by decide
  have hnan : (PropertyType.domain (.choice .number [.number Number.nan])).accepts
      (Datum.list [.number Number.nan]).value = false := by decide
  refine ⟨rfl, rfl, ?_, ?_⟩
  · intro h
    cases hzero.symm.trans (h boxSize rfl _ rfl)
  · intro h
    cases hnan.symm.trans (h _ _ rfl)

end Editor

end FormDesigner
