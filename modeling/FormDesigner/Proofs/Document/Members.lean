import FormDesigner.Proofs.Document.Text

/-!
Reading the object of an element.

The properties of an element stand beside its component and its children.  A property that is
named like one of these makes a second member of that name, and an object in which one of the
parts stands twice is not read.
-/

namespace FormDesigner

namespace Blueprint

/-- The members of an object that is read as an element.  None of its parts stands twice, both can
be read, and the children meet a condition. -/
structure ReadableMembers (q : Option (List Blueprint) → Prop) (members : List (String × Json)) :
    Prop where
  once : members.Pairwise fun member later =>
    member.1 = later.1 → member.1 ≠ "id" ∧ member.1 ≠ "children"
  id : ∀ value, ("id", value) ∈ members → ∃ text, value = .string text
  children : ∀ value, ("children", value) ∈ members →
    ∃ children, ofChildren? value = some children ∧ q children

section Members

variable {q : Option (List Blueprint) → Prop} {name : String} {value : Json}
  {rest members : List (String × Json)} {read : Members}

theorem addId_eq_some_iff {members : Members} {id : String} :
    members.addId id = some read ↔ members.id = none ∧ { members with id := some id } = read := by
  rw [Members.addId, Option.ite_none_right_eq_some, Option.isNone_iff_eq_none, Option.some.injEq]

theorem addChildren_eq_some_iff {members : Members} {children : Option (List Blueprint)} :
    members.addChildren children = some read ↔
      members.children = none ∧ { members with children := some children } = read := by
  rw [Members.addChildren, Option.ite_none_right_eq_some, Option.isNone_iff_eq_none,
    Option.some.injEq]

/-- One member is a part of the element or a property of it. -/
theorem ofMembers?_cons_iff : ofMembers? ((name, value) :: rest) = some read ↔
    ∃ later, ofMembers? rest = some later ∧
      ((name = "id" ∧ later.id = none ∧
          ∃ id, value = .string id ∧ { later with id := some id } = read) ∨
        (name = "children" ∧ later.children = none ∧
          ∃ children, ofChildren? value = some children ∧
            { later with children := some children } = read) ∨
        (name ≠ "id" ∧ name ≠ "children" ∧
          later.addProperty name (Datum.ofJson value) = read)) := by
  rw [ofMembers?, Option.bind_eq_bind, Option.bind_eq_some_iff]
  refine exists_congr fun later => and_congr_right fun _ => ?_
  by_cases hid : name = "id"
  · cases value <;> simp [hid, addId_eq_some_iff]
  · by_cases hchildren : name = "children"
    · simp [hchildren, Option.bind_eq_some_iff, addChildren_eq_some_iff, and_left_comm]
    · simp [hid, hchildren]

/-- What was read has the parts that stand in the object. -/
theorem parts_of_ofMembers? (h : ofMembers? members = some read) :
    (read.id ≠ none ↔ ∃ value, ("id", value) ∈ members) ∧
      (read.children ≠ none ↔ ∃ value, ("children", value) ∈ members) := by
  induction members generalizing read with
  | nil =>
      cases h
      simp [Members.empty]
  | cons member rest ih =>
      obtain ⟨name, value⟩ := member
      obtain ⟨later, hlater, ⟨rfl, -, id, rfl, rfl⟩ | ⟨rfl, -, children, -, rfl⟩ |
        ⟨hid, hchildren, rfl⟩⟩ := ofMembers?_cons_iff.mp h
      · simp [(ih hlater).2]
      · simp [(ih hlater).1]
      · simp [ih hlater, Ne.symm hid, Ne.symm hchildren, Members.addProperty]

theorem readableMembers_cons_iff : ReadableMembers q ((name, value) :: rest) ↔
    ReadableMembers q rest ∧
      ((name = "id" ∧ (¬∃ other, ("id", other) ∈ rest) ∧ ∃ id, value = .string id) ∨
        (name = "children" ∧ (¬∃ other, ("children", other) ∈ rest) ∧
          ∃ children, ofChildren? value = some children ∧ q children) ∨
        (name ≠ "id" ∧ name ≠ "children")) := by
  constructor
  · rintro ⟨honce, hid, hchildren⟩
    obtain ⟨hfirst, hlater⟩ := List.pairwise_cons.mp honce
    refine ⟨⟨hlater, fun other h => hid other (.tail _ h),
      fun other h => hchildren other (.tail _ h)⟩, ?_⟩
    by_cases hname : name = "id"
    · subst hname
      refine .inl ⟨rfl, ?_, hid value List.mem_cons_self⟩
      rintro ⟨other, hother⟩
      exact (hfirst _ hother rfl).1 rfl
    · by_cases hlist : name = "children"
      · subst hlist
        refine .inr (.inl ⟨rfl, ?_, hchildren value List.mem_cons_self⟩)
        rintro ⟨other, hother⟩
        exact (hfirst _ hother rfl).2 rfl
      · exact .inr (.inr ⟨hname, hlist⟩)
  · rintro ⟨⟨honce, hid, hchildren⟩, hfirst⟩
    constructor
    · refine List.pairwise_cons.mpr ⟨?_, honce⟩
      rintro ⟨_, other⟩ hother rfl
      grind
    · grind
    · grind

theorem exists_ofMembers?_iff :
    (∃ read, ofMembers? members = some read ∧ ∀ children, read.children = some children →
      q children) ↔ ReadableMembers q members := by
  induction members with
  | nil =>
      constructor
      · exact fun _ => ⟨.nil, by simp, by simp⟩
      · exact fun _ => ⟨Members.empty, rfl, by simp [Members.empty]⟩
  | cons member rest ih =>
      obtain ⟨name, value⟩ := member
      rw [readableMembers_cons_iff, ← ih]
      constructor
      · rintro ⟨read, h, hq⟩
        obtain ⟨later, hlater, hcases⟩ := ofMembers?_cons_iff.mp h
        obtain ⟨hid, hchildren⟩ := parts_of_ofMembers? hlater
        rw [← hid, ← hchildren]
        rcases hcases with ⟨hname, hnone, id, hvalue, rfl⟩ |
          ⟨hname, hnone, children, hvalue, rfl⟩ | ⟨hname, hlist, rfl⟩
        · exact ⟨⟨later, hlater, hq⟩, .inl ⟨hname, not_not.mpr hnone, id, hvalue⟩⟩
        · refine ⟨⟨later, hlater, ?_⟩, .inr (.inl ⟨hname, not_not.mpr hnone, children, hvalue,
            hq children rfl⟩)⟩
          intro other hother
          cases hnone.symm.trans hother
        · exact ⟨⟨later, hlater, hq⟩, .inr (.inr ⟨hname, hlist⟩)⟩
      · rintro ⟨⟨later, hlater, hq⟩, hcases⟩
        obtain ⟨hid, hchildren⟩ := parts_of_ofMembers? hlater
        rw [← hid, ← hchildren, not_not, not_not] at hcases
        rcases hcases with ⟨hname, hnone, id, hvalue⟩ | ⟨hname, hnone, children, hvalue, hgood⟩ |
          ⟨hname, hlist⟩
        · exact ⟨{ later with id := some id },
            ofMembers?_cons_iff.mpr ⟨later, hlater, .inl ⟨hname, hnone, id, hvalue, rfl⟩⟩, hq⟩
        · refine ⟨{ later with children := some children }, ofMembers?_cons_iff.mpr
            ⟨later, hlater, .inr (.inl ⟨hname, hnone, children, hvalue, rfl⟩)⟩, ?_⟩
          intro other hother
          cases hother
          exact hgood
        · exact ⟨later.addProperty name (Datum.ofJson value),
            ofMembers?_cons_iff.mpr ⟨later, hlater, .inr (.inr ⟨hname, hlist, rfl⟩)⟩, hq⟩

/-- An object that begins with its component is read as an element of this. -/
theorem ofJson?_object_eq_some_iff {id : String} {back : Blueprint} :
    ofJson? (.object (("id", .string id) :: rest)) = some back ↔
      ∃ read, ofMembers? (("id", .string id) :: rest) = some read ∧
        ⟨id, Fields.collect read.properties, read.children.getD none⟩ = back := by
  rw [ofJson?, Option.bind_eq_some_iff]
  refine exists_congr fun read => and_congr_right fun hread => ?_
  obtain ⟨later, -, ⟨-, -, component, hvalue, rfl⟩ | ⟨hname, -⟩ | ⟨hname, -⟩⟩ :=
    ofMembers?_cons_iff.mp hread
  · cases hvalue
    rw [Members.blueprint?, Option.map_some, Option.some.injEq]
  · exact absurd hname (by decide)
  · exact absurd rfl hname

end Members

section Element

variable {q : Option (List Blueprint) → Prop} {properties : List (String × Json)}
  (hdiffer : properties.Pairwise fun member later => member.1 ≠ later.1)

include hdiffer

/-- Of the properties of an element without children one may be read as the children. -/
theorem readableMembers_iff_of_bare (id : String) :
    ReadableMembers q (("id", .string id) :: properties) ↔
      (¬∃ other, ("id", other) ∈ properties) ∧ ∀ other, ("children", other) ∈ properties →
        ∃ children, ofChildren? other = some children ∧ q children := by
  rw [readableMembers_cons_iff]
  constructor
  · rintro ⟨hproperties, ⟨-, hid, -⟩ | ⟨hname, -⟩ | ⟨hname, -⟩⟩
    · exact ⟨hid, hproperties.children⟩
    · exact absurd hname (by decide)
    · exact absurd rfl hname
  · rintro ⟨hid, hchildren⟩
    refine ⟨⟨?_, fun other hother => absurd ⟨other, hother⟩ hid, hchildren⟩,
      .inl ⟨rfl, hid, id, rfl⟩⟩
    exact hdiffer.imp fun hne hsame => absurd hsame hne

/-- Of the properties of an element with children none may be read as the children. -/
theorem readableMembers_iff_of_children (id : String) (value : Json) :
    ReadableMembers q (("id", .string id) :: (properties ++ [("children", value)])) ↔
      ((¬∃ other, ("id", other) ∈ properties) ∧ ¬∃ other, ("children", other) ∈ properties) ∧
        ∃ children, ofChildren? value = some children ∧ q children := by
  rw [readableMembers_cons_iff]
  constructor
  · rintro ⟨⟨honce, -, hread⟩, ⟨-, hid, -⟩ | ⟨hname, -⟩ | ⟨hname, -⟩⟩
    · refine ⟨⟨?_, ?_⟩, hread value (List.mem_append_right _ List.mem_cons_self)⟩
      · rintro ⟨other, hother⟩
        exact hid ⟨other, List.mem_append_left _ hother⟩
      · rintro ⟨other, hother⟩
        exact ((List.pairwise_append.mp honce).2.2 _ hother _ List.mem_cons_self rfl).2 rfl
    · exact absurd hname (by decide)
    · exact absurd rfl hname
  · rintro ⟨⟨hid, hchildren⟩, hvalue⟩
    have hnoid : ¬∃ other, ("id", other) ∈ properties ++ [("children", value)] := by
      simpa using hid
    refine ⟨⟨?_, fun other hother => absurd ⟨other, hother⟩ hnoid, ?_⟩, .inl ⟨rfl, hnoid, id, rfl⟩⟩
    · refine List.pairwise_append.mpr ⟨hdiffer.imp fun hne hsame => absurd hsame hne,
        List.pairwise_singleton _ _, ?_⟩
      rintro ⟨name, other⟩ hother later hlater hsame
      cases List.mem_singleton.mp hlater
      cases hsame
      exact absurd ⟨other, hother⟩ hchildren
    · intro other hother
      rcases List.mem_append.mp hother with hproperty | hlast
      · exact absurd ⟨other, hproperty⟩ hchildren
      · cases List.mem_singleton.mp hlast
        exact hvalue

end Element

end Blueprint

end FormDesigner
