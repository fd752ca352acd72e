import FormDesigner.Proofs.Number.Stepwise
import FormDesigner.Proofs.Value.Rereading

/-!
What JSON is read as.

Whatever is read has a JSON form of its own, so that it comes back when it is written and read
once more.  Of all values it is these that come back equal, and no others.
-/

namespace FormDesigner

/-- The number of an integer of 64 bits is finite. -/
theorem Number.isFinite_ofInt {n : Int} (h : n.natAbs < 2 ^ 64) : (ofInt n).isFinite = true :=
  isFinite_nearest_digits _ h

namespace Json

mutual

/-- Whether all numbers in it are integers of 64 bits or finite decimals. -/
def Finite : Json → Prop
  | .integer n => n.natAbs < 2 ^ 64
  | .decimal x => x.isFinite = true
  | .array items => FiniteItems items
  | .object members => FiniteMembers members
  | _ => True

def FiniteItems : List Json → Prop
  | [] => True
  | item :: rest => Finite item ∧ FiniteItems rest

def FiniteMembers : List (String × Json) → Prop
  | [] => True
  | (_, value) :: rest => Finite value ∧ FiniteMembers rest

end

end Json

namespace Value

theorem storable_number {x : Number} (h : x.isFinite = true) : (number x).Storable := by
  refine ⟨?_, nofun⟩
  intro y heq
  cases heq
  exact h

/-! ### Members collected by their names -/

theorem allFields_collect {p : Value → Prop} {entries : Entries Value} (h : AllFields p entries) :
    AllFields p (Fields.collect entries).entries := by
  rw [allFields_iff] at h ⊢
  refine List.foldlRecOn (motive := fun reached : Fields Value =>
    ∀ field ∈ reached.entries, field.2.All p) entries _
    (fun _ hmem => absurd hmem List.not_mem_nil) ?_
  intro reached hreached entry hentry field hfield
  rcases Entries.mem_put hfield with rfl | hold
  · exact h entry hentry
  · exact hreached field hold

/-- Fields are read as a binding if they look like one, so that no record is left that does. -/
theorem storable_ofFields {fields : Entries Value} (h : AllFields Storable fields) :
    (ofFields fields).All Storable := by
  unfold ofFields
  split
  · next name inner =>
      split
      · exact ⟨storable_of_ne nofun nofun, h.2.1⟩
      · next hname =>
          refine ⟨⟨nofun, ?_⟩, h⟩
          intro kind content heq
          cases heq
          rw [BindingKind.ofName?_name] at hname
          cases hname
  · next hother =>
      refine ⟨⟨nofun, ?_⟩, h⟩
      intro kind content heq
      exact hother _ _ (Value.record.inj heq)

/-! ### Reading -/

mutual

/-- All parts of what is read have a JSON form of their own. -/
theorem storable_ofJson : ∀ json : Json, json.Finite → (ofJson json).All Storable
  | .null, _ => storable_of_ne nofun nofun
  | .bool _, _ => storable_of_ne nofun nofun
  | .integer _, h => storable_number (Number.isFinite_ofInt h)
  | .decimal _, h => storable_number h
  | .string _, _ => storable_of_ne nofun nofun
  | .unreadable, _ => storable_of_ne nofun nofun
  | .array items, h => ⟨storable_of_ne nofun nofun, storable_itemsOfJson items h⟩
  | .object members, h => by
      rw [ofJson]
      exact storable_ofFields (allFields_collect (storable_membersOfJson members h))

theorem storable_itemsOfJson : ∀ items : List Json, Json.FiniteItems items →
    AllItems Storable (itemsOfJson items)
  | [], _ => trivial
  | item :: rest, h => ⟨storable_ofJson item h.1, storable_itemsOfJson rest h.2⟩

theorem storable_membersOfJson : ∀ members : List (String × Json), Json.FiniteMembers members →
    AllFields Storable (membersOfJson members)
  | [], _ => trivial
  | (_, value) :: rest, h => ⟨storable_ofJson value h.1, storable_membersOfJson rest h.2⟩

end

/-- A value comes back equal from JSON if and only if every number in it is finite and no record
in it looks like a binding.  Whatever is read from JSON is such a value, so that it comes back
when it is written and read once more. -/
theorem equals_ofJson_toJson_iff :
    (∀ datum : Datum,
      (ofJson datum.value.toJson).equals datum.value = true ↔ datum.value.All Storable) ∧
    ∀ json : Json, json.Finite → (ofJson json).Ordered ∧ (ofJson json).All Storable ∧
      (ofJson (toJson (ofJson json))).equals (ofJson json) = true := by
  constructor
  · intro datum
    constructor
    · intro hequals
      exact (shape_reread_iff datum.ordered).mp (shape_eq_of_equals _ _ hequals)
    · exact equals_ofJson_toJson datum.value datum.ordered
  · intro json hfinite
    have hordered := ordered_ofJson json
    have hstorable := storable_ofJson json hfinite
    exact ⟨hordered, hstorable, equals_ofJson_toJson _ hordered hstorable⟩

/-- A bound binding, next to a record with the members of one and a third. -/
def nestedBinding : Value :=
  .list [.binding .literal (.binding .expression (.string "user.name")),
    .record [("extra", .null), ("kind", .string "value"), ("value", .ofNat 2)]]

/-- An object that is read as a binding, with a repeated member, around one that is not. -/
def nestedObject : Json :=
  .object [("value", .null), ("kind", .string "value"),
    ("value", .object [("kind", .string "other"), ("value", .integer (-9000000000000000))])]

/-- The first one comes back equal, so that all its parts have a form of their own.  What is read
from the second one comes back. -/
theorem equals_ofJson_toJson_iff_of_nested :
    nestedBinding.Ordered ∧ nestedBinding.All Storable ∧ nestedObject.Finite ∧
      ofJson nestedObject = .binding .literal (.record [("kind", .string "other"),
        ("value", .number (Number.ofInt (-9000000000000000)))]) ∧
      (ofJson (toJson (ofJson nestedObject))).equals (ofJson nestedObject) = true := by
  obtain ⟨hvalues, hforms⟩ := equals_ofJson_toJson_iff
  have hordered : nestedBinding.Ordered := by decide
  have hsmall : (-9000000000000000 : Int).natAbs < 2 ^ 64 := by decide
  have hfinite : nestedObject.Finite := ⟨trivial, trivial, ⟨trivial, hsmall, trivial⟩, trivial⟩
  have hequals : (ofJson nestedBinding.toJson).equals nestedBinding = true := by decide +kernel
  exact ⟨hordered, (hvalues ⟨nestedBinding, hordered⟩).mp hequals, hfinite, rfl,
    (hforms nestedObject hfinite).2.2⟩

end Value

end FormDesigner
