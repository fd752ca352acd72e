import FormDesigner.Proofs.Number.Whole
import FormDesigner.Proofs.Value.Shape
import FormDesigner.Value.Markup

/-!
Markup and JSON forms depend on the shape of a value only.

Values of one shape differ at most in the sign of zeros and in the bits of NaNs, and
neither is written.
-/

namespace FormDesigner

namespace Number

variable {x y : Number}

/-- Numbers of one place are the same, both NaN or both zero. -/
theorem of_place_eq (h : x.place = y.place) :
    x = y ∨ (x.isNaN = true ∧ y.isNaN = true) ∨ (x.isZero = true ∧ y.isZero = true) := by
  cases hx : x.isNaN with
  | true =>
      cases hy : y.isNaN with
      | true => exact Or.inr (Or.inl ⟨rfl, rfl⟩)
      | false => simp [place, hx, hy] at h
  | false =>
      cases hy : y.isNaN with
      | true => simp [place, hx, hy] at h
      | false =>
          have hrank : x.rank = y.rank := by simpa [place, hx, hy] using h
          have hbits : x.bits.toNat = y.bits.toNat ∨ x.magnitude = 0 ∧ y.magnitude = 0 := by
            have hxlt := x.bits.toNat_lt
            have hylt := y.bits.toNat_lt
            simp only [rank, negative, magnitude, decide_eq_true_eq] at hrank ⊢
            split at hrank <;> split at hrank <;> omega
          rcases hbits with hbits | ⟨hleft, hright⟩
          · left
            cases x
            cases y
            exact congrArg Number.mk (UInt64.toNat_inj.mp hbits)
          · exact Or.inr (Or.inr ⟨by simp [isZero, hleft], by simp [isZero, hright]⟩)

theorem toInt?_of_isZero (h : x.isZero = true) : x.toInt? = some 0 := by
  have hmagnitude : x.magnitude = 0 := by simpa [isZero] using h
  have hexponent : x.biasedExponent = 0 := by simp [biasedExponent, hmagnitude]
  have hsignificand : x.significand = 0 := by simp [significand, hexponent, hmagnitude]
  have hfloor : x.floorAbs = 0 := by simp [floorAbs, hsignificand]
  have hwhole : x.isWhole = true := by
    simp [isWhole, isFinite, hmagnitude, hsignificand, infinityBits]
  rw [toInt?, if_pos hwhole, truncate, hfloor]
  simp

theorem isFinite_of_isNaN (h : x.isNaN = true) : x.isFinite = false := by
  cases hfinite : x.isFinite with
  | false => rfl
  | true =>
      rw [not_isNaN_of_isFinite hfinite] at h
      cases h

theorem toInt?_of_isNaN (h : x.isNaN = true) : x.toInt? = none := by
  cases hint : x.toInt? with
  | none => rfl
  | some n =>
      have hfinite := isFinite_of_toInt? hint
      rw [isFinite_of_isNaN h] at hfinite
      cases hfinite

theorem plainText_of_isNaN (h : x.isNaN = true) : x.plainText = "NaN" := by
  rw [plainText, NumberStyle.write, if_pos h]

theorem markup_of_isZero (h : x.isZero = true) : x.markup = "0" := by
  have hsmall : (0 : Int).natAbs < exactLimit := by decide
  simp only [markup, toInt?_of_isZero h, if_pos hsmall]
  rfl

theorem markup_of_isNaN (h : x.isNaN = true) : x.markup = "NaN" := by
  simp only [markup, toInt?_of_isNaN h, plainText_of_isNaN h]

theorem markup_eq_of_place_eq (h : x.place = y.place) : x.markup = y.markup := by
  rcases of_place_eq h with rfl | ⟨hx, hy⟩ | ⟨hx, hy⟩
  · rfl
  · rw [markup_of_isNaN hx, markup_of_isNaN hy]
  · rw [markup_of_isZero hx, markup_of_isZero hy]

end Number

namespace Value

theorem numberToJson_of_isZero {x : Number} (h : x.isZero = true) :
    numberToJson x = .integer 0 := by
  have hsmall : (0 : Int).natAbs < wholeLimit := by decide
  simp only [numberToJson, Number.toInt?_of_isZero h, if_pos hsmall]

theorem numberToJson_of_isNaN {x : Number} (h : x.isNaN = true) : numberToJson x = .null := by
  simp only [numberToJson, Number.toInt?_of_isNaN h, Number.isFinite_of_isNaN h,
    Bool.false_eq_true, if_false]

theorem numberToJson_eq_of_place_eq {x y : Number} (h : x.place = y.place) :
    numberToJson x = numberToJson y := by
  rcases Number.of_place_eq h with rfl | ⟨hx, hy⟩ | ⟨hx, hy⟩
  · rfl
  · rw [numberToJson_of_isNaN hx, numberToJson_of_isNaN hy]
  · rw [numberToJson_of_isZero hx, numberToJson_of_isZero hy]

mutual

/-- Values of one shape have one JSON form. -/
theorem toJson_eq_of_shape_eq : ∀ {left right : Value}, left.shape = right.shape →
    left.toJson = right.toJson
  | .null, right, h => by
      cases right with
      | null => rfl
      | _ => cases h
  | .bool a, right, h => by
      cases right with
      | bool b => rw [Shape.bool.inj h]
      | _ => cases h
  | .string s, right, h => by
      cases right with
      | string t => rw [Shape.string.inj h]
      | _ => cases h
  | .number x, right, h => by
      cases right with
      | number y =>
          rw [toJson, toJson]
          exact numberToJson_eq_of_place_eq (Shape.number.inj h)
      | _ => cases h
  | .list items, right, h => by
      cases right with
      | list others =>
          rw [toJson, toJson, itemsToJson_eq_of_shape_eq (Shape.list.inj h)]
      | _ => cases h
  | .record fields, right, h => by
      cases right with
      | record others =>
          rw [toJson, toJson, fieldsToJson_eq_of_shape_eq (Shape.record.inj h)]
      | _ => cases h
  | .binding kind inner, right, h => by
      cases right with
      | binding other content =>
          obtain ⟨hkind, hinner⟩ := Shape.binding.inj h
          rw [toJson, toJson, hkind, toJson_eq_of_shape_eq hinner]
      | _ => cases h

theorem itemsToJson_eq_of_shape_eq : ∀ {left right : List Value},
    shapeItems left = shapeItems right → itemsToJson left = itemsToJson right
  | [], right, h => by
      cases right with
      | nil => rfl
      | cons _ _ => cases h
  | item :: rest, right, h => by
      cases right with
      | nil => cases h
      | cons other others =>
          obtain ⟨hitem, hrest⟩ := List.cons.inj h
          rw [itemsToJson, itemsToJson, toJson_eq_of_shape_eq hitem,
            itemsToJson_eq_of_shape_eq hrest]

theorem fieldsToJson_eq_of_shape_eq : ∀ {left right : List (String × Value)},
    shapeFields left = shapeFields right → fieldsToJson left = fieldsToJson right
  | [], right, h => by
      cases right with
      | nil => rfl
      | cons _ _ => cases h
  | (name, value) :: rest, right, h => by
      cases right with
      | nil => cases h
      | cons head others =>
          obtain ⟨other, content⟩ := head
          obtain ⟨hhead, hrest⟩ := List.cons.inj h
          obtain ⟨hname, hvalue⟩ := Prod.mk.inj hhead
          rw [fieldsToJson, fieldsToJson, hname, toJson_eq_of_shape_eq hvalue,
            fieldsToJson_eq_of_shape_eq hrest]

end

mutual

/-- Values of one shape have one markup. -/
theorem markup_eq_of_shape_eq : ∀ {left right : Value}, left.shape = right.shape →
    left.markup = right.markup
  | .null, right, h => by
      cases right with
      | null => rfl
      | _ => cases h
  | .bool a, right, h => by
      cases right with
      | bool b => rw [Shape.bool.inj h]
      | _ => cases h
  | .string s, right, h => by
      cases right with
      | string t => rw [Shape.string.inj h]
      | _ => cases h
  | .number x, right, h => by
      cases right with
      | number y =>
          rw [markup, markup]
          exact Number.markup_eq_of_place_eq (Shape.number.inj h)
      | _ => cases h
  | .list items, right, h => by
      cases right with
      | list others => rw [markup, markup, markupItems_eq_of_shape_eq (Shape.list.inj h)]
      | _ => cases h
  | .record fields, right, h => by
      cases right with
      | record others => rw [markup, markup, toJson_eq_of_shape_eq h]
      | _ => cases h
  | .binding kind inner, right, h => by
      cases right with
      | binding other content => rw [markup, markup, toJson_eq_of_shape_eq h]
      | _ => cases h

theorem markupItems_eq_of_shape_eq : ∀ {left right : List Value},
    shapeItems left = shapeItems right → markupItems left = markupItems right
  | [], right, h => by
      cases right with
      | nil => rfl
      | cons _ _ => cases h
  | item :: rest, right, h => by
      cases right with
      | nil => cases h
      | cons other others =>
          obtain ⟨hitem, hrest⟩ := List.cons.inj h
          rw [markupItems, markupItems, markup_eq_of_shape_eq hitem,
            markupItems_eq_of_shape_eq hrest]

end

/-- A value that is shown as nothing has no markup. -/
theorem markup_of_isBlank {value : Value} (h : value.isBlank = true) : value.markup = "" := by
  cases value with
  | null => rfl
  | string s => exact String.isEmpty_iff.mp h
  | _ => cases h

end Value

end FormDesigner
