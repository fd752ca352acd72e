import Mathlib.Tactic.ByContra

/-!
The letters of an ASCII text, read off its bytes.

Decoding a text is slow by evaluation.  A text whose bytes are all below 128 has one letter
for each byte, so that what is to be evaluated on such a text can start from the bytes.
-/

namespace FormDesigner

namespace Ascii

/-- The bytes of a text, as they are stored. -/
def bytes (text : String) : List UInt8 := text.toByteArray.data.toList

def isAscii (text : String) : Bool := (bytes text).all (· < 128)

/-- One letter for each byte. -/
def letters (text : String) : List Char := (bytes text).map fun byte => Char.ofNat byte.toNat

theorem bytes_eq (text : String) : bytes text = text.toList.flatMap String.utf8EncodeChar := by
  conv_lhs => rw [← String.ofList_toList (s := text)]
  rw [bytes, String.toByteArray_ofList, List.utf8Encode, List.toList_data_toByteArray]

/-- Only a character below 128 starts with a byte below 128. -/
theorem utf8EncodeChar_of_lt {c : Char} (h : ∀ byte ∈ String.utf8EncodeChar c, byte < 128) :
    ∃ byte, String.utf8EncodeChar c = [byte] ∧ Char.ofNat byte.toNat = c := by
  have hsmall : c.val.toNat ≤ 127 := by
    by_contra hlarge
    have hnotSmall : ¬c.val.toNat ≤ 127 := hlarge
    unfold String.utf8EncodeChar at h
    simp only [hnotSmall, if_false] at h
    split at h
    · have hfirst := h _ List.mem_cons_self
      rw [UInt8.lt_iff_toNat_lt, UInt8.toNat_ofNat'] at hfirst
      change (c.val.toNat / 64 % 32 + 192) % 256 < 128 at hfirst
      omega
    · split at h
      · have hfirst := h _ List.mem_cons_self
        rw [UInt8.lt_iff_toNat_lt, UInt8.toNat_ofNat'] at hfirst
        change (c.val.toNat / 4096 % 16 + 224) % 256 < 128 at hfirst
        omega
      · have hfirst := h _ List.mem_cons_self
        rw [UInt8.lt_iff_toNat_lt, UInt8.toNat_ofNat'] at hfirst
        change (c.val.toNat / 262144 % 8 + 240) % 256 < 128 at hfirst
        omega
  refine ⟨UInt8.ofNat c.val.toNat, ?_, ?_⟩
  · unfold String.utf8EncodeChar
    simp only [hsmall, if_true]
  · have hbyte : (UInt8.ofNat c.val.toNat).toNat = c.toNat := by
      rw [UInt8.toNat_ofNat']
      exact Nat.mod_eq_of_lt (by omega)
    rw [hbyte, Char.ofNat_toNat]

theorem map_flatMap_utf8EncodeChar {text : List Char}
    (h : ∀ byte ∈ text.flatMap String.utf8EncodeChar, byte < 128) :
    (text.flatMap String.utf8EncodeChar).map (fun byte => Char.ofNat byte.toNat) = text := by
  induction text with
  | nil => rfl
  | cons c rest ih =>
      simp only [List.flatMap_cons, List.forall_mem_append] at h
      obtain ⟨byte, hbyte, hchar⟩ := utf8EncodeChar_of_lt h.1
      rw [List.flatMap_cons, List.map_append, ih h.2, hbyte, List.map_singleton, hchar,
        List.singleton_append]

/-- An ASCII text has the letters of its bytes. -/
theorem letters_eq_toList {text : String} (h : isAscii text = true) :
    letters text = text.toList := by
  rw [isAscii, bytes_eq, List.all_eq_true] at h
  rw [letters, bytes_eq]
  apply map_flatMap_utf8EncodeChar
  intro byte hbyte
  simpa using h byte hbyte

end Ascii

end FormDesigner
