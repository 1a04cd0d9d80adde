import Asn1.Text.Utf8
import Mathlib.Tactic.Common

/-!
Which octets are UTF-8. A text is written as the sequences of its characters, one after the other,
and every sequence in the shortest form of a code point that is a character is read. So what is
read is what would be written.
-/

namespace Asn1.Text.Utf8

/-- An octet that stands behind the lead octet of a sequence. -/
def Continues (octet : UInt8) : Prop := 0x80 ≤ octet.toNat ∧ octet.toNat < 0xC0

instance (octet : UInt8) : Decidable (Continues octet) := inferInstanceAs (Decidable (_ ∧ _))

/-- The sequence of one character: no longer than its code point needs, not in the range of the
surrogates and not past the last code point. -/
inductive OneCharacter : Octets → Prop where
  | one {a : UInt8} (ha : a.toNat < 0x80) : OneCharacter [a]
  | two {a b : UInt8} (ha : 0xC2 ≤ a.toNat ∧ a.toNat < 0xE0) (hb : Continues b) :
      OneCharacter [a, b]
  | three {a b c : UInt8} (ha : 0xE0 ≤ a.toNat ∧ a.toNat < 0xF0)
      (hlong : a.toNat = 0xE0 → 0xA0 ≤ b.toNat) (hsurrogate : a.toNat = 0xED → b.toNat < 0xA0)
      (hb : Continues b) (hc : Continues c) : OneCharacter [a, b, c]
  | four {a b c d : UInt8} (ha : 0xF0 ≤ a.toNat ∧ a.toNat < 0xF5)
      (hlong : a.toNat = 0xF0 → 0x90 ≤ b.toNat) (hlast : a.toNat = 0xF4 → b.toNat < 0x90)
      (hb : Continues b) (hc : Continues c) (hd : Continues d) : OneCharacter [a, b, c, d]

/-- Sequences of characters, one after the other. -/
inductive WellFormed : Octets → Prop where
  | nil : WellFormed []
  | cons {front rest : Octets} (hfront : OneCharacter front) (hrest : WellFormed rest) :
      WellFormed (front ++ rest)

theorem exists_char {code : Nat} (h : code.isValidChar) : ∃ c : Char, c.val.toNat = code :=
  ⟨Char.ofNatAux code h, rfl⟩

theorem ofNat_eq {n : Nat} {octet : UInt8} (h : n = octet.toNat) : UInt8.ofNat n = octet := by
  rw [h, UInt8.ofNat_toNat]

/-- Every sequence is that of the character whose code point its bits make up. -/
theorem OneCharacter.exists_encodeChar {octets : Octets} (h : OneCharacter octets) :
    ∃ c, String.utf8EncodeChar c = octets := by
  simp only [String.utf8EncodeChar]
  -- what a second octet may not be keeps the code point long enough and a character
  cases h with
  | @one a ha =>
    have hvalid : a.toNat.isValidChar := .inl (by omega)
    obtain ⟨c, hcode⟩ := exists_char hvalid
    refine ⟨c, ?_⟩
    rw [if_pos (by omega), ofNat_eq hcode]
  | @two a b ha hb =>
    obtain ⟨hbLow, hbHigh⟩ := hb
    have hvalid : Nat.isValidChar ((a.toNat - 0xC0) * 64 + (b.toNat - 0x80)) := .inl (by omega)
    obtain ⟨c, hcode⟩ := exists_char hvalid
    refine ⟨c, ?_⟩
    rw [if_neg (by omega), if_pos (by omega)]
    simp only [List.cons.injEq, and_true]
    refine ⟨ofNat_eq ?_, ofNat_eq ?_⟩ <;> omega
  | @three a b c ha hlong hsurrogate hb hc =>
    obtain ⟨hbLow, hbHigh⟩ := hb
    obtain ⟨hcLow, hcHigh⟩ := hc
    have hvalid : Nat.isValidChar
        (((a.toNat - 0xE0) * 64 + (b.toNat - 0x80)) * 64 + (c.toNat - 0x80)) := by
      unfold Nat.isValidChar
      omega
    obtain ⟨c', hcode⟩ := exists_char hvalid
    refine ⟨c', ?_⟩
    rw [if_neg (by omega), if_neg (by omega), if_pos (by omega)]
    simp only [List.cons.injEq, and_true]
    refine ⟨ofNat_eq ?_, ofNat_eq ?_, ofNat_eq ?_⟩ <;> omega
  | @four a b c d ha hlong hlast hb hc hd =>
    obtain ⟨hbLow, hbHigh⟩ := hb
    obtain ⟨hcLow, hcHigh⟩ := hc
    obtain ⟨hdLow, hdHigh⟩ := hd
    have hvalid : Nat.isValidChar
        ((((a.toNat - 0xF0) * 64 + (b.toNat - 0x80)) * 64 + (c.toNat - 0x80)) * 64 +
          (d.toNat - 0x80)) := by
      unfold Nat.isValidChar
      omega
    obtain ⟨c', hcode⟩ := exists_char hvalid
    refine ⟨c', ?_⟩
    rw [if_neg (by omega), if_neg (by omega), if_neg (by omega)]
    simp only [List.cons.injEq, and_true]
    refine ⟨ofNat_eq ?_, ofNat_eq ?_, ofNat_eq ?_, ofNat_eq ?_⟩ <;> omega

theorem oneCharacter_encodeChar (c : Char) : OneCharacter (String.utf8EncodeChar c) := by
  have hvalid : c.val.toNat < 0xD800 ∨ 0xDFFF < c.val.toNat ∧ c.val.toNat < 0x110000 := c.valid
  simp only [String.utf8EncodeChar]
  split
  · refine .one ?_
    rw [UInt8.toNat_ofNat']
    omega
  · split
    · refine .two ?_ ?_ <;> simp only [Continues, UInt8.toNat_ofNat'] <;> omega
    · split
      · refine .three ?_ ?_ ?_ ?_ ?_ <;> simp only [Continues, UInt8.toNat_ofNat'] <;> omega
      · refine .four ?_ ?_ ?_ ?_ ?_ ?_ <;> simp only [Continues, UInt8.toNat_ofNat'] <;> omega

theorem encode_eq_flatMap (text : String) :
    encode text = text.toList.flatMap String.utf8EncodeChar := by
  have hbytes : text.toUTF8 = text.toList.utf8Encode := by
    rw [← String.toByteArray_ofList, String.ofList_toList]
    rfl
  rw [encode, hbytes, List.utf8Encode, List.toList_data_toByteArray]

/-- What is well-formed is what some text is written as. -/
theorem wellFormed_iff {octets : Octets} : WellFormed octets ↔ ∃ text, encode text = octets := by
  constructor
  · intro h
    induction h with
    | nil => exact ⟨"", rfl⟩
    | cons hfront _ ih =>
      obtain ⟨c, rfl⟩ := hfront.exists_encodeChar
      obtain ⟨text, rfl⟩ := ih
      refine ⟨String.ofList (c :: text.toList), ?_⟩
      rw [encode_eq_flatMap, encode_eq_flatMap, String.toList_ofList, List.flatMap_cons]
  · rintro ⟨text, rfl⟩
    rw [encode_eq_flatMap]
    induction text.toList with
    | nil => exact .nil
    | cons c rest ih =>
      rw [List.flatMap_cons]
      exact .cons (oneCharacter_encodeChar c) ih

@[simp] theorem decode?_encode (text : String) : decode? (encode text) = some text := by
  have hbytes : ByteArray.mk (encode text).toArray = text.toByteArray := rfl
  rw [decode?, hbytes, String.fromUTF8?, dif_pos text.isValidUTF8]
  rfl

theorem encode_of_decode? {octets : Octets} {text : String} (h : decode? octets = some text) :
    encode text = octets := by
  rw [decode?, String.fromUTF8?] at h
  split at h
  · cases h
    rfl
  · cases h

/-- Where only ASCII is allowed, the octets that are allowed are the characters that are. -/
theorem forall_mem_encodeChar_iff {P : Nat → Prop} (hascii : ∀ code, P code → code < 0x80)
    (c : Char) :
    (∀ octet ∈ String.utf8EncodeChar c, P octet.toNat) ↔ P c.toNat := by
  have hcode : c.toNat = c.val.toNat := rfl
  by_cases hshort : c.val.toNat ≤ 0x7F
  · have hoctet : (UInt8.ofNat c.val.toNat).toNat = c.val.toNat := by
      rw [UInt8.toNat_ofNat']
      omega
    simp only [String.utf8EncodeChar, if_pos hshort, List.mem_singleton, forall_eq]
    rw [hoctet, hcode]
  · have hlead : ∃ lead rest, String.utf8EncodeChar c = lead :: rest ∧ 0x80 ≤ lead.toNat := by
      simp only [String.utf8EncodeChar, if_neg hshort]
      split_ifs
      all_goals
        refine ⟨_, _, rfl, ?_⟩
        rw [UInt8.toNat_ofNat']
        omega
    obtain ⟨lead, rest, hsequence, hhigh⟩ := hlead
    constructor
    · intro h
      have hlow := hascii _ (h lead (hsequence ▸ List.mem_cons_self))
      omega
    · intro h
      have hlow := hascii _ h
      omega

theorem forall_mem_encode_iff {P : Nat → Prop} (hascii : ∀ code, P code → code < 0x80)
    (text : String) :
    (∀ octet ∈ encode text, P octet.toNat) ↔ ∀ c ∈ text.toList, P c.toNat := by
  rw [encode_eq_flatMap]
  induction text.toList with
  | nil => simp
  | cons c rest ih =>
    rw [List.flatMap_cons, List.forall_mem_append, ih, forall_mem_encodeChar_iff hascii,
      List.forall_mem_cons]

end Asn1.Text.Utf8
