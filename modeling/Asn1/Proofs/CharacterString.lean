import Asn1.CharacterString
import Asn1.Proofs.Text.Utf8
import Mathlib.Data.List.Basic

/-!
Character strings read exactly what they write: the octets of a text within the
alphabet of its kind. All alphabets but that of UTF8String are of ASCII, so it makes no
difference whether the characters are looked at or the octets.
-/

namespace Asn1

namespace StringKind

/-- The alphabet, by code points. -/
def InAlphabet (kind : StringKind) (code : Nat) : Prop :=
  match kind with
  | .utf8 => True
  | .printable =>
    0x41 ≤ code ∧ code ≤ 0x5A ∨ 0x61 ≤ code ∧ code ≤ 0x7A ∨ 0x30 ≤ code ∧ code ≤ 0x39 ∨
      code ∈ [0x20, 0x27, 0x28, 0x29, 0x2B, 0x2C, 0x2D, 0x2E, 0x2F, 0x3A, 0x3D, 0x3F]
  | .ia5 | .general => code < 0x80
  | .visible => 0x20 ≤ code ∧ code ≤ 0x7E

theorem isAlphanum_iff (c : Char) :
    c.isAlphanum = true ↔ 0x41 ≤ c.toNat ∧ c.toNat ≤ 0x5A ∨ 0x61 ≤ c.toNat ∧ c.toNat ≤ 0x7A ∨
      0x30 ≤ c.toNat ∧ c.toNat ≤ 0x39 := by
  have hranges : c.isAlphanum = (decide ('A'.val ≤ c.val ∧ c.val ≤ 'Z'.val) ||
      (decide ('a'.val ≤ c.val) && decide (c.val ≤ 'z'.val)) ||
      (decide ('0'.val ≤ c.val) && decide (c.val ≤ '9'.val))) := rfl
  rw [hranges]
  simp only [UInt32.le_iff_toNat_le, Bool.or_eq_true, Bool.and_eq_true, decide_eq_true_iff,
    or_assoc]
  exact Iff.rfl

theorem permits_iff (kind : StringKind) (c : Char) :
    kind.permits c = true ↔ kind.InAlphabet c.toNat := by
  cases kind with
  | utf8 => exact iff_of_true rfl trivial
  | printable =>
    have hsigns : [0x20, 0x27, 0x28, 0x29, 0x2B, 0x2C, 0x2D, 0x2E, 0x2F, 0x3A, 0x3D, 0x3F] =
        " '()+,-./:=?".toList.map Char.toNat := by decide
    have hinjective : Function.Injective Char.toNat := fun _ _ => Char.toNat_inj.1
    rw [permits, InAlphabet, Bool.or_eq_true, isAlphanum_iff, List.contains_iff_mem, hsigns,
      List.mem_map_of_injective hinjective]
    simp only [or_assoc]
  | ia5 | general => exact decide_eq_true_iff
  | visible =>
    rw [permits, Bool.and_eq_true, decide_eq_true_iff, decide_eq_true_iff, Char.le_def,
      Char.le_def, UInt32.le_iff_toNat_le, UInt32.le_iff_toNat_le]
    exact Iff.rfl

theorem ascii_of_inAlphabet {kind : StringKind} (h : kind ≠ .utf8) (code : Nat)
    (hcode : kind.InAlphabet code) : code < 0x80 := by
  cases kind with
  | utf8 => exact absurd rfl h
  | printable =>
    simp only [InAlphabet, List.mem_cons, List.not_mem_nil, or_false] at hcode
    omega
  | ia5 | general => exact hcode
  | visible =>
    simp only [InAlphabet] at hcode
    omega

theorem forbidden?_eq_none_iff (kind : StringKind) (position : Nat) (text : List Char) :
    kind.forbidden? position text = none ↔ ∀ c ∈ text, kind.permits c := by
  induction text generalizing position with
  | nil => simp [forbidden?]
  | cons c rest ih =>
    rw [forbidden?]
    by_cases hpermits : kind.permits c = true
    · rw [if_pos hpermits, ih]
      simp [hpermits]
    · rw [if_neg hpermits]
      simp [hpermits]

end StringKind

namespace CharacterString

open StringKind (forbidden?_eq_none_iff permits_iff ascii_of_inAlphabet)

/-- Every character is in the alphabet. -/
def Allowed (string : CharacterString) : Prop :=
  ∀ c ∈ string.text.toList, string.kind.InAlphabet c.toNat

theorem forbidden?_eq_none_iff_allowed (string : CharacterString) :
    string.forbidden? = none ↔ string.Allowed := by
  rw [forbidden?, forbidden?_eq_none_iff]
  exact forall₂_congr fun c _ => permits_iff string.kind c

theorem encode_eq_ok_iff (string : CharacterString) (content : Octets) :
    string.encode = .ok content ↔
      string.Allowed ∧ Text.Utf8.encode string.text = content := by
  rw [← forbidden?_eq_none_iff_allowed, encode]
  split
  · rename_i hforbidden
    simp [hforbidden]
  · rename_i hallowed
    simp [hallowed]

theorem decode_eq_ok_iff (kind : StringKind) (content : Octets) (string : CharacterString) :
    decode kind content = .ok string ↔ string.kind = kind ∧ string.encode = .ok content := by
  rw [encode_eq_ok_iff, ← forbidden?_eq_none_iff_allowed, decode]
  constructor
  · intro h
    split at h
    · cases h
    · rename_i text htext
      simp only at h
      split at h
      · cases h
      · rename_i hallowed
        cases h
        exact ⟨rfl, hallowed, Text.Utf8.encode_of_decode? htext⟩
  · rintro ⟨rfl, hallowed, rfl⟩
    rw [Text.Utf8.decode?_encode]
    simp only [hallowed]

theorem exists_encode_iff_allowed (string : CharacterString) :
    (∃ content, string.encode = .ok content) ↔ string.Allowed := by
  simp only [encode_eq_ok_iff]
  constructor
  · rintro ⟨_, hallowed, -⟩
    exact hallowed
  · intro hallowed
    exact ⟨_, hallowed, rfl⟩

/-- A text is allowed if the octets that it is written as are, and any is in a UTF8String. -/
theorem allowed_iff_octets (string : CharacterString) :
    string.Allowed ↔ (string.kind ≠ .utf8 → ∀ octet ∈ Text.Utf8.encode string.text,
      string.kind.InAlphabet octet.toNat) := by
  by_cases hutf8 : string.kind = .utf8
  · refine iff_of_true ?_ fun hother => absurd hutf8 hother
    intro c _
    rw [hutf8]
    trivial
  · have hoctets := Text.Utf8.forall_mem_encode_iff (ascii_of_inAlphabet hutf8) string.text
    constructor
    · intro hallowed _
      exact hoctets.2 hallowed
    · intro h
      exact hoctets.1 (h hutf8)

theorem exists_decode_iff (kind : StringKind) (content : Octets) :
    (∃ string, decode kind content = .ok string) ↔ Text.Utf8.WellFormed content ∧
      (kind ≠ .utf8 → ∀ octet ∈ content, kind.InAlphabet octet.toNat) := by
  simp only [decode_eq_ok_iff, encode_eq_ok_iff, allowed_iff_octets, Text.Utf8.wellFormed_iff]
  constructor
  · rintro ⟨string, rfl, hallowed, rfl⟩
    exact ⟨⟨string.text, rfl⟩, hallowed⟩
  · rintro ⟨⟨text, rfl⟩, hallowed⟩
    exact ⟨⟨kind, text⟩, rfl, hallowed, rfl⟩

/-- Octets are read as a string exactly if they are well-formed UTF-8 and, unless the string is a
UTF8String, all in its alphabet. They are those that the string is written as, and no others are
read as it. A string with a character that is not in its alphabet is neither written nor read. -/
theorem alphabets_read_and_written_exactly :
    (∀ kind content, (∃ string, decode kind content = .ok string) ↔
      Text.Utf8.WellFormed content ∧
        (kind ≠ .utf8 → ∀ octet ∈ content, kind.InAlphabet octet.toNat)) ∧
    (∀ kind content string, decode kind content = .ok string ↔
      string.kind = kind ∧ string.encode = .ok content) ∧
    ∀ string : CharacterString,
      ((∃ content, string.encode = .ok content) ↔
        ∀ c ∈ string.text.toList, string.kind.InAlphabet c.toNat) ∧
      ((∃ kind content, decode kind content = .ok string) ↔
        ∀ c ∈ string.text.toList, string.kind.InAlphabet c.toNat) := by
  refine ⟨exists_decode_iff, decode_eq_ok_iff, fun string => ?_⟩
  have hencode := exists_encode_iff_allowed string
  refine ⟨hencode, ?_⟩
  rw [← Allowed, ← hencode]
  simp only [decode_eq_ok_iff]
  constructor
  · rintro ⟨_, content, -, h⟩
    exact ⟨content, h⟩
  · rintro ⟨content, h⟩
    exact ⟨_, content, rfl, h⟩

/-- A letter, a letter with an accent, a currency sign and a picture, whose sequences have one to
four octets, are read in a UTF8String and nowhere else. -/
theorem sequences_of_one_to_four_octets_read :
    let content : Octets := [0x7A, 0xC3, 0x89, 0xE2, 0x82, 0xAC, 0xF0, 0x9F, 0x98, 0x80]
    Text.Utf8.WellFormed content ∧ (∃ string, decode .utf8 content = .ok string) ∧
      (∀ kind, kind ≠ .utf8 → ¬ ∃ string, decode kind content = .ok string) ∧
      StringKind.printable ≠ .utf8 ∧ ∃ string, decode .printable [0x7A, 0x3D, 0x3F] = .ok string := by
  intro content
  have hwell : Text.Utf8.WellFormed content :=
    .cons (.one (by decide)) <| .cons (.two (by decide) (by decide)) <|
      .cons (.three (by decide) (by decide) (by decide) (by decide) (by decide)) <|
      .cons (.four (by decide) (by decide) (by decide) (by decide) (by decide) (by decide)) .nil
  have hsigns : Text.Utf8.WellFormed [0x7A, 0x3D, 0x3F] :=
    .cons (.one (by decide)) <| .cons (.one (by decide)) <| .cons (.one (by decide)) .nil
  obtain ⟨hread, -, -⟩ := alphabets_read_and_written_exactly
  refine ⟨hwell, (hread .utf8 content).2 ⟨hwell, fun h => absurd rfl h⟩, ?_, by decide, ?_⟩
  · intro kind hkind h
    have hoctet := ((hread kind content).1 h).2 hkind 0xC3 (by decide)
    exact absurd (ascii_of_inAlphabet hkind _ hoctet) (by decide)
  · refine (hread .printable _).2 ⟨hsigns, fun _ => ?_⟩
    simp [StringKind.InAlphabet]

end CharacterString

end Asn1
