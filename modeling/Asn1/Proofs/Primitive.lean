import Asn1.Primitive
import Asn1.Proofs.BitString
import Asn1.Proofs.CharacterString
import Asn1.Proofs.Integer
import Asn1.Proofs.ObjectIdentifier
import Asn1.Proofs.Outcome
import Asn1.Proofs.Time.Generalized
import Asn1.Proofs.Time.Utc

/-!
The content of every primitive type is read back as what was written. Under the
distinguished rules only what is written is read, GeneralizedTime apart, and the
basic rules read it as the same value.
-/

namespace Asn1.Primitive

/-- Under the distinguished rules the bits past the end of a bit string have to
be zero. No other value has two contents. -/
def PaddedUnder (rules : Rules) : Primitive → Prop
  | .bitString bits => rules = .distinguished → bits.Padded
  | _ => True

theorem decodeBoolean_encode (rules : Rules) (value : Bool) :
    decodeBoolean rules (encodeBoolean value) = .ok value := by
  cases value <;> simp [decodeBoolean, encodeBoolean]

theorem encode_of_decodeBoolean {content : Octets} {value : Bool}
    (h : decodeBoolean .distinguished content = .ok value) : encodeBoolean value = content := by
  rw [decodeBoolean.eq_def] at h
  split at h
  · split at h
    · rename_i octet hzero
      cases h
      rw [hzero]
      rfl
    · split at h
      · rename_i octet _ hones
        cases h
        rcases hones with hones | hrules
        · rw [hones]
          rfl
        · cases hrules
      · cases h
  · cases h

/-- Values that start from the same content are read alike. -/
theorem decode_of_cleared {a b : Primitive} (h : a.cleared = b.cleared) : a.decode = b.decode := by
  funext rules content
  cases a <;> cases b <;> simp_all [cleared, decode]

theorem tag_of_cleared {a b : Primitive} (h : a.cleared = b.cleared) : a.tag = b.tag := by
  cases a <;> cases b <;> simp_all [cleared, tag]

@[simp] theorem constructed_tag (primitive : Primitive) : primitive.tag.constructed = false := by
  cases primitive with
  | characterString string => cases hkind : string.kind <;> simp [tag, hkind] <;> rfl
  | _ => rfl

@[simp] theorem cleared_cleared (primitive : Primitive) : primitive.cleared.cleared =
    primitive.cleared := by
  cases primitive <;> rfl

theorem cleared_of_decode {primitive result : Primitive} {rules : Rules} {content : Octets}
    (h : primitive.decode rules content = .ok result) : result.cleared = primitive.cleared := by
  cases primitive with
  | octetString octets =>
    cases h
    rfl
  | null =>
    simp only [decode] at h
    split at h
    · cases h
      rfl
    · cases h
  | characterString string =>
    obtain ⟨string', hstring, rfl⟩ := map_eq_ok_iff.1 h
    obtain ⟨hkind, -⟩ := (CharacterString.decode_eq_ok_iff _ _ _).1 hstring
    simp only [cleared, hkind]
  | boolean | integer | enumerated | bitString | objectIdentifier | utcTime | generalizedTime =>
    obtain ⟨value, -, rfl⟩ := map_eq_ok_iff.1 h
    rfl

theorem decode_encode {primitive : Primitive} {rules : Rules} {content : Octets}
    (h : primitive.encode = .ok content) (hpadded : primitive.PaddedUnder rules) :
    primitive.decode rules content = .ok primitive := by
  cases primitive with
  | boolean value =>
    cases h
    rw [decode, decodeBoolean_encode]
    rfl
  | integer value =>
    cases h
    rw [decode, Integer.decode_encode]
    rfl
  | enumerated value =>
    cases h
    rw [decode, Integer.decode_encode]
    rfl
  | bitString bits =>
    cases h
    rw [decode, (BitString.decode_eq_ok_iff _ _ _).2 ⟨rfl, hpadded⟩]
    rfl
  | octetString octets =>
    cases h
    rfl
  | null =>
    cases h
    rfl
  | objectIdentifier oid =>
    rw [decode, ObjectIdentifier.decode_encode h]
    rfl
  | characterString string =>
    rw [decode, (CharacterString.decode_eq_ok_iff _ _ _).2 ⟨rfl, h⟩]
    rfl
  | utcTime instant =>
    rw [decode, Time.Utc.decode_encode rules h]
    rfl
  | generalizedTime instant =>
    rw [decode, Time.Generalized.decode_encode rules h]
    rfl

/-- GeneralizedTime is apart: its digits past the ninth of a fraction are read
but not kept. -/
def IsGeneralizedTime : Primitive → Prop
  | .generalizedTime _ => True
  | _ => False

theorem encode_of_decode {primitive result : Primitive} {content : Octets}
    (h : primitive.decode .distinguished content = .ok result)
    (htime : ¬ primitive.IsGeneralizedTime) : result.encode = .ok content := by
  cases primitive with
  | boolean _ =>
    obtain ⟨value, hvalue, rfl⟩ := map_eq_ok_iff.1 h
    rw [encode, encode_of_decodeBoolean hvalue]
  | integer _ =>
    obtain ⟨value, hvalue, rfl⟩ := map_eq_ok_iff.1 h
    rw [encode, Integer.encode_of_decode hvalue]
  | enumerated _ =>
    obtain ⟨value, hvalue, rfl⟩ := map_eq_ok_iff.1 h
    rw [encode, Integer.encode_of_decode hvalue]
  | bitString _ =>
    obtain ⟨bits, hbits, rfl⟩ := map_eq_ok_iff.1 h
    rw [encode, ((BitString.decode_eq_ok_iff _ _ _).1 hbits).1]
  | octetString _ =>
    cases h
    rfl
  | null =>
    simp only [decode] at h
    split at h
    · rename_i hempty
      cases h
      rw [encode, List.isEmpty_iff.1 hempty]
    · cases h
  | objectIdentifier _ =>
    obtain ⟨oid, hoid, rfl⟩ := map_eq_ok_iff.1 h
    exact ObjectIdentifier.encode_of_decode hoid
  | characterString _ =>
    obtain ⟨string, hstring, rfl⟩ := map_eq_ok_iff.1 h
    exact ((CharacterString.decode_eq_ok_iff _ _ _).1 hstring).2
  | utcTime _ =>
    obtain ⟨instant, hinstant, rfl⟩ := map_eq_ok_iff.1 h
    exact Time.Utc.encode_of_decode hinstant
  | generalizedTime _ => exact absurd trivial htime

/-- What is decoded under the distinguished rules needs no care to be read back. -/
theorem paddedUnder_of_decode {primitive result : Primitive} {rules : Rules} {content : Octets}
    (h : primitive.decode rules content = .ok result) : result.PaddedUnder rules := by
  cases primitive with
  | bitString _ =>
    obtain ⟨bits, hbits, rfl⟩ := map_eq_ok_iff.1 h
    exact ((BitString.decode_eq_ok_iff _ _ _).1 hbits).2
  | octetString _ =>
    cases h
    trivial
  | null =>
    simp only [decode] at h
    split at h
    · cases h
      trivial
    · cases h
  | boolean | integer | enumerated | objectIdentifier | characterString | utcTime
  | generalizedTime =>
    obtain ⟨value, -, rfl⟩ := map_eq_ok_iff.1 h
    trivial

theorem decode_relax {primitive result : Primitive} {rules : Rules} {content : Octets}
    (h : primitive.decode .distinguished content = .ok result) :
    primitive.decode rules content = .ok result := by
  by_cases htime : primitive.IsGeneralizedTime
  · cases primitive with
    | generalizedTime _ =>
      obtain ⟨instant, hinstant, rfl⟩ := map_eq_ok_iff.1 h
      rw [decode, Time.Generalized.decode_relax hinstant]
      rfl
    | boolean | integer | enumerated | bitString | octetString | null | objectIdentifier
    | characterString | utcTime => exact htime.elim
  · have hpadded : result.PaddedUnder rules := by
      have hdistinguished := paddedUnder_of_decode h
      cases result with
      | bitString bits => exact fun _ => hdistinguished rfl
      | _ => trivial
    rw [← decode_of_cleared (cleared_of_decode h)]
    exact decode_encode (encode_of_decode h htime) hpadded

/-- The times whose years the text of their type can show. -/
def YearInRange : Primitive → Prop
  | .utcTime instant => 1950 ≤ instant.civil.date.year ∧ instant.civil.date.year ≤ 2049
  | .generalizedTime instant => 0 ≤ instant.civil.date.year ∧ instant.civil.date.year ≤ 9999
  | _ => True

/-- What is decoded can be encoded, unless the zone of a time has led to a year beyond the
range of its type. -/
theorem exists_encode_iff_of_decode {primitive result : Primitive} {rules : Rules}
    {content : Octets} (h : primitive.decode rules content = .ok result) :
    (∃ again, result.encode = .ok again) ↔ result.YearInRange := by
  cases primitive with
  | utcTime _ =>
    obtain ⟨instant, hinstant, rfl⟩ := map_eq_ok_iff.1 h
    exact Time.Utc.exists_encode_iff_of_decode hinstant
  | generalizedTime _ =>
    obtain ⟨instant, hinstant, rfl⟩ := map_eq_ok_iff.1 h
    exact Time.Generalized.exists_encode_iff_of_decode hinstant
  | objectIdentifier _ =>
    obtain ⟨oid, hoid, rfl⟩ := map_eq_ok_iff.1 h
    exact iff_of_true ⟨_, ObjectIdentifier.encode_of_decode hoid⟩ trivial
  | characterString _ =>
    obtain ⟨string, hstring, rfl⟩ := map_eq_ok_iff.1 h
    exact iff_of_true ⟨_, ((CharacterString.decode_eq_ok_iff _ _ _).1 hstring).2⟩ trivial
  | boolean | integer | enumerated | bitString =>
    obtain ⟨value, -, rfl⟩ := map_eq_ok_iff.1 h
    exact iff_of_true ⟨_, rfl⟩ trivial
  | octetString _ =>
    cases h
    exact iff_of_true ⟨_, rfl⟩ trivial
  | null =>
    simp only [decode] at h
    split at h
    · cases h
      exact iff_of_true ⟨_, rfl⟩ trivial
    · cases h

theorem yearInRange_of_decode {primitive result : Primitive} {content : Octets}
    (h : primitive.decode .distinguished content = .ok result) : result.YearInRange := by
  by_cases htime : primitive.IsGeneralizedTime
  · cases primitive with
    | generalizedTime _ =>
      obtain ⟨instant, hinstant, rfl⟩ := map_eq_ok_iff.1 h
      exact Time.Generalized.year_of_decode hinstant
    | boolean | integer | enumerated | bitString | octetString | null | objectIdentifier
    | characterString | utcTime => exact htime.elim
  · exact (exists_encode_iff_of_decode h).1 ⟨content, encode_of_decode h htime⟩

end Asn1.Primitive
