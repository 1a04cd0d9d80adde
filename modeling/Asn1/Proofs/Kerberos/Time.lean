import Asn1.Kerberos.Time
import Asn1.Proofs.Kerberos.Structure
import Asn1.Proofs.Time.Texts

/-!
KerberosTime on the wire. What is below a second is looked for in the nanoseconds and not in the
text, so a fraction of less than a nanosecond goes unseen; and a leap second, which is kept when
a time is made, counts as a fraction and cannot be written.
-/

namespace Asn1.Kerberos.KerberosTime

open Time (Instant isDigit)
open Time.Generalized (dateAndClock length_dateAndClock)
open Time.Precision (separator)

theorem ofValue_eq_ok_iff {value : Value} {time : KerberosTime} :
    ofValue value = .ok time ↔ value.instant? = some time.instant ∧ time.instant.nanos = 0 := by
  unfold ofValue
  split
  · rename_i hnone
    simp [hnone]
  · rename_i instant hinstant
    rw [hinstant]
    split
    · rename_i hnanos
      simp only [reduceCtorEq, Option.some.injEq, false_iff, not_and]
      rintro rfl
      exact hnanos
    · rename_i hnanos
      constructor
      · rintro ⟨⟩
        exact ⟨rfl, Decidable.not_not.1 hnanos⟩
      · rintro ⟨hsame, -⟩
        rw [Option.some.inj hsame]

/-- A KerberosTime is a GeneralizedTime in whole seconds. -/
theorem decode_eq_ok_iff {octets : Octets} {policy : Policy} {time : KerberosTime} :
    decode KerberosTime octets policy = .ok time ↔
      ∃ tlv rest, Tlv.read policy.rules 0 octets = .ok (tlv, rest) ∧
        (policy.strict = true → rest = []) ∧ tlv.tag = .generalizedTime ∧
        Time.Generalized.decode policy.rules tlv.content = .ok time.instant ∧
        time.instant.nanos = 0 := by
  rw [Kerberos.decode_eq_ok_iff]
  constructor
  · rintro ⟨value, hdecode, htime⟩
    obtain ⟨tlv, rest, decoded, hread, hend, hshown, hresult, rfl⟩ :=
      Value.decode_leaf_eq_ok_iff.1 hdecode
    obtain ⟨instant, hinstant, rfl⟩ := map_eq_ok_iff.1 hresult
    obtain ⟨hsame, hnanos⟩ := ofValue_eq_ok_iff.1 htime
    cases hsame
    exact ⟨tlv, rest, hread, hend, hshown, hinstant, hnanos⟩
  · rintro ⟨tlv, rest, hread, hend, hshown, hinstant, hnanos⟩
    refine ⟨.leaf (.generalizedTime time.instant), ?_, ofValue_eq_ok_iff.2 ⟨rfl, hnanos⟩⟩
    refine Value.decode_leaf_eq_ok_iff.2 ⟨tlv, rest, _, hread, hend, hshown, ?_, rfl⟩
    exact map_eq_ok_iff.2 ⟨_, hinstant, rfl⟩

/-- A fraction is accepted exactly if its first nine digits, or all of them if it has fewer, are
zeros. Under the distinguished rules it has more than nine, then, since it does not end in a
zero. -/
theorem fractions_accepted_without_nanoseconds (octets : Octets) (policy : Policy)
    (time : KerberosTime) :
    decode KerberosTime octets policy = .ok time ↔
      ∃ tlv rest, Tlv.read policy.rules 0 octets = .ok (tlv, rest) ∧
        (policy.strict = true → rest = []) ∧ tlv.tag = .generalizedTime ∧
        Time.Generalized.decode policy.rules tlv.content = .ok time.instant ∧
        ∀ front comma back, tlv.content = front ++ separator comma :: back →
          (∀ octet ∈ (back.takeWhile isDigit).take 9, octet = 48) ∧
            (policy.rules = .distinguished →
              comma = false ∧ 9 < (back.takeWhile isDigit).length) := by
  rw [decode_eq_ok_iff]
  refine exists_congr fun tlv => exists_congr fun rest => ?_
  refine and_congr_right fun _ => and_congr_right fun _ => and_congr_right fun _ => ?_
  exact and_congr_right fun hinstant => Time.Generalized.nanos_eq_zero_iff_of_decode hinstant

/-- Half a second is refused, whatever the policy. -/
theorem half_second_refused :
    let half := Time.digits 14 20200101000000 ++ [46, 53, 90]
    ¬ ∃ policy time, decode KerberosTime (24 :: 17 :: half) policy = .ok time := by
  rintro half ⟨policy, time, h⟩
  have hwritten : Tlv.read policy.rules 0 (24 :: 17 :: half) =
      .ok (⟨.generalizedTime, 0, [24, 17], half⟩, []) := by
    cases policy.rules <;> rfl
  obtain ⟨tlv, rest, hread, -, -, -, hzeros⟩ :=
    (fractions_accepted_without_nanoseconds _ _ _).1 h
  rw [hwritten] at hread
  cases hread
  have hhalf : half = Time.digits 14 20200101000000 ++ separator false :: [53, 90] := rfl
  exact absurd ((hzeros _ _ _ hhalf).1 53 (by decide)) (by decide)

/-- Fractions are accepted if they are small enough: zero tenths of a second under the basic
rules, and under the distinguished rules a tenth of a nanosecond. -/
theorem tenth_of_nanosecond_accepted :
    let zero := Time.digits 14 20200101000000 ++ [46, 48, 90]
    let tiny := Time.digits 14 20200101000000 ++ 46 :: Time.digits 10 1 ++ [90]
    decode KerberosTime (24 :: 17 :: zero) .ber = .ok ⟨⟨1577836800, 0⟩⟩ ∧
      decode KerberosTime (24 :: 26 :: tiny) .der = .ok ⟨⟨1577836800, 0⟩⟩ ∧
      Tlv.read .distinguished 0 (24 :: 26 :: tiny) =
        .ok (⟨.generalizedTime, 0, [24, 26], tiny⟩, []) ∧ separator false ∈ tiny := by
  have htiny : Tlv.read .distinguished 0
      (24 :: 26 :: (Time.digits 14 20200101000000 ++ 46 :: Time.digits 10 1 ++ [90])) =
        .ok (⟨.generalizedTime, 0, [24, 26],
          Time.digits 14 20200101000000 ++ 46 :: Time.digits 10 1 ++ [90]⟩, []) := rfl
  refine ⟨?_, ?_, htiny, by decide⟩
  · exact decode_eq_ok_iff.2 ⟨_, _, rfl, fun _ => rfl, rfl, rfl, rfl⟩
  · exact decode_eq_ok_iff.2 ⟨_, _, htiny, fun _ => rfl, rfl, rfl, rfl⟩

/-- There is one content, and it is the time's own, whatever the policy. -/
theorem encode_eq (time : KerberosTime) (policy : Policy) :
    encode time policy =
      match Time.Generalized.encode time.instant with
      | .error cause => .error (.unencodable cause)
      | .ok content => .ok (Tlv.encode .generalizedTime content) := by
  have hencoding : (Structure.toValue time).encoding policy =
      match Time.Generalized.encode time.instant with
      | .error cause => .error (.unencodable cause)
      | .ok content => .ok (.parts .generalizedTime content) := by
    rw [Structure.toValue, instStructure, Value.encoding]
    rfl
  rw [encode, Value.encode, hencoding]
  cases Time.Generalized.encode time.instant <;> rfl

theorem nanos_truncate_of_lt {instant : Instant} (h : instant.nanos < 1000000000) :
    instant.truncate = ⟨instant.seconds, 0⟩ := by
  rw [Instant.truncate, Nat.mod_eq_of_lt h, Nat.sub_self]

theorem nanos_truncate_of_le {instant : Instant} (h : 1000000000 ≤ instant.nanos) :
    1000000000 ≤ instant.truncate.nanos := by
  have hparts := Nat.div_add_mod instant.nanos 1000000000
  have hleap : 1 ≤ instant.nanos / 1000000000 := Nat.div_pos h (by decide)
  simp only [Instant.truncate]
  omega

/-- A time in whole seconds is one element of fifteen octets of content, which is read back. -/
theorem written_of_whole_second {time : KerberosTime} (hnanos : time.instant.nanos = 0)
    (hlow : 0 ≤ time.instant.civil.date.year) (hhigh : time.instant.civil.date.year ≤ 9999)
    (policy : Policy) :
    (dateAndClock time.instant.civil ++ [90]).length = 15 ∧
      encode time policy = .ok (24 :: 15 :: (dateAndClock time.instant.civil ++ [90])) ∧
      decode KerberosTime (24 :: 15 :: (dateAndClock time.instant.civil ++ [90])) policy =
        .ok time := by
  have hlength : (dateAndClock time.instant.civil ++ [90]).length = 15 := by
    rw [List.length_append, length_dateAndClock, List.length_singleton]
  have hcontent : Time.Generalized.encode time.instant =
      .ok (dateAndClock time.instant.civil ++ [90]) := by
    rw [Time.Generalized.encode_eq hlow hhigh (by omega), hnanos]
    simp [Time.Generalized.fractionText]
  have helement : Tlv.encode .generalizedTime (dateAndClock time.instant.civil ++ [90]) =
      24 :: 15 :: (dateAndClock time.instant.civil ++ [90]) := by
    rw [Tlv.encode, hlength]
    rfl
  refine ⟨hlength, ?_, ?_⟩
  · rw [encode_eq, hcontent, ← helement]
  · rw [← helement]
    refine decode_eq_ok_iff.2 ⟨_, [], Tlv.read_encode_alone ?_ _ _ _, fun _ => rfl, rfl,
      Time.Generalized.decode_encode _ hcontent, hnanos⟩
    rw [hlength]
    decide

/-- What is made from an instant has lost the parts of a second and nothing else, and is written
and read back, unless the instant is in a leap second. That is kept, so there is nothing to
write, and the value would not be accepted as a KerberosTime either. -/
theorem new_written_unless_leap_second {instant : Instant}
    (hlow : 0 ≤ instant.civil.date.year) (hhigh : instant.civil.date.year ≤ 9999)
    (policy : Policy) :
    (instant.nanos < 1000000000 →
      new instant = ⟨⟨instant.seconds, 0⟩⟩ ∧
        (dateAndClock instant.civil ++ [90]).length = 15 ∧
        encode (new instant) policy = .ok (24 :: 15 :: (dateAndClock instant.civil ++ [90])) ∧
        decode KerberosTime (24 :: 15 :: (dateAndClock instant.civil ++ [90])) policy =
          .ok (new instant)) ∧
    (1000000000 ≤ instant.nanos →
      encode (new instant) policy = .error (.unencodable .leapSecond) ∧
        ofValue (Structure.toValue (new instant)) =
          .error (.violated (.fractionalSeconds "KerberosTime"))) := by
  constructor
  · intro hnanos
    have hnew : (new instant).instant = ⟨instant.seconds, 0⟩ := nanos_truncate_of_lt hnanos
    exact ⟨congrArg KerberosTime.mk hnew,
      written_of_whole_second (congrArg Instant.nanos hnew) hlow hhigh policy⟩
  · intro hleap
    have hnew := nanos_truncate_of_le hleap
    have hcontent : Time.Generalized.encode (new instant).instant = .error .leapSecond :=
      Time.Generalized.encode_of_leapSecond hlow hhigh hnew
    constructor
    · rw [encode_eq, hcontent]
    · have hsome : instant.truncate.nanos ≠ 0 := by omega
      exact if_pos hsome

/-- The last second of 2016, before it was prolonged. -/
theorem half_second_before_leap_dropped :
    (0 : Int) ≤ (Instant.mk 1483228799 500000000).civil.date.year ∧
      (Instant.mk 1483228799 500000000).civil.date.year ≤ 9999 ∧
      encode (new ⟨1483228799, 500000000⟩) .der =
        .ok (24 :: 15 :: (Time.digits 14 20161231235959 ++ [90])) ∧
      decode KerberosTime (24 :: 15 :: (Time.digits 14 20161231235959 ++ [90])) .der =
        .ok ⟨⟨1483228799, 0⟩⟩ := by
  have hlow : (0 : Int) ≤ (Instant.mk 1483228799 500000000).civil.date.year := by decide
  have hhigh : (Instant.mk 1483228799 500000000).civil.date.year ≤ 9999 := by decide
  have htext : dateAndClock (Instant.mk 1483228799 500000000).civil =
      Time.digits 14 20161231235959 := by decide
  obtain ⟨hnew, -, hencode, hdecode⟩ :=
    (new_written_unless_leap_second hlow hhigh .der).1 (by decide)
  rw [htext] at hencode hdecode
  exact ⟨hlow, hhigh, hencode, hnew ▸ hdecode⟩

/-- Half a second later the leap second has come, and there is no encoding. -/
theorem half_second_into_leap_not_written :
    (0 : Int) ≤ (Instant.mk 1483228799 1500000000).civil.date.year ∧
      (Instant.mk 1483228799 1500000000).civil.date.year ≤ 9999 ∧
      new ⟨1483228799, 1500000000⟩ = ⟨⟨1483228799, 1000000000⟩⟩ ∧
      encode (new ⟨1483228799, 1500000000⟩) .der = .error (.unencodable .leapSecond) := by
  refine ⟨by decide, by decide, rfl, ?_⟩
  rw [encode_eq, Time.Generalized.encode_of_leapSecond (by decide) (by decide) (by decide)]

end Asn1.Kerberos.KerberosTime
