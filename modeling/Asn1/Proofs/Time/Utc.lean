import Asn1.Proofs.Time.Written
import Asn1.Time.Utc

/-!
UTCTime. What is read are the texts that end with minutes or seconds; the distinguished rules read
just those that are written.
-/

namespace Asn1.Time.Utc

theorem toNat_fullYear_mod {year : Int} (hlow : 1950 ≤ year) (hhigh : year ≤ 2049) :
    (fullYear (year.toNat % 100) : Int) = year := by
  rw [fullYear]
  split <;> omega

theorem fullYear_range {year : Nat} (h : year < 100) :
    1950 ≤ (fullYear year : Int) ∧ (fullYear year : Int) ≤ 2049 ∧
      (fullYear year : Int).toNat % 100 = year := by
  rw [fullYear]
  split <;> omega

/-- Seconds may be left out under the basic rules. -/
def Allows : Rules → Precision → Prop
  | .basic, .minutes _ => True
  | _, .seconds _ _ => True
  | _, _ => False

def afterHour (rules : Rules) (cursor : Cursor) :
    Except Malformation ((Nat × Nat × Nat) × Cursor) := do
  let (minute, cursor) ← cursor.number 2
  let (second, cursor) ← seconds rules cursor
  return ((minute, second, 0), cursor)

theorem decode_eq_readTime (rules : Rules) (content : Octets) :
    decode rules content = readTime 2 fullYear rules (afterHour rules) content := by
  simp only [decode, readTime, afterHour, bind_assoc, pure_bind]

theorem seconds_spans_iff {rules : Rules} {cursor next : Cursor} {second : Nat} :
    seconds rules cursor = .ok (second, next) ↔
      (second < 100 ∧ cursor.Spans (digits 2 second) next) ∨
        (rules = .basic ∧ second = 0 ∧ next = cursor ∧ cursor.atDigit = false) := by
  unfold seconds
  split
  · rename_i hdigit
    rw [Cursor.number_spans_iff, hdigit]
    simp
  · rename_i hdigit
    have hnone (hspans : cursor.Spans (digits 2 second) next) : False :=
      hdigit (Cursor.atDigit_of_spans_digits hspans (by decide))
    have hdigit : cursor.atDigit = false := by simpa using hdigit
    split
    · rename_i hrules
      cases hrules
      simp only [reduceCtorEq, false_iff, false_and, or_false, not_and]
      exact fun _ => hnone
    · rename_i hrules
      cases rules with
      | distinguished => exact absurd rfl hrules
      | basic =>
        constructor
        · intro h
          cases h
          exact .inr ⟨rfl, rfl, rfl, hdigit⟩
        · rintro (⟨-, hspans⟩ | ⟨-, rfl, rfl, -⟩)
          · exact (hnone hspans).elim
          · rfl

theorem afterHour_readsAs (rules : Rules) : ReadsAs (Allows rules) (afterHour rules) := by
  intro cursor next last minute second nanos zone hzone
  have hread : afterHour rules cursor = .ok ((minute, second, nanos), next) ↔
      ∃ middle, cursor.number 2 = .ok (minute, middle) ∧
        seconds rules middle = .ok (second, next) ∧ 0 = nanos := by
    simp only [afterHour, bind_eq_ok_iff, pure, Except.pure, Except.ok.injEq, Prod.mk.injEq]
    constructor
    · rintro ⟨⟨_, middle⟩, hminute, ⟨_, _⟩, hsecond, ⟨rfl, rfl, rfl⟩, rfl⟩
      exact ⟨middle, hminute, hsecond, rfl⟩
    · rintro ⟨middle, hminute, hsecond, rfl⟩
      exact ⟨_, hminute, _, hsecond, ⟨rfl, rfl, rfl⟩, rfl⟩
  rw [hread]
  constructor
  · rintro ⟨middle, hminute, hsecond, rfl⟩
    obtain ⟨hminuteLt, hminute⟩ := Cursor.number_spans_iff.1 hminute
    rcases seconds_spans_iff.1 hsecond with ⟨hsecondLt, hsecond⟩ | ⟨rfl, rfl, rfl, -⟩
    · refine ⟨.seconds minute second, by cases rules <;> trivial, trivial, rfl, rfl, rfl,
        ⟨hminuteLt, hsecondLt⟩, ?_⟩
      exact Cursor.spans_append_iff.2 ⟨middle, hminute, hsecond⟩
    · exact ⟨.minutes minute, trivial, trivial, rfl, rfl, rfl, ⟨hminuteLt, by decide⟩, hminute⟩
  · rintro ⟨precision, hallows, -, rfl, rfl, rfl, ⟨hminuteLt, hsecondLt⟩, hspans⟩
    cases precision with
    | hours => cases rules <;> exact hallows.elim
    | minutes minute =>
      cases rules with
      | distinguished => exact hallows.elim
      | basic =>
        have hsecond : seconds .basic next = .ok (0, next) :=
          seconds_spans_iff.2 (.inr ⟨rfl, rfl, rfl, Cursor.atDigit_of_spans_zone hzone⟩)
        exact ⟨next, Cursor.number_spans_iff.2 ⟨hminuteLt, hspans⟩, hsecond, rfl⟩
    | seconds minute second =>
      obtain ⟨middle, hminute, hsecond⟩ := Cursor.spans_append_iff.1 hspans
      exact ⟨middle, Cursor.number_spans_iff.2 ⟨hminuteLt, hminute⟩,
        seconds_spans_iff.2 (.inl ⟨hsecondLt, hsecond⟩), rfl⟩
    | fraction minute second comma run => cases rules <;> exact hallows.elim

theorem decode_eq_ok_iff (rules : Rules) (content : Octets) (instant : Instant) :
    decode rules content = .ok instant ↔
      ∃ time : Written, Allows rules time.precision ∧ (rules = .distinguished → time.zone = .utc) ∧
        time.Valid 2 fullYear ∧ time.text 2 = content ∧ time.instant fullYear = instant := by
  rw [decode_eq_readTime]
  exact readTime_eq_ok_iff (afterHour_readsAs rules) content instant

/-- The parts that an instant is written with. -/
def written (instant : Instant) : Written :=
  ⟨instant.civil.date.year.toNat % 100, instant.civil.date.month, instant.civil.date.day,
    instant.civil.hour, .seconds instant.civil.minute instant.civil.second, .utc⟩

theorem encode_eq_ok_iff (instant : Instant) (content : Octets) :
    encode instant = .ok content ↔
      1950 ≤ instant.civil.date.year ∧ instant.civil.date.year ≤ 2049 ∧ instant.nanos = 0 ∧
        (written instant).text 2 = content := by
  simp only [encode, written, Written.text, Precision.text, Zone.text]
  split
  · simp only [reduceCtorEq, false_iff]
    omega
  · split
    · simp only [reduceCtorEq, false_iff]
      omega
    · simp only [Except.ok.injEq, List.append_assoc]
      constructor
      · intro h
        exact ⟨by omega, by omega, by omega, h⟩
      · rintro ⟨-, -, -, h⟩
        exact h

theorem exists_encode_iff (instant : Instant) :
    (∃ content, encode instant = .ok content) ↔
      1950 ≤ instant.civil.date.year ∧ instant.civil.date.year ≤ 2049 ∧ instant.nanos = 0 := by
  simp only [encode_eq_ok_iff, exists_and_left, exists_eq', and_true]

theorem decode_encode (rules : Rules) {instant : Instant} {content : Octets}
    (h : encode instant = .ok content) : decode rules content = .ok instant := by
  obtain ⟨hlow, hhigh, hnanos, rfl⟩ := (encode_eq_ok_iff instant content).1 h
  have hcivil : (written instant).civil fullYear = instant.civil := by
    unfold written Written.civil
    rw [toNat_fullYear_mod hlow hhigh]
    rfl
  rw [decode_eq_ok_iff]
  refine ⟨written instant, ?_, fun _ => rfl, ⟨?_, ?_, trivial, trivial⟩, rfl, ?_⟩
  · cases rules <;> trivial
  · exact Nat.mod_lt _ (by decide)
  · rw [hcivil]
    exact Civil.ofSeconds_valid _
  · exact Written.instant_eq hcivil rfl hnanos.symm

theorem nanos_of_allows {rules : Rules} {precision : Precision} (h : Allows rules precision) :
    precision.nanos = 0 := by
  cases precision with
  | hours | minutes minute | seconds minute second => rfl
  | fraction minute second comma run => cases rules <;> exact h.elim

/-- The distinguished rules leave one text for every time. -/
theorem encode_of_decode {content : Octets} {instant : Instant}
    (h : decode .distinguished content = .ok instant) : encode instant = .ok content := by
  obtain ⟨⟨year, month, day, hour, precision, zone⟩, hallows, hzone, hvalid, rfl, rfl⟩ :=
    (decode_eq_ok_iff _ _ _).1 h
  obtain rfl : zone = .utc := hzone rfl
  have hcivil := hvalid.civil_instant rfl
  obtain ⟨hlow, hhigh, htwo⟩ := fullYear_range hvalid.year_lt
  rw [encode_eq_ok_iff, written, hcivil]
  refine ⟨hlow, hhigh, nanos_of_allows hallows, ?_⟩
  cases precision with
  | hours | minutes minute | fraction minute second comma run => exact hallows.elim
  | seconds minute second =>
    unfold Written.civil
    rw [htwo]
    rfl

/-- Of all that is read, the year alone decides whether it can be written. -/
theorem exists_encode_iff_of_decode {rules : Rules} {content : Octets} {instant : Instant}
    (h : decode rules content = .ok instant) :
    (∃ again, encode instant = .ok again) ↔
      1950 ≤ instant.civil.date.year ∧ instant.civil.date.year ≤ 2049 := by
  have hnanos : instant.nanos = 0 := by
    obtain ⟨time, hallows, -, -, -, rfl⟩ := (decode_eq_ok_iff _ _ _).1 h
    exact nanos_of_allows hallows
  rw [exists_encode_iff, hnanos, eq_self, and_true]

end Asn1.Time.Utc
