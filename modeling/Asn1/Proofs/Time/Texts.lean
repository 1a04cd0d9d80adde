import Asn1.Proofs.Time.Generalized
import Asn1.Proofs.Time.Utc

/-!
What the texts of the two types of time say. Each type reads the texts of its grammar and no
others, and what it writes among them. Under the distinguished rules a UTCTime is written as it was
read, and so is a GeneralizedTime, up to the digits that nanoseconds cannot hold.
-/

namespace Asn1.Time

/-- A text of the grammar whose fields are in range is read as the instant that it means, and
nothing else is read. -/
theorem times_read_from_their_texts (rules : Rules) (content : Octets) (instant : Instant) :
    (Utc.decode rules content = .ok instant ↔
      ∃ time : Written, Utc.Allows rules time.precision ∧
        (rules = .distinguished → time.zone = .utc) ∧ time.Valid 2 Utc.fullYear ∧
        time.text 2 = content ∧ time.instant Utc.fullYear = instant) ∧
    (Generalized.decode rules content = .ok instant ↔
      ∃ time : Written, Generalized.Allows rules time.precision ∧
        (rules = .distinguished → time.zone = .utc) ∧ time.Valid 4 id ∧
        time.text 4 = content ∧ time.instant id = instant) :=
  ⟨Utc.decode_eq_ok_iff rules content instant,
    Generalized.decode_eq_ok_iff rules content instant⟩

/-- In the first half hour of March, an hour and a half east, it is the leap day still. -/
theorem leap_day_read_from_march :
    Utc.decode .basic (digits 10 3010030 ++ 43 :: digits 4 130) = .ok ⟨951865200, 0⟩ ∧
      Generalized.decode .basic
        (digits 14 20000301003000 ++ 44 :: digits 11 12345678987 ++ 43 :: digits 4 130) =
          .ok ⟨951865200, 123456789⟩ ∧
      (⟨951865200, 0⟩ : Instant).civil = ⟨⟨2000, 2, 29⟩, 23, 0, 0⟩ := by
  refine ⟨?_, ?_, by decide⟩
  · exact (times_read_from_their_texts _ _ _).1.2
      ⟨⟨0, 3, 1, 0, .minutes 30, .ahead 1 30⟩, trivial, nofun,
        ⟨by decide, by decide, trivial, by decide, by decide⟩, by decide, by decide⟩
  · exact (times_read_from_their_texts _ _ _).2.2
      ⟨⟨2000, 3, 1, 0, .fraction 30 0 true (digits 11 12345678987), .ahead 1 30⟩, trivial, nofun,
        ⟨by decide, by decide, ⟨by decide, fun _ => isDigit_of_mem_digits⟩, by decide, by decide⟩,
        by decide, by decide⟩

/-- What is written is read back under either rules, and of the texts of a UTCTime the
distinguished rules read the one that is written. There is none just where the year is out of
range or there is more to show than the type can: parts of a second in a UTCTime, a leap second in
either. -/
theorem times_read_back_as_written (rules : Rules) (instant : Instant) :
    (∀ content, Utc.encode instant = .ok content → Utc.decode rules content = .ok instant) ∧
    (∀ content, Generalized.encode instant = .ok content →
      Generalized.decode rules content = .ok instant) ∧
    (∀ content, Utc.decode .distinguished content = .ok instant →
      Utc.encode instant = .ok content) ∧
    ((∃ content, Utc.encode instant = .ok content) ↔
      1950 ≤ instant.civil.date.year ∧ instant.civil.date.year ≤ 2049 ∧ instant.nanos = 0) ∧
    ((∃ content, Generalized.encode instant = .ok content) ↔
      0 ≤ instant.civil.date.year ∧ instant.civil.date.year ≤ 9999 ∧
        instant.nanos < 1000000000) :=
  ⟨fun _ h => Utc.decode_encode rules h, fun _ h => Generalized.decode_encode rules h,
    fun _ h => Utc.encode_of_decode h, Utc.exists_encode_iff instant,
    Generalized.exists_encode_iff instant⟩

/-- The last second of the last year of each type, read back. In a leap second neither is
written. -/
theorem last_seconds_read_back :
    Utc.encode ⟨2524607999, 0⟩ = .ok (digits 12 491231235959 ++ [90]) ∧
      Utc.decode .basic (digits 12 491231235959 ++ [90]) = .ok ⟨2524607999, 0⟩ ∧
      Generalized.encode ⟨253402300799, 999999990⟩ =
        .ok (digits 14 99991231235959 ++ 46 :: digits 8 99999999 ++ [90]) ∧
      Generalized.decode .distinguished
        (digits 14 99991231235959 ++ 46 :: digits 8 99999999 ++ [90]) =
          .ok ⟨253402300799, 999999990⟩ ∧
      (¬ ∃ content, Utc.encode ⟨1483228799, 1000000000⟩ = .ok content) ∧
      ¬ ∃ content, Generalized.encode ⟨1483228799, 1000000000⟩ = .ok content := by
  have hutc : Utc.encode ⟨2524607999, 0⟩ = .ok (digits 12 491231235959 ++ [90]) := by decide
  have hgeneralized : Generalized.encode ⟨253402300799, 999999990⟩ =
      .ok (digits 14 99991231235959 ++ 46 :: digits 8 99999999 ++ [90]) := by decide +kernel
  obtain ⟨-, -, -, hnoUtc, hnoGeneralized⟩ :=
    times_read_back_as_written .basic ⟨1483228799, 1000000000⟩
  refine ⟨hutc, (times_read_back_as_written .basic _).1 _ hutc, hgeneralized,
    (times_read_back_as_written .distinguished _).2.1 _ hgeneralized, ?_, ?_⟩
  · rw [hnoUtc]
    decide
  · rw [hnoGeneralized]
    decide

namespace Generalized

/-- A fraction behind its point. Without digits there is no point. -/
def pointed (run : Octets) : Octets := if run = [] then [] else 46 :: run

theorem fractionText_eq {nanos : Nat} (h : nanos < 1000000000) :
    fractionText nanos = pointed (trimZeros (digits 9 nanos)) := by
  unfold fractionText pointed
  by_cases hzero : nanos = 0
  · subst hzero
    rfl
  · rw [if_neg hzero, if_neg (trimZeros_digits_ne_nil hzero h)]

/-- The date and the clock, from the year to the second. -/
def dateAndClock (civil : Civil) : Octets :=
  digits 4 civil.date.year.toNat ++ digits 2 civil.date.month ++ digits 2 civil.date.day
    ++ digits 2 civil.hour ++ digits 2 civil.minute ++ digits 2 civil.second

theorem length_dateAndClock (civil : Civil) : (dateAndClock civil).length = 14 := by
  simp only [dateAndClock, List.length_append, length_digits]

theorem encode_eq {instant : Instant} (hlow : 0 ≤ instant.civil.date.year)
    (hhigh : instant.civil.date.year ≤ 9999) (hnanos : instant.nanos < 1000000000) :
    encode instant =
      .ok (dateAndClock instant.civil ++ fractionText instant.nanos ++ [90]) := by
  unfold encode
  rw [if_neg (by omega), if_neg (by omega)]
  rfl

theorem encode_of_leapSecond {instant : Instant} (hlow : 0 ≤ instant.civil.date.year)
    (hhigh : instant.civil.date.year ≤ 9999) (hleap : 1000000000 ≤ instant.nanos) :
    encode instant = .error .leapSecond := by
  unfold encode
  rw [if_neg (by omega), if_pos (by omega)]

/-- Whole seconds are read as a fraction without digits is. -/
theorem content_of_decode {content : Octets} {instant : Instant}
    (h : decode .distinguished content = .ok instant) :
    ∃ run, (∀ octet ∈ run, isDigit octet = true) ∧ run.getLast? ≠ some 48 ∧
      nanosOfDigits run = instant.nanos ∧
      dateAndClock instant.civil ++ pointed run ++ [90] = content := by
  obtain ⟨⟨year, month, day, hour, precision, zone⟩, hallows, hzone, hvalid, rfl, rfl⟩ :=
    (decode_eq_ok_iff _ _ _).1 h
  obtain rfl : zone = .utc := hzone rfl
  rw [hvalid.civil_instant rfl]
  cases precision with
  | hours | minutes minute => exact hallows.elim
  | seconds minute second =>
    refine ⟨[], by simp, by simp, rfl, ?_⟩
    simp [dateAndClock, pointed, Written.civil, Written.text, Precision.text, Zone.text,
      Precision.minute, Precision.second]
  | fraction minute second comma run =>
    obtain ⟨rfl, hlast⟩ := hallows
    obtain ⟨hsome, hdigits⟩ := hvalid.precision
    refine ⟨run, hdigits, hlast, nanosOfDigits_eq hdigits, ?_⟩
    simp [dateAndClock, pointed, hsome, Written.civil, Written.text, Precision.text, Zone.text,
      Precision.minute, Precision.second, Precision.separator]

/-- A text cut behind the ninth digit of its fraction. Zeros that come to stand last go with the
digits behind them, and so does the point if no digit is left. -/
def upToNanoseconds (content : Octets) : Octets :=
  content.take 14 ++ pointed (trimZeros (((content.drop 15).takeWhile isDigit).take 9)) ++ [90]

theorem upToNanoseconds_eq {front run : Octets} (hfront : front.length = 14)
    (hdigits : ∀ octet ∈ run, isDigit octet = true) :
    upToNanoseconds (front ++ pointed run ++ [90]) =
      front ++ pointed (trimZeros (run.take 9)) ++ [90] := by
  have hhead : (front ++ pointed run ++ [90]).take 14 = front := by
    rw [List.append_assoc, List.take_left' hfront]
  have hbehind : ((front ++ pointed run ++ [90]).drop (14 + 1)).takeWhile isDigit = run := by
    rw [List.append_assoc, ← hfront, List.drop_length_add_append]
    unfold pointed
    split
    · rename_i hempty
      rw [hempty]
      rfl
    · rw [List.cons_append, List.drop_one, List.tail_cons, List.takeWhile_append_of_pos hdigits,
        List.takeWhile_cons_of_neg (by decide), List.append_nil]
  rw [upToNanoseconds, hhead, hbehind]

theorem length_pointed_le_iff {front run : Octets} (hfront : front.length = 14) :
    (front ++ pointed run ++ [90]).length ≤ 25 ↔ run.length ≤ 9 := by
  rw [List.length_append, List.length_append, List.length_singleton, hfront]
  unfold pointed
  split
  · rename_i hempty
    simp [hempty]
  · rw [List.length_cons]
    omega

theorem length_upToNanoseconds_le (content : Octets) : (upToNanoseconds content).length ≤ 25 := by
  have hfront := List.length_take_le 14 content
  have hrun := List.length_take_le 9 ((content.drop 15).takeWhile isDigit)
  obtain ⟨⟨count, hzeros⟩, -⟩ := trimZeros_spec (((content.drop 15).takeWhile isDigit).take 9)
  have htrim := congrArg List.length hzeros
  rw [List.length_append] at htrim
  unfold upToNanoseconds pointed
  split
  · simp only [List.length_append, List.length_nil, List.length_singleton]
    omega
  · simp only [List.length_append, List.length_cons, List.length_nil]
    omega

theorem encode_of_decode {content : Octets} {instant : Instant}
    (h : decode .distinguished content = .ok instant) :
    encode instant = .ok (upToNanoseconds content) := by
  obtain ⟨run, hdigits, -, hnanos, rfl⟩ := content_of_decode h
  -- nine digits are written, those that are missing as zeros, and these are trimmed again
  have htext : fractionText instant.nanos = pointed (trimZeros (run.take 9)) := by
    rw [fractionText_eq (nanos_of_decode h), ← hnanos, digits_nanosOfDigits hdigits,
      trimZeros_append_zeros]
  rw [upToNanoseconds_eq (length_dateAndClock _) hdigits, ← htext]
  obtain ⟨hlow, hhigh⟩ := year_of_decode h
  exact encode_eq hlow hhigh (nanos_of_decode h)

theorem upToNanoseconds_eq_self_iff {content : Octets} {instant : Instant}
    (h : decode .distinguished content = .ok instant) :
    upToNanoseconds content = content ↔ content.length ≤ 25 := by
  obtain ⟨run, hdigits, hlast, -, hcontent⟩ := content_of_decode h
  constructor
  · intro hself
    rw [← hself]
    exact length_upToNanoseconds_le content
  · intro hlength
    rw [← hcontent, length_pointed_le_iff (length_dateAndClock _)] at hlength
    rw [← hcontent, upToNanoseconds_eq (length_dateAndClock _) hdigits,
      List.take_of_length_le hlength, trimZeros_eq_self hlast]

/-- What the distinguished rules read is written again as far as nanoseconds go. That is all of it
if the text has at most 25 octets and so at most nine digits in its fraction, and of the texts of
one time only one is so short. -/
theorem written_again_up_to_nanoseconds {content : Octets} {instant : Instant}
    (h : decode .distinguished content = .ok instant) :
    encode instant = .ok (upToNanoseconds content) ∧
      (encode instant = .ok content ↔ content.length ≤ 25) ∧
      ∀ other, decode .distinguished other = .ok instant ∧ other.length ≤ 25 ↔
        other = upToNanoseconds content := by
  have hencode := encode_of_decode h
  refine ⟨hencode, ?_, ?_⟩
  · rw [hencode, Except.ok.injEq, upToNanoseconds_eq_self_iff h]
  · intro other
    constructor
    · rintro ⟨hother, hlength⟩
      have hagain := encode_of_decode hother
      rw [hencode, Except.ok.injEq] at hagain
      rw [hagain, (upToNanoseconds_eq_self_iff hother).2 hlength]
    · rintro rfl
      exact ⟨decode_encode _ hencode, length_upToNanoseconds_le content⟩

theorem fraction_of_thirteen_digits_written_with_two :
    decode .distinguished (digits 14 19920521000000 ++ 46 :: digits 13 1200000000007 ++ [90]) =
        .ok ⟨706406400, 120000000⟩ ∧
      encode ⟨706406400, 120000000⟩ = .ok (digits 14 19920521000000 ++ 46 :: digits 2 12 ++ [90]) ∧
      decode .distinguished (digits 14 19920521000000 ++ 46 :: digits 2 12 ++ [90]) =
        .ok ⟨706406400, 120000000⟩ := by
  have h : decode .distinguished
      (digits 14 19920521000000 ++ 46 :: digits 13 1200000000007 ++ [90]) =
        .ok ⟨706406400, 120000000⟩ := by decide +kernel
  obtain ⟨hencode, -, hshort⟩ := written_again_up_to_nanoseconds h
  exact ⟨h, hencode, ((hshort _).2 rfl).1⟩

/-- The tenth digit is read and not written again. -/
theorem tenth_digit_not_written_again :
    let long := digits 14 19920521000000 ++ 46 :: digits 10 1234567891 ++ [90]
    let short := digits 14 19920521000000 ++ 46 :: digits 9 123456789 ++ [90]
    long ≠ short ∧ decode .distinguished long = .ok ⟨706406400, 123456789⟩ ∧
      decode .distinguished short = .ok ⟨706406400, 123456789⟩ ∧
      encode ⟨706406400, 123456789⟩ ≠ .ok long := by
  decide +kernel

end Generalized

end Asn1.Time
