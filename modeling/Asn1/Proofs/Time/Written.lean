import Asn1.Proofs.Time.Cursor
import Mathlib.Data.List.Basic

/-!
Times as they are written: the numbers of a text, how far it goes after the hour, and its zone.
Each part is read from its own text and from nothing else, so that a reader of parts accepts the
texts of what it reads.
-/

namespace Asn1.Time

/-- The end of a time: Universal Time, or how far the local time before it is ahead of it or
behind it. -/
inductive Zone where
  | utc
  | ahead (hours minutes : Nat)
  | behind (hours minutes : Nat)

namespace Zone

def text : Zone → Octets
  | utc => [90]
  | ahead hours minutes => 43 :: (digits 2 hours ++ digits 2 minutes)
  | behind hours minutes => 45 :: (digits 2 hours ++ digits 2 minutes)

/-- How many minutes local time is ahead. -/
def offset : Zone → Int
  | utc => 0
  | ahead hours minutes => (hours * 60 + minutes : Nat)
  | behind hours minutes => -(hours * 60 + minutes : Nat)

def Valid : Zone → Prop
  | utc => True
  | ahead hours minutes => hours ≤ 23 ∧ minutes ≤ 59
  | behind hours minutes => hours ≤ 23 ∧ minutes ≤ 59

end Zone

/-- What is written after the hour. A fraction of a second stands behind a point or a comma. -/
inductive Precision where
  | hours
  | minutes (minute : Nat)
  | seconds (minute second : Nat)
  | fraction (minute second : Nat) (comma : Bool) (run : Octets)

namespace Precision

def separator (comma : Bool) : UInt8 := if comma then 44 else 46

def text : Precision → Octets
  | hours => []
  | minutes minute => digits 2 minute
  | seconds minute second => digits 2 minute ++ digits 2 second
  | fraction minute second comma run =>
    digits 2 minute ++ digits 2 second ++ separator comma :: run

def minute : Precision → Nat
  | hours => 0
  | minutes minute | seconds minute _ | fraction minute _ _ _ => minute

def second : Precision → Nat
  | hours | minutes _ => 0
  | seconds _ second | fraction _ second _ _ => second

/-- The whole nanoseconds in a fraction of any number of digits. -/
def nanos : Precision → Nat
  | hours | minutes _ | seconds _ _ => 0
  | fraction _ _ _ run => digitsValue run * 10 ^ 9 / 10 ^ run.length

/-- A fraction has digits, and nothing but digits. -/
def WellFormed : Precision → Prop
  | hours | minutes _ | seconds _ _ => True
  | fraction _ _ _ run => run ≠ [] ∧ ∀ octet ∈ run, isDigit octet = true

end Precision

/-- The parts of a time in the order of its text. -/
structure Written where
  year : Nat
  month : Nat
  day : Nat
  hour : Nat
  precision : Precision
  zone : Zone

namespace Written

def text (yearDigits : Nat) (time : Written) : Octets :=
  digits yearDigits time.year ++ (digits 2 time.month ++ (digits 2 time.day ++
    (digits 2 time.hour ++ (time.precision.text ++ time.zone.text))))

/-- The fields of local time; what is not written is zero. `fullYear` is the year that is meant. -/
def civil (fullYear : Nat → Nat) (time : Written) : Civil :=
  ⟨⟨fullYear time.year, time.month, time.day⟩, time.hour, time.precision.minute,
    time.precision.second⟩

def instant (fullYear : Nat → Nat) (time : Written) : Instant :=
  ⟨(time.civil fullYear).toSeconds - time.zone.offset * 60, time.precision.nanos⟩

structure Valid (yearDigits : Nat) (fullYear : Nat → Nat) (time : Written) : Prop where
  year_lt : time.year < 10 ^ yearDigits
  civil : (time.civil fullYear).Valid
  precision : time.precision.WellFormed
  zone : time.zone.Valid

end Written

theorem Precision.nanos_lt {precision : Precision} (h : precision.WellFormed) :
    precision.nanos < 1000000000 := by
  cases precision with
  | hours | minutes minute | seconds minute second => exact Nat.zero_lt_succ _
  | fraction minute second comma run =>
    unfold nanos
    rw [Nat.div_lt_iff_lt_mul (Nat.pow_pos (by decide)), Nat.mul_comm]
    exact Nat.mul_lt_mul_of_pos_left (digitsValue_lt h.2) (by decide)

theorem Written.Valid.two_digits {yearDigits : Nat} {fullYear : Nat → Nat} {time : Written}
    (h : time.Valid yearDigits fullYear) :
    time.month < 100 ∧ time.day < 100 ∧ time.hour < 100 ∧ time.precision.minute < 100 ∧
      time.precision.second < 100 := by
  obtain ⟨hdate, hhour, hminute, hsecond⟩ := h.civil
  obtain ⟨hmonth, hday⟩ := Date.month_day_le hdate
  simp only [Written.civil] at hmonth hday hhour hminute hsecond
  omega

/-- In Universal Time the fields that are written are those of the instant. -/
theorem Written.Valid.civil_instant {yearDigits : Nat} {fullYear : Nat → Nat} {time : Written}
    (h : time.Valid yearDigits fullYear) (hzone : time.zone = .utc) :
    (time.instant fullYear).civil = time.civil fullYear := by
  have hoffset : time.zone.offset = 0 := by
    rw [hzone]
    rfl
  unfold Written.instant Instant.civil
  rw [hoffset, Int.zero_mul, Int.sub_zero, Civil.ofSeconds_toSeconds h.civil]

theorem Written.instant_eq {fullYear : Nat → Nat} {time : Written} {instant : Instant}
    (hcivil : time.civil fullYear = instant.civil) (hzone : time.zone = .utc)
    (hnanos : time.precision.nanos = instant.nanos) : time.instant fullYear = instant := by
  have hoffset : time.zone.offset = 0 := by
    rw [hzone]
    rfl
  unfold Written.instant
  rw [hcivil, hoffset, hnanos, Int.zero_mul, Int.sub_zero, Instant.civil,
    Civil.toSeconds_ofSeconds]

theorem ascii_of_mem_digits {width n : Nat} {octet : UInt8} (h : octet ∈ digits width n) :
    octet.toNat < 128 := by
  have := (isDigit_iff octet).1 (isDigit_of_mem_digits h)
  omega

theorem Precision.text_ascii {precision : Precision} (h : precision.WellFormed) {octet : UInt8}
    (hmem : octet ∈ precision.text) : octet.toNat < 128 := by
  cases precision with
  | hours => cases hmem
  | minutes minute => exact ascii_of_mem_digits hmem
  | seconds minute second =>
    rcases List.mem_append.1 hmem with hminute | hsecond
    · exact ascii_of_mem_digits hminute
    · exact ascii_of_mem_digits hsecond
  | fraction minute second comma run =>
    simp only [text, List.mem_append, List.mem_cons] at hmem
    rcases hmem with (hminute | hsecond) | rfl | hrun
    · exact ascii_of_mem_digits hminute
    · exact ascii_of_mem_digits hsecond
    · cases comma with
      | true => decide
      | false => decide
    · have := (isDigit_iff octet).1 (h.2 octet hrun)
      omega

theorem Zone.text_ascii {zone : Zone} {octet : UInt8} (hmem : octet ∈ zone.text) :
    octet.toNat < 128 := by
  cases zone with
  | utc =>
    rw [List.mem_singleton.1 hmem]
    decide
  | ahead hours minutes | behind hours minutes =>
    simp only [text, List.mem_cons, List.mem_append] at hmem
    rcases hmem with rfl | hhours | hminutes
    · decide
    · exact ascii_of_mem_digits hhours
    · exact ascii_of_mem_digits hminutes

theorem Written.text_ascii (yearDigits : Nat) {time : Written} (h : time.precision.WellFormed)
    {octet : UInt8} (hmem : octet ∈ time.text yearDigits) : octet.toNat < 128 := by
  simp only [text, List.mem_append] at hmem
  rcases hmem with hyear | hmonth | hday | hhour | hprecision | hzone
  · exact ascii_of_mem_digits hyear
  · exact ascii_of_mem_digits hmonth
  · exact ascii_of_mem_digits hday
  · exact ascii_of_mem_digits hhour
  · exact Precision.text_ascii h hprecision
  · exact Zone.text_ascii hzone

theorem Precision.separator_notMem_digits (comma : Bool) (width n : Nat) :
    separator comma ∉ digits width n := by
  intro hmem
  have hdigit := isDigit_of_mem_digits hmem
  cases comma <;> cases hdigit

theorem Precision.separator_notMem_zone (comma : Bool) (zone : Zone) :
    separator comma ∉ zone.text := by
  have hplain (hours minutes : Nat) : separator comma ∉ digits 2 hours ++ digits 2 minutes :=
    List.not_mem_append (separator_notMem_digits comma 2 hours)
      (separator_notMem_digits comma 2 minutes)
  cases zone with
  | utc => cases comma <;> decide
  | ahead hours minutes | behind hours minutes =>
    rw [Zone.text, List.mem_cons, not_or]
    exact ⟨by cases comma <;> decide, hplain hours minutes⟩

theorem Zone.takeWhile_append_text {run : Octets} (h : ∀ octet ∈ run, isDigit octet = true)
    (zone : Zone) : (run ++ zone.text).takeWhile isDigit = run := by
  rw [List.takeWhile_append_of_pos h]
  cases zone with
  | utc | ahead hours minutes | behind hours minutes =>
    rw [text, List.takeWhile_cons_of_neg (by decide), List.append_nil]

/-- A separator stands nowhere but in front of a fraction, whose digits go up to the zone. -/
theorem Written.fraction_of_separator {yearDigits : Nat} {time : Written}
    (h : time.precision.WellFormed) {front back : Octets} {comma : Bool}
    (htext : time.text yearDigits = front ++ Precision.separator comma :: back) :
    ∃ minute second,
      time.precision = .fraction minute second comma (back.takeWhile isDigit) := by
  obtain ⟨year, month, day, hour, precision, zone⟩ := time
  have hdigits (width n : Nat) := Precision.separator_notMem_digits comma width n
  have hzone := Precision.separator_notMem_zone comma zone
  have hmem : Precision.separator comma ∈ Written.text yearDigits
      ⟨year, month, day, hour, precision, zone⟩ := by
    rw [htext]
    exact List.mem_append_right _ List.mem_cons_self
  cases precision with
  | hours | minutes minute | seconds minute second =>
    simp only [text, Precision.text, List.mem_append, hdigits, hzone, List.not_mem_nil, or_self]
      at hmem
  | fraction minute second other run =>
    have hrun : Precision.separator comma ∉ run ++ zone.text := by
      refine List.not_mem_append (fun hdigit => ?_) hzone
      have := h.2 _ hdigit
      cases comma <;> cases this
    have hfront : Precision.separator comma ∉ digits yearDigits year ++ (digits 2 month ++
        (digits 2 day ++ (digits 2 hour ++ (digits 2 minute ++ digits 2 second)))) := by
      simp only [List.mem_append, hdigits, or_self, not_false_eq_true]
    have hsplit : (digits yearDigits year ++ (digits 2 month ++ (digits 2 day ++ (digits 2 hour ++
        (digits 2 minute ++ digits 2 second))))) ++ Precision.separator other :: (run ++ zone.text)
          = front ++ Precision.separator comma :: back := by
      rw [← htext]
      simp only [text, Precision.text, List.append_assoc, List.cons_append]
    obtain ⟨-, hseparator, hback⟩ := (List.append_cons_inj_of_notMem hfront hrun).1 hsplit
    obtain rfl : other = comma := by
      revert hseparator
      cases other <;> cases comma <;> decide
    rw [← hback, Zone.takeWhile_append_text h.2]
    exact ⟨minute, second, rfl⟩

theorem Written.exists_separator {yearDigits : Nat} {time : Written}
    (h : time.precision.WellFormed) {minute second : Nat} {comma : Bool} {run : Octets}
    (hfraction : time.precision = .fraction minute second comma run) :
    ∃ front back, time.text yearDigits = front ++ Precision.separator comma :: back ∧
      back.takeWhile isDigit = run := by
  rw [hfraction] at h
  refine ⟨digits yearDigits time.year ++ (digits 2 time.month ++ (digits 2 time.day ++
    (digits 2 time.hour ++ (digits 2 minute ++ digits 2 second)))), run ++ time.zone.text, ?_,
    Zone.takeWhile_append_text h.2 time.zone⟩
  simp only [text, hfraction, Precision.text, List.append_assoc, List.cons_append]

namespace Cursor

theorem map_zoneOffset_iff (sign : Nat → Int) {cursor next : Cursor} {offset : Int} :
    (cursor.zoneOffset.map fun (minutes, next) => (sign minutes, next)) = .ok (offset, next) ↔
      ∃ hour minute, (hour ≤ 23 ∧ minute ≤ 59) ∧ sign (hour * 60 + minute) = offset ∧
        cursor.Spans (digits 2 hour ++ digits 2 minute) next := by
  constructor
  · intro h
    cases hzone : cursor.zoneOffset with
    | error cause =>
      rw [hzone] at h
      cases h
    | ok read =>
      obtain ⟨minutes, after⟩ := read
      rw [hzone] at h
      cases h
      obtain ⟨hour, minute, hrange, rfl, hspans⟩ := zoneOffset_spans_iff.1 hzone
      exact ⟨hour, minute, hrange, rfl, hspans⟩
  · rintro ⟨hour, minute, hrange, rfl, hspans⟩
    rw [zoneOffset_spans_iff.2 ⟨hour, minute, hrange, rfl, hspans⟩]
    rfl

/-- A zone is read from its text. The distinguished rules want Universal Time. -/
theorem zone_spans_iff {rules : Rules} {cursor next : Cursor} {offset : Int} :
    cursor.zone rules = .ok (offset, next) ↔
      ∃ zone : Zone, zone.Valid ∧ (rules = .distinguished → zone = .utc) ∧ zone.offset = offset ∧
        cursor.Spans zone.text next := by
  unfold Cursor.zone
  constructor
  · intro h
    split at h
    · rename_i hhead
      cases h
      refine ⟨.utc, trivial, fun _ => rfl, rfl, ?_⟩
      exact spans_cons_iff.2 ⟨hhead, spans_nil_iff.2 rfl⟩
    · rename_i hhead
      split at h
      · cases h
      · rename_i hrules
        obtain ⟨hour, minute, hrange, rfl, hspans⟩ := (map_zoneOffset_iff _).1 h
        refine ⟨.ahead hour minute, hrange, fun hder => absurd hder hrules, rfl, ?_⟩
        exact spans_cons_iff.2 ⟨hhead, hspans⟩
    · rename_i hhead
      split at h
      · cases h
      · rename_i hrules
        obtain ⟨hour, minute, hrange, rfl, hspans⟩ :=
          (map_zoneOffset_iff fun minutes => -(minutes : Int)).1 h
        refine ⟨.behind hour minute, hrange, fun hder => absurd hder hrules, rfl, ?_⟩
        exact spans_cons_iff.2 ⟨hhead, hspans⟩
    · cases h
  · rintro ⟨zone, hvalid, hrules, rfl, hspans⟩
    cases zone with
    | utc =>
      obtain ⟨hhead, hrest⟩ := spans_cons_iff.1 hspans
      simp only [hhead, spans_nil_iff.1 hrest]
      rfl
    | ahead hours minutes =>
      obtain ⟨hhead, hrest⟩ := spans_cons_iff.1 hspans
      have hbasic : ¬ rules = .distinguished := fun hder => by cases hrules hder
      simp only [hhead, if_neg hbasic]
      exact (map_zoneOffset_iff _).2 ⟨hours, minutes, hvalid, rfl, hrest⟩
    | behind hours minutes =>
      obtain ⟨hhead, hrest⟩ := spans_cons_iff.1 hspans
      have hbasic : ¬ rules = .distinguished := fun hder => by cases hrules hder
      simp only [hhead, if_neg hbasic]
      exact (map_zoneOffset_iff fun minutes => -(minutes : Int)).2
        ⟨hours, minutes, hvalid, rfl, hrest⟩

theorem atDigit_of_spans_zone {cursor next : Cursor} {zone : Zone}
    (h : cursor.Spans zone.text next) : cursor.atDigit = false := by
  unfold atDigit
  cases zone with
  | utc | ahead hours minutes | behind hours minutes =>
    rw [(spans_cons_iff.1 h).1]
    rfl

end Cursor

section Reading

variable {yearDigits : Nat} {fullYear : Nat → Nat} {rules : Rules}
  {afterHour : Cursor → Except Malformation ((Nat × Nat × Nat) × Cursor)}

/-- Both types of time are read in this order. They differ in their years and in what is read
between the hour and the zone: minute, second and nanoseconds. -/
def readTime (yearDigits : Nat) (fullYear : Nat → Nat) (rules : Rules)
    (afterHour : Cursor → Except Malformation ((Nat × Nat × Nat) × Cursor)) (content : Octets) :
    Except Malformation Instant := do
  let cursor ← Cursor.start content
  let (year, cursor) ← cursor.number yearDigits
  let (month, cursor) ← cursor.number 2
  let (day, cursor) ← cursor.number 2
  let (hour, cursor) ← cursor.number 2
  let ((minute, second, nanos), cursor) ← afterHour cursor
  let (ahead, cursor) ← cursor.zone rules
  cursor.finish
  instantOf ⟨⟨fullYear year, month, day⟩, hour, minute, second⟩ nanos ahead

/-- In front of a zone, the texts of these precisions are what is read. -/
def ReadsAs (allowed : Precision → Prop)
    (afterHour : Cursor → Except Malformation ((Nat × Nat × Nat) × Cursor)) : Prop :=
  ∀ cursor next last minute second nanos (zone : Zone), next.Spans zone.text last →
    (afterHour cursor = .ok ((minute, second, nanos), next) ↔
      ∃ precision, allowed precision ∧ precision.WellFormed ∧ precision.minute = minute ∧
        precision.second = second ∧ precision.nanos = nanos ∧ (minute < 100 ∧ second < 100) ∧
        cursor.Spans precision.text next)

theorem readTime_eq_ok_iff {allowed : Precision → Prop} (hafter : ReadsAs allowed afterHour)
    (content : Octets) (instant : Instant) :
    readTime yearDigits fullYear rules afterHour content = .ok instant ↔
      ∃ time : Written, allowed time.precision ∧ (rules = .distinguished → time.zone = .utc) ∧
        time.Valid yearDigits fullYear ∧ time.text yearDigits = content ∧
        time.instant fullYear = instant := by
  simp only [readTime, bind_eq_ok_iff]
  constructor
  · rintro ⟨start, hstart, ⟨year, c₁⟩, hyear, ⟨month, c₂⟩, hmonth, ⟨day, c₃⟩, hday, ⟨hour, c₄⟩,
      hhour, ⟨⟨minute, second, nanos⟩, c₅⟩, hprecision, ⟨offset, c₆⟩, hzone, ⟨⟩, hfinish, hinstant⟩
    obtain ⟨hyearLt, hyear⟩ := Cursor.number_spans_iff.1 hyear
    obtain ⟨-, hmonth⟩ := Cursor.number_spans_iff.1 hmonth
    obtain ⟨-, hday⟩ := Cursor.number_spans_iff.1 hday
    obtain ⟨-, hhour⟩ := Cursor.number_spans_iff.1 hhour
    -- the zone comes before the precision here, as that is read in front of it
    obtain ⟨zone, hzoneValid, hrules, rfl, hzoneText⟩ := Cursor.zone_spans_iff.1 hzone
    obtain ⟨precision, hallowed, hformed, rfl, rfl, rfl, -, hprecisionText⟩ :=
      (hafter _ _ _ _ _ _ zone hzoneText).1 hprecision
    obtain ⟨hvalid, rfl⟩ := (instantOf_eq_ok_iff _ _ _ _).1 hinstant
    refine ⟨⟨year, month, day, hour, precision, zone⟩, hallowed, hrules,
      ⟨hyearLt, hvalid, hformed, hzoneValid⟩, ?_, rfl⟩
    have hspans : start.Spans (Written.text yearDigits ⟨year, month, day, hour, precision, zone⟩)
        c₆ := by
      simp only [Written.text, Cursor.spans_append_iff]
      exact ⟨c₁, hyear, c₂, hmonth, c₃, hday, c₄, hhour, c₅, hprecisionText, hzoneText⟩
    rw [← Cursor.rest_of_start hstart, hspans.1, Cursor.finish_eq_ok_iff.1 hfinish,
      List.append_nil]
  · rintro ⟨⟨year, month, day, hour, precision, zone⟩, hallowed, hrules, hvalid, rfl, rfl⟩
    obtain ⟨hmonthLt, hdayLt, hhourLt, hclockLt⟩ := hvalid.two_digits
    obtain ⟨hyearLt, hcivil, hformed, hzoneValid⟩ := hvalid
    have hstart := Cursor.start_of_ascii fun octet hmem =>
      Written.text_ascii yearDigits hformed hmem
    have hspans := Cursor.spans_whole
      (Written.text yearDigits ⟨year, month, day, hour, precision, zone⟩)
    unfold Written.text at hspans
    simp only [Cursor.spans_append_iff] at hspans
    obtain ⟨c₁, hyear, c₂, hmonth, c₃, hday, c₄, hhour, c₅, hprecision, hzone⟩ := hspans
    exact ⟨_, hstart, _, Cursor.number_spans_iff.2 ⟨hyearLt, hyear⟩, _,
      Cursor.number_spans_iff.2 ⟨hmonthLt, hmonth⟩, _, Cursor.number_spans_iff.2 ⟨hdayLt, hday⟩, _,
      Cursor.number_spans_iff.2 ⟨hhourLt, hhour⟩, _,
      (hafter _ _ _ _ _ _ zone hzone).2
        ⟨precision, hallowed, hformed, rfl, rfl, rfl, hclockLt, hprecision⟩, _,
      Cursor.zone_spans_iff.2 ⟨zone, hzoneValid, hrules, rfl, hzone⟩, (),
      Cursor.finish_eq_ok_iff.2 rfl, (instantOf_eq_ok_iff _ _ _ _).2 ⟨hcivil, rfl⟩⟩

end Reading

end Asn1.Time
