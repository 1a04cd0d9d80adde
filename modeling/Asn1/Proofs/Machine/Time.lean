import Asn1.Machine.Time
import Asn1.Proofs.Machine.Word
import Asn1.Proofs.Time.Generalized
import Asn1.Proofs.Time.Utc

/-!
Reading times does not fault. The texts are read by positions as they are by what is left of
them, and every number in them is as small as its digits are few.
-/

namespace Asn1.Machine

open Asn1.Time (Civil Cursor Instant isDigit digitsValue)

namespace Clock

/-- The clock stands where the cursor does, in a text that ends before the last words. -/
structure Shows (clock : Clock) (cursor : Cursor) : Prop where
  position : clock.position = cursor.position
  rest : clock.content.drop clock.position = cursor.rest
  inside : clock.position ≤ clock.content.length
  short : clock.content.length + 2 < wordLimit

/-- The same value, of which something is known, and the clock where the cursor is. -/
def ShowsWith {α : Type} (P : α → Prop) (a : α × Clock) (b : α × Cursor) : Prop :=
  a.1 = b.1 ∧ P b.1 ∧ a.2.Shows b.2

namespace Shows

variable {clock : Clock} {cursor : Cursor}

theorem length_rest (h : clock.Shows cursor) :
    clock.position + cursor.rest.length = clock.content.length := by
  have := h.inside
  rw [← h.rest, List.length_drop]
  omega

theorem getElem? (h : clock.Shows cursor) : clock.content[clock.position]? = cursor.rest.head? := by
  rw [← h.rest, List.head?_drop]

theorem atDigit (h : clock.Shows cursor) : clock.atDigit = cursor.atDigit := by
  rw [Clock.atDigit, h.getElem?, Cursor.atDigit]

/-- Moving on does not leave the text if there is enough of it. -/
theorem skip (h : clock.Shows cursor) {count : Nat} (henough : count ≤ cursor.rest.length) :
    ({ clock with position := clock.position + count } : Clock).Shows (cursor.skip count) where
  position := by rw [Cursor.skip, ← h.position]
  rest := by rw [Cursor.skip, ← h.rest, List.drop_drop]
  inside := by
    have := h.length_rest
    show clock.position + count ≤ clock.content.length
    omega
  short := h.short

end Shows

theorem value_eq {digits : Octets} (hdigits : ∀ octet ∈ digits, isDigit octet = true)
    (hfew : digits.length ≤ 9) : value digits = some (digitsValue digits) := by
  induction digits using List.reverseRecOn with
  | nil => rfl
  | append_singleton front last ih =>
    rw [List.length_append, List.length_singleton] at hfew
    have hfront : ∀ octet ∈ front, isDigit octet = true :=
      fun octet hmem => hdigits octet (by simp [hmem])
    have hlast := (Time.isDigit_iff last).1 (hdigits last (by simp))
    have hfits : digitsValue (front ++ [last]) < UInt32.size := by
      calc
        digitsValue (front ++ [last]) < 10 ^ (front ++ [last]).length := Time.digitsValue_lt hdigits
        _ ≤ 10 ^ 9 := Nat.pow_le_pow_right (by decide) (by simpa using hfew)
        _ ≤ UInt32.size := by decide
    rw [Time.digitsValue_concat] at hfits ⊢
    have hvalue := ih hfront (by omega)
    rw [value] at hvalue ⊢
    rw [List.foldlM_append, hvalue]
    simp [sub_of_le hlast.1, push_of_lt hfits]

theorem number_settles {clock : Clock} {cursor : Cursor} (h : clock.Shows cursor) {count : Nat}
    (hword : clock.position + count < wordLimit) (hfew : count ≤ 9) :
    Settles (ShowsWith (· < 10 ^ count)) (clock.number count) (cursor.number count) := by
  have hlength := h.length_rest
  rw [number, add_of_lt hword, Cursor.number]
  simp only [lift_some, settled_ok_bind, List.length_take]
  by_cases henough : count ≤ cursor.rest.length
  · have hslice : slice clock.content clock.position (clock.position + count) =
        some (cursor.rest.take count) := by
      rw [slice_of_le rfl (by omega), h.rest]
    have hsize : ¬ min count cursor.rest.length < count := by omega
    simp only [hslice, if_neg hsize]
    split
    · rw [h.position]
      exact .error _
    · rename_i hdigits
      have hall : ∀ octet ∈ cursor.rest.take count, isDigit octet = true := by simpa using hdigits
      have hcount : (cursor.rest.take count).length = count := by
        rw [List.length_take]
        omega
      rw [value_eq hall (by omega)]
      have hvalue := Time.digitsValue_lt hall
      rw [hcount] at hvalue
      exact .ok ⟨rfl, hvalue, h.skip henough⟩
  · have hslice : slice clock.content clock.position (clock.position + count) = none :=
      if_neg (by omega)
    have hsize : min count cursor.rest.length < count := by omega
    simp only [hslice, if_pos hsize]
    rw [h.position]
    exact .error _

/-- Near the end of the text there is still room for two more digits to be asked for. -/
theorem pair_settles {clock : Clock} {cursor : Cursor} (h : clock.Shows cursor) :
    Settles (ShowsWith (· < 100)) (clock.number 2) (cursor.number 2) := by
  have hword : clock.position + 2 < wordLimit := by
    have := h.inside
    have := h.short
    omega
  exact number_settles h hword (by decide)

theorem optionalPair_settles {clock : Clock} {cursor : Cursor} (h : clock.Shows cursor) :
    Settles (ShowsWith fun _ => True) clock.optionalPair cursor.optionalPair := by
  rw [optionalPair, Cursor.optionalPair, h.atDigit]
  split
  · exact (pair_settles h).map fun a b hread => ⟨congrArg some hread.1, trivial, hread.2.2⟩
  · exact .ok ⟨rfl, trivial, h⟩

theorem take_eq {clock : Clock} {cursor : Cursor} (h : clock.Shows cursor)
    (wanted : UInt8 → Bool) :
    clock.take wanted = some (match cursor.rest.head? with
      | none => (none, clock)
      | some octet =>
        if wanted octet then (some octet, { clock with position := clock.position + 1 })
        else (none, clock)) := by
  have hword : clock.position + 1 < wordLimit := by
    have := h.inside
    have := h.short
    omega
  rw [take, h.getElem?]
  cases cursor.rest.head? with
  | none => rfl
  | some octet =>
    simp only [add_of_lt hword, Option.map_some]
    split <;> rfl

/-- The octet that comes next was there to be taken. -/
theorem Shows.skip_one {clock : Clock} {cursor : Cursor} (h : clock.Shows cursor) {octet : UInt8}
    (hhead : cursor.rest.head? = some octet) :
    ({ clock with position := clock.position + 1 } : Clock).Shows (cursor.skip 1) := by
  refine h.skip ?_
  cases hrest : cursor.rest with
  | nil =>
    rw [hrest] at hhead
    cases hhead
  | cons => simp

theorem zoneOffset_settles {clock : Clock} {cursor : Cursor} (h : clock.Shows cursor) :
    Settles (ShowsWith (· < 1440)) clock.zoneOffset cursor.zoneOffset := by
  rw [zoneOffset, Cursor.zoneOffset]
  obtain ⟨cause, hfails, hfails'⟩ | ⟨⟨hours, clock⟩, ⟨hours', cursor⟩, hread, hread', rfl, -, h⟩ :=
    Settles.cases_iff.1 (pair_settles h)
  · rw [hfails, hfails']
    exact .error cause
  · obtain ⟨cause, hfails, hfails'⟩ |
        ⟨⟨minutes, clock⟩, ⟨minutes', cursor⟩, hmore, hmore', rfl, -, h⟩ :=
      Settles.cases_iff.1 (pair_settles h)
    · simp only [hread, hread', settled_ok_bind, hfails, hfails']
      exact .error cause
    · simp only [hread, hread', settled_ok_bind, hmore, hmore']
      split
      · exact .error _
      · have hsize : UInt32.size = 4294967296 := rfl
        rw [push_of_lt (by omega)]
        refine .ok ⟨rfl, ?_, h⟩
        show hours * 60 + minutes < 1440
        omega

/-- Both signs are read alike. -/
theorem zone_eq (rules : Rules) (cursor : Cursor) :
    cursor.zone rules =
      match cursor.rest.head? with
      | none => .error .timeZoneMissing
      | some sign =>
        if sign = 90 then .ok (0, cursor.skip 1)
        else if sign = 43 ∨ sign = 45 then
          if rules = .distinguished then .error .timeZoneNotUtc
          else (cursor.skip 1).zoneOffset.map fun (minutes, next) =>
            (if sign = 45 then -(minutes : Int) else minutes, next)
        else .error .timeZoneMissing := by
  rw [Cursor.zone]
  split
  · rename_i hhead
    simp [hhead]
  · rename_i hhead
    simp [hhead]
  · rename_i hhead
    simp [hhead]
  · rename_i hutc hplus hminus
    cases hhead : cursor.rest.head? with
    | none => rfl
    | some sign =>
      have hunsigned : ¬ (sign = 43 ∨ sign = 45) := by
        rintro (rfl | rfl)
        · exact hplus hhead
        · exact hminus hhead
      have hother : sign ≠ 90 := by
        rintro rfl
        exact hutc hhead
      simp only [if_neg hother, if_neg hunsigned]

theorem zone_settles (rules : Rules) {clock : Clock} {cursor : Cursor} (h : clock.Shows cursor) :
    Settles (ShowsWith fun ahead : Int => ahead.natAbs < 1440) (clock.zone rules)
      (cursor.zone rules) := by
  rw [zone, take_eq h, zone_eq]
  cases hhead : cursor.rest.head? with
  | none => exact .error _
  | some sign =>
    have hmoved := h.skip_one hhead
    by_cases hutc : sign = 90
    · subst hutc
      exact .ok ⟨rfl, by simp, hmoved⟩
    · by_cases hsigned : sign = 43 ∨ sign = 45
      · have hwanted : (decide (sign = 90) || decide (sign = 43) || decide (sign = 45)) = true := by
          simpa [or_assoc] using .inr hsigned
        simp only [hwanted, if_true, lift_some, settled_ok_bind, if_neg hutc, if_pos hsigned]
        split
        · exact .error _
        · refine (zoneOffset_settles hmoved).map ?_
          rintro ⟨minutes, clock⟩ ⟨minutes', cursor⟩ ⟨rfl, hrange, hshows⟩
          refine ⟨rfl, ?_, hshows⟩
          simp only at hrange ⊢
          split <;> omega
      · have hwanted :
            (decide (sign = 90) || decide (sign = 43) || decide (sign = 45)) = false := by
          simpa [not_or, and_assoc, hutc] using hsigned
        simp only [hwanted, lift_some, settled_ok_bind, if_neg hutc, if_neg hsigned]
        exact .error _

theorem runEnd_eq {position : Nat} {octets : Octets}
    (hword : position + octets.length < wordLimit) :
    runEnd position octets = some (position + (octets.takeWhile isDigit).length) := by
  induction octets generalizing position with
  | nil => rfl
  | cons octet rest ih =>
    rw [List.length_cons] at hword
    simp only [runEnd, List.takeWhile_cons]
    split
    · rw [add_of_lt (by omega), Option.bind_eq_bind, Option.bind_some, ih (by omega),
        List.length_cons]
      congr 1
      omega
    · rfl

theorem digitRun_eq {clock : Clock} {cursor : Cursor} (h : clock.Shows cursor) :
    ∃ moved : Clock, clock.digitRun = some (cursor.digitRun.1, moved) ∧
      moved.Shows cursor.digitRun.2 := by
  have hprefix := List.takeWhile_prefix isDigit (l := cursor.rest)
  have hlength := h.length_rest
  have hshort := h.short
  have hsize := hprefix.length_le
  have hslice : slice clock.content clock.position
      (clock.position + (cursor.rest.takeWhile isDigit).length) =
      some (cursor.rest.takeWhile isDigit) := by
    rw [slice_of_le rfl (by omega), h.rest, ← List.prefix_iff_eq_take.1 hprefix]
  refine ⟨_, ?_, h.skip hsize⟩
  rw [digitRun, h.rest, runEnd_eq (by omega)]
  simp only [Option.bind_eq_bind, Option.bind_some, hslice]
  rfl

theorem finish_settles {clock : Clock} {cursor : Cursor} (h : clock.Shows cursor) :
    Settles (fun _ _ => True) clock.finish cursor.finish := by
  have hlength := h.length_rest
  rw [finish, Cursor.finish, h.position]
  cases hrest : cursor.rest with
  | nil =>
    rw [hrest, List.length_nil, h.position] at hlength
    rw [if_neg (by omega)]
    exact .ok trivial
  | cons =>
    rw [hrest, List.length_cons, h.position] at hlength
    rw [if_pos (by omega)]
    exact .error _

theorem start_settles {content : Octets} (hshort : content.length + 2 < wordLimit) :
    Settles (fun clock cursor => clock.Shows cursor ∧ clock.position = 0)
      (settled (start content)) (Cursor.start content) := by
  rw [start, Cursor.start]
  split
  · exact .ok ⟨⟨rfl, rfl, Nat.zero_le _, hshort⟩, rfl⟩
  · exact .error _

theorem bind_settles {α β γ : Type} {P : α → Prop} {R : β → γ → Prop}
    {procedure : Checked Malformation (α × Clock)} {outcome : Except Malformation (α × Cursor)}
    {step : α × Clock → Checked Malformation β} {next : α × Cursor → Except Malformation γ}
    (h : Settles (ShowsWith P) procedure outcome)
    (hstep : ∀ value clock cursor, P value → clock.Shows cursor →
      Settles R (step (value, clock)) (next (value, cursor))) :
    Settles R (procedure >>= step) (outcome >>= next) := by
  refine h.bind ?_
  rintro ⟨value, clock⟩ ⟨value', cursor⟩ ⟨rfl, hvalue, hshows⟩
  exact hstep value clock cursor hvalue hshows

end Clock

section Instant

/-- What has a year of four digits lies in the calendar, wherever it is local time. -/
theorem inCalendar_of_valid {civil : Civil} {ahead : Int} (hvalid : civil.Valid)
    (hyear : 0 ≤ civil.date.year ∧ civil.date.year ≤ 9999) (hahead : ahead.natAbs < 1440) :
    inCalendar (civil.toSeconds - ahead * 60) = some (civil.toSeconds - ahead * 60) := by
  obtain ⟨hdate, hhour, hminute, hsecond⟩ := hvalid
  have hday := (Time.Date.month_day_le hdate).2
  have hmonths : Time.Date.daysBeforeMonth (Time.Date.isLeap civil.date.year) civil.date.month ≤
      366 := by
    have hyear := Time.Date.sum_monthLengths (Time.Date.isLeap civil.date.year)
    rw [← List.take_append_drop (civil.date.month - 1) (Time.Date.monthLengths _),
      List.sum_append] at hyear
    rw [Time.Date.daysBeforeMonth_eq]
    split at hyear <;> omega
  have hlimit : calendarLimit = 8266910112000 := by norm_num [calendarLimit]
  refine if_pos ?_
  simp only [Civil.toSeconds, Time.Date.toDays, Time.Date.daysBeforeYear, Time.Date.epochDay]
  omega

theorem instantOf_settles {civil : Civil} {nanos : Nat} {ahead : Int}
    (hyear : 0 ≤ civil.date.year ∧ civil.date.year ≤ 9999) (hahead : ahead.natAbs < 1440) :
    Settles Eq (instantOf civil nanos ahead) (Time.instantOf civil nanos ahead) := by
  rw [instantOf, Time.instantOf]
  split
  · exact .error _
  · rename_i hdate
    split
    · exact .error _
    · rename_i hclock
      have hvalid : civil.Valid := by
        refine ⟨by simpa using hdate, ?_⟩
        omega
      rw [inCalendar_of_valid hvalid hyear hahead]
      exact .ok rfl

end Instant

namespace Utc

open Clock

theorem seconds_settles (rules : Rules) {clock : Clock} {cursor : Cursor} (h : clock.Shows cursor) :
    Settles (ShowsWith fun _ => True) (seconds rules clock) (Time.Utc.seconds rules cursor) := by
  rw [seconds, Time.Utc.seconds, h.atDigit]
  split
  · exact (pair_settles h).imp fun _ _ hread => ⟨hread.1, trivial, hread.2.2⟩
  · split
    · exact .error _
    · exact .ok ⟨rfl, trivial, h⟩

theorem fullYear_eq {pair : Nat} (h : pair < 100) :
    fullYear pair = some (Time.Utc.fullYear pair) := by
  have hlimit : wordLimit = 18446744073709551616 := rfl
  rw [fullYear, Time.Utc.fullYear]
  split
  · exact add_of_lt (by omega)
  · exact add_of_lt (by omega)

theorem decode_eq (rules : Rules) {content : Octets} (hshort : content.length + 2 < wordLimit) :
    decode rules content = settled (Time.Utc.decode rules content) := by
  refine Settles.eq_settled ?_
  rw [decode, Time.Utc.decode]
  refine (start_settles hshort).bind fun clock cursor hstart => ?_
  refine bind_settles (pair_settles hstart.1) fun pair clock cursor hpair h => ?_
  simp only [fullYear_eq hpair, lift_some, settled_ok_bind]
  refine bind_settles (pair_settles h) fun month clock cursor _ h => ?_
  refine bind_settles (pair_settles h) fun day clock cursor _ h => ?_
  refine bind_settles (pair_settles h) fun hour clock cursor _ h => ?_
  refine bind_settles (pair_settles h) fun minute clock cursor _ h => ?_
  refine bind_settles (seconds_settles rules h) fun second clock cursor _ h => ?_
  refine bind_settles (zone_settles rules h) fun ahead clock cursor hahead h => ?_
  refine (finish_settles h).bind fun _ _ _ => instantOf_settles ?_ hahead
  simp only [Time.Utc.fullYear]
  split <;> omega

end Utc

namespace Generalized

open Clock

theorem minuteSecond_settles {clock : Clock} {cursor : Cursor} (h : clock.Shows cursor) :
    Settles (fun a b => a.1 = b.1 ∧ ShowsWith (fun _ => True) a.2 b.2) (minuteSecond clock)
      (Time.Generalized.minuteSecond cursor) := by
  rw [minuteSecond, Time.Generalized.minuteSecond]
  refine bind_settles (optionalPair_settles h) fun minute clock cursor _ h => ?_
  cases minute with
  | none => exact .ok ⟨rfl, rfl, trivial, h⟩
  | some minute =>
    refine bind_settles (optionalPair_settles h) fun second clock cursor _ h => ?_
    exact .ok ⟨rfl, rfl, trivial, h⟩

/-- Nine digits always fit, whatever the run is that they are taken from. -/
theorem nanosOfDigits_eq {run : Octets} (h : ∀ octet ∈ run, isDigit octet = true) :
    Clock.value (run.take 9 ++ List.replicate (9 - run.length) 48) =
      some (Time.nanosOfDigits run) := by
  refine value_eq (fun octet hmem => ?_) ?_
  · rcases List.mem_append.1 hmem with hrun | hzero
    · exact h octet (List.mem_of_mem_take hrun)
    · rw [List.eq_of_mem_replicate hzero]
      rfl
  · rw [List.length_append, List.length_take, List.length_replicate]
    omega

theorem nanos_settles (rules : Rules) (second : Option Nat) {clock : Clock} {cursor : Cursor}
    (h : clock.Shows cursor) :
    Settles (ShowsWith fun _ => True) (nanos rules second clock)
      (Time.Generalized.nanos rules second cursor) := by
  rw [nanos, take_eq h, Time.Generalized.nanos]
  cases hhead : cursor.rest.head? with
  | none => exact .ok ⟨rfl, trivial, h⟩
  | some separator =>
    by_cases hseparator : separator = 46 ∨ separator = 44
    · have hwanted : (decide (separator = 46) || decide (separator = 44)) = true := by
        simpa using hseparator
      simp only [hwanted, if_true, lift_some, settled_ok_bind, if_pos hseparator]
      split
      · exact .error _
      · rw [Time.Generalized.fraction]
        split
        · exact .error _
        · obtain ⟨moved, hrun, hshows⟩ := digitRun_eq (h.skip_one hhead)
          have hdigits : ∀ octet ∈ (cursor.skip 1).digitRun.1, isDigit octet = true := by
            intro octet hmem
            rw [Cursor.digitRun] at hmem
            exact List.mem_takeWhile_imp hmem
          simp only [hrun, lift_some, settled_ok_bind]
          split
          · exact .error _
          · split
            · exact .error _
            · rw [nanosOfDigits_eq hdigits]
              exact .ok ⟨rfl, trivial, hshows⟩
    · have hwanted : (decide (separator = 46) || decide (separator = 44)) = false := by
        simpa using hseparator
      simp only [hwanted, if_neg hseparator]
      exact .ok ⟨rfl, trivial, h⟩

theorem decode_eq (rules : Rules) {content : Octets} (hshort : content.length + 2 < wordLimit) :
    decode rules content = settled (Time.Generalized.decode rules content) := by
  refine Settles.eq_settled ?_
  rw [decode, Time.Generalized.decode]
  refine (start_settles hshort).bind fun clock cursor hstart => ?_
  have hyear : Settles (ShowsWith (· < 10 ^ 4)) (clock.number 4) (cursor.number 4) :=
    number_settles hstart.1 (by rw [hstart.2]; decide) (by decide)
  refine bind_settles hyear fun year clock cursor hyear h => ?_
  refine bind_settles (pair_settles h) fun month clock cursor _ h => ?_
  refine bind_settles (pair_settles h) fun day clock cursor _ h => ?_
  refine bind_settles (pair_settles h) fun hour clock cursor _ h => ?_
  refine (minuteSecond_settles h).bind ?_
  rintro ⟨minute, second, clock⟩ ⟨_, _, cursor⟩ ⟨rfl, rfl, -, h⟩
  simp only
  split
  · exact .error _
  · refine bind_settles (nanos_settles rules second h) fun nanos clock cursor _ h => ?_
    refine bind_settles (zone_settles rules h) fun ahead clock cursor hahead h => ?_
    refine (finish_settles h).bind fun _ _ _ => instantOf_settles ?_ hahead
    simp only
    omega

end Generalized

end Asn1.Machine
