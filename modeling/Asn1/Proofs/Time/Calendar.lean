import Asn1.Time.Instant
import Mathlib.Algebra.Ring.Nat
import Mathlib.Data.List.GetD
import Mathlib.Tactic.ByContra

/-!
The calendar counts days without gap or overlap: every day lies in exactly one
year and exactly one month of it. So valid dates and days correspond, and valid
civil times and seconds.
-/

namespace Asn1.Time

namespace Date

theorem isLeap_iff (year : Int) :
    isLeap year = true ↔ year % 4 = 0 ∧ (year % 100 ≠ 0 ∨ year % 400 = 0) := by
  simp [isLeap]

theorem sum_monthLengths (leap : Bool) :
    (monthLengths leap).sum = if leap then 366 else 365 := by
  cases leap <;> rfl

theorem length_monthLengths (leap : Bool) : (monthLengths leap).length = 12 := rfl

theorem daysBeforeMonth_eq (leap : Bool) (month : Nat) :
    daysBeforeMonth leap month = ((monthLengths leap).take (month - 1)).sum := rfl

/-- The days of a year. -/
def yearLength (year : Int) : Nat := (monthLengths (isLeap year)).sum

theorem yearLength_cases (year : Int) :
    (yearLength year = 366 ∧ year % 4 = 0 ∧ (year % 100 ≠ 0 ∨ year % 400 = 0)) ∨
      (yearLength year = 365 ∧ ¬ (year % 4 = 0 ∧ (year % 100 ≠ 0 ∨ year % 400 = 0))) := by
  rw [yearLength, sum_monthLengths, ← isLeap_iff]
  by_cases hleap : isLeap year = true
  · exact .inl ⟨if_pos hleap, hleap⟩
  · exact .inr ⟨if_neg hleap, hleap⟩

/-- Of four hundred years, the last of the centuries and the last of the groups
of four years are a day longer than the others of their kind. -/
theorem daysBeforeYear_parts {century four single : Nat} (era : Int) (hcentury : century ≤ 3)
    (hfour : four ≤ 24) (hsingle : single ≤ 3) :
    daysBeforeYear (era * 400 + (century * 100 + four * 4 + single : Nat) + 1) =
      era * 146097 + (century * 36524 + four * 1461 + single * 365 : Nat) := by
  rw [daysBeforeYear, Int.add_sub_cancel]
  generalize hpast : era * 400 + ((century * 100 + four * 4 + single : Nat) : Int) = past
  have hfours : past / 4 = era * 100 + (century * 25 + four : Nat) := by omega
  have hcenturies : past / 100 = era * 4 + century := by omega
  have heras : past / 400 = era := by omega
  rw [hfours, hcenturies, heras]
  omega

theorem daysBeforeYear_le {year year' : Int} (h : year < year') :
    daysBeforeYear year + yearLength year ≤ daysBeforeYear year' := by
  have hlength := yearLength_cases year
  simp only [daysBeforeYear]
  omega

/-- A day lies in one year only. -/
theorem year_unique {year year' : Int} {day day' : Nat} (hday : day < yearLength year)
    (hday' : day' < yearLength year')
    (h : daysBeforeYear year + day = daysBeforeYear year' + day') : year = year' ∧ day = day' := by
  have hyear : year = year' := by
    rcases Int.lt_trichotomy year year' with hlt | heq | hgt
    · have := daysBeforeYear_le hlt
      omega
    · exact heq
    · have := daysBeforeYear_le hgt
      omega
  subst hyear
  exact ⟨rfl, by omega⟩

theorem monthAndDay_of_take {lengths : List Nat} {index day : Nat} (hindex : index < lengths.length)
    (hpos : 0 < day) (hday : day ≤ lengths.getD index 0) (month : Nat) :
    monthAndDay month ((lengths.take index).sum + day - 1) lengths = (month + index, day) := by
  induction lengths generalizing index month with
  | nil => simp at hindex
  | cons length rest ih =>
    cases index with
    | zero =>
      simp only [List.take_zero, List.sum_nil, List.getD_cons_zero] at hday ⊢
      rw [monthAndDay, if_pos (by omega)]
      simp only [Prod.mk.injEq]
      omega
    | succ index =>
      simp only [List.length_cons, List.getD_cons_succ] at hindex hday
      have hrest := ih (by omega) hday (month + 1)
      have hsub : length + (rest.take index).sum + day - 1 - length =
          (rest.take index).sum + day - 1 := by omega
      rw [List.take_succ_cons, List.sum_cons, monthAndDay, if_neg (by omega), hsub, hrest]
      simp only [Prod.mk.injEq, and_true]
      omega

/-- A day of a year lies in one of its months. -/
theorem exists_month {lengths : List Nat} {days : Nat} (h : days < lengths.sum) :
    ∃ index day, index < lengths.length ∧ 0 < day ∧ day ≤ lengths.getD index 0 ∧
      days = (lengths.take index).sum + day - 1 := by
  induction lengths generalizing days with
  | nil => simp at h
  | cons length rest ih =>
    by_cases hfirst : days < length
    · refine ⟨0, days + 1, by simp, by omega, ?_, by simp⟩
      rw [List.getD_cons_zero]
      omega
    · rw [List.sum_cons] at h
      have hrest : days - length < rest.sum := by omega
      obtain ⟨index, day, hindex, hpos, hday, heq⟩ := ih hrest
      refine ⟨index + 1, day, by simpa using hindex, hpos, by simpa using hday, ?_⟩
      rw [List.take_succ_cons, List.sum_cons]
      omega

theorem isValid_iff (date : Date) :
    date.isValid = true ↔ 0 < date.month ∧ date.month - 1 < 12 ∧ 0 < date.day ∧
      date.day ≤ (monthLengths (isLeap date.year)).getD (date.month - 1) 0 := by
  rw [isValid, Bool.and_eq_true, Bool.and_eq_true, decide_eq_true_iff, decide_eq_true_iff,
    decide_eq_true_iff]
  constructor
  · rintro ⟨⟨hmonth, hpos⟩, hday⟩
    refine ⟨hmonth, ?_, hpos, hday⟩
    by_contra hlarge
    rw [List.getD_eq_default _ _ (by rw [length_monthLengths]; omega)] at hday
    omega
  · rintro ⟨hmonth, -, hpos, hday⟩
    exact ⟨⟨hmonth, hpos⟩, hday⟩

/-- A month and a day of it have two digits at most. -/
theorem month_day_le {date : Date} (h : date.isValid = true) :
    date.month ≤ 12 ∧ date.day ≤ 31 := by
  obtain ⟨-, hmonth, -, hday⟩ := (isValid_iff date).1 h
  have hlengths : ∀ leap, ∀ length ∈ monthLengths leap, length ≤ 31 := by decide
  refine ⟨by omega, ?_⟩
  rw [List.getD_eq_getElem _ _ (by rw [length_monthLengths]; exact hmonth)] at hday
  exact Nat.le_trans hday (hlengths _ _ (List.getElem_mem _))

/-- The year and the day of it that `ofDays` finds. -/
theorem ofDays_eq (days : Int) : ∃ year day,
    ofDays days = ⟨year, (monthAndDay 1 day (monthLengths (isLeap year))).1,
      (monthAndDay 1 day (monthLengths (isLeap year))).2⟩ ∧
      day < yearLength year ∧ daysBeforeYear year + day = days + epochDay := by
  have hera : 0 ≤ (days + epochDay) % 146097 ∧ (days + epochDay) % 146097 < 146097 := by omega
  have hsplit := Int.mul_ediv_add_emod (days + epochDay) 146097
  refine ⟨_, _, rfl, ?_, ?_⟩
  all_goals
    generalize (days + epochDay) / 146097 = era at *
    generalize hinEra : ((days + epochDay) % 146097).toNat = inEra
    generalize hcentury : min (inEra / 36524) 3 = century
    generalize hinCentury : inEra - century * 36524 = inCentury
    have hlast : inCentury < 36524 ∨ century = 3 ∧ inCentury = 36524 := by omega
    generalize hfour : inCentury / 1461 = four
    generalize hinFour : inCentury % 1461 = inFour
    generalize hsingle : min (inFour / 365) 3 = single
  · have hlength := yearLength_cases
      (era * 400 + (century * 100 + four * 4 + single : Nat) + 1)
    omega
  · rw [daysBeforeYear_parts era (by omega) (by omega) (by omega)]
    omega

theorem ofDays_isValid (days : Int) : (ofDays days).isValid = true := by
  obtain ⟨year, day, hdate, hday, -⟩ := ofDays_eq days
  obtain ⟨index, dayOfMonth, hindex, hpos, hle, rfl⟩ := exists_month hday
  rw [monthAndDay_of_take hindex hpos hle] at hdate
  rw [length_monthLengths] at hindex
  rw [hdate, isValid_iff]
  simp only [Nat.add_sub_cancel_left]
  exact ⟨by omega, hindex, hpos, hle⟩

@[simp] theorem toDays_ofDays (days : Int) : (ofDays days).toDays = days := by
  obtain ⟨year, day, hdate, hday, hdays⟩ := ofDays_eq days
  obtain ⟨index, dayOfMonth, hindex, hpos, hle, rfl⟩ := exists_month hday
  rw [monthAndDay_of_take hindex hpos hle] at hdate
  rw [hdate, toDays, daysBeforeMonth_eq]
  simp only [Nat.add_sub_cancel_left]
  omega

theorem ofDays_toDays {date : Date} (h : date.isValid = true) : ofDays date.toDays = date := by
  obtain ⟨hmonth, hmonths, hpos, hday⟩ := (isValid_iff date).1 h
  obtain ⟨year, day, hdate, hdayLt, hdays⟩ := ofDays_eq date.toDays
  have hindex : date.month - 1 < (monthLengths (isLeap date.year)).length := hmonths
  generalize hlengths : monthLengths (isLeap date.year) = lengths at *
  have hinYear : (lengths.take (date.month - 1)).sum + date.day - 1 < yearLength date.year := by
    have hsplit : lengths.sum = (lengths.take (date.month - 1)).sum +
        (lengths.drop (date.month - 1)).sum := by
      rw [← List.sum_append, List.take_append_drop]
    rw [List.drop_eq_getElem_cons hindex, List.sum_cons] at hsplit
    rw [List.getD_eq_getElem _ _ hindex] at hday
    rw [yearLength, hlengths]
    omega
  have hsame : daysBeforeYear year + day =
      daysBeforeYear date.year + ((lengths.take (date.month - 1)).sum + date.day - 1 : Nat) := by
    rw [hdays, toDays, daysBeforeMonth_eq, hlengths]
    omega
  obtain ⟨rfl, rfl⟩ := year_unique hdayLt hinYear hsame
  rw [hdate, hlengths, monthAndDay_of_take hindex hpos hday]
  have : 1 + (date.month - 1) = date.month := by omega
  rw [this]

/-- The day after a date. -/
def next (date : Date) : Date :=
  if date.day < (monthLengths (isLeap date.year)).getD (date.month - 1) 0 then
    { date with day := date.day + 1 }
  else if date.month < 12 then ⟨date.year, date.month + 1, 1⟩
  else ⟨date.year + 1, 1, 1⟩

theorem daysBeforeYear_succ (year : Int) :
    daysBeforeYear (year + 1) = daysBeforeYear year + yearLength year := by
  have hlength := yearLength_cases year
  simp only [daysBeforeYear]
  omega

theorem daysBeforeMonth_succ (leap : Bool) {month : Nat} (hpos : 0 < month)
    (hmonth : month - 1 < 12) :
    daysBeforeMonth leap (month + 1) =
      daysBeforeMonth leap month + (monthLengths leap).getD (month - 1) 0 := by
  have hindex : month - 1 < (monthLengths leap).length := hmonth
  have htake : (monthLengths leap).take month =
      (monthLengths leap).take (month - 1) ++ [(monthLengths leap)[month - 1]] := by
    rw [← List.take_succ_eq_append_getElem hindex, Nat.sub_add_cancel hpos]
  rw [daysBeforeMonth_eq, daysBeforeMonth_eq, Nat.add_sub_cancel, htake, List.sum_append,
    List.sum_singleton, List.getD_eq_getElem _ _ hindex]

/-- Days are counted one by one, from the first day of 1970. -/
theorem toDays_next {date : Date} (h : date.isValid = true) :
    date.next.toDays = date.toDays + 1 := by
  obtain ⟨hpos, hmonths, -, hday⟩ := (isValid_iff date).1 h
  obtain ⟨year, month, day⟩ := date
  simp only at hpos hmonths hday
  unfold next
  split
  · simp only [toDays]
    omega
  · rename_i hlast
    simp only at hlast
    have hsucc := daysBeforeMonth_succ (isLeap year) hpos hmonths
    split
    · simp only [toDays]
      omega
    · rename_i hdecember
      obtain rfl : month = 12 := by
        simp only at hdecember
        omega
      have hyear := daysBeforeYear_succ year
      have hwhole : yearLength year = daysBeforeMonth (isLeap year) (12 + 1) := rfl
      have hfirst (leap : Bool) : daysBeforeMonth leap 1 = 0 := rfl
      simp only [toDays, hfirst]
      omega

example : toDays ⟨1970, 1, 1⟩ = 0 := by decide

end Date

namespace Civil

/-- A time of day on a valid date. -/
def Valid (civil : Civil) : Prop :=
  civil.date.isValid = true ∧ civil.hour ≤ 23 ∧ civil.minute ≤ 59 ∧ civil.second ≤ 59

instance (civil : Civil) : Decidable civil.Valid := inferInstanceAs (Decidable (_ ∧ _))

theorem ofSeconds_valid (seconds : Int) : (ofSeconds seconds).Valid := by
  refine ⟨Date.ofDays_isValid _, ?_, ?_, ?_⟩
  all_goals simp only [ofSeconds]
  all_goals omega

@[simp] theorem toSeconds_ofSeconds (seconds : Int) : (ofSeconds seconds).toSeconds = seconds := by
  simp only [toSeconds, ofSeconds, Date.toDays_ofDays]
  omega

theorem ofSeconds_toSeconds {civil : Civil} (h : civil.Valid) :
    ofSeconds civil.toSeconds = civil := by
  obtain ⟨hdate, hhour, hminute, hsecond⟩ := h
  obtain ⟨date, hour, minute, second⟩ := civil
  simp only at hdate hhour hminute hsecond
  have hday : (date.toDays * 86400 + (hour * 3600 + minute * 60 + second : Nat)) / 86400 =
      date.toDays := by omega
  have hinDay : ((date.toDays * 86400 + (hour * 3600 + minute * 60 + second : Nat)) %
      86400).toNat = hour * 3600 + minute * 60 + second := by omega
  simp only [ofSeconds, toSeconds, hday, hinDay, Date.ofDays_toDays hdate, Civil.mk.injEq,
    true_and]
  omega

end Civil

end Asn1.Time
