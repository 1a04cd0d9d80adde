import Asn1.Proofs.Time.Written
import Asn1.Time.Generalized
import Mathlib.Data.List.TakeWhile

/-!
GeneralizedTime. Fractions may have any number of digits, and those past the ninth do not count.
The distinguished rules read what is written, and fractions with more digits.
-/

namespace Asn1.Time.Generalized

section Fractions

/-- Only zeros are trimmed, and all of them. -/
theorem trimZeros_spec (octets : Octets) :
    (∃ count, octets = trimZeros octets ++ List.replicate count 48) ∧
      (trimZeros octets).getLast? ≠ some 48 := by
  induction octets using List.reverseRecOn with
  | nil => exact ⟨⟨0, rfl⟩, by simp [trimZeros]⟩
  | append_singleton front last ih =>
    by_cases hzero : last = 48
    · have htrim : trimZeros (front ++ [last]) = trimZeros front := by simp [trimZeros, hzero]
      obtain ⟨⟨count, hcount⟩, hlast⟩ := ih
      rw [htrim]
      refine ⟨⟨count + 1, ?_⟩, hlast⟩
      rw [List.replicate_succ', ← List.append_assoc, ← hcount, hzero]
    · have htrim : trimZeros (front ++ [last]) = front ++ [last] := by simp [trimZeros, hzero]
      rw [htrim]
      exact ⟨⟨0, by simp⟩, by simpa using hzero⟩

theorem trimZeros_eq_self {octets : Octets} (h : octets.getLast? ≠ some 48) :
    trimZeros octets = octets := by
  induction octets using List.reverseRecOn with
  | nil => rfl
  | append_singleton front last _ =>
    have hlast : last ≠ 48 := by simpa using h
    simp [trimZeros, hlast]

theorem trimZeros_append_zeros (octets : Octets) (count : Nat) :
    trimZeros (octets ++ List.replicate count 48) = trimZeros octets := by
  induction count with
  | zero => rw [List.replicate_zero, List.append_nil]
  | succ count ih =>
    rw [List.replicate_succ', ← List.append_assoc, ← ih]
    simp [trimZeros]

theorem digitsValue_zeros (count : Nat) : digitsValue (List.replicate count 48) = 0 := by
  induction count with
  | zero => rfl
  | succ count ih => rw [List.replicate_succ', digitsValue_concat, ih]; rfl

theorem isDigit_of_mem_trimZeros {width n : Nat} {octet : UInt8}
    (h : octet ∈ trimZeros (digits width n)) : isDigit octet = true := by
  obtain ⟨⟨count, hcount⟩, -⟩ := trimZeros_spec (digits width n)
  refine isDigit_of_mem_digits (?_ : octet ∈ digits width n)
  rw [hcount]
  exact List.mem_append_left _ h

/-- A fraction without its zeros stands for the same nanoseconds. -/
theorem nanosOfDigits_trimZeros {nanos : Nat} (h : nanos < 1000000000) :
    nanosOfDigits (trimZeros (digits 9 nanos)) = nanos := by
  obtain ⟨⟨count, hcount⟩, -⟩ := trimZeros_spec (digits 9 nanos)
  have hlength := congrArg List.length hcount
  rw [length_digits, List.length_append, List.length_replicate] at hlength
  have hmissing : 9 - (trimZeros (digits 9 nanos)).length = count := by omega
  rw [nanosOfDigits, List.take_of_length_le (by omega), hmissing, ← hcount, digitsValue_digits]
  exact Nat.mod_eq_of_lt h

theorem trimZeros_digits_ne_nil {nanos : Nat} (hpos : nanos ≠ 0) (h : nanos < 1000000000) :
    trimZeros (digits 9 nanos) ≠ [] := by
  intro hempty
  have hnanos := nanosOfDigits_trimZeros h
  rw [hempty] at hnanos
  exact hpos (hnanos.symm.trans (digitsValue_zeros 9))

theorem digitRun_append {position : Nat} {run rest : Octets}
    (hdigits : ∀ octet ∈ run, isDigit octet = true)
    (hrest : ∀ octet ∈ rest.head?, isDigit octet = false) :
    Cursor.digitRun ⟨position, run ++ rest⟩ = (run, ⟨position + run.length, rest⟩) := by
  have htake : (run ++ rest).takeWhile isDigit = run := by
    rw [List.takeWhile_append_of_pos hdigits]
    cases rest with
    | nil => simp
    | cons first rest => simp [hrest first (by simp)]
  simp only [Cursor.digitRun, htake, Cursor.skip, List.drop_left]

/-- Nine digits are as good as all of them: the rest is a part of a nanosecond. -/
theorem nanosOfDigits_eq {run : Octets} (h : ∀ octet ∈ run, isDigit octet = true) :
    nanosOfDigits run = digitsValue run * 10 ^ 9 / 10 ^ run.length := by
  unfold nanosOfDigits
  by_cases hshort : run.length ≤ 9
  · have hsplit : 10 ^ 9 = 10 ^ (9 - run.length) * 10 ^ run.length := by
      rw [← pow_add, Nat.sub_add_cancel hshort]
    rw [List.take_of_length_le hshort, digitsValue_append, digitsValue_zeros,
      List.length_replicate, Nat.add_zero, hsplit, ← Nat.mul_assoc,
      Nat.mul_div_cancel _ (Nat.pow_pos (by decide))]
  · have hnone : 9 - run.length = 0 := by omega
    have hrest : digitsValue (run.drop 9) < 10 ^ (run.length - 9) := by
      rw [← List.length_drop]
      exact digitsValue_lt fun octet hmem => h octet (List.mem_of_mem_drop hmem)
    have hrun : digitsValue run =
        digitsValue (run.take 9) * 10 ^ (run.length - 9) + digitsValue (run.drop 9) := by
      rw [← List.length_drop, ← digitsValue_append, List.take_append_drop]
    have hlength : 10 ^ run.length = 10 ^ (run.length - 9) * 10 ^ 9 := by
      rw [← pow_add, Nat.sub_add_cancel (by omega)]
    rw [hnone, List.replicate_zero, List.append_nil, hlength,
      Nat.mul_div_mul_right _ _ (by decide), hrun, Nat.add_comm,
      Nat.add_mul_div_right _ _ (Nat.pow_pos (by decide)), Nat.div_eq_of_lt hrest, Nat.zero_add]

/-- As nanoseconds a fraction has nine digits: its own first ones, and zeros. -/
theorem digits_nanosOfDigits {run : Octets} (h : ∀ octet ∈ run, isDigit octet = true) :
    digits 9 (nanosOfDigits run) = run.take 9 ++ List.replicate (9 - run.length) 48 := by
  apply digits_digitsValue
  · rw [List.length_append, List.length_take, List.length_replicate]
    omega
  · intro octet hmem
    rcases List.mem_append.1 hmem with hrun | hzero
    · exact h octet (List.mem_of_mem_take hrun)
    · rw [List.eq_of_mem_replicate hzero]
      rfl

/-- No nanosecond is left of a fraction whose first nine digits are zeros. -/
theorem nanosOfDigits_eq_zero_iff {run : Octets} (h : ∀ octet ∈ run, isDigit octet = true) :
    nanosOfDigits run = 0 ↔ ∀ octet ∈ run.take 9, octet = 48 := by
  constructor
  · intro hzero octet hmem
    have hnine := digits_nanosOfDigits h
    rw [hzero] at hnine
    have hdigit : octet ∈ digits 9 0 := by
      rw [hnine]
      exact List.mem_append_left _ hmem
    exact List.eq_of_mem_replicate (show octet ∈ List.replicate 9 48 from hdigit)
  · intro hzeros
    have htake : run.take 9 = List.replicate (run.take 9).length 48 :=
      List.eq_replicate_of_mem hzeros
    rw [nanosOfDigits, htake, List.replicate_append_replicate]
    exact digitsValue_zeros _

end Fractions

/-- The distinguished rules want seconds and, in a fraction, a point and a last digit other than
zero. -/
def Allows : Rules → Precision → Prop
  | .basic, _ => True
  | .distinguished, .seconds _ _ => True
  | .distinguished, .fraction _ _ comma run => comma = false ∧ run.getLast? ≠ some 48
  | .distinguished, _ => False

def afterHour (rules : Rules) (cursor : Cursor) :
    Except Malformation ((Nat × Nat × Nat) × Cursor) := do
  let (minute, second, cursor) ← minuteSecond cursor
  if rules = .distinguished ∧ second.isNone then
    throw (.timeSecondsMissing .generalizedTime)
  let (nanos, cursor) ← nanos rules second cursor
  return ((minute, second.getD 0, nanos), cursor)

theorem decode_eq_readTime (rules : Rules) (content : Octets) :
    decode rules content = readTime 4 id rules (afterHour rules) content := by
  simp only [decode, readTime, afterHour, bind_assoc, id]
  refine bind_congr fun _ => bind_congr fun _ => bind_congr fun _ => bind_congr fun _ =>
    bind_congr fun _ => bind_congr fun _ => ?_
  split
  · rfl
  · simp only [bind_assoc, pure_bind]

theorem minuteSecond_spans_iff {cursor next : Cursor} {minute : Nat} {second : Option Nat} :
    minuteSecond cursor = .ok (minute, second, next) ↔
      (minute = 0 ∧ second = none ∧ next = cursor ∧ cursor.atDigit = false) ∨
      (minute < 100 ∧ second = none ∧ next.atDigit = false ∧
        cursor.Spans (digits 2 minute) next) ∨
      ∃ value, minute < 100 ∧ second = some value ∧ value < 100 ∧
        cursor.Spans (digits 2 minute ++ digits 2 value) next := by
  simp only [minuteSecond, bind_eq_ok_iff]
  constructor
  · rintro ⟨⟨pair, middle⟩, hpair, h⟩
    rcases Cursor.optionalPair_spans_iff.1 hpair with ⟨rfl, rfl, hnone⟩ | ⟨value, rfl, hlt, hspans⟩
    · cases h
      exact .inl ⟨rfl, rfl, rfl, hnone⟩
    · obtain ⟨⟨pair, last⟩, hsecond, h⟩ := bind_eq_ok_iff.1 h
      cases h
      rcases Cursor.optionalPair_spans_iff.1 hsecond with ⟨rfl, rfl, hnone⟩ |
        ⟨second, rfl, hsecondLt, hsecond⟩
      · exact .inr (.inl ⟨hlt, rfl, hnone, hspans⟩)
      · exact .inr (.inr ⟨second, hlt, rfl, hsecondLt,
          Cursor.spans_append_iff.2 ⟨middle, hspans, hsecond⟩⟩)
  · rintro (⟨rfl, rfl, rfl, hnone⟩ | ⟨hlt, rfl, hnone, hspans⟩ |
      ⟨value, hlt, rfl, hsecondLt, hspans⟩)
    · exact ⟨_, Cursor.optionalPair_spans_iff.2 (.inl ⟨rfl, rfl, hnone⟩), rfl⟩
    · refine ⟨_, Cursor.optionalPair_spans_iff.2 (.inr ⟨minute, rfl, hlt, hspans⟩), ?_⟩
      exact bind_eq_ok_iff.2
        ⟨_, Cursor.optionalPair_spans_iff.2 (.inl ⟨rfl, rfl, hnone⟩), rfl⟩
    · obtain ⟨middle, hminute, hsecond⟩ := Cursor.spans_append_iff.1 hspans
      refine ⟨_, Cursor.optionalPair_spans_iff.2 (.inr ⟨minute, rfl, hlt, hminute⟩), ?_⟩
      exact bind_eq_ok_iff.2
        ⟨_, Cursor.optionalPair_spans_iff.2 (.inr ⟨value, rfl, hsecondLt, hsecond⟩), rfl⟩

theorem digitRun_spans_iff {cursor next : Cursor} {run : Octets} :
    cursor.digitRun = (run, next) ↔
      (∀ octet ∈ run, isDigit octet = true) ∧ next.atDigit = false ∧ cursor.Spans run next := by
  obtain ⟨position, rest⟩ := cursor
  constructor
  · intro h
    cases h
    have hsplit := List.takeWhile_append_dropWhile (p := isDigit) (l := rest)
    have hdrop := @List.drop_left _ (rest.takeWhile isDigit) (rest.dropWhile isDigit)
    rw [hsplit] at hdrop
    have hhead := List.head?_dropWhile_not isDigit rest
    refine ⟨fun octet hmem => List.mem_takeWhile_imp hmem, ?_, ?_, rfl⟩
    · simp only [Cursor.atDigit, Cursor.skip, hdrop]
      cases hfirst : (rest.dropWhile isDigit).head? with
      | none => rfl
      | some first =>
        rw [hfirst] at hhead
        exact hhead
    · simp only [Cursor.skip, hdrop, hsplit]
  · rintro ⟨hdigits, hnone, rfl, hposition⟩
    obtain ⟨position', rest'⟩ := next
    simp only at hposition
    subst hposition
    apply digitRun_append hdigits
    intro first hfirst
    simp only [Cursor.atDigit, Option.mem_def.1 hfirst] at hnone
    exact hnone

/-- A fraction is what the rules allow to be read behind its separator. -/
theorem fraction_spans_iff {rules : Rules} {comma : Bool} {cursor next : Cursor} {count : Nat} :
    fraction rules (Precision.separator comma) cursor = .ok (count, next) ↔
      ∃ run, run ≠ [] ∧ (∀ octet ∈ run, isDigit octet = true) ∧ next.atDigit = false ∧
        cursor.Spans run next ∧ nanosOfDigits run = count ∧
        (rules = .distinguished → comma = false ∧ run.getLast? ≠ some 48) := by
  have hcomma : Precision.separator comma = 44 ↔ comma = true := by cases comma <;> decide
  obtain ⟨⟨run, after⟩, hrun⟩ : ∃ read, cursor.digitRun = read := ⟨_, rfl⟩
  obtain ⟨hdigits, hnone, hspans⟩ := digitRun_spans_iff.1 hrun
  simp only [fraction, hcomma, hrun]
  constructor
  · intro h
    split at h
    · cases h
    · rename_i hpoint
      split at h
      · cases h
      · rename_i hempty
        split at h
        · cases h
        · rename_i hzero
          cases h
          refine ⟨run, by simpa using hempty, hdigits, hnone, hspans, rfl, ?_⟩
          intro hrules
          exact ⟨by simpa [hrules] using hpoint, fun hlast => hzero ⟨hrules, hlast⟩⟩
  · rintro ⟨run', hsome, hdigits', hnone', hspans', rfl, hallowed⟩
    have hsame := hrun.symm.trans (digitRun_spans_iff.2 ⟨hdigits', hnone', hspans'⟩)
    cases hsame
    have hpoint : ¬ (rules = .distinguished ∧ comma = true) := by
      rintro ⟨hrules, rfl⟩
      cases (hallowed hrules).1
    have hempty : ¬ run.isEmpty = true := by simpa using hsome
    have hzero : ¬ (rules = .distinguished ∧ run.getLast? = some 48) :=
      fun h => (hallowed h.1).2 h.2
    rw [if_neg hpoint, if_neg hempty, if_neg hzero]

theorem nanos_of_separator (rules : Rules) (second : Option Nat) {cursor : Cursor} {comma : Bool}
    (h : cursor.rest.head? = some (Precision.separator comma)) :
    nanos rules second cursor =
      if second.isNone then .error .timeFractionWithoutSeconds
      else fraction rules (Precision.separator comma) (cursor.skip 1) := by
  have heither : Precision.separator comma = 46 ∨ Precision.separator comma = 44 := by
    cases comma <;> decide
  simp only [nanos, h, if_pos heither]

theorem nanos_of_no_separator (rules : Rules) (second : Option Nat) {cursor : Cursor}
    (h : ∀ comma, cursor.rest.head? ≠ some (Precision.separator comma)) :
    nanos rules second cursor = .ok (0, cursor) := by
  unfold nanos
  split
  · rename_i octet hhead
    rw [if_neg]
    rintro (rfl | rfl)
    · exact h false hhead
    · exact h true hhead
  · rfl

theorem head_ne_separator_of_spans_zone {cursor next : Cursor} {zone : Zone}
    (h : cursor.Spans zone.text next) (comma : Bool) :
    cursor.rest.head? ≠ some (Precision.separator comma) := by
  cases zone with
  | utc | ahead hours minutes | behind hours minutes =>
    rw [(Cursor.spans_cons_iff.1 h).1]
    cases comma <;> decide

/-- In front of a zone a fraction is read where one stands behind whole seconds. -/
theorem nanos_spans_iff {rules : Rules} {second : Option Nat} {cursor next last : Cursor}
    {zone : Zone} {count : Nat} (hzone : next.Spans zone.text last) :
    nanos rules second cursor = .ok (count, next) ↔
      (count = 0 ∧ next = cursor) ∨
        (second.isSome = true ∧ ∃ comma run, (run ≠ [] ∧ ∀ octet ∈ run, isDigit octet = true) ∧
          nanosOfDigits run = count ∧
          (rules = .distinguished → comma = false ∧ run.getLast? ≠ some 48) ∧
          cursor.Spans (Precision.separator comma :: run) next) := by
  constructor
  · intro h
    by_cases hseparator : ∃ comma, cursor.rest.head? = some (Precision.separator comma)
    · obtain ⟨comma, hhead⟩ := hseparator
      rw [nanos_of_separator rules second hhead] at h
      cases second with
      | none => cases h
      | some second =>
        obtain ⟨run, hsome, hdigits, -, hrun, hcount, hallowed⟩ := fraction_spans_iff.1 h
        exact .inr ⟨rfl, comma, run, ⟨hsome, hdigits⟩, hcount, hallowed,
          Cursor.spans_cons_iff.2 ⟨hhead, hrun⟩⟩
    · rw [nanos_of_no_separator rules second (not_exists.1 hseparator)] at h
      cases h
      exact .inl ⟨rfl, rfl⟩
  · rintro (⟨rfl, rfl⟩ | ⟨hsecond, comma, run, ⟨hsome, hdigits⟩, hcount, hallowed, hspans⟩)
    · exact nanos_of_no_separator rules second (head_ne_separator_of_spans_zone hzone)
    · obtain ⟨hhead, hrun⟩ := Cursor.spans_cons_iff.1 hspans
      have hnone : ¬ second.isNone = true := by simp [Option.isSome_iff_ne_none.1 hsecond]
      rw [nanos_of_separator rules second hhead, if_neg hnone, fraction_spans_iff]
      exact ⟨run, hsome, hdigits, Cursor.atDigit_of_spans_zone hzone, hrun, hcount, hallowed⟩

theorem afterHour_eq_ok_iff {rules : Rules} {cursor next : Cursor} {minute second count : Nat} :
    afterHour rules cursor = .ok ((minute, second, count), next) ↔
      ∃ second? middle, minuteSecond cursor = .ok (minute, second?, middle) ∧
        (rules = .distinguished → second?.isSome = true) ∧ second?.getD 0 = second ∧
        nanos rules second? middle = .ok (count, next) := by
  simp only [afterHour, bind_eq_ok_iff]
  constructor
  · rintro ⟨⟨_, second?, middle⟩, hminute, h⟩
    split at h
    · cases h
    · rename_i hsecond
      obtain ⟨⟨_, _⟩, hnanos, h⟩ := bind_eq_ok_iff.1 h
      cases h
      refine ⟨second?, middle, hminute, ?_, rfl, hnanos⟩
      intro hrules
      cases second? with
      | none => exact absurd ⟨hrules, rfl⟩ hsecond
      | some second => rfl
  · rintro ⟨second?, middle, hminute, hsecond, rfl, hnanos⟩
    refine ⟨_, hminute, ?_⟩
    rw [if_neg]
    · exact bind_eq_ok_iff.2 ⟨_, hnanos, rfl⟩
    · rintro ⟨hrules, hnone⟩
      have hsome := hsecond hrules
      cases second? with
      | none => cases hsome
      | some second => cases hnone

theorem afterHour_readsAs (rules : Rules) : ReadsAs (Allows rules) (afterHour rules) := by
  intro cursor next last minute second count zone hzone
  rw [afterHour_eq_ok_iff]
  -- a zone starts with no digit and no separator, so nothing more could have been read before it
  have hnone (second? : Option Nat) : nanos rules second? next = .ok (0, next) :=
    (nanos_spans_iff hzone).2 (.inl ⟨rfl, rfl⟩)
  constructor
  · rintro ⟨second?, middle, hminute, hrules, rfl, hnanos⟩
    rcases (nanos_spans_iff hzone).1 hnanos with
      ⟨rfl, rfl⟩ | ⟨hsecond, comma, run, hformed, rfl, hallowed, hfraction⟩
    · rcases minuteSecond_spans_iff.1 hminute with ⟨rfl, rfl, rfl, -⟩ | ⟨hminuteLt, rfl, -, hspans⟩ |
        ⟨second, hminuteLt, rfl, hsecondLt, hspans⟩
      · refine ⟨.hours, ?_, trivial, rfl, rfl, rfl, by decide, Cursor.spans_nil_iff.2 rfl⟩
        cases rules with
        | basic => trivial
        | distinguished => cases hrules rfl
      · refine ⟨.minutes minute, ?_, trivial, rfl, rfl, rfl, ⟨hminuteLt, by decide⟩, hspans⟩
        cases rules with
        | basic => trivial
        | distinguished => cases hrules rfl
      · refine ⟨.seconds minute second, ?_, trivial, rfl, rfl, rfl, ⟨hminuteLt, hsecondLt⟩, hspans⟩
        cases rules <;> trivial
    · rcases minuteSecond_spans_iff.1 hminute with ⟨-, rfl, -⟩ | ⟨-, rfl, -⟩ |
        ⟨second, hminuteLt, rfl, hsecondLt, hspans⟩
      · cases hsecond
      · cases hsecond
      · refine ⟨.fraction minute second comma run, ?_, hformed, rfl, rfl,
          (nanosOfDigits_eq hformed.2).symm, ⟨hminuteLt, hsecondLt⟩, ?_⟩
        · cases rules with
          | basic => trivial
          | distinguished => exact hallowed rfl
        · exact Cursor.spans_append_iff.2 ⟨middle, hspans, hfraction⟩
  · rintro ⟨precision, hallows, hformed, rfl, rfl, rfl, ⟨hminuteLt, hsecondLt⟩, hspans⟩
    cases precision with
    | hours =>
      obtain rfl := Cursor.spans_nil_iff.1 hspans
      refine ⟨none, next, ?_, ?_, rfl, hnone none⟩
      · exact minuteSecond_spans_iff.2 (.inl ⟨rfl, rfl, rfl, Cursor.atDigit_of_spans_zone hzone⟩)
      · rintro rfl
        exact hallows.elim
    | minutes minute =>
      refine ⟨none, next, ?_, ?_, rfl, hnone none⟩
      · exact minuteSecond_spans_iff.2
          (.inr (.inl ⟨hminuteLt, rfl, Cursor.atDigit_of_spans_zone hzone, hspans⟩))
      · rintro rfl
        exact hallows.elim
    | seconds minute second =>
      refine ⟨some second, next, ?_, fun _ => rfl, rfl, hnone (some second)⟩
      exact minuteSecond_spans_iff.2 (.inr (.inr ⟨second, hminuteLt, rfl, hsecondLt, hspans⟩))
    | fraction minute second comma run =>
      obtain ⟨middle, hclock, hfraction⟩ := Cursor.spans_append_iff.1 hspans
      refine ⟨some second, middle, ?_, fun _ => rfl, rfl, ?_⟩
      · exact minuteSecond_spans_iff.2 (.inr (.inr ⟨second, hminuteLt, rfl, hsecondLt, hclock⟩))
      · refine (nanos_spans_iff hzone).2
          (.inr ⟨rfl, comma, run, hformed, nanosOfDigits_eq hformed.2, ?_, hfraction⟩)
        rintro rfl
        exact hallows

theorem decode_eq_ok_iff (rules : Rules) (content : Octets) (instant : Instant) :
    decode rules content = .ok instant ↔
      ∃ time : Written, Allows rules time.precision ∧ (rules = .distinguished → time.zone = .utc) ∧
        time.Valid 4 id ∧ time.text 4 = content ∧ time.instant id = instant := by
  rw [decode_eq_readTime]
  exact readTime_eq_ok_iff (afterHour_readsAs rules) content instant

/-- Seconds with the shortest fraction for the nanoseconds. -/
def precisionOf (minute second nanos : Nat) : Precision :=
  if nanos = 0 then .seconds minute second
  else .fraction minute second false (trimZeros (digits 9 nanos))

theorem precisionOf_allowed (rules : Rules) (minute second nanos : Nat) :
    Allows rules (precisionOf minute second nanos) := by
  unfold precisionOf
  split
  · cases rules <;> trivial
  · cases rules with
    | basic => trivial
    | distinguished => exact ⟨rfl, (trimZeros_spec _).2⟩

theorem precisionOf_wellFormed (minute second : Nat) {nanos : Nat} (h : nanos < 1000000000) :
    (precisionOf minute second nanos).WellFormed := by
  unfold precisionOf
  split
  · trivial
  · rename_i hpos
    exact ⟨trimZeros_digits_ne_nil hpos h, fun octet hmem => isDigit_of_mem_trimZeros hmem⟩

theorem minute_precisionOf (minute second nanos : Nat) :
    (precisionOf minute second nanos).minute = minute := by
  unfold precisionOf
  split <;> rfl

theorem second_precisionOf (minute second nanos : Nat) :
    (precisionOf minute second nanos).second = second := by
  unfold precisionOf
  split <;> rfl

theorem nanos_precisionOf (minute second : Nat) {nanos : Nat} (h : nanos < 1000000000) :
    (precisionOf minute second nanos).nanos = nanos := by
  unfold precisionOf
  split
  · rename_i hzero
    exact hzero.symm
  · simp only [Precision.nanos]
    rw [← nanosOfDigits_eq fun octet hmem => isDigit_of_mem_trimZeros hmem,
      nanosOfDigits_trimZeros h]

/-- The parts that an instant is written with. -/
def written (instant : Instant) : Written :=
  ⟨instant.civil.date.year.toNat, instant.civil.date.month, instant.civil.date.day,
    instant.civil.hour,
    precisionOf instant.civil.minute instant.civil.second instant.nanos, .utc⟩

theorem encode_eq_ok_iff (instant : Instant) (content : Octets) :
    encode instant = .ok content ↔
      0 ≤ instant.civil.date.year ∧ instant.civil.date.year ≤ 9999 ∧
        instant.nanos < 1000000000 ∧ (written instant).text 4 = content := by
  have htext : (precisionOf instant.civil.minute instant.civil.second instant.nanos).text =
      digits 2 instant.civil.minute ++ digits 2 instant.civil.second ++
        fractionText instant.nanos := by
    unfold precisionOf fractionText
    split
    · exact (List.append_nil _).symm
    · rfl
  simp only [encode, written, Written.text, htext, Zone.text]
  split
  · simp only [reduceCtorEq, false_iff]
    omega
  · split
    · simp only [reduceCtorEq, false_iff]
      omega
    · simp only [Except.ok.injEq, List.append_assoc]
      constructor
      · intro h
        exact ⟨by omega, by omega, by omega, h⟩
      · rintro ⟨-, -, -, h⟩
        exact h

theorem exists_encode_iff (instant : Instant) :
    (∃ content, encode instant = .ok content) ↔
      0 ≤ instant.civil.date.year ∧ instant.civil.date.year ≤ 9999 ∧
        instant.nanos < 1000000000 := by
  simp only [encode_eq_ok_iff, exists_and_left, exists_eq', and_true]

theorem decode_encode (rules : Rules) {instant : Instant} {content : Octets}
    (h : encode instant = .ok content) : decode rules content = .ok instant := by
  obtain ⟨hlow, hhigh, hnanos, rfl⟩ := (encode_eq_ok_iff instant content).1 h
  have hyear : (instant.civil.date.year.toNat : Int) = instant.civil.date.year := by omega
  have hcivil : (written instant).civil id = instant.civil := by
    unfold written Written.civil
    rw [minute_precisionOf, second_precisionOf, id, hyear]
  rw [decode_eq_ok_iff]
  refine ⟨written instant, precisionOf_allowed _ _ _ _, fun _ => rfl,
    ⟨?_, ?_, precisionOf_wellFormed _ _ hnanos, trivial⟩, rfl, ?_⟩
  · show instant.civil.date.year.toNat < 10 ^ 4
    omega
  · rw [hcivil]
    exact Civil.ofSeconds_valid _
  · exact Written.instant_eq hcivil rfl (nanos_precisionOf _ _ hnanos)

theorem decode_relax {rules : Rules} {content : Octets} {instant : Instant}
    (h : decode .distinguished content = .ok instant) : decode rules content = .ok instant := by
  cases rules with
  | distinguished => exact h
  | basic =>
    obtain ⟨time, -, -, hvalid, htext, hinstant⟩ := (decode_eq_ok_iff _ _ _).1 h
    exact (decode_eq_ok_iff _ _ _).2 ⟨time, trivial, nofun, hvalid, htext, hinstant⟩

theorem nanos_of_decode {rules : Rules} {content : Octets} {instant : Instant}
    (h : decode rules content = .ok instant) : instant.nanos < 1000000000 := by
  obtain ⟨time, -, -, hvalid, -, rfl⟩ := (decode_eq_ok_iff _ _ _).1 h
  exact Precision.nanos_lt hvalid.precision

/-- A fraction leaves no nanosecond exactly if its first nine digits are zeros, so that under the
distinguished rules, where it does not end in a zero, it has more than nine. -/
theorem nanos_eq_zero_iff_of_decode {rules : Rules} {content : Octets} {instant : Instant}
    (h : decode rules content = .ok instant) :
    instant.nanos = 0 ↔
      ∀ front comma back, content = front ++ Precision.separator comma :: back →
        (∀ octet ∈ (back.takeWhile isDigit).take 9, octet = 48) ∧
          (rules = .distinguished → comma = false ∧ 9 < (back.takeWhile isDigit).length) := by
  obtain ⟨time, hallows, -, hvalid, rfl, rfl⟩ := (decode_eq_ok_iff _ _ _).1 h
  constructor
  · intro hzero front comma back htext
    obtain ⟨minute, second, hfraction⟩ := Written.fraction_of_separator hvalid.precision htext
    have hformed := hvalid.precision
    simp only [Written.instant, hfraction] at hzero
    rw [hfraction] at hformed hallows
    obtain ⟨hsome, hdigits⟩ := hformed
    have hzeros := (nanosOfDigits_eq_zero_iff hdigits).1 ((nanosOfDigits_eq hdigits).trans hzero)
    refine ⟨hzeros, ?_⟩
    rintro rfl
    obtain ⟨hcomma, hlast⟩ := hallows
    refine ⟨hcomma, Nat.lt_of_not_le fun hshort => hlast ?_⟩
    rw [List.take_of_length_le hshort] at hzeros
    rw [List.getLast?_eq_getLast_of_ne_nil hsome, hzeros _ (List.getLast_mem hsome)]
  · intro hzeros
    cases hfraction : time.precision with
    | hours | minutes minute | seconds minute second =>
      simp only [Written.instant, hfraction, Precision.nanos]
    | fraction minute second comma run =>
      have hformed := hvalid.precision
      rw [hfraction] at hformed
      obtain ⟨front, back, htext, rfl⟩ :=
        Written.exists_separator hvalid.precision hfraction
      simp only [Written.instant, hfraction]
      exact (nanosOfDigits_eq hformed.2).symm.trans
        ((nanosOfDigits_eq_zero_iff hformed.2).2 (hzeros front comma back htext).1)

/-- A zone can lead out of the range, so the year is known under the distinguished rules only. -/
theorem year_of_decode {content : Octets} {instant : Instant}
    (h : decode .distinguished content = .ok instant) :
    0 ≤ instant.civil.date.year ∧ instant.civil.date.year ≤ 9999 := by
  obtain ⟨time, -, hzone, hvalid, -, rfl⟩ := (decode_eq_ok_iff _ _ _).1 h
  have hyear := hvalid.year_lt
  rw [hvalid.civil_instant (hzone rfl)]
  unfold Written.civil
  simp only [id]
  omega

theorem exists_encode_iff_of_decode {rules : Rules} {content : Octets} {instant : Instant}
    (h : decode rules content = .ok instant) :
    (∃ again, encode instant = .ok again) ↔
      0 ≤ instant.civil.date.year ∧ instant.civil.date.year ≤ 9999 := by
  simp only [exists_encode_iff, nanos_of_decode h, and_true]

end Asn1.Time.Generalized
