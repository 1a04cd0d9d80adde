import Asn1.Proofs.Outcome
import Asn1.Proofs.Time.Calendar
import Asn1.Time.Cursor
import Mathlib.Data.List.Induction
import Mathlib.Tactic.Ring

/-!
Decimal digits as a cursor reads them. A number of fixed width is read from its
digits and from nothing else, and the cursor moves on over just these digits.
-/

namespace Asn1.Time

theorem bind_eq_ok_iff {ε α β : Type} {first : Except ε α} {next : α → Except ε β} {b : β} :
    (first >>= next) = .ok b ↔ ∃ a, first = .ok a ∧ next a = .ok b := by
  exact Asn1.bind_eq_ok_iff

section Digits

theorem isDigit_iff (octet : UInt8) :
    isDigit octet = true ↔ 48 ≤ octet.toNat ∧ octet.toNat ≤ 57 := by
  simp [isDigit, UInt8.le_iff_toNat_le]

@[simp] theorem length_digits (width n : Nat) : (digits width n).length = width := by
  induction width generalizing n with
  | zero => rfl
  | succ width ih => simp [digits, ih]

theorem isDigit_of_mem_digits {width n : Nat} {octet : UInt8} (h : octet ∈ digits width n) :
    isDigit octet = true := by
  induction width generalizing n with
  | zero => simp [digits] at h
  | succ width ih =>
    rw [digits, List.mem_append, List.mem_singleton] at h
    rcases h with hfront | rfl
    · exact ih hfront
    · rw [isDigit_iff, UInt8.toNat_ofNat']
      omega

theorem digitsValue_concat (octets : Octets) (last : UInt8) :
    digitsValue (octets ++ [last]) = digitsValue octets * 10 + (last.toNat - 48) := by
  simp [digitsValue]

theorem digitsValue_append (front back : Octets) :
    digitsValue (front ++ back) = digitsValue front * 10 ^ back.length + digitsValue back := by
  induction back using List.reverseRecOn with
  | nil => simp [digitsValue]
  | append_singleton back last ih =>
    rw [← List.append_assoc, digitsValue_concat, digitsValue_concat, ih, List.length_append,
      List.length_singleton, pow_succ]
    ring

@[simp] theorem digitsValue_digits (width n : Nat) :
    digitsValue (digits width n) = n % 10 ^ width := by
  induction width generalizing n with
  | zero => simp [digits, digitsValue, Nat.mod_one]
  | succ width ih =>
    have hdigit : (UInt8.ofNat (48 + n % 10)).toNat - 48 = n % 10 := by
      rw [UInt8.toNat_ofNat']
      omega
    rw [digits, digitsValue_concat, ih, hdigit, pow_succ 10, Nat.mul_comm (10 ^ width),
      Nat.mod_mul]
    omega

theorem digitsValue_lt {octets : Octets} (h : ∀ octet ∈ octets, isDigit octet = true) :
    digitsValue octets < 10 ^ octets.length := by
  induction octets using List.reverseRecOn with
  | nil => simp [digitsValue]
  | append_singleton front last ih =>
    have hlast := (isDigit_iff last).1 (h last (by simp))
    have hfront := ih fun octet hmem => h octet (by simp [hmem])
    rw [digitsValue_concat, List.length_append, List.length_singleton, pow_succ]
    omega

/-- Digits are those of the number that they stand for. -/
theorem digits_digitsValue {width : Nat} {octets : Octets} (hlength : octets.length = width)
    (h : ∀ octet ∈ octets, isDigit octet = true) : digits width (digitsValue octets) = octets := by
  induction octets using List.reverseRecOn generalizing width with
  | nil =>
    subst hlength
    rfl
  | append_singleton front last ih =>
    have hlast := (isDigit_iff last).1 (h last (by simp))
    have hfront := ih rfl fun octet hmem => h octet (by simp [hmem])
    rw [List.length_append, List.length_singleton] at hlength
    subst hlength
    have hquotient : (digitsValue front * 10 + (last.toNat - 48)) / 10 = digitsValue front := by
      omega
    have hdigit : 48 + (digitsValue front * 10 + (last.toNat - 48)) % 10 = last.toNat := by
      omega
    rw [digitsValue_concat, digits, hquotient, hdigit, hfront, UInt8.ofNat_toNat]

end Digits

namespace Cursor

theorem start_of_ascii {content : Octets} (h : ∀ octet ∈ content, octet.toNat < 128) :
    start content = .ok ⟨0, content⟩ := by
  rw [start, if_pos]
  rw [List.all_eq_true]
  intro octet hmem
  rw [decide_eq_true_iff, UInt8.lt_iff_toNat_lt]
  exact h octet hmem

theorem rest_of_start {content : Octets} {cursor : Cursor} (h : start content = .ok cursor) :
    cursor.rest = content := by
  rw [start] at h
  split at h
  · cases h
    rfl
  · cases h

theorem atDigit_iff (cursor : Cursor) :
    cursor.atDigit = true ↔ ∃ first rest, cursor.rest = first :: rest ∧ isDigit first = true := by
  rw [atDigit]
  cases cursor.rest <;> simp

theorem atDigit_append {position : Nat} {text rest : Octets} (hsome : text ≠ [])
    (h : ∀ octet ∈ text, isDigit octet = true) : atDigit ⟨position, text ++ rest⟩ = true := by
  obtain ⟨first, more, rfl⟩ := List.exists_cons_of_ne_nil hsome
  rw [atDigit_iff]
  exact ⟨first, more ++ rest, rfl, h first (by simp)⟩

/-- From the cursor to the next one stands this text. -/
def Spans (cursor : Cursor) (text : Octets) (next : Cursor) : Prop :=
  cursor.rest = text ++ next.rest ∧ next.position = cursor.position + text.length

theorem spans_nil_iff {cursor next : Cursor} : cursor.Spans [] next ↔ next = cursor := by
  obtain ⟨position, rest⟩ := cursor
  obtain ⟨position', rest'⟩ := next
  simp only [Spans, List.nil_append, List.length_nil, Nat.add_zero, Cursor.mk.injEq]
  constructor
  · rintro ⟨rfl, rfl⟩
    exact ⟨rfl, rfl⟩
  · rintro ⟨rfl, rfl⟩
    exact ⟨rfl, rfl⟩

theorem spans_append_iff {cursor next : Cursor} {first second : Octets} :
    cursor.Spans (first ++ second) next ↔
      ∃ middle, cursor.Spans first middle ∧ middle.Spans second next := by
  constructor
  · rintro ⟨hrest, hposition⟩
    refine ⟨⟨cursor.position + first.length, second ++ next.rest⟩, ⟨?_, rfl⟩, rfl, ?_⟩
    · rw [hrest, List.append_assoc]
    · rw [hposition, List.length_append, Nat.add_assoc]
  · rintro ⟨middle, ⟨hrest, hposition⟩, hrest', hposition'⟩
    refine ⟨?_, ?_⟩
    · rw [hrest, hrest', List.append_assoc]
    · rw [hposition', hposition, List.length_append, Nat.add_assoc]

/-- One octet is passed by skipping it. -/
theorem spans_cons_iff {cursor next : Cursor} {first : UInt8} {text : Octets} :
    cursor.Spans (first :: text) next ↔
      cursor.rest.head? = some first ∧ (cursor.skip 1).Spans text next := by
  obtain ⟨position, rest⟩ := cursor
  cases rest with
  | nil => simp [Spans]
  | cons octet rest =>
    simp only [Spans, skip, List.cons_append, List.cons.injEq, List.length_cons, List.head?_cons,
      Option.some.injEq, List.drop_one, List.tail_cons]
    constructor
    · rintro ⟨⟨rfl, rfl⟩, hposition⟩
      exact ⟨rfl, rfl, by omega⟩
    · rintro ⟨rfl, rfl, hposition⟩
      exact ⟨⟨rfl, rfl⟩, by omega⟩

/-- A text is passed from its start to its end, where nothing follows. -/
theorem spans_whole (text : Octets) : Spans ⟨0, text⟩ text ⟨text.length, []⟩ :=
  ⟨(List.append_nil text).symm, (Nat.zero_add _).symm⟩

/-- A number is read from its digits. -/
theorem number_spans_iff {cursor next : Cursor} {count value : Nat} :
    cursor.number count = .ok (value, next) ↔
      value < 10 ^ count ∧ cursor.Spans (digits count value) next := by
  unfold number Spans
  constructor
  · intro h
    simp only at h
    split at h
    · cases h
    · rename_i hlong
      split at h
      · cases h
      · rename_i hdigits
        cases h
        have hlength : (cursor.rest.take count).length = count := by
          rw [List.length_take] at hlong ⊢
          omega
        have hall : ∀ octet ∈ cursor.rest.take count, isDigit octet = true := by simpa using hdigits
        have hvalue := digitsValue_lt hall
        rw [hlength] at hvalue
        refine ⟨hvalue, ?_, ?_⟩
        · rw [digits_digitsValue hlength hall, skip, List.take_append_drop]
        · rw [length_digits, skip]
  · rintro ⟨hvalue, hrest, hposition⟩
    have htake : cursor.rest.take count = digits count value := by
      rw [hrest, List.take_left' (length_digits count value)]
    have hdrop : cursor.rest.drop count = next.rest := by
      rw [hrest, List.drop_left' (length_digits count value)]
    have hall : ¬ (!(digits count value).all isDigit) = true := by
      simpa using fun octet => isDigit_of_mem_digits
    rw [length_digits] at hposition
    simp only [htake, length_digits]
    rw [if_neg (Nat.lt_irrefl count), if_neg hall, digitsValue_digits, Nat.mod_eq_of_lt hvalue, skip,
      hdrop, ← hposition]

theorem atDigit_of_spans_digits {cursor next : Cursor} {width n : Nat}
    (h : cursor.Spans (digits width n) next) (hsome : width ≠ 0) : cursor.atDigit = true := by
  obtain ⟨position, rest⟩ := cursor
  obtain ⟨rfl, -⟩ := h
  apply atDigit_append
  · apply List.ne_nil_of_length_pos
    rw [length_digits]
    exact Nat.pos_of_ne_zero hsome
  · intro octet hmem
    exact isDigit_of_mem_digits hmem

/-- Two digits are read where a digit stands, and nothing is read elsewhere. -/
theorem optionalPair_spans_iff {cursor next : Cursor} {pair : Option Nat} :
    cursor.optionalPair = .ok (pair, next) ↔
      (pair = none ∧ next = cursor ∧ cursor.atDigit = false) ∨
        ∃ value, pair = some value ∧ value < 100 ∧ cursor.Spans (digits 2 value) next := by
  unfold optionalPair
  split
  · rename_i hdigit
    constructor
    · intro h
      cases hnumber : cursor.number 2 with
      | error cause =>
        rw [hnumber] at h
        cases h
      | ok read =>
        obtain ⟨value, after⟩ := read
        rw [hnumber] at h
        cases h
        obtain ⟨hvalue, hspans⟩ := number_spans_iff.1 hnumber
        exact .inr ⟨value, rfl, hvalue, hspans⟩
    · rintro (⟨-, -, hnone⟩ | ⟨value, rfl, hvalue, hspans⟩)
      · rw [hdigit] at hnone
        cases hnone
      · rw [number_spans_iff.2 ⟨hvalue, hspans⟩]
        rfl
  · rename_i hdigit
    constructor
    · intro h
      cases h
      exact .inl ⟨rfl, rfl, by simpa using hdigit⟩
    · rintro (⟨rfl, rfl, -⟩ | ⟨value, -, -, hspans⟩)
      · rfl
      · exact absurd (atDigit_of_spans_digits hspans (by decide)) hdigit

theorem zoneOffset_spans_iff {cursor next : Cursor} {minutes : Nat} :
    cursor.zoneOffset = .ok (minutes, next) ↔
      ∃ hour minute, (hour ≤ 23 ∧ minute ≤ 59) ∧ hour * 60 + minute = minutes ∧
        cursor.Spans (digits 2 hour ++ digits 2 minute) next := by
  unfold zoneOffset
  constructor
  · intro h
    split at h
    · cases h
    · rename_i hour middle hhour
      split at h
      · cases h
      · rename_i minute last hminute
        split at h
        · cases h
        · rename_i hrange
          cases h
          refine ⟨hour, minute, by omega, rfl, ?_⟩
          rw [spans_append_iff]
          exact ⟨middle, (number_spans_iff.1 hhour).2, (number_spans_iff.1 hminute).2⟩
  · rintro ⟨hour, minute, hrange, rfl, hspans⟩
    obtain ⟨middle, hhour, hminute⟩ := spans_append_iff.1 hspans
    have hhour : cursor.number 2 = .ok (hour, middle) := number_spans_iff.2 ⟨by omega, hhour⟩
    have hminute : middle.number 2 = .ok (minute, next) := number_spans_iff.2 ⟨by omega, hminute⟩
    simp only [hhour, hminute]
    rw [if_neg (by omega)]

theorem finish_eq_ok_iff {cursor : Cursor} : cursor.finish = .ok () ↔ cursor.rest = [] := by
  unfold finish
  constructor
  · intro h
    split at h
    · rename_i hempty
      exact List.isEmpty_iff.1 hempty
    · cases h
  · intro h
    rw [h]
    rfl

end Cursor

theorem instantOf_eq_ok_iff (civil : Civil) (nanos : Nat) (ahead : Int) (instant : Instant) :
    instantOf civil nanos ahead = .ok instant ↔
      civil.Valid ∧ instant = ⟨civil.toSeconds - ahead * 60, nanos⟩ := by
  rw [instantOf, Civil.Valid]
  split
  · rename_i hinvalid
    have : civil.date.isValid = false := by simpa using hinvalid
    simp [this]
  · rename_i hvalid
    have : civil.date.isValid = true := by simpa using hvalid
    split
    · simp only [reduceCtorEq, false_iff]
      omega
    · simp only [Except.ok.injEq, this, true_and]
      constructor
      · rintro rfl
        exact ⟨by omega, rfl⟩
      · rintro ⟨-, rfl⟩
        rfl

end Asn1.Time
