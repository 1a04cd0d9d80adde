import Asn1.Base128
import Asn1.Proofs.Octets

/-!
Base-128 numbers are read back from what writes them, and nothing else is read:
whatever a number was read from is its own encoding, the one row of groups for it
that does not begin with a zero.
-/

namespace Asn1.Base128

theorem leading_zero : leading 0 = [] := by
  rw [leading]
  rfl

theorem leading_of_ne_zero {n : Nat} (h : n ≠ 0) :
    leading n = leading (n / 128) ++ [UInt8.ofNat (n % 128 + 128)] := by
  rw [leading, if_neg h]

theorem leading_eq_nil_iff (n : Nat) : leading n = [] ↔ n = 0 := by
  constructor
  · intro h
    by_cases hn : n = 0
    · exact hn
    · rw [leading_of_ne_zero hn] at h
      simp at h
  · rintro rfl
    exact leading_zero

private theorem lt_high_iff (octet : UInt8) : octet < 0x80 ↔ octet.toNat < 128 :=
  UInt8.lt_iff_toNat_lt

private theorem high_le_iff (octet : UInt8) : 0x80 ≤ octet ↔ 128 ≤ octet.toNat :=
  UInt8.le_iff_toNat_le

private theorem toNat_lastGroup (n : Nat) : (UInt8.ofNat (n % 128)).toNat = n % 128 := by
  rw [UInt8.toNat_ofNat']
  omega

private theorem toNat_leadingGroup (n : Nat) :
    (UInt8.ofNat (n % 128 + 128)).toNat = n % 128 + 128 := by
  rw [UInt8.toNat_ofNat']
  omega

/-- One more group in front of the rest, as the reader sees it: the groups so
far and the next one are the groups of the number that they make together. -/
private theorem leading_snoc {value : Nat} {octet : UInt8} (hmore : ¬ octet < 0x80)
    (hnonzero : value * 128 + octet.toNat % 128 ≠ 0) :
    leading (value * 128 + octet.toNat % 128) = leading value ++ [octet] := by
  have hlow : 128 ≤ octet.toNat := (high_le_iff octet).1 (UInt8.not_lt.1 hmore)
  have hhigh := octet.toNat_lt
  have hquotient : (value * 128 + octet.toNat % 128) / 128 = value := by omega
  have hgroup : (value * 128 + octet.toNat % 128) % 128 + 128 = octet.toNat := by omega
  rw [leading_of_ne_zero hnonzero, hquotient, hgroup, UInt8.ofNat_toNat]

/-- Reading resumes after the groups of `m`, whatever follows them. -/
private theorem decode_leading {limit m : Nat} (hm : m ≤ limit / 128) (rest : Octets) :
    decode limit (leading m ++ rest) = decodeFrom limit m (leading m).length rest := by
  fun_induction leading m generalizing rest with
  | case1 => rfl
  | case2 m hm' ih =>
    have hoctet := toNat_leadingGroup m
    have hmore : ¬ UInt8.ofNat (m % 128 + 128) < 0x80 := by
      rw [lt_high_iff, hoctet]
      omega
    have hfirst : ¬ ((leading (m / 128)).length = 0 ∧ UInt8.ofNat (m % 128 + 128) = 0x80) := by
      rintro ⟨hempty, heq⟩
      have hsmall : m / 128 = 0 :=
        (leading_eq_nil_iff _).1 (List.eq_nil_of_length_eq_zero hempty)
      have := congrArg UInt8.toNat heq
      rw [hoctet] at this
      simp at this
      omega
    have hvalue : m / 128 * 128 + (UInt8.ofNat (m % 128 + 128)).toNat % 128 = m := by
      rw [hoctet]
      omega
    rw [List.append_assoc, ih (by omega), List.singleton_append, decodeFrom, if_neg hfirst,
      if_neg (by omega), if_neg hmore, hvalue, List.length_append, List.length_singleton]

theorem decode_encode {limit n : Nat} (h : n ≤ limit) (rest : Octets) :
    decode limit (encode n ++ rest) = .ok (n, rest) := by
  have hlast := toNat_lastGroup n
  have hfirst : ¬ ((leading (n / 128)).length = 0 ∧ UInt8.ofNat (n % 128) = 0x80) := by
    rintro ⟨-, heq⟩
    have := congrArg UInt8.toNat heq
    rw [hlast] at this
    simp at this
    omega
  have hdone : UInt8.ofNat (n % 128) < 0x80 := by
    rw [lt_high_iff, hlast]
    omega
  have hvalue : n / 128 * 128 + (UInt8.ofNat (n % 128)).toNat = n := by
    rw [hlast]
    omega
  rw [encode, List.append_assoc, decode_leading (Nat.div_le_div_right h),
    List.singleton_append, decodeFrom, if_neg hfirst, if_neg (by omega), if_pos hdone, hvalue]

/-- The groups that were read before come back in front of the encoding; a group
before `octets` is never zero on its own. -/
private theorem encode_of_decodeFrom {limit value count n : Nat} {octets rest : Octets}
    (hlimit : limit % 128 = 127) (hvalue : count = 0 ↔ value = 0)
    (h : decodeFrom limit value count octets = .ok (n, rest)) :
    leading value ++ octets = encode n ++ rest ∧ n ≤ limit := by
  induction octets generalizing value count with
  | nil => simp [decodeFrom] at h
  | cons octet tail ih =>
    simp only [decodeFrom] at h
    split at h
    · cases h
    · rename_i hfirst
      split at h
      · cases h
      · rename_i hfits
        split at h
        · rename_i hlast
          cases h
          have hsmall : octet.toNat < 128 := (lt_high_iff octet).1 hlast
          have hquotient : (value * 128 + octet.toNat) / 128 = value := by omega
          have hgroup : (value * 128 + octet.toNat) % 128 = octet.toNat := by omega
          constructor
          · rw [encode, hquotient, hgroup, UInt8.ofNat_toNat]
            simp
          · omega
        · rename_i hmore
          have hnonzero : value * 128 + octet.toNat % 128 ≠ 0 := by
            intro hzero
            have hlow : 128 ≤ octet.toNat := (high_le_iff octet).1 (UInt8.not_lt.1 hmore)
            have hhigh := octet.toNat_lt
            apply hfirst
            refine ⟨hvalue.2 (by omega), UInt8.toNat_inj.1 ?_⟩
            show octet.toNat = 128
            omega
          have hrest := ih (by omega) h
          rw [leading_snoc hmore hnonzero, List.append_assoc] at hrest
          exact hrest

/-- What a number is read from is its encoding and nothing shorter or longer. -/
theorem encode_of_decode {limit n : Nat} {octets rest : Octets} (hlimit : limit % 128 = 127)
    (h : decode limit octets = .ok (n, rest)) : octets = encode n ++ rest ∧ n ≤ limit := by
  have hread := encode_of_decodeFrom hlimit (by omega) h
  rw [leading_zero] at hread
  exact hread

/-- The groups of one number and nothing behind them. The first group is not zero unless it is
the only one. -/
def Minimal (octets : Octets) : Prop :=
  octets.head? ≠ some 0x80 ∧
    ∃ front last, octets = front ++ [last] ∧ (∀ octet ∈ front, 0x80 ≤ octet) ∧ last < 0x80

/-- The number whose base-128 digits the groups are, most significant first. -/
def value (octets : Octets) : Nat :=
  Nat.ofDigits 128 (octets.reverse.map fun octet => octet.toNat % 128)

@[simp] theorem value_concat (front : Octets) (last : UInt8) :
    value (front ++ [last]) = value front * 128 + last.toNat % 128 := by
  rw [value, List.reverse_concat, List.map_cons, Nat.ofDigits_cons, ← value]
  ring

private theorem head?_concat (front : Octets) (last : UInt8) :
    (front ++ [last]).head? = if front = [] then some last else front.head? := by
  cases front with
  | nil => rfl
  | cons first rest => rfl

/-- Without its last octet a row begins as before, or it is empty. -/
private theorem head?_of_concat {front : Octets} {last first : UInt8}
    (h : (front ++ [last]).head? ≠ some first) : front.head? ≠ some first := by
  rw [head?_concat] at h
  split at h
  · rename_i hempty
    simp [hempty]
  · exact h

theorem eq_leading_iff (front : Octets) (n : Nat) :
    front = leading n ↔
      front.head? ≠ some 0x80 ∧ (∀ octet ∈ front, 0x80 ≤ octet) ∧ value front = n := by
  constructor
  · rintro rfl
    fun_induction leading n with
    | case1 => exact ⟨by simp, by simp, rfl⟩
    | case2 n hn ih =>
      obtain ⟨hhead, hhigh, hvalue⟩ := ih
      have hoctet := toNat_leadingGroup n
      refine ⟨?_, ?_, ?_⟩
      · rw [head?_concat]
        split
        · rename_i hempty
          have hsmall : n / 128 = 0 := (leading_eq_nil_iff _).1 hempty
          intro heq
          have := congrArg UInt8.toNat (Option.some.inj heq)
          rw [hoctet] at this
          simp at this
          omega
        · exact hhead
      · intro octet hmem
        rcases List.mem_append.1 hmem with hfront | hlast
        · exact hhigh octet hfront
        · rw [List.mem_singleton.1 hlast, high_le_iff, hoctet]
          omega
      · rw [value_concat, hvalue, hoctet]
        omega
  · induction front using List.reverseRecOn generalizing n with
    | nil =>
      rintro ⟨-, -, rfl⟩
      exact leading_zero.symm
    | append_singleton front octet ih =>
      rintro ⟨hhead, hhigh, rfl⟩
      have hoctet : 0x80 ≤ octet := hhigh octet (by simp)
      have hlow := (high_le_iff octet).1 hoctet
      have hfront : front = leading (value front) :=
        ih _ ⟨head?_of_concat hhead, fun octet hmem => hhigh octet (List.mem_append_left _ hmem), rfl⟩
      have hnonzero : value front * 128 + octet.toNat % 128 ≠ 0 := by
        intro hzero
        have hempty : front = [] := by
          rw [hfront, leading_eq_nil_iff]
          omega
        have hhighest := octet.toNat_lt
        rw [head?_concat, if_pos hempty] at hhead
        apply hhead
        rw [Option.some.injEq, ← UInt8.toNat_inj]
        show octet.toNat = 128
        omega
      rw [value_concat, leading_snoc (UInt8.not_lt.2 hoctet) hnonzero, ← hfront]

/-- What is written for a number is the one minimal row of groups with that value. -/
theorem eq_encode_iff (octets : Octets) (n : Nat) :
    octets = encode n ↔ Minimal octets ∧ value octets = n := by
  constructor
  · rintro rfl
    obtain ⟨hhead, hhigh, hvalue⟩ := (eq_leading_iff (leading (n / 128)) _).1 rfl
    have hlast := toNat_lastGroup n
    have hends : UInt8.ofNat (n % 128) < 0x80 := by
      rw [lt_high_iff, hlast]
      omega
    refine ⟨⟨?_, _, _, rfl, hhigh, hends⟩, ?_⟩
    · rw [encode, head?_concat]
      split
      · intro heq
        rw [Option.some.inj heq] at hends
        exact absurd hends (by decide)
      · exact hhead
    · rw [encode, value_concat, hvalue, hlast]
      omega
  · rintro ⟨⟨hhead, front, last, rfl, hhigh, hlast⟩, rfl⟩
    have hsmall : last.toNat < 128 := (lt_high_iff last).1 hlast
    have hfront : front = leading (value front) :=
      (eq_leading_iff _ _).2 ⟨head?_of_concat hhead, hhigh, rfl⟩
    have hquotient : (value front * 128 + last.toNat % 128) / 128 = value front := by omega
    have hgroup : (value front * 128 + last.toNat % 128) % 128 = last.toNat := by omega
    rw [value_concat, encode, hquotient, hgroup, ← hfront, UInt8.ofNat_toNat]

theorem length_leading (n : Nat) : (leading n).length = (Nat.digits 128 n).length := by
  fun_induction leading n with
  | case1 => rfl
  | case2 n hn ih =>
    rw [Nat.digits_def' (by decide) (Nat.pos_of_ne_zero hn), List.length_append,
      List.length_singleton, List.length_cons, ih]

/-- The bits of a number tell how many groups it has. -/
theorem length_encode {n : Nat} (h : n ≠ 0) : (encode n).length = Octets.digitCount 7 n := by
  rw [encode, List.length_append, List.length_singleton, length_leading,
    Octets.digitCount_eq_length_digits (by decide),
    Nat.digits_def' (by decide) (Nat.pos_of_ne_zero h), List.length_cons]
  rfl

end Asn1.Base128
