import Mathlib.Data.List.GetD
import Mathlib.Data.List.Induction
import Mathlib.Data.Nat.Bitwise
import Mathlib.Data.Nat.Digits.Lemmas
import Mathlib.Tactic.Ring
import Asn1.Octets

/-!
Base-256 digits. As many octets as a number has digits hold it in exactly one
way, so a number that is written comes back, and octets that are read are those
that writing their number gives.
-/

namespace Asn1.Octets

@[simp] theorem toNat_nil : toNat [] = 0 := rfl

@[simp] theorem toNat_concat (octets : Octets) (last : UInt8) :
    toNat (octets ++ [last]) = toNat octets * 256 + last.toNat := by
  simp [toNat]

theorem toNat_append (front back : Octets) :
    toNat (front ++ back) = toNat front * 256 ^ back.length + toNat back := by
  induction back using List.reverseRecOn with
  | nil => simp
  | append_singleton back last ih =>
    rw [← List.append_assoc, toNat_concat, toNat_concat, ih, List.length_append,
      List.length_singleton, pow_succ]
    ring

theorem toNat_cons (first : UInt8) (rest : Octets) :
    toNat (first :: rest) = first.toNat * 256 ^ rest.length + toNat rest := by
  have h := toNat_append [first] rest
  simpa [toNat] using h

theorem toNat_lt (octets : Octets) : toNat octets < 256 ^ octets.length := by
  induction octets using List.reverseRecOn with
  | nil => simp
  | append_singleton octets last ih =>
    have hlast := last.toNat_lt
    rw [toNat_concat, List.length_append, List.length_singleton, pow_succ]
    omega

theorem toNat_eq_ofDigits (octets : Octets) :
    toNat octets = Nat.ofDigits 256 (octets.reverse.map UInt8.toNat) := by
  induction octets using List.reverseRecOn with
  | nil => rfl
  | append_singleton octets last ih =>
    rw [toNat_concat, ih, List.reverse_concat, List.map_cons, Nat.ofDigits_cons]
    ring

theorem eq_of_toNat {a b : Octets} (hlength : a.length = b.length) (h : toNat a = toNat b) :
    a = b := by
  induction a using List.reverseRecOn generalizing b with
  | nil => exact (List.eq_nil_of_length_eq_zero hlength.symm).symm
  | append_singleton front last ih =>
    induction b using List.reverseRecOn with
    | nil => simp at hlength
    | append_singleton front' last' _ =>
      have hlast := last.toNat_lt
      have hlast' := last'.toNat_lt
      simp only [toNat_concat] at h
      simp only [List.length_append, List.length_singleton, Nat.add_right_cancel_iff] at hlength
      have hfront : front = front' := ih hlength (by omega)
      have hsame : last = last' := UInt8.toNat_inj.1 (by omega)
      rw [hfront, hsame]

/-- The bits of the number, from its most significant digit on, are those of the octets one after
the other. -/
theorem testBit_toNat (octets : Octets) {index : Nat} (h : index < octets.length * 8) :
    (toNat octets).testBit (octets.length * 8 - 1 - index) =
      (octets.getD (index / 8) 0).toNat.testBit (7 - index % 8) := by
  induction octets generalizing index with
  | nil => cases h
  | cons first rest ih =>
    have hbase : 256 ^ rest.length = 2 ^ (rest.length * 8) := by
      rw [Nat.mul_comm, Nat.pow_mul]
    have hrest : toNat rest < 2 ^ (rest.length * 8) := hbase ▸ toNat_lt rest
    rw [toNat_cons, hbase, Nat.mul_comm, Nat.testBit_two_pow_mul_add _ hrest]
    rw [List.length_cons] at h ⊢
    by_cases hfirst : index < 8
    · have hposition : (rest.length + 1) * 8 - 1 - index - rest.length * 8 = 7 - index % 8 := by
        omega
      rw [if_neg (by omega), hposition, Nat.div_eq_of_lt hfirst, List.getD_cons_zero]
    · have hnext : index / 8 = (index - 8) / 8 + 1 := by omega
      have hposition : (rest.length + 1) * 8 - 1 - index = rest.length * 8 - 1 - (index - 8) := by
        omega
      have hbit : index % 8 = (index - 8) % 8 := by omega
      rw [if_pos (by omega), hnext, List.getD_cons_succ, hposition, ih (by omega), hbit]

theorem ofNat_zero : ofNat 0 = [] := by
  rw [ofNat]
  rfl

theorem ofNat_of_ne_zero {n : Nat} (h : n ≠ 0) :
    ofNat n = ofNat (n / 256) ++ [UInt8.ofNat n] := by
  rw [ofNat, if_neg h]

@[simp] theorem toNat_ofNat (n : Nat) : toNat (ofNat n) = n := by
  fun_induction ofNat n with
  | case1 => rfl
  | case2 n _ ih =>
    rw [toNat_concat, ih, UInt8.toNat_ofNat']
    omega

theorem length_ofNat_pos {n : Nat} (h : n ≠ 0) : 0 < (ofNat n).length := by
  rw [ofNat_of_ne_zero h]
  simp

theorem ofNat_eq_digits (n : Nat) : ofNat n = ((Nat.digits 256 n).map UInt8.ofNat).reverse := by
  fun_induction ofNat n with
  | case1 => rfl
  | case2 n hn ih =>
    have hlast : UInt8.ofNat (n % 256) = UInt8.ofNat n := by
      apply UInt8.toNat_inj.1
      rw [UInt8.toNat_ofNat', UInt8.toNat_ofNat', Nat.mod_mod]
    rw [Nat.digits_def' (by decide) (Nat.pos_of_ne_zero hn), List.map_cons, List.reverse_cons,
      ← ih, hlast]

theorem length_ofNat (n : Nat) : (ofNat n).length = (Nat.digits 256 n).length := by
  rw [ofNat_eq_digits, List.length_reverse, List.length_map]

theorem length_ofNat_le {n width : Nat} (h : n < 256 ^ width) : (ofNat n).length ≤ width := by
  rw [length_ofNat, Nat.digits_length_le_iff (by decide)]
  exact h

@[simp] theorem length_ofNatWidth (width n : Nat) : (ofNatWidth width n).length = width := by
  induction width generalizing n with
  | zero => rfl
  | succ width ih => simp [ofNatWidth, ih]

theorem toNat_ofNatWidth (width n : Nat) : toNat (ofNatWidth width n) = n % 256 ^ width := by
  induction width generalizing n with
  | zero => simp [ofNatWidth, Nat.mod_one]
  | succ width ih =>
    rw [ofNatWidth, toNat_concat, ih, UInt8.toNat_ofNat', pow_succ 256, Nat.mul_comm (256 ^ width),
      Nat.mod_mul]
    omega

/-- Octets as few as their number has digits are those digits. -/
theorem eq_ofNat_of_length {octets : Octets} (h : octets.length = (ofNat (toNat octets)).length) :
    octets = ofNat (toNat octets) :=
  eq_of_toNat h (toNat_ofNat _).symm

/-- The bits of a number tell how many digits it has in a base that is a power of two. -/
theorem digitCount_eq_length_digits {width : Nat} (h : 0 < width) (n : Nat) :
    digitCount width n = (Nat.digits (2 ^ width) n).length := by
  have hbase : 1 < 2 ^ width := Nat.one_lt_two_pow (by omega)
  by_cases hn : n = 0
  · subst hn
    simp only [digitCount, bitCount, Nat.digits_zero, List.length_nil, if_true, Nat.zero_add]
    exact Nat.div_eq_of_lt (by omega)
  · calc
      digitCount width n = (n.log2 + width) / width := by
        rw [digitCount, bitCount, if_neg hn]
        congr 1
        omega
      _ = Nat.log 2 n / width + 1 := by rw [Nat.add_div_right _ h, Nat.log2_eq_log_two]
      _ = (Nat.digits (2 ^ width) n).length := by
        rw [Nat.length_digits _ _ hbase hn, Nat.log_pow_left]

end Asn1.Octets
