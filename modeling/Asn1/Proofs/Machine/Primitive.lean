import Asn1.Machine.Primitive
import Asn1.Proofs.BitString
import Asn1.Proofs.Integer
import Asn1.Proofs.Machine.Time
import Asn1.Proofs.ObjectIdentifier

/-!
Reading content without parts does not fault. What is at the front or at the end of content has
been seen to be there, and numbers stop growing before they no longer fit.
-/

namespace Asn1.Machine

namespace Integer

open Asn1.Integer (signedValue)

theorem repeatsSign_eq {octets : Octets} (h : 1 < octets.length) :
    repeatsSign octets = some (Asn1.Integer.repeatsSign octets) := by
  match octets, h with
  | _ :: _ :: _, _ => rfl

theorem shorten_eq (size : Nat) (octets : Octets) :
    shorten size octets = settled (if 8 < (Asn1.Integer.shorten 8 octets).length then
      .error (.integerTooLarge size) else .ok (Asn1.Integer.shorten 8 octets)) := by
  induction octets with
  | nil =>
    rw [shorten]
    rfl
  | cons octet rest ih =>
    rw [shorten, Asn1.Integer.shorten, List.length_cons]
    by_cases hfew : rest.length + 1 ≤ 8
    · have hkept : ¬ (8 < rest.length + 1 ∧
          Asn1.Integer.repeatsSign (octet :: rest) = true) := by omega
      have hsmall : ¬ 8 < rest.length + 1 := Nat.not_lt.2 hfew
      simp [hfew, hsmall]
    · have hsize : 1 < (octet :: rest).length := by
        rw [List.length_cons]
        omega
      have hslice : slice (octet :: rest) 1 (rest.length + 1) = some rest := by
        rw [← List.length_cons, slice_to_end (by omega), List.drop_one, List.tail_cons]
      have hmany : 8 < rest.length + 1 := by omega
      simp only [if_neg hfew, repeatsSign_eq hsize, lift_some, settled_ok_bind, hmany, true_and]
      split
      · split
        · rename_i hnone
          rw [hslice] at hnone
          cases hnone
        · rename_i rest' hrest
          rw [hslice] at hrest
          cases hrest
          exact ih
      · rw [List.length_cons, if_pos hmany]
        rfl

theorem signed_of_range {n : Int} (h : -(256 ^ 8 : Nat) ≤ 2 * n ∧ 2 * n < (256 ^ 8 : Nat)) :
    signed n = some n := by
  have hlow : Int64.minValue.toInt = -9223372036854775808 := rfl
  have hhigh : Int64.maxValue.toInt = 9223372036854775807 := rfl
  rw [signed, hlow, hhigh]
  refine if_pos ?_
  omega

theorem signedValue_singleton (first : UInt8) :
    signedValue [first] = (if 0x80 ≤ first then -1 else 0) * 256 + first.toNat := by
  by_cases hsign : first.toNat < 128
  · have hsmall : ¬ 0x80 ≤ first := by simpa [UInt8.le_iff_toNat_le] using hsign
    rw [Asn1.Integer.signedValue_of_small hsign, if_neg hsmall]
    simp
  · have hlarge : 0x80 ≤ first := by simpa [UInt8.le_iff_toNat_le] using hsign
    rw [Asn1.Integer.signedValue_of_large (by omega), if_pos hlarge]
    simp
    omega

theorem signedValue_concat (first last : UInt8) (middle : Octets) :
    signedValue (first :: (middle ++ [last])) =
      signedValue (first :: middle) * 256 + last.toNat := by
  have hvalue : Octets.toNat (first :: (middle ++ [last])) =
      Octets.toNat (first :: middle) * 256 + last.toNat :=
    Octets.toNat_concat (first :: middle) last
  have hwidth : 256 ^ (first :: (middle ++ [last])).length =
      256 ^ (first :: middle).length * 256 := by
    rw [List.length_cons, List.length_append, List.length_singleton, List.length_cons, pow_succ]
  rw [Asn1.Integer.signedValue_eq, Asn1.Integer.signedValue_eq, hvalue, hwidth, List.headD_cons,
    List.headD_cons]
  generalize 256 ^ (first :: middle).length = width
  by_cases hsign : first < 0x80
  · rw [if_pos hsign, if_pos hsign]
    omega
  · rw [if_neg hsign, if_neg hsign]
    omega

/-- Every octet is put behind a number that has room for eight bits more. -/
theorem value_eq {digits : Octets} (hsome : digits ≠ []) (hfew : digits.length ≤ 8) :
    value digits = some (signedValue digits) := by
  obtain ⟨first, rest, rfl⟩ := List.exists_cons_of_ne_nil hsome
  have hfits : ∀ front : Octets, (first :: front).length ≤ 8 →
      signed (signedValue (first :: front)) = some (signedValue (first :: front)) := by
    intro front hfront
    have hrange := Asn1.Integer.signedValue_range (List.cons_ne_nil first front)
    have hwidth : 256 ^ (first :: front).length ≤ 256 ^ 8 := Nat.pow_le_pow_right (by omega) hfront
    exact signed_of_range (by omega)
  simp only [value, List.getElem?_cons_zero, Option.bind_eq_bind, Option.bind_some]
  induction rest using List.reverseRecOn with
  | nil =>
    rw [List.foldlM_cons, ← signedValue_singleton, hfits [] hfew]
    rfl
  | append_singleton middle last ih =>
    have hshorter : (first :: middle).length ≤ 8 := by
      simp only [List.length_cons, List.length_append] at hfew ⊢
      omega
    rw [← List.cons_append, List.foldlM_append, ih (List.cons_ne_nil _ _) hshorter]
    simp only [Option.bind_eq_bind, Option.bind_some, List.foldlM_cons, List.foldlM_nil]
    rw [← signedValue_concat, hfits _ hfew]
    rfl

theorem refused_eq {rules : Rules} {content : Octets} :
    refused rules content =
      some (decide (rules = .distinguished ∧ Asn1.Integer.repeatsSign content = true)) := by
  rw [refused]
  match content with
  | [] => simp [Asn1.Integer.repeatsSign]
  | [_] => simp [Asn1.Integer.repeatsSign]
  | first :: second :: rest =>
    have hmany : 1 < (first :: second :: rest).length := by simp
    rw [repeatsSign_eq hmany]
    by_cases hrules : rules = .distinguished <;> simp [hrules]

theorem decode_eq (rules : Rules) (content : Octets) :
    decode rules content = settled (Asn1.Integer.decode rules content) := by
  rw [decode, Asn1.Integer.decode]
  split
  · rfl
  · rename_i hcontent
    have hsome : content ≠ [] := by simpa using hcontent
    simp only [refused_eq, lift_some, settled_ok_bind, decide_eq_true_eq]
    split
    · rfl
    · rw [shorten_eq]
      split
      · rfl
      · rename_i hfew
        have hvalue := value_eq (Asn1.Integer.shorten_ne_nil hsome) (Nat.not_lt.1 hfew)
        simp only [hvalue, lift_some, settled_ok_bind]
        rfl

end Integer

theorem unusedBits_eq {unused : Nat} {octets : Octets} (hunused : unused ≤ 7)
    (hsome : octets ≠ []) :
    unusedBits unused octets = some ((octets.getLastD 0).toNat % Nat.pow 2 unused) := by
  have hpower : Nat.pow 2 unused ≤ 2 ^ 7 := Nat.pow_le_pow_right (by omega) hunused
  have hpositive : 0 < Nat.pow 2 unused := Nat.two_pow_pos _
  have hsize : UInt8.size = 256 := rfl
  have hmask : sub (1 * Nat.pow 2 unused + 0) 1 = some (Nat.pow 2 unused - 1) := by
    rw [sub_of_le (by omega), Nat.one_mul, Nat.add_zero]
  have hlast : octets.getLastD 0 = octets.getLast hsome := by
    rw [List.getLastD_eq_getLast?, List.getLast?_eq_some_getLast hsome, Option.getD_some]
  have hbits : (octets.getLast hsome).toNat &&& (Nat.pow 2 unused - 1) =
      (octets.getLast hsome).toNat % Nat.pow 2 unused := Nat.and_two_pow_sub_one_eq_mod _ _
  rw [unusedBits, push_of_lt (by omega), Option.bind_eq_bind, Option.bind_some, hmask, hlast,
    final_of_ne_nil hsome, ← hbits]
  rfl

/-- The octets are not looked at before there is something to look at. -/
theorem bitString_eq (rules : Rules) (content : Octets) :
    bitString rules content = settled (BitString.decode rules content) := by
  cases content with
  | nil => rfl
  | cons unused octets =>
    rw [bitString, BitString.decode, BitString.decode]
    by_cases hunused : 7 < unused.toNat
    · simp only [dif_pos hunused]
      rfl
    · by_cases hempty : octets = [] ∧ unused.toNat ≠ 0
      · simp only [dif_neg hunused, dif_pos hempty]
        rfl
      · simp only [dif_neg hunused, dif_neg hempty, reduceCtorEq, false_and, if_false,
          settled_ok_bind]
        by_cases hpadded : rules = .distinguished ∧ unused.toNat ≠ 0
        · have hsome : octets ≠ [] := fun h => hempty ⟨h, hpadded.2⟩
          rw [if_pos hpadded, unusedBits_eq (Nat.not_lt.1 hunused) hsome]
          simp only [lift_some, settled_ok_bind, hpadded.1, true_and]
          split <;> rfl
        · have hunpadded : ¬ (rules = .distinguished ∧
              (octets.getLastD 0).toNat % Nat.pow 2 unused.toNat ≠ 0) := by
            rintro ⟨hrules, hbits⟩
            refine hpadded ⟨hrules, fun hzero => hbits ?_⟩
            rw [hzero]
            exact Nat.mod_one _
          simp only [if_neg hpadded, if_neg hunpadded]
          rfl

namespace Identifier

open Asn1.ObjectIdentifier (arcLimit arcMalformation decodeArcs)

/-- Inside a number the groups of which do not all carry on, the machine reads it to its end. -/
theorem arcs_eq_decodeFrom {octets : Octets} (hsome : octets ≠ [])
    (hlast : ∀ last ∈ octets.getLast?, last < 0x80) (packed : List UInt64) (current count : Nat) :
    arcs packed current (count == 0) octets =
      match Base128.decodeFrom arcLimit current count octets with
      | .error (_, fault) => settled (.error (arcMalformation fault))
      | .ok (arc, rest) => arcs (packed ++ [UInt64.ofNat arc]) 0 true rest := by
  induction octets generalizing current count with
  | nil => exact absurd rfl hsome
  | cons octet rest ih =>
    simp only [arcs, Base128.decodeFrom, beq_iff_eq]
    split
    · rfl
    · split
      · rfl
      · rename_i hfits
        have hlimit := ObjectIdentifier.arcLimit_eq
        have hsize : UInt64.size = 18446744073709551616 := rfl
        rw [push_of_lt (by omega)]
        simp only [lift_some, settled_ok_bind]
        split
        · rename_i hend
          have hoctet : octet.toNat < 128 := by simpa [UInt8.lt_iff_toNat_lt] using hend
          rw [Nat.mod_eq_of_lt hoctet]
        · rename_i hmore
          have hrest : rest ≠ [] := by
            rintro rfl
            exact hmore (hlast octet rfl)
          have hlast' : ∀ last ∈ rest.getLast?, last < 0x80 := by
            intro last hmem
            exact hlast last (by rw [List.getLast?_cons_of_ne_nil hrest]; exact hmem)
          exact ih hrest hlast' _ (count + 1)

theorem arcs_of_decode {octets rest : Octets} {arc : Nat}
    (hlast : ∀ last ∈ octets.getLast?, last < 0x80)
    (hread : Base128.decode arcLimit octets = .ok (arc, rest)) (packed : List UInt64) :
    arcs packed 0 true octets = arcs (packed ++ [UInt64.ofNat arc]) 0 true rest ∧
      ∀ last ∈ rest.getLast?, last < 0x80 := by
  constructor
  · have hsome : octets ≠ [] := List.ne_nil_of_length_pos
      (Nat.lt_of_le_of_lt (Nat.zero_le _) (Base128.decode_shortens hread))
    have hnumber := arcs_eq_decodeFrom hsome hlast packed 0 0
    rw [Base128.decode] at hread
    rw [hread] at hnumber
    exact hnumber
  · intro last hmem
    have hfront := (Base128.encode_of_decode ObjectIdentifier.arcLimit_groups hread).1
    refine hlast last ?_
    rw [hfront, List.getLast?_append, Option.mem_def.1 hmem]
    rfl

theorem arcs_eq {content : Octets} (hlast : ∀ last ∈ content.getLast?, last < 0x80)
    (packed : List UInt64) :
    arcs packed 0 true content = settled ((decodeArcs content).map (packed ++ ·)) := by
  fun_induction decodeArcs content generalizing packed with
  | case1 content hempty =>
    rw [List.isEmpty_iff] at hempty
    subst hempty
    simp [arcs, Except.map]
  | case2 content hsome count fault hread =>
    have hnumber := arcs_eq_decodeFrom (by simpa using hsome) hlast packed 0 0
    rw [Base128.decode] at hread
    rw [hread] at hnumber
    exact hnumber
  | case3 content hsome arc rest hread cause hfails ih =>
    obtain ⟨hstep, hlast⟩ := arcs_of_decode hlast hread packed
    rw [hstep, ih hlast, hfails]
    rfl
  | case4 content hsome arc rest hread more hmore ih =>
    obtain ⟨hstep, hlast⟩ := arcs_of_decode hlast hread packed
    rw [hstep, ih hlast, hmore]
    simp [Except.map]

/-- There is a number for some of the octets, and never more than one for an octet. -/
theorem length_of_decodeArcs {content : Octets} {packed : List UInt64}
    (h : decodeArcs content = .ok packed) :
    packed.length ≤ content.length ∧ (content ≠ [] → packed ≠ []) := by
  fun_induction decodeArcs content generalizing packed with
  | case1 content hempty =>
    cases h
    exact ⟨Nat.zero_le _, fun hsome => absurd (List.isEmpty_iff.1 hempty) hsome⟩
  | case2 => cases h
  | case3 => cases h
  | case4 content hsome arc rest hread more hmore ih =>
    cases h
    have hshort := Base128.decode_shortens hread
    have hrest := (ih hmore).1
    refine ⟨?_, fun _ => List.cons_ne_nil _ _⟩
    rw [List.length_cons]
    omega

theorem unpack_eq (packed : UInt64) : unpack packed = some (ObjectIdentifier.unpack packed) := by
  have hless : ∀ less : UInt64, ¬ packed < less →
      sub packed.toNat less.toNat = some (packed - less).toNat := by
    intro less h
    have hle : less ≤ packed := UInt64.not_lt.1 h
    rw [sub_of_le (UInt64.le_iff_toNat_le.1 hle), UInt64.toNat_sub_of_le _ _ hle]
  rw [unpack, ObjectIdentifier.unpack]
  split
  · rfl
  · rename_i hforty
    split
    · rw [show 40 = (40 : UInt64).toNat from rfl, hless 40 hforty, Option.map_some,
        UInt64.ofNat_toNat]
    · rename_i height
      rw [show 80 = (80 : UInt64).toNat from rfl, hless 80 height, Option.map_some,
        UInt64.ofNat_toNat]

theorem decode_eq {content : Octets} (hshort : content.length + 1 < wordLimit) :
    decode content = settled (ObjectIdentifier.decode content) := by
  rw [decode, ObjectIdentifier.decode]
  split
  · rfl
  · rename_i hcontent
    have hsome : content ≠ [] := by simpa using hcontent
    have hlast : content.getLastD 0 = content.getLast hsome := by
      rw [List.getLastD_eq_getLast?, List.getLast?_eq_some_getLast hsome, Option.getD_some]
    simp only [final_of_ne_nil hsome, lift_some, settled_ok_bind, hlast]
    split
    · rfl
    · rename_i hend
      have hends : ∀ last ∈ content.getLast?, last < 0x80 := by
        intro last hmem
        rw [List.getLast?_eq_some_getLast hsome, Option.mem_def, Option.some.injEq] at hmem
        rw [← hmem]
        exact UInt8.not_le.1 hend
      rw [arcs_eq hends]
      cases harcs : decodeArcs content with
      | error cause => rfl
      | ok packed =>
        obtain ⟨hfew, hfirst⟩ := length_of_decodeArcs harcs
        obtain ⟨first, rest, rfl⟩ := List.exists_cons_of_ne_nil (hfirst hsome)
        have hslice : slice (first :: rest) 1 (first :: rest).length = some rest := by
          rw [slice_to_end (by simp), List.drop_one, List.tail_cons]
        simp only [Except.map, List.nil_append, settled_ok_bind, List.getElem?_cons_zero,
          lift_some, unpack_eq, add_of_lt (by omega : (first :: rest).length + 1 < wordLimit),
          hslice, pure_eq_settled]

end Identifier

theorem primitive_eq (before : Primitive) (rules : Rules) {content : Octets}
    (hshort : content.length + 2 < wordLimit) :
    primitive before rules content = settled (before.decode rules content) := by
  have hidentifier : content.length + 1 < wordLimit := by omega
  cases before with
  | boolean => exact settled_map _ _
  | integer | enumerated => simp only [primitive, Primitive.decode, Integer.decode_eq,
      pure_eq_settled, settled_map]
  | bitString => simp only [primitive, Primitive.decode, bitString_eq, pure_eq_settled, settled_map]
  | octetString => rfl
  | null =>
    simp only [primitive, Primitive.decode]
    split <;> rfl
  | objectIdentifier => simp only [primitive, Primitive.decode, Identifier.decode_eq hidentifier,
      pure_eq_settled, settled_map]
  | characterString => exact settled_map _ _
  | utcTime => simp only [primitive, Primitive.decode, Utc.decode_eq rules hshort,
      pure_eq_settled, settled_map]
  | generalizedTime => simp only [primitive, Primitive.decode, Generalized.decode_eq rules hshort,
      pure_eq_settled, settled_map]

end Asn1.Machine
