import Asn1.Kerberos.Flags
import Asn1.Proofs.BitString.SetBit
import Asn1.Proofs.Kerberos.Structure

/-!
Flag words as bit strings. A word is the string of its 32 bits, and both change alike, so a flag
is a bit that is shown, whether it is looked for in the word or in the string.
-/

namespace Asn1.Kerberos.KerberosFlags

theorem length_toBitString (flags : KerberosFlags) : flags.toBitString.octets.length = 4 :=
  Octets.length_ofNatWidth _ _

theorem size_toBitString (flags : KerberosFlags) : flags.toBitString.size = 32 := by
  rw [BitString.size, length_toBitString]
  rfl

theorem stored_toBitString (flags : KerberosFlags) (position : Nat) :
    flags.toBitString.stored position =
      (decide (position < 32) && flags.word.toNat.testBit (31 - position)) :=
  BitString.stored_ofUInt32 _ _

theorem mask_of_le {position : Nat} (h : 32 ≤ position) : mask position = 0 :=
  if_neg (Nat.not_lt.2 h)

theorem toNat_mask {position : Nat} (h : position < 32) :
    (mask position).toNat = 2 ^ (31 - position) := by
  have hsmall : 2 ^ (31 - position) < 2 ^ 32 := Nat.pow_lt_pow_right (by decide) (by omega)
  rw [mask, if_pos h, UInt32.toNat_ofNat', Nat.pow_eq, Nat.mod_eq_of_lt hsmall]

/-- A flag is a bit of the string. -/
theorem contains_eq_bit (flags : KerberosFlags) (position : Nat) :
    flags.contains position = flags.toBitString.bit position := by
  rw [BitString.bit_eq, size_toBitString, stored_toBitString, ← Bool.and_assoc, Bool.and_self,
    contains]
  by_cases hinside : position < 32
  · have hzero : flags.word &&& mask position = 0 ↔
        flags.word.toNat.testBit (31 - position) = false := by
      rw [← UInt32.toNat_inj, UInt32.toNat_and, toNat_mask hinside, Nat.and_two_pow]
      simp
    rw [decide_eq_true hinside, Bool.true_and]
    cases hbit : flags.word.toNat.testBit (31 - position) with
    | false => simp [hzero.2 hbit]
    | true => simp [hzero, hbit]
  · rw [mask_of_le (Nat.le_of_not_lt hinside), decide_eq_false hinside]
    simp

theorem toBitString_injective {a b : KerberosFlags} (h : a.toBitString = b.toBitString) :
    a = b := by
  have hnumber := congrArg (fun bits => Octets.toNat bits.octets) h
  simp only [toBitString, BitString.toNat_ofUInt32] at hnumber
  exact congrArg mk (UInt32.toNat_inj.1 hnumber)

/-- Words with the same flags are the same. -/
theorem eq_of_contains {a b : KerberosFlags}
    (h : ∀ position, position < 32 → a.contains position = b.contains position) : a = b := by
  apply toBitString_injective
  apply BitString.eq_of_stored
  · rw [length_toBitString, length_toBitString]
  · rfl
  · intro position
    by_cases hinside : position < 32
    · have hflag := h position hinside
      rw [contains_eq_bit, contains_eq_bit, BitString.bit_eq, BitString.bit_eq, size_toBitString,
        size_toBitString, decide_eq_true hinside, Bool.true_and, Bool.true_and] at hflag
      exact hflag
    · rw [stored_toBitString, stored_toBitString, decide_eq_false hinside, Bool.false_and,
        Bool.false_and]

theorem set_of_le {position : Nat} (h : 32 ≤ position) (flags : KerberosFlags) (on : Bool) :
    flags.set position on = flags := by
  rw [set, mask_of_le h]
  cases on <;> simp

/-- The word and the string take a change of a flag alike. -/
theorem toBitString_set {position : Nat} (h : position < 32) (flags : KerberosFlags) (on : Bool) :
    (flags.set position on).toBitString = flags.toBitString.setBit position on := by
  -- the string has all positions of the word already, so it does not grow
  have henough : position + 1 ≤ flags.toBitString.size := by
    rw [size_toBitString]
    exact h
  have hgrow : flags.toBitString.grow (position + 1) = flags.toBitString := if_pos henough
  apply BitString.eq_of_stored
  · simp only [BitString.setBit, hgrow, List.length_modify, length_toBitString]
  · simp only [BitString.setBit, hgrow]
    rfl
  · intro index
    rw [BitString.stored_setBit, stored_toBitString, stored_toBitString]
    have hword : (flags.set position on).word.toBitVec =
        if on then flags.word.toBitVec ||| (mask position).toBitVec
        else flags.word.toBitVec &&& ~~~(mask position).toBitVec := by
      cases on <;> rfl
    have hchange := BitString.testBit_change flags.word.toBitVec (mask position).toBitVec
      (toNat_mask h) on (31 - index)
    rw [← hword, UInt32.toNat_toBitVec, UInt32.toNat_toBitVec] at hchange
    rw [hchange]
    by_cases hinside : index < 32
    · have hsame : 31 - index = 31 - position ↔ index = position := by omega
      simp only [decide_eq_true hinside, Bool.true_and, hsame]
    · have hother : index ≠ position := by omega
      rw [decide_eq_false hinside, if_neg hother, Bool.false_and, Bool.false_and]

/-- Flags set one after the other, each named with its value. -/
def setAll (flags : KerberosFlags) (changes : List (Nat × Bool)) : KerberosFlags :=
  changes.foldl (fun flags change => flags.set change.1 change.2) flags

/-- In a run of changes the string leaves out those that no flag answers to. -/
theorem toBitString_setAll (flags : KerberosFlags) (changes : List (Nat × Bool)) :
    (flags.setAll changes).toBitString =
      flags.toBitString.setBits (changes.filter fun change => change.1 < 32) := by
  induction changes generalizing flags with
  | nil => rfl
  | cons change changes ih =>
    have hrest := ih (flags.set change.1 change.2)
    by_cases hinside : change.1 < 32
    · rw [List.filter_cons_of_pos (by simpa using hinside)]
      rw [toBitString_set hinside] at hrest
      exact hrest
    · rw [List.filter_cons_of_neg (by simpa using hinside)]
      rw [set_of_le (Nat.le_of_not_lt hinside)] at hrest
      rw [setAll, List.foldl_cons, set_of_le (Nat.le_of_not_lt hinside)]
      exact hrest

theorem contains_set {position : Nat} (h : position < 32) (flags : KerberosFlags) (on : Bool)
    (other : Nat) :
    (flags.set position on).contains other =
      if other = position then on else flags.contains other := by
  have hunseen : ¬ (flags.toBitString.size ≤ other ∧ other < position) := by
    rw [size_toBitString]
    omega
  rw [contains_eq_bit, contains_eq_bit, toBitString_set h, BitString.bit_setBit,
    decide_eq_false hunseen, Bool.false_and, Bool.or_false]

/-- Masks put together are the flags at their positions. -/
theorem contains_foldl_mask (positions : List Nat) (word : UInt32) (position : Nat)
    (h : ∀ position ∈ positions, position < 32) :
    contains ⟨positions.foldl (fun word position => word ||| mask position) word⟩ position =
      (contains ⟨word⟩ position || decide (position ∈ positions)) := by
  induction positions generalizing word with
  | nil => simp
  | cons first positions ih =>
    obtain ⟨hfirst, hrest⟩ := List.forall_mem_cons.1 h
    have hset := contains_set hfirst ⟨word⟩ true position
    rw [List.foldl_cons, ih (word ||| mask first) hrest]
    have hword : (⟨word ||| mask first⟩ : KerberosFlags) = set ⟨word⟩ first true := rfl
    rw [hword, hset]
    by_cases hsame : position = first
    · simp [hsame]
    · simp [hsame]

/-- What is read has the flags that the string shows among its first 32 bits. -/
theorem contains_ofBitString (bits : BitString) (position : Nat) :
    (ofBitString bits).contains position = (decide (position < 32) && bits.bit position) := by
  have hsmall : ∀ position ∈ (List.range (min bits.size 32)).filter bits.bit, position < 32 := by
    intro position hposition
    have hrange := List.mem_range.1 (List.mem_filter.1 hposition).1
    omega
  have hnone : contains ⟨0⟩ position = false := by simp [contains]
  have hshown : bits.bit position = true → position < bits.size := by
    rw [BitString.bit_eq, Bool.and_eq_true, decide_eq_true_iff]
    exact And.left
  rw [ofBitString, contains_foldl_mask _ _ _ hsmall, hnone, Bool.false_or, Bool.eq_iff_iff]
  simp only [List.mem_filter, List.mem_range, decide_eq_true_iff, Bool.and_eq_true, Nat.lt_min]
  constructor
  · rintro ⟨⟨-, hinside⟩, hbit⟩
    exact ⟨hinside, hbit⟩
  · rintro ⟨hinside, hbit⟩
    exact ⟨⟨hshown hbit, hinside⟩, hbit⟩

theorem ofBitString_toBitString (flags : KerberosFlags) :
    ofBitString flags.toBitString = flags := by
  apply eq_of_contains
  intro position hinside
  rw [contains_ofBitString, decide_eq_true hinside, Bool.true_and, contains_eq_bit]

/-- The first octet of the content says that all bits of the other four are used. -/
theorem element_toBitString (flags : KerberosFlags) :
    Tlv.encode .bitString flags.toBitString.encode =
      3 :: 5 :: 0 :: flags.toBitString.octets := by
  rw [Tlv.encode, BitString.encode, List.length_cons, length_toBitString]
  rfl

theorem encode_eq (flags : KerberosFlags) (policy : Policy) :
    encode flags policy = .ok (3 :: 5 :: 0 :: flags.toBitString.octets) := by
  have hencoding : (Structure.toValue flags).encoding policy =
      .ok (.parts .bitString flags.toBitString.encode) :=
    Value.encoding_leaf.2 ⟨_, rfl, rfl⟩
  rw [encode, Value.encode, hencoding, ← element_toBitString]
  rfl

theorem decode_encoded (flags : KerberosFlags) (policy : Policy) :
    decode KerberosFlags (3 :: 5 :: 0 :: flags.toBitString.octets) policy = .ok flags := by
  have hlength : flags.toBitString.encode.length < Length.limit := by
    rw [BitString.encode, List.length_cons, length_toBitString]
    decide
  have hcontent : BitString.decode policy.rules flags.toBitString.encode =
      .ok flags.toBitString := by
    refine (BitString.decode_eq_ok_iff _ _ _).2 ⟨rfl, fun _ => ?_⟩
    exact (BitString.MadePadded.word flags.word).padded
  have hvalue : (Structure.template KerberosFlags).decode definitions
      (3 :: 5 :: 0 :: flags.toBitString.octets) policy =
        .ok (.leaf (.bitString flags.toBitString)) := by
    rw [← element_toBitString]
    refine Value.decode_leaf_eq_ok_iff.2 ⟨_, [], .bitString flags.toBitString,
      Tlv.read_encode_alone hlength _ _ _, fun _ => rfl, rfl, ?_, rfl⟩
    exact map_eq_ok_iff.2 ⟨_, hcontent, rfl⟩
  refine Kerberos.decode_eq_ok_iff.2 ⟨_, hvalue, ?_⟩
  exact congrArg Except.ok (ofBitString_toBitString flags)

/-- Flag words are strings of 32 bits. A word that is read from a string of any size shows the bits
of the string up to the 32nd, and no others. A word and its string stay the same under every run
of changes, where the changes from position 32 on do nothing to either. The word comes back from
its string, and from its encoding under every policy. -/
theorem flag_words_refine_bit_strings :
    (∀ bits position, (ofBitString bits).contains position =
      if position < 32 then bits.bit position else false) ∧
    ∀ flags : KerberosFlags,
      (∀ changes position on, ((flags.setAll changes).set position on).toBitString =
        if position < 32 then (flags.setAll changes).toBitString.setBit position on
        else (flags.setAll changes).toBitString) ∧
      (∀ changes, (flags.setAll changes).toBitString =
        flags.toBitString.setBits (changes.filter fun change => change.1 < 32)) ∧
      ofBitString flags.toBitString = flags ∧
      flags.toBitString.octets.length = 4 ∧ flags.toBitString.size = 32 ∧
      ∀ policy, encode flags policy = .ok (3 :: 5 :: 0 :: flags.toBitString.octets) ∧
        decode KerberosFlags (3 :: 5 :: 0 :: flags.toBitString.octets) policy = .ok flags := by
  constructor
  · intro bits position
    rw [contains_ofBitString]
    by_cases hinside : position < 32
    · rw [if_pos hinside, decide_eq_true hinside, Bool.true_and]
    · rw [if_neg hinside, decide_eq_false hinside, Bool.false_and]
  · intro flags
    refine ⟨?_, toBitString_setAll flags, ofBitString_toBitString flags,
      length_toBitString flags, size_toBitString flags, fun policy => ?_⟩
    · intro changes position on
      by_cases hinside : position < 32
      · rw [if_pos hinside, toBitString_set hinside]
      · rw [if_neg hinside, set_of_le (Nat.le_of_not_lt hinside)]
    · exact ⟨encode_eq flags policy, decode_encoded flags policy⟩

/-- Five bits and three ones behind them, of which only the five count. -/
example : ofBitString ⟨[0b10011111], 3, by decide, nofun⟩ = ⟨0x98000000⟩ := by decide

end Asn1.Kerberos.KerberosFlags
