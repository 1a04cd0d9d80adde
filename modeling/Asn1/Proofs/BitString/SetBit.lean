import Asn1.Proofs.BitString
import Asn1.Proofs.Octets

/-!
Setting bits. The octets hold bits from the end of a string on too, and setting a bit changes that
bit alone among all that they hold. A string that grows shows what its octets held behind its end,
and the distinguished rules read back the strings that hold only zeros there.
-/

namespace Asn1.BitString

/-- The bit that the octets hold at `index`, from the end of the string on too. Behind the octets
there are zeros. -/
def stored (bits : BitString) (index : Nat) : Bool :=
  (bits.octets.getD (index / 8) 0).toNat.testBit (7 - index % 8)

theorem bit_eq (bits : BitString) (index : Nat) :
    bits.bit index = (decide (index < bits.size) && bits.stored index) := rfl

/-- Strings of as many octets and as many bits are the same if their octets hold the same bits. -/
theorem eq_of_stored {a b : BitString} (hlength : a.octets.length = b.octets.length)
    (hunused : a.unused = b.unused) (hstored : ∀ index, a.stored index = b.stored index) :
    a = b := by
  have hnumber : Octets.toNat a.octets = Octets.toNat b.octets := by
    apply Nat.eq_of_testBit_eq
    intro position
    by_cases hinside : position < a.octets.length * 8
    · obtain ⟨index, hindex, rfl⟩ : ∃ index, index < a.octets.length * 8 ∧
          position = a.octets.length * 8 - 1 - index :=
        ⟨a.octets.length * 8 - 1 - position, by omega, by omega⟩
      rw [Octets.testBit_toNat a.octets hindex]
      rw [hlength] at hindex ⊢
      rw [Octets.testBit_toNat b.octets hindex]
      exact hstored index
    · have hlimit (octets : Octets) (h : octets.length = a.octets.length) :
          (Octets.toNat octets).testBit position = false := by
        apply Nat.testBit_lt_two_pow
        calc Octets.toNat octets < 256 ^ octets.length := Octets.toNat_lt octets
          _ = 2 ^ (octets.length * 8) := by rw [Nat.mul_comm, Nat.pow_mul]
          _ ≤ 2 ^ position := Nat.pow_le_pow_right (by decide) (by omega)
      rw [hlimit _ rfl, hlimit _ hlength.symm]
  have hoctets := Octets.eq_of_toNat hlength hnumber
  cases a
  cases b
  cases hoctets
  cases hunused
  rfl

theorem toNat_ofUInt32 (word : UInt32) : Octets.toNat (ofUInt32 word).octets = word.toNat := by
  rw [ofUInt32, Octets.toNat_ofNatWidth]
  exact Nat.mod_eq_of_lt word.toNat_lt

theorem stored_ofUInt32 (word : UInt32) (index : Nat) :
    (ofUInt32 word).stored index = (decide (index < 32) && word.toNat.testBit (31 - index)) := by
  have hlength : (ofUInt32 word).octets.length = 4 := Octets.length_ofNatWidth _ _
  by_cases hinside : index < 32
  · have hoctets : index < (ofUInt32 word).octets.length * 8 := by omega
    have hbit := Octets.testBit_toNat (ofUInt32 word).octets hoctets
    rw [hlength, toNat_ofUInt32] at hbit
    rw [decide_eq_true hinside, Bool.true_and]
    exact hbit.symm
  · have hbehind : (ofUInt32 word).octets.length ≤ index / 8 := by omega
    rw [decide_eq_false hinside, Bool.false_and, stored, List.getD_eq_default _ _ hbehind]
    exact Nat.zero_testBit _

section Octet

/-- A mask with one bit gives that bit of a word its new value, and leaves the others. -/
theorem testBit_change {width : Nat} (word mask : BitVec width) {position : Nat}
    (hmask : mask.toNat = 2 ^ position) (on : Bool) (other : Nat) :
    (if on then word ||| mask else word &&& ~~~mask).toNat.testBit other =
      if other = position then on else word.toNat.testBit other := by
  have hbit (other : Nat) : mask.getLsbD other = decide (other = position) := by
    rw [← BitVec.testBit_toNat, hmask, Nat.testBit_two_pow]
    exact decide_eq_decide.2 eq_comm
  rw [BitVec.testBit_toNat, BitVec.testBit_toNat]
  cases on with
  | true =>
    rw [if_pos rfl, BitVec.getLsbD_or, hbit]
    by_cases hsame : other = position
    · simp [hsame]
    · simp [hsame]
  | false =>
    rw [if_neg (by decide), BitVec.getLsbD_and, BitVec.getLsbD_not, hbit]
    by_cases hsame : other = position
    · simp [hsame]
    · have hinside : word.getLsbD other = true → other < width := BitVec.lt_of_getLsbD
      grind

theorem toNat_mask (index : Nat) : (mask index).toNat = 2 ^ (7 - index % 8) := by
  have hsmall : 2 ^ (7 - index % 8) < 2 ^ 8 := Nat.pow_lt_pow_right (by decide) (by omega)
  rw [mask, UInt8.toNat_ofNat', Nat.pow_eq, Nat.mod_eq_of_lt hsmall]

theorem testBit_setMask (octet : UInt8) (index other : Nat) (value : Bool) :
    (setMask octet index value).toNat.testBit (7 - other % 8) =
      if other % 8 = index % 8 then value else octet.toNat.testBit (7 - other % 8) := by
  have hchange := testBit_change octet.toBitVec (mask index).toBitVec (toNat_mask index) value
    (7 - other % 8)
  have hsame : 7 - other % 8 = 7 - index % 8 ↔ other % 8 = index % 8 := by omega
  have hword : (setMask octet index value).toBitVec =
      if value then octet.toBitVec ||| (mask index).toBitVec
      else octet.toBitVec &&& ~~~(mask index).toBitVec := by
    cases value <;> rfl
  rw [← hword] at hchange
  simp only [hsame, UInt8.toNat_toBitVec] at hchange
  exact hchange

end Octet

section Changes

theorem size_le (bits : BitString) : bits.size ≤ bits.octets.length * 8 := Nat.sub_le _ _

theorem size_grow (bits : BitString) (size : Nat) :
    (bits.grow size).size = max bits.size size := by
  unfold grow
  split
  · rename_i henough
    exact (Nat.max_eq_left henough).symm
  · rename_i hmore
    have hfits := bits.unused_lt
    simp only [BitString.size, List.length_append, List.length_replicate, unusedFor,
      octetsFor] at hmore ⊢
    omega

@[simp] theorem stored_grow (bits : BitString) (size index : Nat) :
    (bits.grow size).stored index = bits.stored index := by
  unfold grow
  split
  · rfl
  · unfold stored
    by_cases hinside : index / 8 < bits.octets.length
    · simp only [List.getD_append _ _ _ _ hinside]
    · have hbehind : bits.octets.length ≤ index / 8 := by omega
      simp only [List.getD_append_right _ _ _ _ hbehind, List.getD_eq_default _ _ hbehind,
        List.getD_eq_getElem?_getD, List.getElem?_getD_replicate_default_eq]

@[simp] theorem size_setBit (bits : BitString) (index : Nat) (value : Bool) :
    (bits.setBit index value).size = max bits.size (index + 1) := by
  rw [← size_grow]
  simp only [BitString.size, setBit, List.length_modify]

/-- Of all bits that the octets hold, setting one changes that one only. -/
theorem stored_setBit (bits : BitString) (index other : Nat) (value : Bool) :
    (bits.setBit index value).stored other = if other = index then value else bits.stored other := by
  rw [← stored_grow bits (index + 1) other]
  have hinside : index / 8 < (bits.grow (index + 1)).octets.length := by
    have hsize := size_grow bits (index + 1)
    have hle := size_le (bits.grow (index + 1))
    omega
  simp only [stored, setBit, List.getD_eq_getElem?_getD]
  -- in the octet that changes the mask decides, and the others stay as they are
  by_cases hoctet : other / 8 = index / 8
  · have hsame : other % 8 = index % 8 ↔ other = index := by omega
    rw [hoctet, List.getElem?_modify_eq, List.getElem?_eq_getElem hinside]
    simp only [Option.map_eq_map, Option.map_some, Option.getD_some, testBit_setMask, hsame]
  · have hother : other ≠ index := by
      rintro rfl
      exact hoctet rfl
    rw [List.getElem?_modify_ne _ _ (Ne.symm hoctet), if_neg hother]

/-- The string shows the bits that it grows over as the octets held them. -/
theorem bit_setBit (bits : BitString) (index other : Nat) (value : Bool) :
    (bits.setBit index value).bit other =
      if other = index then value
      else bits.bit other || (decide (bits.size ≤ other ∧ other < index) && bits.stored other) := by
  rw [bit_eq, bit_eq, stored_setBit, size_setBit]
  by_cases hsame : other = index
  · have hinside : other < max bits.size (index + 1) := by omega
    rw [if_pos hsame, if_pos hsame, decide_eq_true hinside, Bool.true_and]
  · rw [if_neg hsame, if_neg hsame]
    by_cases hbehind : bits.size ≤ other
    · have hgrown : other < max bits.size (index + 1) ↔ bits.size ≤ other ∧ other < index := by
        omega
      rw [decide_eq_false (Nat.not_lt.2 hbehind), Bool.false_and, Bool.false_or,
        decide_eq_decide.2 hgrown]
    · have hinside : other < max bits.size (index + 1) := by omega
      rw [decide_eq_true hinside, decide_eq_true (Nat.lt_of_not_le hbehind),
        decide_eq_false (fun h => hbehind h.1), Bool.false_and, Bool.or_false]

/-- Bits set one after the other, each named with its value. -/
def setBits (bits : BitString) (changes : List (Nat × Bool)) : BitString :=
  changes.foldl (fun bits change => bits.setBit change.1 change.2) bits

theorem size_le_setBits (bits : BitString) (changes : List (Nat × Bool)) :
    bits.size ≤ (bits.setBits changes).size := by
  induction changes generalizing bits with
  | nil => exact Nat.le_refl _
  | cons change changes ih =>
    have hstep : bits.size ≤ (bits.setBit change.1 change.2).size := by
      rw [size_setBit]
      exact Nat.le_max_left _ _
    exact Nat.le_trans hstep (ih _)

/-- No change reaches behind the end that the string has in the end. -/
theorem stored_setBits_of_size_le (bits : BitString) (changes : List (Nat × Bool)) {index : Nat}
    (h : (bits.setBits changes).size ≤ index) :
    (bits.setBits changes).stored index = bits.stored index := by
  induction changes generalizing bits with
  | nil => rfl
  | cons change changes ih =>
    have hsize : (bits.setBit change.1 change.2).size ≤ index :=
      Nat.le_trans (size_le_setBits _ changes) h
    rw [size_setBit] at hsize
    have hother : index ≠ change.1 := by omega
    have hrest : ((bits.setBit change.1 change.2).setBits changes).stored index =
        (bits.setBit change.1 change.2).stored index := ih _ h
    rw [stored_setBit, if_neg hother] at hrest
    exact hrest

end Changes

section Padding

private theorem mod_two_pow_eq_zero_iff (n width : Nat) :
    n % 2 ^ width = 0 ↔ ∀ position, position < width → n.testBit position = false := by
  constructor
  · intro h position hposition
    have hbit := Nat.testBit_mod_two_pow n width position
    rw [h, Nat.zero_testBit, decide_eq_true hposition, Bool.true_and] at hbit
    exact hbit.symm
  · intro h
    apply Nat.eq_of_testBit_eq
    intro position
    rw [Nat.testBit_mod_two_pow, Nat.zero_testBit]
    by_cases hposition : position < width
    · rw [h position hposition, Bool.and_false]
    · rw [decide_eq_false hposition, Bool.false_and]

/-- The padding is all that the octets hold from the end on. -/
theorem padded_iff (bits : BitString) :
    bits.Padded ↔ ∀ index, bits.size ≤ index → bits.stored index = false := by
  have hlast : bits.octets.getLastD 0 = bits.octets.getD (bits.octets.length - 1) 0 := by
    rw [List.getLastD_eq_getLast?, List.getLast?_eq_getElem?, List.getD_eq_getElem?_getD]
  have hunused := bits.unused_lt
  unfold Padded
  rw [hlast, Nat.pow_eq, mod_two_pow_eq_zero_iff]
  unfold stored BitString.size
  -- `position` counts from the right end of the last octet, `index` from the left end of the first
  constructor
  · intro h index hindex
    by_cases hinside : index / 8 < bits.octets.length
    · have hoctet : index / 8 = bits.octets.length - 1 := by omega
      rw [hoctet]
      apply h
      omega
    · rw [List.getD_eq_default _ _ (Nat.le_of_not_lt hinside)]
      exact Nat.zero_testBit _
  · intro h position hposition
    have hsome : 0 < bits.octets.length := by
      rw [List.length_pos_iff]
      intro hempty
      have := bits.unused_of_empty hempty
      omega
    have hbit := h (bits.octets.length * 8 - 1 - position) (by omega)
    have hoctet : (bits.octets.length * 8 - 1 - position) / 8 = bits.octets.length - 1 := by omega
    have hinOctet : 7 - (bits.octets.length * 8 - 1 - position) % 8 = position := by omega
    rw [hoctet, hinOctet] at hbit
    exact hbit

theorem padded_setBits_iff (bits : BitString) (changes : List (Nat × Bool)) :
    (bits.setBits changes).Padded ↔
      ∀ index, (bits.setBits changes).size ≤ index → bits.stored index = false := by
  rw [padded_iff]
  constructor
  · intro h index hindex
    rw [← stored_setBits_of_size_le bits changes hindex]
    exact h index hindex
  · intro h index hindex
    rw [stored_setBits_of_size_le bits changes hindex]
    exact h index hindex

/-- Strings made without any padding bits of their own, and those that the distinguished rules
read. -/
inductive MadePadded : BitString → Prop
  | zeros (size : Nat) : MadePadded (ofSize size)
  | word (word : UInt32) : MadePadded (ofUInt32 word)
  | read {content : Octets} {bits : BitString} (h : decode .distinguished content = .ok bits) :
    MadePadded bits

theorem MadePadded.padded {bits : BitString} (h : bits.MadePadded) : bits.Padded := by
  cases h with
  | zeros size =>
    rw [padded_iff]
    intro index _
    unfold stored ofSize
    rw [List.getD_eq_getElem?_getD, List.getElem?_getD_replicate_default_eq]
    exact Nat.zero_testBit _
  | word word => exact Nat.mod_one _
  | read h => exact ((decode_eq_ok_iff _ _ _).1 h).2 rfl

theorem MadePadded.stored_eq_false {bits : BitString} (h : bits.MadePadded) {index : Nat}
    (hindex : bits.size ≤ index) : bits.stored index = false :=
  (padded_iff bits).1 h.padded index hindex

end Padding

/-- However bits are set, the basic rules read back what is written. The distinguished rules do so
where the octets at the start held only zeros from the end of the result on, and refuse its padding
elsewhere. -/
theorem read_back_unless_left_behind (bits : BitString) (changes : List (Nat × Bool)) :
    decode .basic (bits.setBits changes).encode = .ok (bits.setBits changes) ∧
      decode .distinguished (bits.setBits changes).encode =
        (if (bits.setBits changes).Padded then .ok (bits.setBits changes)
          else .error .bitStringPadding) ∧
      ((bits.setBits changes).Padded ↔
        ∀ index, (bits.setBits changes).size ≤ index → bits.stored index = false) ∧
      (bits.MadePadded → (bits.setBits changes).Padded) := by
  refine ⟨?_, ?_, padded_setBits_iff bits changes, ?_⟩
  · rw [decode_encode, if_neg]
    rintro ⟨hrules, -⟩
    cases hrules
  · rw [decode_encode]
    by_cases hpadded : (bits.setBits changes).Padded
    · rw [if_neg (fun h => h.2 hpadded), if_pos hpadded]
    · rw [if_pos ⟨rfl, hpadded⟩, if_neg hpadded]
  · intro hmade
    rw [padded_setBits_iff]
    intro index hindex
    apply hmade.stored_eq_false
    exact Nat.le_trans (size_le_setBits bits changes) hindex

theorem grown_zeros_read_back :
    (ofSize 10).MadePadded ∧
      decode .distinguished ((ofSize 10).setBits [(3, true), (20, true), (3, false)]).encode =
        .ok ((ofSize 10).setBits [(3, true), (20, true), (3, false)]) := by
  have hmade := MadePadded.zeros 10
  obtain ⟨-, hread, -, hpadded⟩ :=
    read_back_unless_left_behind (ofSize 10) [(3, true), (20, true), (3, false)]
  rw [if_pos (hpadded hmade)] at hread
  exact ⟨hmade, hread⟩

/-- Seven bits, and a one in the bit behind them. -/
theorem one_in_padding_refused :
    ∃ bits, new [1] 1 = .ok bits ∧ decode .basic bits.encode = .ok bits ∧
      decode .distinguished bits.encode = .error .bitStringPadding :=
  ⟨⟨[1], 1, by decide, nofun⟩, rfl, rfl, rfl⟩

/-- A bit that is set has its new value. Another one keeps its value, unless the string grows over
it and shows what its octets held there. -/
theorem set_bit_and_bits_grown_over (bits : BitString) (changes : List (Nat × Bool)) (index : Nat)
    (value : Bool) :
    let before := bits.setBits changes
    let after := before.setBit index value
    after.size = max before.size (index + 1) ∧ after.bit index = value ∧
      (∀ other, other ≠ index → after.bit other =
        (before.bit other || (decide (before.size ≤ other ∧ other < index) && bits.stored other))) ∧
      (bits.MadePadded → ∀ other, other ≠ index → after.bit other = before.bit other) := by
  intro before after
  have hother (other : Nat) (hne : other ≠ index) : after.bit other =
      (before.bit other || (decide (before.size ≤ other ∧ other < index) && bits.stored other)) := by
    have hstep := bit_setBit before index other value
    rw [if_neg hne] at hstep
    by_cases hbehind : before.size ≤ other
    · rw [hstep, stored_setBits_of_size_le bits changes hbehind]
    · rw [hstep, decide_eq_false fun h => hbehind h.1, Bool.false_and, Bool.false_and]
  refine ⟨size_setBit before index value, ?_, hother, ?_⟩
  · have hstep := bit_setBit before index index value
    rw [if_pos rfl] at hstep
    exact hstep
  · intro hmade other hne
    rw [hother other hne]
    by_cases hgrown : before.size ≤ other ∧ other < index
    · have hbehind : bits.size ≤ other :=
        Nat.le_trans (size_le_setBits bits changes) hgrown.1
      rw [hmade.stored_eq_false hbehind, Bool.and_false, Bool.or_false]
    · rw [decide_eq_false hgrown, Bool.false_and, Bool.or_false]

theorem bit_set_behind_zeros :
    (ofSize 6).MadePadded ∧ ((ofSize 6).setBits [(1, true)]).bit 6 = false ∧
      (((ofSize 6).setBits [(1, true)]).setBit 7 true).bit 6 = false ∧
      (((ofSize 6).setBits [(1, true)]).setBit 7 true).size = 8 := by
  have hmade := MadePadded.zeros 6
  obtain ⟨hsize, -, -, hother⟩ := set_bit_and_bits_grown_over (ofSize 6) [(1, true)] 7 true
  have hbit : ((ofSize 6).setBits [(1, true)]).bit 6 = false := by decide
  exact ⟨hmade, hbit, (hother hmade 6 (by decide)).trans hbit, hsize⟩

/-- The string grows from six bits to eight, and the seventh bit is a one that was never set. -/
theorem bit_never_set_shown :
    ∃ bits, new [2] 2 = .ok bits ∧ bits.bit 6 = false ∧ (bits.setBit 7 true).bit 6 = true :=
  ⟨⟨[2], 2, by decide, nofun⟩, rfl, rfl, rfl⟩

end Asn1.BitString
