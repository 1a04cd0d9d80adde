import Asn1.Integer
import Asn1.Proofs.Octets

/-!
The shortest two's complement of a number. No two minimal contents stand for one
number, so under the distinguished rules decoding undoes encoding and the other
way round. The basic rules read every content of a number that fits, however long.
-/

namespace Asn1.Integer

theorem signedValue_eq (octets : Octets) :
    signedValue octets =
      if octets.headD 0 < 0x80 then (Octets.toNat octets : Int)
      else Octets.toNat octets - (256 ^ octets.length : Nat) := by
  rw [signedValue, Int.natCast_pow]
  rfl

theorem signedValue_of_small {first : UInt8} (h : first.toNat < 128) (rest : Octets) :
    signedValue (first :: rest) =
      ((first.toNat * 256 ^ rest.length + Octets.toNat rest : Nat) : Int) := by
  have hsmall : (first :: rest).headD 0 < 0x80 := by
    rw [UInt8.lt_iff_toNat_lt]
    exact h
  rw [signedValue_eq, if_pos hsmall, Octets.toNat_cons]

theorem signedValue_of_large {first : UInt8} (h : 128 ≤ first.toNat) (rest : Octets) :
    signedValue (first :: rest) =
      ((first.toNat * 256 ^ rest.length + Octets.toNat rest : Nat) : Int) -
        (256 * 256 ^ rest.length : Nat) := by
  have hlarge : ¬ (first :: rest).headD 0 < 0x80 := by
    rw [UInt8.lt_iff_toNat_lt]
    exact Nat.not_lt.2 h
  rw [signedValue_eq, if_neg hlarge, Octets.toNat_cons, List.length_cons, pow_succ,
    Nat.mul_comm 256]

/-- The numbers that so many octets can hold. -/
theorem signedValue_range {octets : Octets} (h : octets ≠ []) :
    -(256 ^ octets.length : Nat) ≤ 2 * signedValue octets ∧
      2 * signedValue octets < (256 ^ octets.length : Nat) := by
  obtain ⟨first, rest, rfl⟩ := List.exists_cons_of_ne_nil h
  have hrest := Octets.toNat_lt rest
  have hfirst := first.toNat_lt
  rw [List.length_cons, pow_succ]
  by_cases hsign : first.toNat < 128
  · rw [signedValue_of_small hsign]
    generalize 256 ^ rest.length = width at *
    have hmul : first.toNat * width ≤ 127 * width := Nat.mul_le_mul_right _ (by omega)
    omega
  · rw [signedValue_of_large (by omega)]
    generalize 256 ^ rest.length = width at *
    have hlow : 128 * width ≤ first.toNat * width := Nat.mul_le_mul_right _ (by omega)
    have hhigh : first.toNat * width ≤ 255 * width := Nat.mul_le_mul_right _ (by omega)
    omega

theorem repeatsSign_iff (first second : UInt8) (rest : Octets) :
    repeatsSign (first :: second :: rest) = true ↔
      (first.toNat = 0 ∧ second.toNat < 128) ∨ (first.toNat = 255 ∧ 128 ≤ second.toNat) := by
  simp [repeatsSign, UInt8.lt_iff_toNat_lt, UInt8.le_iff_toNat_le, ← UInt8.toNat_inj]

/-- An octet that only repeats the sign does not count. -/
theorem signedValue_of_repeatsSign {first : UInt8} {rest : Octets}
    (h : repeatsSign (first :: rest) = true) : signedValue (first :: rest) = signedValue rest := by
  cases rest with
  | nil => simp [repeatsSign] at h
  | cons second rest =>
    rcases (repeatsSign_iff first second rest).1 h with ⟨hfirst, hsecond⟩ | ⟨hfirst, hsecond⟩
    · rw [signedValue_of_small (by omega), signedValue_of_small hsecond, Octets.toNat_cons, hfirst]
      simp
    · rw [signedValue_of_large (by omega), signedValue_of_large hsecond, Octets.toNat_cons, hfirst,
        List.length_cons, pow_succ]
      generalize 256 ^ rest.length = width
      omega

/-- What takes more octets than it repeats the sign in does not fit into fewer. -/
theorem out_of_range_of_minimal {first second : UInt8} {rest : Octets}
    (h : repeatsSign (first :: second :: rest) = false) :
    2 * signedValue (first :: second :: rest) < -(256 ^ (rest.length + 1) : Nat) ∨
      (256 ^ (rest.length + 1) : Nat) ≤ 2 * signedValue (first :: second :: rest) := by
  have hminimal : ¬ ((first.toNat = 0 ∧ second.toNat < 128) ∨
      (first.toNat = 255 ∧ 128 ≤ second.toNat)) := by
    rw [← repeatsSign_iff first second rest, h]
    simp
  have hrest := Octets.toNat_lt rest
  have hfirst := first.toNat_lt
  have hsecond := second.toNat_lt
  by_cases hsign : first.toNat < 128
  · right
    rw [signedValue_of_small hsign, Octets.toNat_cons, List.length_cons, pow_succ]
    generalize 256 ^ rest.length = width at *
    by_cases hzero : first.toNat = 0
    · have hmul : 128 * width ≤ second.toNat * width := Nat.mul_le_mul_right _ (by omega)
      rw [hzero]
      omega
    · have hmul : 1 * (width * 256) ≤ first.toNat * (width * 256) :=
        Nat.mul_le_mul_right _ (by omega)
      omega
  · left
    rw [signedValue_of_large (by omega), Octets.toNat_cons, List.length_cons, pow_succ]
    generalize 256 ^ rest.length = width at *
    have hmul : second.toNat * width ≤ 255 * width := Nat.mul_le_mul_right _ (by omega)
    by_cases hones : first.toNat = 255
    · have hmul' : second.toNat * width ≤ 127 * width := Nat.mul_le_mul_right _ (by omega)
      rw [hones]
      omega
    · have hmul' : first.toNat * (width * 256) ≤ 254 * (width * 256) :=
        Nat.mul_le_mul_right _ (by omega)
      omega

/-- No content of a number is shorter than a minimal one. -/
theorem length_le_of_minimal {a b : Octets} (ha : a ≠ []) (hb : b ≠ [])
    (hminimal : repeatsSign a = false) (h : signedValue a = signedValue b) :
    a.length ≤ b.length := by
  by_contra hlonger
  match a, ha, hminimal with
  | [_], _, _ =>
    have := List.length_pos_iff.2 hb
    simp only [List.length_singleton] at hlonger
    omega
  | first :: second :: rest, _, hminimal =>
    have hrange := signedValue_range hb
    have hout := out_of_range_of_minimal hminimal
    have hwidth : 256 ^ b.length ≤ 256 ^ (rest.length + 1) := by
      apply Nat.pow_le_pow_right (by omega)
      simp only [List.length_cons] at hlonger
      omega
    rw [h] at hout
    omega

/-- Of one length, a number has only one content. -/
theorem eq_of_length {a b : Octets} (hlength : a.length = b.length)
    (h : signedValue a = signedValue b) : a = b := by
  apply Octets.eq_of_toNat hlength
  have hlt := Octets.toNat_lt a
  have hlt' := Octets.toNat_lt b
  simp only [signedValue_eq, hlength] at h
  rw [hlength] at hlt
  split at h <;> split at h <;> omega

/-- A number has only one minimal content. -/
theorem eq_of_minimal {a b : Octets} (ha : a ≠ []) (hb : b ≠ [])
    (hminimal : repeatsSign a = false) (hminimal' : repeatsSign b = false)
    (h : signedValue a = signedValue b) : a = b := by
  have hlength : a.length = b.length :=
    Nat.le_antisymm (length_le_of_minimal ha hb hminimal h)
      (length_le_of_minimal hb ha hminimal' h.symm)
  exact eq_of_length hlength h

theorem signedValue_shorten (width : Nat) (octets : Octets) :
    signedValue (shorten width octets) = signedValue octets := by
  fun_induction shorten width octets with
  | case1 => rfl
  | case2 octet rest hrepeats ih => rw [ih, signedValue_of_repeatsSign hrepeats.2]
  | case3 => rfl

theorem shorten_ne_nil {width : Nat} {octets : Octets} (h : octets ≠ []) :
    shorten width octets ≠ [] := by
  fun_induction shorten width octets with
  | case1 => exact absurd rfl h
  | case2 octet rest hrepeats ih =>
    apply ih
    rintro rfl
    simp [repeatsSign] at hrepeats
  | case3 => simp

theorem length_shorten_le (width : Nat) (octets : Octets) :
    (shorten width octets).length ≤ octets.length := by
  fun_induction shorten width octets with
  | case1 => simp
  | case2 octet rest _ ih =>
    rw [List.length_cons]
    omega
  | case3 => simp

theorem shorten_of_minimal (width : Nat) {octets : Octets} (h : repeatsSign octets = false) :
    shorten width octets = octets := by
  cases octets with
  | nil => rfl
  | cons octet rest =>
    rw [shorten, if_neg]
    rintro ⟨-, hrepeats⟩
    rw [h] at hrepeats
    cases hrepeats

theorem repeatsSign_shorten_one (octets : Octets) : repeatsSign (shorten 1 octets) = false := by
  fun_induction shorten 1 octets with
  | case1 => rfl
  | case2 _ _ _ ih => exact ih
  | case3 octet rest hkeep =>
    cases rest with
    | nil => rfl
    | cons second rest =>
      rw [← Bool.not_eq_true]
      intro hrepeats
      exact hkeep ⟨by simp, hrepeats⟩

/-- What is still too long does not repeat the sign. -/
theorem repeatsSign_shorten {width : Nat} {octets : Octets}
    (h : width < (shorten width octets).length) : repeatsSign (shorten width octets) = false := by
  fun_induction shorten width octets with
  | case1 => rfl
  | case2 octet rest _ ih => exact ih h
  | case3 octet rest hkeep =>
    rw [← Bool.not_eq_true]
    intro hrepeats
    exact hkeep ⟨h, hrepeats⟩

theorem encode_ne_nil (value : Int64) : encode value ≠ [] := by
  apply shorten_ne_nil
  intro h
  have := congrArg List.length h
  simp at this

theorem length_encode_le (value : Int64) : (encode value).length ≤ 8 := by
  have := length_shorten_le 1 (Octets.ofNatWidth 8 value.toUInt64.toNat)
  rw [Octets.length_ofNatWidth] at this
  exact this

theorem signedValue_ofNatWidth (value : Int64) :
    signedValue (Octets.ofNatWidth 8 value.toUInt64.toNat) = value.toInt := by
  have hvalue : Octets.toNat (Octets.ofNatWidth 8 value.toUInt64.toNat) =
      value.toUInt64.toNat := by
    rw [Octets.toNat_ofNatWidth]
    exact Nat.mod_eq_of_lt value.toUInt64.toNat_lt
  have hlength := Octets.length_ofNatWidth 8 value.toUInt64.toNat
  have htwos : value.toInt = if 2 * value.toUInt64.toNat < 2 ^ 64 then
      (value.toUInt64.toNat : Int) else (value.toUInt64.toNat : Int) - (2 ^ 64 : Nat) :=
    BitVec.toInt_eq_toNat_cond value.toBitVec
  generalize Octets.ofNatWidth 8 value.toUInt64.toNat = octets at *
  obtain ⟨first, rest, rfl⟩ : ∃ first rest, octets = first :: rest := by
    apply List.exists_cons_of_ne_nil
    rintro rfl
    simp at hlength
  have hrest := Octets.toNat_lt rest
  have hseven : rest.length = 7 := by simpa using hlength
  rw [Octets.toNat_cons] at hvalue
  rw [hseven] at hvalue hrest
  rw [htwos]
  by_cases hsign : first.toNat < 128
  · rw [signedValue_of_small hsign, hseven, if_pos (by omega), hvalue]
  · rw [signedValue_of_large (by omega), hseven, if_neg (by omega), hvalue]
    rfl

@[simp] theorem signedValue_encode (value : Int64) : signedValue (encode value) = value.toInt := by
  rw [encode, signedValue_shorten, signedValue_ofNatWidth]

theorem repeatsSign_encode (value : Int64) : repeatsSign (encode value) = false :=
  repeatsSign_shorten_one _

theorem decode_encode (rules : Rules) (value : Int64) :
    decode rules (encode value) = .ok value := by
  have hsome : ¬ (encode value).isEmpty = true := by
    rw [List.isEmpty_iff]
    exact encode_ne_nil value
  have hminimal : ¬ (rules = .distinguished ∧ repeatsSign (encode value) = true) := by
    rw [repeatsSign_encode]
    simp
  have hfits : ¬ 8 < (encode value).length := Nat.not_lt.2 (length_encode_le value)
  simp only [decode, if_neg hsome, if_neg hminimal,
    shorten_of_minimal 8 (repeatsSign_encode value), if_neg hfits, signedValue_encode,
    Int64.ofInt_toInt]

theorem encode_of_decode {content : Octets} {value : Int64}
    (h : decode .distinguished content = .ok value) : encode value = content := by
  simp only [decode] at h
  split at h
  · cases h
  · rename_i hsome
    rw [List.isEmpty_iff] at hsome
    split at h
    · cases h
    · rename_i hminimal
      replace hminimal : repeatsSign content = false := by simpa using hminimal
      rw [shorten_of_minimal 8 hminimal] at h
      split at h
      · cases h
      · rename_i hfits
        cases h
        apply eq_of_minimal (encode_ne_nil _) hsome (repeatsSign_encode _) hminimal
        have hrange := signedValue_range hsome
        have hwidth : 256 ^ content.length ≤ 256 ^ 8 :=
          Nat.pow_le_pow_right (by omega) (Nat.not_lt.1 hfits)
        rw [signedValue_encode, Int64.toInt_ofInt_of_le (by omega) (by omega)]

/-- The numbers that can be decoded are those of 64 bits. -/
theorem length_shorten_le_iff {content : Octets} (hsome : content ≠ []) :
    (shorten 8 content).length ≤ 8 ↔
      -2 ^ 63 ≤ signedValue content ∧ signedValue content < 2 ^ 63 := by
  have hshort : shorten 8 content ≠ [] := shorten_ne_nil hsome
  rw [← signedValue_shorten 8 content]
  constructor
  · intro hfits
    have hrange := signedValue_range hshort
    have hwidth : 256 ^ (shorten 8 content).length ≤ 256 ^ 8 :=
      Nat.pow_le_pow_right (by omega) hfits
    omega
  · intro hrange
    by_contra hlong
    have hminimal := repeatsSign_shorten (Nat.lt_of_not_le hlong)
    generalize shorten 8 content = octets at *
    match octets, hminimal with
    | [_], _ => simp at hlong
    | first :: second :: rest, hminimal =>
      have hout := out_of_range_of_minimal hminimal
      have hwidth : 256 ^ 8 ≤ 256 ^ (rest.length + 1) := by
        apply Nat.pow_le_pow_right (by omega)
        simp only [List.length_cons] at hlong
        omega
      omega

theorem decode_basic_eq_ok_iff {content : Octets} {value : Int64} :
    decode .basic content = .ok value ↔ content ≠ [] ∧ signedValue content = value.toInt := by
  by_cases hempty : content = []
  · subst hempty
    simp [decode]
  have hsome : ¬ content.isEmpty = true := by
    rw [List.isEmpty_iff]
    exact hempty
  have hbasic : ¬ (Rules.basic = .distinguished ∧ repeatsSign content = true) := nofun
  have hfits := length_shorten_le_iff hempty
  simp only [decode, if_neg hsome, if_neg hbasic, signedValue_shorten]
  split
  · rename_i hlong
    have hout : ¬ (-2 ^ 63 ≤ signedValue content ∧ signedValue content < 2 ^ 63) :=
      mt hfits.2 (Nat.not_le.2 hlong)
    have hlow := value.le_toInt
    have hhigh := value.toInt_lt
    constructor
    · rintro ⟨⟩
    · rintro ⟨-, hvalue⟩
      rw [hvalue] at hout
      exact absurd ⟨hlow, hhigh⟩ hout
  · rename_i hshort
    obtain ⟨hlow, hhigh⟩ := hfits.1 (Nat.le_of_not_lt hshort)
    constructor
    · rintro ⟨⟩
      refine ⟨hempty, ?_⟩
      rw [Int64.toInt_ofInt_of_le hlow hhigh]
    · rintro ⟨-, hvalue⟩
      rw [hvalue, Int64.ofInt_toInt]

/-- The number of which the octets are the two's complement: of all numbers with the same
remainder, the one nearest to zero. -/
def twosComplement (octets : Octets) : Int :=
  Int.bmod (Octets.toNat octets) (256 ^ octets.length)

theorem signedValue_eq_twosComplement {octets : Octets} (h : octets ≠ []) :
    signedValue octets = twosComplement octets := by
  have hrange := signedValue_range h
  have hsame : Int.bmod (Octets.toNat octets) (256 ^ octets.length) =
      Int.bmod (signedValue octets) (256 ^ octets.length) := by
    rw [signedValue_eq]
    split
    · rfl
    · rw [Int.sub_bmod_right]
  rw [twosComplement, hsame, Int.bmod_eq_of_le (by omega) (by omega)]

/-- A number is written in the shortest two's complement that it has. The distinguished rules
read that and nothing else, the basic rules whatever stands for a number of 64 bits. -/
theorem codec_exact :
    (∀ value : Int64, encode value ≠ [] ∧ twosComplement (encode value) = value.toInt ∧
      ∀ octets, octets ≠ [] → twosComplement octets = value.toInt → octets ≠ encode value →
        (encode value).length < octets.length) ∧
    (∀ content value, decode .distinguished content = .ok value ↔ content = encode value) ∧
    ∀ content value, decode .basic content = .ok value ↔
      content ≠ [] ∧ twosComplement content = value.toInt := by
  refine ⟨?_, ?_, ?_⟩
  · intro value
    have hsome := encode_ne_nil value
    rw [← signedValue_eq_twosComplement hsome]
    refine ⟨hsome, signedValue_encode value, ?_⟩
    intro octets hoctets hvalue hother
    rw [← signedValue_eq_twosComplement hoctets, ← signedValue_encode value] at hvalue
    apply Nat.lt_of_le_of_ne
    · exact length_le_of_minimal hsome hoctets (repeatsSign_encode value) hvalue.symm
    · intro hlength
      exact hother (eq_of_length hlength.symm hvalue)
  · intro content value
    constructor
    · intro h
      exact (encode_of_decode h).symm
    · rintro rfl
      exact decode_encode .distinguished value
  · intro content value
    rw [decode_basic_eq_ok_iff]
    apply and_congr_right
    intro hsome
    rw [signedValue_eq_twosComplement hsome]

/-- The least number, with one octet more than it needs. -/
theorem minValue_written_and_read :
    (encode Int64.minValue).length < 9 ∧
      decode .distinguished [0x80, 0x00, 0x00, 0x00, 0x00, 0x00, 0x00, 0x00] =
        .ok Int64.minValue ∧
      decode .basic [0xFF, 0x80, 0x00, 0x00, 0x00, 0x00, 0x00, 0x00, 0x00] =
        .ok Int64.minValue := by
  refine ⟨?_, ?_, ?_⟩
  · exact (codec_exact.1 Int64.minValue).2.2 [0xFF, 0x80, 0x00, 0x00, 0x00, 0x00, 0x00, 0x00, 0x00]
      (by decide) (by decide) (by decide)
  · exact (codec_exact.2.1 _ _).2 (by decide)
  · exact (codec_exact.2.2 _ _).2 ⟨by decide, by decide⟩

end Asn1.Integer
