import Asn1.BitString
import Mathlib.Tactic.ByContra

/-!
Bit strings keep the bits past their end. The distinguished rules only ask for
zeros there, and read what they accept as the basic ones do.
-/

namespace Asn1.BitString

/-- The bits past the end are zero. -/
def Padded (bits : BitString) : Prop := (bits.octets.getLastD 0).toNat % Nat.pow 2 bits.unused = 0

instance (bits : BitString) : Decidable bits.Padded := inferInstanceAs (Decidable (_ = 0))

theorem decode_encode (rules : Rules) (bits : BitString) :
    decode rules bits.encode =
      if rules = .distinguished ∧ ¬ bits.Padded then .error .bitStringPadding else .ok bits := by
  have hlt := bits.unused_lt
  have hunused : (UInt8.ofNat bits.unused).toNat = bits.unused := by
    rw [UInt8.toNat_ofNat']
    omega
  have hsome : ¬ (bits.octets = [] ∧ bits.unused ≠ 0) := by
    rintro ⟨hempty, hnonzero⟩
    exact hnonzero (bits.unused_of_empty hempty)
  simp only [encode, decode, hunused]
  rw [dif_neg (by omega), dif_neg hsome]
  rfl

theorem decode_eq_ok_iff (rules : Rules) (content : Octets) (bits : BitString) :
    decode rules content = .ok bits ↔
      bits.encode = content ∧ (rules = .distinguished → bits.Padded) := by
  constructor
  · intro h
    cases content with
    | nil => cases h
    | cons unused octets =>
      simp only [decode] at h
      split at h
      · cases h
      · split at h
        · cases h
        · split at h
          · cases h
          · rename_i hpadding
            cases h
            refine ⟨by simp [encode], ?_⟩
            intro hder
            by_contra hdirty
            exact hpadding ⟨hder, hdirty⟩
  · rintro ⟨rfl, hpadded⟩
    rw [decode_encode, if_neg]
    rintro ⟨hder, hdirty⟩
    exact hdirty (hpadded hder)

end Asn1.BitString
