import Asn1.Kerberos.Field
import Mathlib.Algebra.Ring.Int.Defs
import Mathlib.Algebra.Ring.Nat

/-!
What the readers of a field make of its content. A field that has its declared type is
read as exactly what would be written into it.
-/

namespace Asn1.Kerberos

section Numbers

theorem toInt_ofInt_int32 (n : Int32) : (Int64.ofInt n.toInt).toInt = n.toInt := by
  have hle := n.le_toInt
  have hlt := n.toInt_lt
  exact Int64.toInt_ofInt_of_le (by omega) (by omega)

theorem int32Limits_iff {value : Int64} :
    int32Limits value ↔ -2 ^ 31 ≤ value.toInt ∧ value.toInt < 2 ^ 31 := by
  rw [int32Limits, Int32.toInt_minValue, Int32.toInt_maxValue]
  omega

theorem int32_of_limits {value : Int64} {n : Int32} :
    int32Limits value ∧ Int32.ofInt value.toInt = n ↔ value = Int64.ofInt n.toInt := by
  rw [int32Limits_iff]
  constructor
  · rintro ⟨⟨hle, hlt⟩, rfl⟩
    rw [Int32.toInt_ofInt_of_le hle hlt, Int64.ofInt_toInt]
  · rintro rfl
    rw [toInt_ofInt_int32, Int32.ofInt_toInt]
    exact ⟨⟨n.le_toInt, n.toInt_lt⟩, rfl⟩

theorem toInt_ofNat_uint32 (n : UInt32) : (Int64.ofNat n.toNat).toInt = n.toNat := by
  have hlt := n.toNat_lt
  exact Int64.toInt_ofNat_of_lt (by omega)

theorem uint32Limits_iff {value : Int64} :
    uint32Limits value ↔ 0 ≤ value.toInt ∧ value.toInt < 2 ^ 32 := Iff.rfl

theorem uint32_of_limits {value : Int64} {n : UInt32} :
    uint32Limits value ∧ UInt32.ofNat value.toInt.toNat = n ↔ value = Int64.ofNat n.toNat := by
  rw [uint32Limits_iff]
  constructor
  · rintro ⟨⟨hle, hlt⟩, rfl⟩
    have hnat : (UInt32.ofNat value.toInt.toNat).toNat = value.toInt.toNat := by
      rw [UInt32.toNat_ofNat']
      omega
    rw [← Int64.toInt_inj, toInt_ofNat_uint32, hnat]
    omega
  · rintro rfl
    have hlt := n.toNat_lt
    rw [toInt_ofNat_uint32, Int.toNat_natCast, UInt32.ofNat_toNat]
    exact ⟨⟨by omega, by omega⟩, rfl⟩

end Numbers

section Shapes

variable {value : Value}

theorem eq_integerValue (h : value.cleared = integerValue 0) : ∃ n, value = integerValue n := by
  cases value with
  | leaf primitive =>
    cases primitive with
    | integer n => exact ⟨n, rfl⟩
    | _ => cases h
  | record | elements | choice | tagged | any => cases h

theorem eq_octetsValue (h : value.cleared = octetsValue []) :
    ∃ octets, value = octetsValue octets := by
  cases value with
  | leaf primitive =>
    cases primitive with
    | octetString octets => exact ⟨octets, rfl⟩
    | _ => cases h
  | record | elements | choice | tagged | any => cases h

theorem eq_textValue (h : value.cleared = textValue "") : ∃ text, value = textValue text := by
  cases value with
  | leaf primitive =>
    cases primitive with
    | characterString string =>
      obtain ⟨kind, text⟩ := string
      cases h
      exact ⟨text, rfl⟩
    | _ => cases h
  | record | elements | choice | tagged | any => cases h

end Shapes

section Content

variable {slots : List (Slot Value)} {index : Nat} {field : Field} {content : Option Value}

theorem required_eq_ok_iff {β : Type} {found : Except Error (Option β)} {result : β} :
    required slots index found = .ok result ↔ found = .ok (some result) := by
  rw [required.eq_def]
  grind

theorem get_eq (h : slots[index]? = some ⟨field, content⟩) :
    Record.get slots index = .ok content := by
  rw [Record.get, Record.slot, h]
  rfl

theorem getAs_eq_none (h : slots[index]? = some ⟨field, none⟩) {α : Type} (expected : String)
    (extract : Value → Option α) : Record.getAs slots index expected extract = .ok none := by
  rw [Record.getAs, get_eq h]

theorem getAs_eq_some {value : Value} (h : slots[index]? = some ⟨field, some value⟩) {α : Type}
    (expected : String) {extract : Value → Option α} {result : α}
    (hextract : extract value = some result) :
    Record.getAs slots index expected extract = .ok (some result) := by
  rw [Record.getAs, get_eq h]
  simp only [hextract]

/-- A reader of a field with its declared type finds what `wrap` would write there. -/
theorem required_getAs_eq_ok_iff (h : slots[index]? = some ⟨field, content⟩) {α : Type}
    {expected : String} {extract : Value → Option α} (wrap : α → Value)
    (hextract : ∀ a, extract (wrap a) = some a) (hshape : ∀ value ∈ content, ∃ a, value = wrap a)
    {result : α} :
    required slots index (Record.getAs slots index expected extract) = .ok result ↔
      content = some (wrap result) := by
  rw [required_eq_ok_iff]
  cases content with
  | none =>
    rw [getAs_eq_none h]
    simp
  | some value =>
    obtain ⟨found, rfl⟩ := hshape value rfl
    rw [getAs_eq_some h expected (hextract found)]
    constructor
    · intro hsame
      cases hsame
      rfl
    · intro hsame
      have hfound := hextract found
      rw [Option.some_inj.1 hsame, hextract result] at hfound
      rw [hfound]

theorem integer_eq_ok_iff (h : slots[index]? = some ⟨field, content⟩)
    (htype : ∀ value ∈ content, value.cleared = integerValue 0) {n : Int64} :
    required slots index (Record.getInteger slots index) = .ok n ↔
      content = some (integerValue n) :=
  required_getAs_eq_ok_iff h integerValue (fun _ => rfl) fun value hvalue =>
    eq_integerValue (htype value hvalue)

theorem text_eq_ok_iff (h : slots[index]? = some ⟨field, content⟩)
    (htype : ∀ value ∈ content, value.cleared = textValue "") {string : String} :
    text slots index = .ok string ↔ content = some (textValue string) :=
  required_getAs_eq_ok_iff h textValue (fun _ => rfl) fun value hvalue =>
    eq_textValue (htype value hvalue)

theorem octets_eq_ok_iff (h : slots[index]? = some ⟨field, content⟩)
    (htype : ∀ value ∈ content, value.cleared = octetsValue []) {found : Octets} :
    octets slots index = .ok found ↔ content = some (octetsValue found) :=
  required_getAs_eq_ok_iff h octetsValue (fun _ => rfl) fun value hvalue =>
    eq_octetsValue (htype value hvalue)

theorem int32_eq_ok_iff (h : slots[index]? = some ⟨field, content⟩)
    (htype : ∀ value ∈ content, value.cleared = integerValue 0) {n : Int32} :
    int32 slots index = .ok n ↔ content = some (integerValue (.ofInt n.toInt)) := by
  rw [← integer_eq_ok_iff h htype, int32]
  constructor
  · intro hread
    split at hread
    · cases hread
    · rename_i value hvalue
      split at hread
      · rename_i hlimits
        cases hread
        rw [hvalue, ← int32_of_limits.1 ⟨hlimits, rfl⟩]
      · cases hread
  · intro hread
    obtain ⟨hlimits, hn⟩ := int32_of_limits.2 (rfl : Int64.ofInt n.toInt = _)
    simp only [hread, if_pos hlimits, hn]

theorem optionalUInt32_eq_ok_iff (h : slots[index]? = some ⟨field, content⟩)
    (htype : ∀ value ∈ content, value.cleared = integerValue 0) {n : Option UInt32} :
    optionalUInt32 slots index = .ok n ↔
      content = n.map fun n => integerValue (.ofNat n.toNat) := by
  rw [optionalUInt32, Record.getInteger]
  cases content with
  | none =>
    rw [getAs_eq_none h]
    cases n <;> simp
  | some value =>
    obtain ⟨m, rfl⟩ := eq_integerValue (htype value rfl)
    rw [getAs_eq_some h _ (rfl : (integerValue m).integer? = some m)]
    cases n with
    | none => grind
    | some n =>
      have hinj : integerValue m = integerValue (.ofNat n.toNat) ↔ m = .ofNat n.toNat := by
        simp [integerValue]
      rw [Option.map_some, Option.some_inj, hinj, ← uint32_of_limits]
      grind

theorem nested_eq_ok_iff {α : Type} [Structure α] (h : slots[index]? = some ⟨field, content⟩)
    {item : α} :
    nested α slots index = .ok item ↔
      ∃ value, content = some value ∧ Structure.ofValue value = .ok item := by
  rw [nested, get_eq h]
  cases content with
  | none => simp [required]
  | some value =>
    simp only [required]
    grind

end Content

end Asn1.Kerberos
