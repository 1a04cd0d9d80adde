import Asn1.Proofs.Tlv

/-!
The offsets that errors tell. They count from the first octet of all, and what they point at
lies in the octets that were read. Where those octets lie changes nothing but the offsets.
-/

namespace Asn1

namespace Error

/-- The offset in the error itself. -/
def offset? : Error → Option Nat
  | .malformed offset _ => some offset
  | .unexpectedTag offset _ _ => some offset
  | .unknownAlternative offset _ => some offset
  | .trailing offset _ => some offset
  | _ => none

/-- The same error in octets that lie `base` further on. -/
def rebase (base : Nat) : Error → Error
  | .malformed offset cause => .malformed (offset + base) cause
  | .unexpectedTag offset expected found => .unexpectedTag (offset + base) expected found
  | .unknownAlternative offset tag => .unknownAlternative (offset + base) tag
  | .trailing offset remaining => .trailing (offset + base) remaining
  | .inField index name source => .inField index name (source.rebase base)
  | error => error

/-- What the error points at lies in the octets from `first` up to `last`, and so do all of
the octets that it says to trail, of which there are some. -/
def Within (first last : Nat) (error : Error) : Prop :=
  (∀ offset ∈ error.rootCause.offset?, first ≤ offset ∧ offset ≤ last) ∧
    ∀ offset remaining, error.rootCause = .trailing offset remaining →
      0 < remaining ∧ offset + remaining ≤ last

section Within

variable {first last : Nat}

@[simp] theorem within_malformed {offset : Nat} {cause : Malformation} :
    (Error.malformed offset cause).Within first last ↔ first ≤ offset ∧ offset ≤ last := by
  simp [Within, rootCause, offset?]

@[simp] theorem within_unexpectedTag {offset : Nat} {expected found : Tag} :
    (Error.unexpectedTag offset expected found).Within first last ↔
      first ≤ offset ∧ offset ≤ last := by
  simp [Within, rootCause, offset?]

@[simp] theorem within_unknownAlternative {offset : Nat} {tag : Tag} :
    (Error.unknownAlternative offset tag).Within first last ↔ first ≤ offset ∧ offset ≤ last := by
  simp [Within, rootCause, offset?]

@[simp] theorem within_trailing {offset remaining : Nat} :
    (Error.trailing offset remaining).Within first last ↔
      first ≤ offset ∧ 0 < remaining ∧ offset + remaining ≤ last := by
  constructor
  · rintro ⟨hoffset, htrailing⟩
    have := hoffset offset rfl
    have := htrailing offset remaining rfl
    omega
  · intro h
    refine ⟨?_, ?_⟩
    · rintro _ ⟨⟩
      omega
    · rintro _ _ ⟨⟩
      exact h.2

@[simp] theorem within_missingField (index : Nat) (name : String) :
    (Error.missingField index name).Within first last := by
  simp [Within, rootCause, offset?]

@[simp] theorem within_endlessType : Error.endlessType.Within first last := by
  simp [Within, rootCause, offset?]

@[simp] theorem within_inField {index : Nat} {name : String} {source : Error} :
    (Error.inField index name source).Within first last ↔ source.Within first last := Iff.rfl

theorem Within.mono {error : Error} (h : error.Within first last) {first' last' : Nat}
    (hfirst : first' ≤ first) (hlast : last ≤ last') : error.Within first' last' := by
  refine ⟨?_, ?_⟩
  · intro offset hoffset
    have := h.1 offset hoffset
    omega
  · intro offset remaining htrailing
    have := h.2 offset remaining htrailing
    omega

end Within

end Error

namespace Base128

theorem count_le_of_decodeFrom {limit value count : Nat} {octets : Octets} {fault : Nat × Fault}
    (h : decodeFrom limit value count octets = .error fault) :
    fault.1 ≤ count + octets.length := by
  induction octets generalizing value count with
  | nil =>
    cases h
    exact Nat.le_refl _
  | cons octet rest ih =>
    simp only [decodeFrom] at h
    rw [List.length_cons]
    split at h
    · cases h
      omega
    · split at h
      · cases h
        omega
      · split at h
        · cases h
        · have := ih h
          omega

end Base128

namespace Tag

theorem groupError_eq (offset : Nat) (fault : Nat × Base128.Fault) :
    ∃ cause, groupError offset fault = .malformed (offset + fault.1) cause := by
  obtain ⟨count, cause⟩ := fault
  cases cause <;> exact ⟨_, rfl⟩

theorem within_of_decode {offset : Nat} {octets : Octets} {error : Error}
    (h : decode offset octets = .error error) :
    error.Within offset (offset + octets.length) := by
  cases octets with
  | nil =>
    cases h
    simp
  | cons first rest =>
    simp only [decode] at h
    rw [List.length_cons]
    split at h
    · cases h
    · split at h
      · rename_i fault hfault
        cases h
        obtain ⟨cause, hcause⟩ := groupError_eq (offset + 1) fault
        have := Base128.count_le_of_decodeFrom hfault
        rw [hcause, Error.within_malformed]
        omega
      · split at h
        · cases h
          rw [Error.within_malformed]
          omega
        · cases h

theorem groupError_rebase (base offset : Nat) (fault : Nat × Base128.Fault) :
    groupError (offset + base) fault = (groupError offset fault).rebase base := by
  obtain ⟨count, cause⟩ := fault
  cases cause <;> simp only [groupError, Error.rebase, Nat.add_right_comm]

theorem decode_rebase (base offset : Nat) (octets : Octets) :
    decode (offset + base) octets = (decode offset octets).mapError (Error.rebase base) := by
  cases octets with
  | nil => rfl
  | cons first rest =>
    simp only [decode]
    split
    · rfl
    · split
      · rw [Nat.add_right_comm, groupError_rebase]
        rfl
      · split <;> rfl

end Tag

namespace Length

theorem within_of_decode {offset : Nat} {octets : Octets} {error : Error}
    (h : decode offset octets = .error error) : error.Within offset offset := by
  cases octets with
  | nil =>
    cases h
    simp
  | cons first rest =>
    simp only [decode] at h
    repeat' split at h
    all_goals cases h
    all_goals simp

theorem decode_rebase (base offset : Nat) (octets : Octets) :
    decode (offset + base) octets = (decode offset octets).mapError (Error.rebase base) := by
  cases octets with
  | nil => rfl
  | cons first rest =>
    simp only [decode]
    repeat' split
    all_goals rfl

end Length

namespace Tlv

/-- The same element, `base` further on. -/
def shift (base : Nat) (tlv : Tlv) : Tlv := { tlv with offset := tlv.offset + base }

theorem offset_le_endOffset (tlv : Tlv) : tlv.offset ≤ tlv.endOffset := by
  rw [endOffset, contentOffset]
  omega

@[simp] theorem endOffset_shift (base : Nat) (tlv : Tlv) :
    (tlv.shift base).endOffset = tlv.endOffset + base := by
  simp only [endOffset, contentOffset, shift]
  omega

/-- Octets of an element, of which there are some, lie between these offsets. -/
def Within (first last : Nat) (tlv : Tlv) : Prop :=
  first ≤ tlv.offset ∧ tlv.offset < tlv.endOffset ∧ tlv.endOffset ≤ last

theorem endOffset_of_read {rules : Rules} {offset : Nat} {octets rest : Octets} {tlv : Tlv}
    (h : read rules offset octets = .ok (tlv, rest)) :
    tlv.offset < tlv.endOffset ∧ tlv.endOffset + rest.length = offset + octets.length := by
  have := read_length h
  rw [endOffset, contentOffset, offset_of_read h]
  omega

theorem within_of_read {rules : Rules} {offset : Nat} {octets rest : Octets} {tlv : Tlv}
    (h : read rules offset octets = .ok (tlv, rest)) :
    tlv.Within offset (offset + octets.length) := by
  have := endOffset_of_read h
  rw [Within, offset_of_read h] at *
  omega

theorem error_within_of_read {rules : Rules} {offset : Nat} {octets : Octets} {error : Error}
    (h : read rules offset octets = .error error) :
    error.Within offset (offset + octets.length) := by
  simp only [read] at h
  split at h
  · rename_i htag
    cases h
    exact Tag.within_of_decode htag
  · rename_i tag afterTag htag
    have := Tag.decode_shortens htag
    split at h
    · rename_i hlength
      cases h
      exact (Length.within_of_decode hlength).mono (by omega) (by omega)
    · split at h
      · cases h
        rw [Error.within_malformed]
        omega
      · split at h
        · cases h
          rw [Error.within_malformed]
          omega
        · cases h

/-- What follows the element is counted from its end. -/
theorem trailing_within_of_read {rules : Rules} {offset : Nat} {octets rest : Octets} {tlv : Tlv}
    (h : read rules offset octets = .ok (tlv, rest)) (hrest : ¬ rest.isEmpty = true) :
    (Error.trailing tlv.endOffset rest.length).Within offset (offset + octets.length) := by
  have := endOffset_of_read h
  have hbegin := offset_of_read h
  have := List.length_pos_iff.2 (mt List.isEmpty_iff.2 hrest)
  rw [Error.within_trailing]
  omega

theorem read_rebase (rules : Rules) (base offset : Nat) (octets : Octets) :
    read rules (offset + base) octets =
      ((read rules offset octets).mapError (Error.rebase base)).map fun read =>
        (read.1.shift base, read.2) := by
  rw [read, Tag.decode_rebase, read]
  cases Tag.decode offset octets with
  | error => rfl
  | ok decoded =>
    obtain ⟨tag, afterTag⟩ := decoded
    simp only [Except.mapError]
    rw [Nat.add_right_comm, Length.decode_rebase]
    cases Length.decode (offset + (octets.length - afterTag.length)) afterTag with
    | error => rfl
    | ok decoded =>
      simp only [Except.mapError]
      split
      · rfl
      · split <;> rfl

namespace Stream

def shift (base : Nat) : Stream → Stream
  | .done => .done
  | .broken error => .broken (error.rebase base)
  | .next tlv rest => .next (tlv.shift base) (rest.shift base)

/-- All elements lie between these offsets, and so does the break if there is one. -/
def Within (first last : Nat) : Stream → Prop
  | .done => True
  | .broken error => error.Within first last
  | .next tlv rest => tlv.Within first last ∧ rest.Within first last

theorem Within.mono {stream : Stream} {first first' last : Nat} (h : stream.Within first last)
    (hfirst : first' ≤ first) : stream.Within first' last := by
  induction stream with
  | done => trivial
  | broken => exact Error.Within.mono h hfirst (Nat.le_refl _)
  | next tlv rest ih =>
    obtain ⟨⟨hbegin, hsome, hend⟩, hrest⟩ := h
    exact ⟨⟨Nat.le_trans hfirst hbegin, hsome, hend⟩, ih hrest⟩

end Stream

theorem stream_within (rules : Rules) (offset : Nat) (octets : Octets) :
    (stream rules offset octets).Within offset (offset + octets.length) := by
  fun_induction stream rules offset octets with
  | case1 => trivial
  | case2 _ _ _ _ herror => exact error_within_of_read herror
  | case3 offset octets _ tlv rest hread ih =>
    have hend := endOffset_of_read hread
    have hbegin := offset_of_read hread
    rw [hend.2] at ih
    exact ⟨within_of_read hread, ih.mono (by omega)⟩

theorem stream_rebase (rules : Rules) (base offset : Nat) (octets : Octets) :
    stream rules (offset + base) octets = (stream rules offset octets).shift base := by
  fun_induction stream rules offset octets with
  | case1 offset octets hempty =>
    rw [List.isEmpty_iff.1 hempty, stream_nil]
    rfl
  | case2 offset octets hsome error herror =>
    have hshifted : read rules (offset + base) octets = .error (error.rebase base) := by
      rw [read_rebase, herror]
      rfl
    rw [stream_of_error hsome hshifted, Stream.shift]
  | case3 offset octets hsome tlv rest hread ih =>
    have hshifted : read rules (offset + base) octets = .ok (tlv.shift base, rest) := by
      rw [read_rebase, hread]
      rfl
    rw [stream_of_read hshifted, endOffset_shift, ih, Stream.shift]

end Tlv

end Asn1
