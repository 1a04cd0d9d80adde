import Asn1.Proofs.Value.Decoded
import Asn1.Proofs.Value.Encodable

/-!
Encoding what has been decoded. The decoders make sure of everything that encoding asks for
but the years of times: the basic rules let a zone offset lead out of the years that the text
of a time type can show.
-/

namespace Asn1.Value

variable {defs : Definitions}

/-- The text of the value's type, if it is a time, can show its year. -/
def YearInRange : Value → Prop
  | .leaf primitive => primitive.YearInRange
  | _ => True

theorem ready_iff_of_decoded {allowed : Policy → Prop} {value : Value}
    (h : value.Decoded allowed) : value.Ready ↔ value.YearInRange := by
  cases value with
  | leaf primitive =>
    obtain ⟨policy, template, content, -, hresult⟩ := h
    rw [Ready, YearInRange]
    exact Primitive.exists_encode_iff_of_decode hresult
  | record | choice => exact iff_of_true h trivial
  | elements | tagged => exact iff_of_true trivial trivial
  | any raw =>
    obtain ⟨tlv, hread⟩ := h
    exact iff_of_true (Tlv.ne_nil_of_read hread) trivial

theorem yearInRange_of_decoded {value : Value}
    (h : value.Decoded fun policy => policy.rules = .distinguished) : value.YearInRange := by
  cases value with
  | leaf primitive =>
    obtain ⟨policy, template, content, hrules, hresult⟩ := h
    rw [hrules] at hresult
    exact Primitive.yearInRange_of_decode hresult
  | record | elements | choice | tagged | any => trivial

/-- What was decoded can be encoded exactly if the years of its times are in range, and under
the distinguished rules they always are. -/
theorem encodes_again_iff_years_in_range {template value : Value} {policy : Policy}
    {octets : Octets} (h : decode defs template octets policy = .ok value) :
    ((∃ again, value.encode policy = .ok again) ↔ value.Throughout YearInRange) ∧
      (template.WithoutOverrides defs → policy.rules = .distinguished →
        ∃ again, value.encode policy = .ok again) := by
  have hencodes : (∃ again, value.encode policy = .ok again) ↔ value.Throughout YearInRange := by
    rw [exists_encode_iff, encodes_iff_throughout]
    exact forall₂_congr fun part hpart => ready_iff_of_decoded (decoded_of_decode h part hpart)
  refine ⟨hencodes, ?_⟩
  intro htemplate hrules
  have hdecoded : value.Throughout (Decoded fun policy => policy.rules = .distinguished) :=
    throughout_decoded_of_decode hrules htemplate.overridesSatisfy h
  exact hencodes.2 (hdecoded.imp fun _ hpart => yearInRange_of_decoded hpart)

/-- A SEQUENCE of one UTCTime, which an offset puts at the very start of 1950. -/
theorem utcTime_of_1950_encoded_again :
    decode ⟨[("time", .leaf (.utcTime .epoch))]⟩
        (emptyRecord .sequence [⟨"at", none, none, false, "time"⟩])
        [0x30, 0x11, 0x17, 0x0F, 0x35, 0x30, 0x30, 0x31, 0x30, 0x31, 0x30, 0x31, 0x30, 0x30, 0x2B,
          0x30, 0x31, 0x30, 0x30] .ber =
        .ok (.record .sequence
          [⟨⟨"at", none, none, false, "time"⟩, some (.leaf (.utcTime ⟨-631152000, 0⟩))⟩] none) ∧
      ∃ again, (Value.record .sequence [⟨⟨"at", none, none, false, "time"⟩,
        some (.leaf (.utcTime ⟨-631152000, 0⟩))⟩] none).encode .ber = .ok again := by
  have hdecode : decode ⟨[("time", .leaf (.utcTime .epoch))]⟩
      (emptyRecord .sequence [⟨"at", none, none, false, "time"⟩])
      [0x30, 0x11, 0x17, 0x0F, 0x35, 0x30, 0x30, 0x31, 0x30, 0x31, 0x30, 0x31, 0x30, 0x30, 0x2B,
        0x30, 0x31, 0x30, 0x30] .ber =
      .ok (.record .sequence
        [⟨⟨"at", none, none, false, "time"⟩, some (.leaf (.utcTime ⟨-631152000, 0⟩))⟩] none) := by
    refine decode_eq_ok_iff.2 ⟨_, _, rfl, .record rfl rfl ?_, fun _ => rfl⟩
    rw [Tlv.stream_of_last rfl]
    exact .filled rfl (.untagged rfl (.leaf rfl rfl rfl)) (.done nofun)
  refine ⟨hdecode, (encodes_again_iff_years_in_range hdecode).1.2 ?_⟩
  have hyear : Primitive.YearInRange (.utcTime ⟨-631152000, 0⟩) :=
    ⟨(by decide : (1950 : Int) ≤ 1950), (by decide : (1950 : Int) ≤ 2049)⟩
  simpa [YearInRange] using hyear

/-- The first hour of 1950 east of Greenwich belongs to 1949, a year that UTCTime cannot
show. -/
theorem utcTime_of_1949_not_encoded_again :
    (Value.leaf (.utcTime .epoch)).WithoutOverrides ⟨[]⟩ ∧
      decode ⟨[]⟩ (.leaf (.utcTime .epoch))
        [0x17, 0x11, 0x35, 0x30, 0x30, 0x31, 0x30, 0x31, 0x30, 0x30, 0x30, 0x30, 0x30, 0x30, 0x2B,
          0x30, 0x31, 0x30, 0x30] .ber =
        .ok (.leaf (.utcTime ⟨-631155600, 0⟩)) ∧
      (Value.leaf (.utcTime ⟨-631155600, 0⟩)).encode .ber =
        .error (.unencodable (.year 1949 .utcTime)) := by
  refine ⟨.leaf _, ?_, rfl⟩
  exact decode_eq_ok_iff.2 ⟨_, _, rfl, .leaf rfl rfl rfl, fun _ => rfl⟩

end Asn1.Value
