import Asn1.Proofs.Value.Offset
import Asn1.Proofs.Value.Retagging
import Asn1.Proofs.Value.SingleElement
import Asn1.Value.Any

/-!
Open types. An ANY that captures a value shows its octets wherever an explicit tag would show
the value, and one that captures an element loses nothing by which the element could be told:
what it holds is read again as that element, only at another place. So it makes no difference
whether a type is known when the octets are read or only later.
-/

namespace Asn1.Value

section Capturing

variable {value : Value} {policy : Policy} {raw : Octets}

theorem anyOfValue_eq_ok_iff {held : Value} :
    value.anyOfValue = .ok held ↔ ∃ raw, value.encode .der = .ok raw ∧ .any raw = held :=
  map_eq_ok_iff

/-- What has been encoded can be held, and is handed on as it is. -/
theorem encode_any_of_encode (h : value.encode policy = .ok raw) (other : Policy) :
    (Value.any raw).encode other = .ok raw := by
  obtain ⟨encoding, hencoding, rfl⟩ := encode_eq_ok_iff.1 h
  have hheld : (Value.any encoding.octets).encoding other = .ok (.whole encoding.octets) :=
    encoding_any.2 ⟨octets_ne_nil_of_encoding hencoding, rfl⟩
  exact encode_eq_ok_iff.2 ⟨_, hheld, rfl⟩

theorem taggedEncode_any_of_encode {tagging : Tagging} (hmode : tagging.mode = .explicit)
    (h : value.encode policy = .ok raw) (other : Policy) :
    (Value.any raw).taggedEncode tagging other = value.taggedEncode tagging policy := by
  rw [taggedEncode_of_wrapped h (.inl hmode),
    taggedEncode_of_wrapped (encode_any_of_encode h other) (.inl hmode)]

end Capturing

/-- The octets are the element, with no more behind it than the policy lets go. -/
def IsElement (policy : Policy) (octets : Octets) (tlv : Tlv) : Prop :=
  ∃ rest, Tlv.read policy.rules 0 octets = .ok (tlv, rest) ∧ (policy.strict = true → rest = [])

/-- The octets are an explicit tag that wraps the element. -/
def IsWrapped (policy : Policy) (tagging : Tagging) (octets : Octets) (tlv : Tlv) : Prop :=
  ∃ outer content, IsElement policy octets outer ∧
    (Source.element outer).contentUnder (tagging.tag true) = .ok content ∧
    content.wrapped policy.rules tagging = .ok (tlv, [])

theorem IsElement.legible {policy : Policy} {octets : Octets} {tlv : Tlv}
    (h : IsElement policy octets tlv) : tlv.Legible policy.rules := by
  obtain ⟨rest, hread, -⟩ := h
  exact Tlv.legible_of_read hread

theorem IsWrapped.legible {policy : Policy} {tagging : Tagging} {octets : Octets} {tlv : Tlv}
    (h : IsWrapped policy tagging octets tlv) : tlv.Legible policy.rules := by
  obtain ⟨_, _, -, -, hwrapped⟩ := h
  obtain ⟨-, -, hread⟩ := Content.wrapped_eq_ok_iff.1 hwrapped
  exact Tlv.legible_of_read hread

section Opening

variable {defs : Definitions} {policy : Policy} {value result : Value} {octets : Octets}

theorem decode_iff_isElement (hnone : value.policy? = none) :
    decode defs value octets policy = .ok result ↔ ∃ tlv, IsElement policy octets tlv ∧
      Decodes defs defs.choiceLimit policy value.cleared (.element tlv) result := by
  rw [decode_eq_ok_iff, resolve_of_policy?_eq_none hnone]
  constructor
  · rintro ⟨tlv, rest, hread, hvalue, hend⟩
    exact ⟨tlv, ⟨rest, hread, hend⟩, hvalue⟩
  · rintro ⟨tlv, ⟨rest, hread, hend⟩, hvalue⟩
    exact ⟨tlv, rest, hread, hvalue, hend⟩

/-- The tag that is explicit is checked, and what it wraps is found, before the type counts. -/
theorem taggedDecode_iff_isWrapped {tagging : Tagging} (hmode : tagging.mode = .explicit)
    (hnone : value.policy? = none) :
    taggedDecode defs value tagging octets policy = .ok result ↔
      ∃ tlv, IsWrapped policy tagging octets tlv ∧
        Decodes defs defs.choiceLimit policy value.cleared (.element tlv) result := by
  have hmodeFor (inner : Value) : tagging.modeFor inner = .explicit := by
    rw [Tagging.modeFor, hmode, ite_self]
  have houter (inner : Value) : tagging.outerTag inner = tagging.tag true := by
    rw [Tagging.outerTag, hmodeFor]
  rw [taggedDecode_eq_ok_iff, resolve_of_policy?_eq_none hnone]
  constructor
  · rintro ⟨outer, rest, hread, hunder, hend⟩
    cases hunder with
    | @explicit _ _ _ _ _ content tlv hcontent _ hwrapped hvalue =>
      rw [houter] at hcontent
      exact ⟨tlv, ⟨outer, content, ⟨rest, hread, hend⟩, hcontent, hwrapped⟩, hvalue⟩
    | implicit _ himplicit _ =>
      rw [hmodeFor] at himplicit
      cases himplicit
  · rintro ⟨tlv, ⟨outer, content, ⟨rest, hread, hend⟩, hcontent, hwrapped⟩, hvalue⟩
    refine ⟨outer, rest, hread, .explicit ?_ (hmodeFor _) hwrapped hvalue, hend⟩
    rw [houter]
    exact hcontent

/-- An ANY holds the octets of the element, whatever it has held before. -/
theorem decodes_any_iff {depth : Nat} {held : Octets} {tlv : Tlv} :
    Decodes defs depth policy (.any held) (.element tlv) result ↔ result = .any tlv.raw := by
  constructor
  · rintro ⟨⟩
    rfl
  · rintro rfl
    exact .any

/-- The octets of an element, by themselves, decode as the element does in its place. -/
theorem decode_raw_iff {tlv : Tlv} (hlegible : tlv.Legible policy.rules)
    (hnone : value.policy? = none) :
    decode defs value tlv.raw policy = .ok result ↔
      Decodes defs defs.choiceLimit policy value.cleared (.element tlv) result := by
  -- the header was read under these rules before, so it passes them again
  have hread : Tlv.read policy.rules 0 tlv.raw = .ok ({ tlv with offset := 0 }, []) := by
    have hagain := Tlv.read_again hlegible id 0 []
    rw [List.append_nil] at hagain
    exact hagain
  rw [decode_iff_isElement hnone]
  constructor
  · rintro ⟨found, ⟨rest, hfound, -⟩, hvalue⟩
    rw [hread] at hfound
    cases hfound
    exact (decodes_element_iff 0).1 hvalue
  · intro hvalue
    exact ⟨_, ⟨[], hread, fun _ => rfl⟩, (decodes_element_iff 0).2 hvalue⟩

/-- However the element is found, holding it for a while changes nothing. -/
theorem exists_held_iff {found : Tlv → Prop}
    (hlegible : ∀ tlv, found tlv → tlv.Legible .distinguished) (hnone : value.policy? = none) :
    (∃ raw, (∃ tlv, found tlv ∧ Value.any raw = .any tlv.raw) ∧
        decodeAny defs raw value = .ok result) ↔
      ∃ tlv, found tlv ∧
        Decodes defs defs.choiceLimit .der value.cleared (.element tlv) result := by
  constructor
  · rintro ⟨_, ⟨tlv, hfound, ⟨⟩⟩, hopened⟩
    exact ⟨tlv, hfound, (decode_raw_iff (hlegible tlv hfound) hnone).1 hopened⟩
  · rintro ⟨tlv, hfound, hvalue⟩
    exact ⟨tlv.raw, ⟨tlv, hfound, rfl⟩, (decode_raw_iff (hlegible tlv hfound) hnone).2 hvalue⟩

end Opening

/-- A value and the ANY that captures it are encoded as the same octets, also below an explicit
tag. Octets that are decoded into an ANY, and from there into a value that does not override the
policy, come to what they are decoded to directly, or fail where they fail directly. -/
theorem open_types_transparent (defs : Definitions) (value : Value) :
    (∀ raw, value.encode .der = .ok raw →
      value.anyOfValue = .ok (.any raw) ∧
      (∀ policy, (Value.any raw).encode policy = .ok raw) ∧
      ∀ tagging, tagging.mode = .explicit →
        (Value.any raw).taggedEncode tagging .der = value.taggedEncode tagging .der) ∧
    (value.policy? = none → ∀ held octets result,
      ((∃ raw, decode defs (.any held) octets .der = .ok (.any raw) ∧
          decodeAny defs raw value.cleared = .ok result) ↔
        decode defs value.cleared octets .der = .ok result) ∧
      ∀ tagging, tagging.mode = .explicit →
        ((∃ raw, taggedDecode defs (.any held) tagging octets .der = .ok (.any raw) ∧
            decodeAny defs raw value.cleared = .ok result) ↔
          taggedDecode defs value.cleared tagging octets .der = .ok result)) := by
  constructor
  · intro raw hraw
    refine ⟨anyOfValue_eq_ok_iff.2 ⟨raw, hraw, rfl⟩, encode_any_of_encode hraw, ?_⟩
    intro tagging hmode
    exact taggedEncode_any_of_encode hmode hraw .der
  · intro hnone held octets result
    have hcleared : value.cleared.policy? = none := by rw [policy?_cleared, hnone]
    have hany : (Value.any held).policy? = none := rfl
    constructor
    · simp only [decode_iff_isElement hany, decode_iff_isElement hcleared, cleared,
        decodes_any_iff]
      exact exists_held_iff (fun _ hfound => hfound.legible) hcleared
    · intro tagging hmode
      simp only [taggedDecode_iff_isWrapped hmode hany, taggedDecode_iff_isWrapped hmode hcleared,
        cleared, decodes_any_iff]
      exact exists_held_iff (fun _ hfound => hfound.legible) hcleared

/-- A SEQUENCE is captured, wrapped and opened again, although its octets lie elsewhere by then. -/
theorem sequence_captured_and_opened :
    let defs : Definitions := ⟨[("number", .leaf (.integer 0))]⟩
    let value : Value := .record .sequence
      [⟨⟨"x", some 0, none, false, "number"⟩, some (.leaf (.integer 7))⟩] none
    let raw : Octets := [0x30, 5, 0xA0, 3, 2, 1, 7]
    let tagging : Tagging := ⟨.application, 1, .explicit⟩
    value.encode .der = .ok raw ∧ value.policy? = none ∧ tagging.mode = .explicit ∧
      value.anyOfValue = .ok (.any raw) ∧
      (Value.any raw).taggedEncode tagging .der = value.taggedEncode tagging .der ∧
      ∃ opened, taggedDecode defs (.any []) tagging ([0x61, 7] ++ raw) .der = .ok (.any opened) ∧
        decodeAny defs opened value.cleared = .ok value := by
  intro defs value raw tagging
  have hraw : value.encode .der = .ok raw := by decide
  have hdirect : taggedDecode defs value.cleared tagging ([0x61, 7] ++ raw) .der = .ok value := by
    refine taggedDecode_eq_ok_iff.2
      ⟨_, _, rfl, .explicit rfl rfl rfl (.record rfl rfl ?_), fun _ => rfl⟩
    rw [Tlv.stream_of_last rfl]
    exact .filled rfl (.tagged rfl (.explicit rfl rfl rfl (.leaf rfl rfl rfl))) (.done nofun)
  obtain ⟨hcaptured, hopened⟩ := open_types_transparent defs value
  obtain ⟨hheld, -, hwrapped⟩ := hcaptured raw hraw
  exact ⟨hraw, rfl, rfl, hheld, hwrapped tagging rfl,
    ((hopened rfl [] _ value).2 tagging rfl).2 hdirect⟩

end Asn1.Value
