import Asn1.Proofs.Tlv
import Asn1.Proofs.Value.Template

/-!
A policy that asks for less reads what a stricter one reads, as the same value.
Overrides stay as they are, so below them the two policies are one.
-/

namespace Asn1

/-- From distinguished rules to basic ones, from strict to lenient, or neither. -/
structure Policy.Relaxes (policy relaxed : Policy) : Prop where
  tagging : relaxed.tagging = policy.tagging
  rules : relaxed.rules = .distinguished → policy.rules = .distinguished
  strict : relaxed.strict = true → policy.strict = true

namespace Policy

theorem relaxes_refl (policy : Policy) : policy.Relaxes policy := ⟨rfl, id, id⟩

theorem relaxes_lenient (policy : Policy) : policy.Relaxes policy.lenient := ⟨rfl, id, nofun⟩

theorem Relaxes.getD {policy relaxed : Policy} (h : policy.Relaxes relaxed)
    (own : Option Policy) : (own.getD policy).Relaxes (own.getD relaxed) := by
  cases own with
  | none => exact h
  | some own => exact relaxes_refl own

theorem Relaxes.lenient {policy relaxed : Policy} (h : policy.Relaxes relaxed)
    (hlenient : policy.strict = false) : relaxed.strict = false := by
  by_contra hstrict
  rw [Bool.not_eq_false] at hstrict
  rw [h.strict hstrict] at hlenient
  cases hlenient

end Policy

theorem Field.tagging_of_relaxes {policy relaxed : Policy} (h : policy.Relaxes relaxed)
    (field : Field) : field.tagging relaxed = field.tagging policy := by
  rw [tagging, tagging, h.tagging]

theorem Primitive.decode_of_relaxes {policy relaxed : Policy} (h : policy.Relaxes relaxed)
    {primitive result : Primitive} {content : Octets}
    (hresult : primitive.decode policy.rules content = .ok result) :
    primitive.decode relaxed.rules content = .ok result := by
  cases hrules : policy.rules with
  | distinguished => exact decode_relax (hrules ▸ hresult)
  | basic =>
    have hbasic : relaxed.rules = .basic := by
      cases hrelaxed : relaxed.rules with
      | basic => rfl
      | distinguished => rw [h.rules hrelaxed] at hrules; cases hrules
    rw [hbasic, ← hrules, hresult]

namespace Tlv

theorem read_of_relaxes {policy relaxed : Policy} (h : policy.Relaxes relaxed) {offset : Nat}
    {octets rest : Octets} {tlv : Tlv}
    (hread : read policy.rules offset octets = .ok (tlv, rest)) :
    read relaxed.rules offset octets = .ok (tlv, rest) := by
  have hagain := read_again hread h.rules offset rest
  rw [← raw_of_read hread, ← offset_of_read hread] at hagain
  rw [← offset_of_read hread]
  exact hagain

/-- The second stream has all elements of the first and may go on after them. -/
inductive Stream.Extends : Stream → Stream → Prop where
  | done : Extends .done .done
  | broken (error : Error) (more : Stream) : Extends (.broken error) more
  | next (tlv : Tlv) {rest more : Stream} (hrest : Extends rest more) :
      Extends (.next tlv rest) (.next tlv more)

theorem stream_extends {policy relaxed : Policy} (h : policy.Relaxes relaxed) (offset : Nat)
    (octets : Octets) :
    (stream policy.rules offset octets).Extends (stream relaxed.rules offset octets) := by
  fun_induction stream policy.rules offset octets with
  | case1 offset octets hempty =>
    rw [List.isEmpty_iff.1 hempty, stream_nil]
    exact .done
  | case2 => exact .broken _ _
  | case3 offset octets hsome tlv rest hread ih =>
    rw [stream_of_read (read_of_relaxes h hread)]
    exact .next tlv ih

end Tlv

theorem Content.wrapped_of_relaxes {policy relaxed : Policy} (h : policy.Relaxes relaxed)
    {content : Content} {tagging : Tagging} {tlv : Tlv} {rest : Octets}
    (hwrapped : content.wrapped policy.rules tagging = .ok (tlv, rest)) :
    content.wrapped relaxed.rules tagging = .ok (tlv, rest) := by
  obtain ⟨hform, hsome, hread⟩ := wrapped_eq_ok_iff.1 hwrapped
  exact wrapped_eq_ok_iff.2 ⟨hform, hsome, Tlv.read_of_relaxes h hread⟩

namespace Value

variable {defs : Definitions}

mutual

theorem Decodes.relax {depth : Nat} {policy relaxed : Policy} {template result : Value}
    {source : Source} (h : Decodes defs depth policy template source result)
    (hrelaxes : policy.Relaxes relaxed) :
    Decodes defs depth relaxed template source result := by
  match h with
  | .leaf hcontent hform hresult =>
    exact .leaf hcontent hform (Primitive.decode_of_relaxes hrelaxes hresult)
  | .record hcontent hform hslots =>
    exact .record hcontent hform
      (hslots.relax (hrelaxes.getD _) (Tlv.stream_extends (hrelaxes.getD _) _ _))
  | .elements hcontent hform hitems =>
    exact .elements hcontent hform
      (hitems.relax (hrelaxes.getD _) (Tlv.stream_extends (hrelaxes.getD _) _ _))
  | .choice hfirst hfield => exact .choice hfirst (hfield.relax (hrelaxes.getD _))
  | .tagged hinner => exact .tagged (hinner.relax (hrelaxes.getD _))
  | .any => exact .any

theorem DecodesUnder.relax {policy relaxed : Policy} {tagging : Tagging} {inner result : Value}
    {source : Source} (h : DecodesUnder defs policy tagging inner source result)
    (hrelaxes : policy.Relaxes relaxed) :
    DecodesUnder defs relaxed tagging inner source result := by
  match h with
  | .explicit hcontent hmode hwrapped hinner =>
    exact .explicit hcontent hmode (Content.wrapped_of_relaxes hrelaxes hwrapped)
      (hinner.relax hrelaxes)
  | .implicit hcontent hmode hinner => exact .implicit hcontent hmode (hinner.relax hrelaxes)

theorem DecodesField.relax {depth : Nat} {policy relaxed : Policy} {field : Field} {tlv : Tlv}
    {result : Value} (h : DecodesField defs depth policy field tlv result)
    (hrelaxes : policy.Relaxes relaxed) : DecodesField defs depth relaxed field tlv result := by
  have htagging := Field.tagging_of_relaxes hrelaxes field
  match h with
  | .untagged hnone hvalue => exact .untagged (htagging.trans hnone) (hvalue.relax hrelaxes)
  | .tagged hsome hvalue => exact .tagged (htagging.trans hsome) (hvalue.relax hrelaxes)

theorem DecodesSlots.relax {policy relaxed : Policy} {fields : List Field}
    {stream more : Tlv.Stream} {slots : List (Slot Value)}
    (h : DecodesSlots defs policy fields stream slots) (hrelaxes : policy.Relaxes relaxed)
    (hmore : stream.Extends more) : DecodesSlots defs relaxed fields more slots := by
  match h with
  | .done hoptional =>
    cases hmore
    exact .done hoptional
  | .ignored hlenient =>
    cases hmore
    exact .ignored (hrelaxes.lenient hlenient)
  | .filled haccepts hvalue hrest =>
    cases hmore with
    | next _ hmore => exact .filled haccepts (hvalue.relax hrelaxes) (hrest.relax hrelaxes hmore)
  | .skipped haccepts hoptional hrest =>
    cases hmore with
    | next _ hmore =>
      exact .skipped haccepts hoptional (hrest.relax hrelaxes (.next _ hmore))

theorem DecodesItems.relax {policy relaxed : Policy} {type : String} {stream more : Tlv.Stream}
    {items : List Value} (h : DecodesItems defs policy type stream items)
    (hrelaxes : policy.Relaxes relaxed) (hmore : stream.Extends more) :
    DecodesItems defs relaxed type more items := by
  match h with
  | .done =>
    cases hmore
    exact .done
  | .next hitem hrest =>
    cases hmore with
    | next _ hmore => exact .next (hitem.relax hrelaxes) (hrest.relax hrelaxes hmore)

end

theorem resolve_relaxes {policy relaxed : Policy} (h : policy.Relaxes relaxed) (value : Value) :
    (value.resolve policy).Relaxes (value.resolve relaxed) := h.getD _

section Roots

variable {value result : Value} {octets : Octets} {policy relaxed : Policy}

theorem decode_of_relaxes (h : policy.Relaxes relaxed)
    (hdecode : decode defs value octets policy = .ok result) :
    decode defs value octets relaxed = .ok result := by
  have hvalue := resolve_relaxes h value
  obtain ⟨tlv, rest, hread, hresult, hend⟩ := decode_eq_ok_iff.1 hdecode
  exact decode_eq_ok_iff.2 ⟨tlv, rest, Tlv.read_of_relaxes hvalue hread,
    hresult.relax hvalue, hend ∘ hvalue.strict⟩

theorem taggedDecode_of_relaxes {tagging : Tagging} (h : policy.Relaxes relaxed)
    (hdecode : taggedDecode defs value tagging octets policy = .ok result) :
    taggedDecode defs value tagging octets relaxed = .ok result := by
  have hvalue := resolve_relaxes h value
  obtain ⟨tlv, rest, hread, hresult, hend⟩ := taggedDecode_eq_ok_iff.1 hdecode
  exact taggedDecode_eq_ok_iff.2 ⟨tlv, rest, Tlv.read_of_relaxes hvalue hread,
    hresult.relax hvalue, hend ∘ hvalue.strict⟩

end Roots

/-- What decodes under a policy decodes to the same under a relaxed one, also below a
re-tag. -/
theorem decode_unchanged_by_relaxing {value result : Value} {octets : Octets}
    {policy relaxed : Policy} (h : policy.Relaxes relaxed) :
    (decode defs value octets policy = .ok result →
        decode defs value octets relaxed = .ok result) ∧
      ∀ tagging, taggedDecode defs value tagging octets policy = .ok result →
        taggedDecode defs value tagging octets relaxed = .ok result :=
  ⟨decode_of_relaxes h, fun _ => taggedDecode_of_relaxes h⟩

/-- A SEQUENCE of one BOOLEAN, read strictly under the distinguished rules and so leniently
under the basic ones. -/
theorem decode_boolean_unchanged_by_relaxing :
    Policy.der.Relaxes Policy.ber.lenient ∧
      decode ⟨[("flag", .leaf (.boolean false))]⟩
          (emptyRecord .sequence [⟨"set", none, none, false, "flag"⟩])
          [0x30, 0x03, 0x01, 0x01, 0xFF] Policy.ber.lenient =
        .ok (.record .sequence
          [⟨⟨"set", none, none, false, "flag"⟩, some (.leaf (.boolean true))⟩] none) := by
  have hrelaxes : Policy.der.Relaxes Policy.ber.lenient := ⟨rfl, nofun, nofun⟩
  refine ⟨hrelaxes, (decode_unchanged_by_relaxing hrelaxes).1 ?_⟩
  refine decode_eq_ok_iff.2 ⟨_, _, rfl, .record rfl rfl ?_, fun _ => rfl⟩
  rw [Tlv.stream_of_last rfl]
  exact .filled rfl (.untagged rfl (.leaf rfl rfl rfl)) (.done nofun)

end Value

end Asn1
