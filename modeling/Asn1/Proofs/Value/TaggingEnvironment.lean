import Asn1.Proofs.Value.Inheritance

/-!
What an encoding takes from the policy it is made under. That is the tagging mode, and this only
for context tags that name no mode of their own: neither the rules nor how strict the policy is
reach an octet or an error, whatever the values inside override.
-/

namespace Asn1

namespace Field

/-- All that a field looks up in a policy is the mode of its tag, if it names none. -/
theorem tagging_congr {field : Field} {p q : Policy}
    (h : field.number.isSome = true → field.mode.isSome = true ∨ p.tagging = q.tagging) :
    field.tagging p = field.tagging q := by
  unfold tagging
  cases hnumber : field.number with
  | none => rfl
  | some number =>
    rw [hnumber] at h
    rcases h rfl with hmode | hsame
    · obtain ⟨mode, hmode⟩ := Option.isSome_iff_exists.1 hmode
      rw [hmode]
      rfl
    · rw [hsame]

end Field

namespace Value

/-- The policy that the value is used under reaches the tag of the field: in the value or
somewhere inside it the field is set, or is the alternative selected, and there is no override on
the way there. -/
inductive PolicyReaches : Value → Field → Prop where
  | slot {grouping : Grouping} {slots : List (Slot Value)} {field : Field} {part : Value}
      (h : ⟨field, some part⟩ ∈ slots) : PolicyReaches (.record grouping slots none) field
  | selected {alternatives : List Field} {index : Nat} {part : Value} {field : Field}
      (h : alternatives[index]? = some field) :
      PolicyReaches (.choice alternatives (some ⟨index, part⟩) none) field
  | inside {value part : Value} {field : Field} (hnone : value.policy? = none)
      (hpart : Contains value part) (h : PolicyReaches part field) : PolicyReaches value field

variable {p q : Policy}

/-- Fields whose tags and contents are written alike are written alike together, errors
included. -/
theorem encodeSlots_eq_of_forall_mem {slots : List (Slot Value)}
    (h : ∀ field part, ⟨field, some part⟩ ∈ slots →
      field.tagging p = field.tagging q ∧ part.encoding p = part.encoding q) (index : Nat) :
    encodeSlots p index slots = encodeSlots q index slots := by
  induction slots generalizing index with
  | nil => rfl
  | cons slot rest ih =>
    obtain ⟨field, content⟩ := slot
    have hrest := ih fun field part hmem => h field part (.tail _ hmem)
    cases content with
    | none => rw [encodeSlots, encodeSlots, hrest]
    | some part =>
      obtain ⟨htagging, hpart⟩ := h field part (.head _)
      rw [encodeSlots, encodeSlots, hpart, Field.encode_congr rfl htagging rfl, hrest]

theorem encodeItems_eq_of_forall_mem {items : List Value}
    (h : ∀ item ∈ items, item.encoding p = item.encoding q) (index : Nat) :
    encodeItems p index items = encodeItems q index items := by
  induction items generalizing index with
  | nil => rfl
  | cons item rest ih =>
    obtain ⟨hitem, hrest⟩ := List.forall_mem_cons.1 h
    rw [encodeItems, encodeItems, hitem, ih hrest]

/-- Policies that give the same taggings wherever they reach lead to the same encoding. -/
theorem encoding_eq_of_reached {value : Value}
    (h : ∀ field, value.PolicyReaches field → field.tagging p = field.tagging q) :
    value.encoding p = value.encoding q := by
  induction value using contains_induction with
  | h value ih =>
    cases hown : value.policy? with
    | some own =>
      -- The value resolves both policies to its override.
      rw [← encoding_resolve value p, ← encoding_resolve value q, resolve, resolve, hown]
      rfl
    | none =>
      have hparts : ∀ part, Contains value part → part.encoding p = part.encoding q := by
        intro part hpart
        apply ih part hpart
        intro field hfield
        exact h field (.inside hown hpart hfield)
      cases value with
      | leaf | any => rfl
      | record =>
        cases hown
        rw [encoding, encoding, Option.getD_none, Option.getD_none, encodeSlots_eq_of_forall_mem]
        intro field part hmem
        exact ⟨h field (.slot hmem), hparts part (.slot hmem rfl)⟩
      | elements =>
        cases hown
        rw [encoding, encoding, Option.getD_none, Option.getD_none, encodeItems_eq_of_forall_mem]
        intro item hitem
        exact hparts item (.item hitem)
      | choice alternatives selection =>
        cases hown
        cases selection with
        | none => rfl
        | some selection =>
          obtain ⟨index, part⟩ := selection
          rw [encoding, encoding, Option.getD_none, Option.getD_none, hparts part .selected]
          cases hfield : alternatives[index]? with
          | none => rfl
          | some field => simp only [Field.encode_congr rfl (h field (.selected hfield)) rfl]
      | tagged _ inner =>
        cases hown
        rw [encoding, encoding, Option.getD_none, Option.getD_none, hparts inner .inner]

/-- Of the policy only the tagging mode counts for an encoding, bytes and errors alike, however
the encoding is asked for. Where every context tag names its own mode not even that counts; the
tags of fields that are not set and those below an override need not name one. -/
theorem encoded_by_tagging_mode_alone (value : Value) (p q : Policy) :
    (p.tagging = q.tagging → SameEncodings value p value q) ∧
    ((∀ field, value.PolicyReaches field → field.number.isSome = true →
        field.mode.isSome = true) → SameEncodings value p value q) := by
  constructor
  · intro hmode
    apply sameEncodings_of_encoding (encoding_eq_of_reached fun field _ => ?_) rfl
    exact Field.tagging_congr fun _ => .inr hmode
  · intro hnamed
    apply sameEncodings_of_encoding (encoding_eq_of_reached fun field hfield => ?_) rfl
    exact Field.tagging_congr fun hnumber => .inl (hnamed field hfield hnumber)

/-- A SEQUENCE with implicit tags of its own, in a field that names the explicit mode, next to one
that is not set. -/
theorem named_modes_encoded_under_any_policy :
    (Value.record .sequence [⟨⟨"body", some 1, some .explicit, false, "body"⟩,
        some (.record .sequence [⟨⟨"x", some 0, none, false, "x"⟩, some (.leaf (.integer 5))⟩]
          (some (Policy.der.withTagging .implicit)))⟩,
        ⟨⟨"note", some 2, none, true, "note"⟩, none⟩] none).encode Policy.ber.lenient =
        .ok [0x30, 0x07, 0xA1, 0x05, 0x30, 0x03, 0x80, 0x01, 0x05] ∧
      (Value.record .sequence [⟨⟨"body", some 1, some .explicit, false, "body"⟩,
        some (.record .sequence [⟨⟨"x", some 0, none, false, "x"⟩, some (.leaf (.integer 5))⟩]
          (some (Policy.der.withTagging .implicit)))⟩,
        ⟨⟨"note", some 2, none, true, "note"⟩, none⟩] none).encode
          (Policy.ber.withTagging .implicit).lenient =
        .ok [0x30, 0x07, 0xA1, 0x05, 0x30, 0x03, 0x80, 0x01, 0x05] := by
  have hvalue : (Value.record .sequence [⟨⟨"body", some 1, some .explicit, false, "body"⟩,
      some (.record .sequence [⟨⟨"x", some 0, none, false, "x"⟩, some (.leaf (.integer 5))⟩]
        (some (Policy.der.withTagging .implicit)))⟩,
      ⟨⟨"note", some 2, none, true, "note"⟩, none⟩] none).encode .der =
      .ok [0x30, 0x07, 0xA1, 0x05, 0x30, 0x03, 0x80, 0x01, 0x05] := by rfl
  constructor
  · exact ((encoded_by_tagging_mode_alone _ _ .der).1 rfl).encode.trans hvalue
  · refine ((encoded_by_tagging_mode_alone _ _ .der).2 ?_).encode.trans hvalue
    rintro field (hslot | _ | ⟨-, hpart, hinside⟩) hnumber
    · rcases List.mem_pair.1 hslot with ⟨⟨⟩⟩ | ⟨⟨⟩⟩
      rfl
    · -- What the override covers is not reached.
      cases hpart with
      | slot hslot hcontent =>
        rcases List.mem_pair.1 hslot with rfl | rfl
        · cases hcontent
          cases hinside with
          | inside hnone => cases hnone
        · cases hcontent

end Value

end Asn1
