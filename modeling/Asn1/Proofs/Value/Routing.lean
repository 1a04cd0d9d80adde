import Asn1.Proofs.Value.Template
import Asn1.Proofs.Tlv
import Mathlib.Data.List.Forall2

/-!
Which element of a SEQUENCE or SET goes to which field. Decoding takes the first field that
accepts; what it may do is said here without an order of doing it, by the fields that the
elements go to. The two come to the same where no tag belongs to two fields.
-/

namespace Asn1

/-- No tag belongs to two of the fields: what a field accepts, those before it refuse. -/
def Field.Exclusive (defs : Definitions) (fields : List Field) : Prop :=
  fields.Pairwise fun earlier later => ∀ tag,
    later.accepts? defs tag = some true → earlier.accepts? defs tag = some false

/-- Among fields that always answer, that is to say that no tag is accepted by two. -/
theorem Field.exclusive_iff {defs : Definitions} {fields : List Field}
    (hanswers : ∀ field ∈ fields, ∀ tag, field.accepts? defs tag ≠ none) :
    Exclusive defs fields ↔ fields.Pairwise fun a b => ∀ tag,
      ¬ (a.accepts? defs tag = some true ∧ b.accepts? defs tag = some true) := by
  unfold Exclusive
  apply List.Pairwise.iff_of_mem
  intro a b ha _
  refine forall_congr' fun tag => ?_
  have hanswer := hanswers a ha tag
  rcases haccepts : a.accepts? defs tag with _ | _ | _
  · exact absurd haccepts hanswer
  · simp
  · simp

/-- Context tags of different numbers are enough. -/
theorem Field.exclusive_of_numbers {defs : Definitions} {fields : List Field}
    (hnumbers : ∀ field ∈ fields, field.number.isSome = true)
    (hdistinct : fields.Pairwise fun a b => a.number ≠ b.number) : Exclusive defs fields := by
  apply List.Pairwise.imp_of_mem _ hdistinct
  intro a b ha hb hne tag haccepts
  obtain ⟨number, hnumber⟩ := Option.isSome_iff_exists.1 (hnumbers a ha)
  obtain ⟨other, hother⟩ := Option.isSome_iff_exists.1 (hnumbers b hb)
  rw [hnumber, hother] at hne
  simp only [accepts?, acceptsWithin, acceptsBy, hnumber, hother] at haccepts ⊢
  simp only [Option.some.injEq, Bool.and_eq_true, beq_iff_eq, Bool.and_eq_false_iff] at haccepts ⊢
  right
  rw [haccepts.2, beq_eq_false_iff_ne]
  rintro rfl
  exact hne rfl

namespace Value

variable {defs : Definitions} {policy : Policy}

/-- The slot at the index has the element as its content, and its field accepts it. -/
def Filled (defs : Definitions) (policy : Policy) (slots : List (Slot Value)) (index : Nat)
    (tlv : Tlv) : Prop :=
  ∃ field value, slots[index]? = some ⟨field, some value⟩ ∧
    field.accepts? defs tlv.tag = some true ∧
    decodeField defs defs.choiceLimit policy index field tlv = .ok value

/-- The elements go to the fields at the indices, and no other field is set. -/
structure Routes (defs : Definitions) (policy : Policy) (fields : List Field) (tlvs : List Tlv)
    (indices : List Nat) (slots : List (Slot Value)) : Prop where
  fields_eq : slots.map (·.field) = fields
  increasing : indices.Pairwise (· < ·)
  filled : List.Forall₂ (Filled defs policy slots) indices tlvs
  unset : ∀ index slot, index ∉ indices → slots[index]? = some slot →
    slot.content = none ∧ slot.field.optional = true

section Steps

variable {field : Field} {fields : List Field} {tlv : Tlv} {tlvs : List Tlv} {lower : List Nat}
  {slot : Slot Value} {slots : List (Slot Value)}

/-- The index of a field only shows in errors. -/
theorem decodeField_index {depth : Nat} {value : Value} (index other : Nat)
    (h : decodeField defs depth policy index field tlv = .ok value) :
    decodeField defs depth policy other field tlv = .ok value :=
  (decodesField_of_decodeField h).decodeField other

theorem filled_succ {index : Nat} :
    Filled defs policy (slot :: slots) (index + 1) tlv ↔ Filled defs policy slots index tlv := by
  constructor
  · rintro ⟨field, value, hslot, haccepts, hvalue⟩
    exact ⟨field, value, hslot, haccepts, decodeField_index _ _ hvalue⟩
  · rintro ⟨field, value, hslot, haccepts, hvalue⟩
    exact ⟨field, value, hslot, haccepts, decodeField_index _ _ hvalue⟩

theorem forall₂_filled_succ :
    List.Forall₂ (Filled defs policy (slot :: slots)) (lower.map (· + 1)) tlvs ↔
      List.Forall₂ (Filled defs policy slots) lower tlvs := by
  rw [List.forall₂_map_left_iff]
  constructor
  · intro h
    exact h.imp fun _ _ => filled_succ.1
  · intro h
    exact h.imp fun _ _ => filled_succ.2

private theorem pairwise_succ {lower : List Nat} :
    (lower.map (· + 1)).Pairwise (· < ·) ↔ lower.Pairwise (· < ·) := by
  rw [List.pairwise_map]
  simp only [Nat.add_lt_add_iff_right]

private theorem succ_mem_succ {index : Nat} {lower : List Nat} :
    index + 1 ∈ lower.map (· + 1) ↔ index ∈ lower := by
  simp

private theorem zero_notMem_succ (lower : List Nat) : 0 ∉ lower.map (· + 1) := by
  simp

/-- An increasing list that does not begin with zero does not have it at all. -/
theorem exists_lower {indices : List Nat} (hincreasing : indices.Pairwise (· < ·))
    (hpos : ∀ index ∈ indices.head?, 0 < index) :
    ∃ lower : List Nat, indices = lower.map (· + 1) := by
  cases indices with
  | nil => exact ⟨[], rfl⟩
  | cons first rest =>
    have hfirst := hpos first rfl
    have hrest := (List.pairwise_cons.1 hincreasing).1
    refine ⟨(first :: rest).map (· - 1), ?_⟩
    rw [List.map_map]
    conv_lhs => rw [← List.map_id (first :: rest)]
    apply List.map_congr_left
    intro index hindex
    have hindexPos : 0 < index := by
      rcases List.mem_cons.1 hindex with rfl | hmem
      · exact hfirst
      · exact Nat.lt_trans hfirst (hrest index hmem)
    exact (Nat.sub_add_cancel hindexPos).symm

/-- The first field takes the first element. -/
theorem routes_filled :
    Routes defs policy (field :: fields) (tlv :: tlvs) (0 :: lower.map (· + 1)) (slot :: slots) ↔
      ∃ value, slot = ⟨field, some value⟩ ∧ field.accepts? defs tlv.tag = some true ∧
        decodeField defs defs.choiceLimit policy 0 field tlv = .ok value ∧
        Routes defs policy fields tlvs lower slots := by
  constructor
  · rintro ⟨hfields, hincreasing, hfilled, hunset⟩
    obtain ⟨hfield, hrest⟩ := List.cons.inj hfields
    obtain ⟨⟨_, value, hslot, haccepts, hvalue⟩, hfilled⟩ := List.forall₂_cons.1 hfilled
    cases hslot
    subst hfield
    refine ⟨value, rfl, haccepts, hvalue, hrest,
      pairwise_succ.1 (List.pairwise_cons.1 hincreasing).2, forall₂_filled_succ.1 hfilled, ?_⟩
    intro index other hindex hother
    apply hunset (index + 1) other _ hother
    rw [List.mem_cons, succ_mem_succ]
    rintro (hzero | hmem)
    · cases hzero
    · exact hindex hmem
  · rintro ⟨value, rfl, haccepts, hvalue, hfields, hincreasing, hfilled, hunset⟩
    refine ⟨congrArg _ hfields, ?_, ?_, ?_⟩
    · refine List.pairwise_cons.2 ⟨?_, pairwise_succ.2 hincreasing⟩
      intro index hindex
      obtain ⟨below, -, rfl⟩ := List.mem_map.1 hindex
      exact Nat.succ_pos below
    · exact .cons ⟨field, value, rfl, haccepts, hvalue⟩ (forall₂_filled_succ.2 hfilled)
    · rintro (_ | index) other hindex hother
      · exact absurd List.mem_cons_self hindex
      · apply hunset index other _ hother
        intro hmem
        exact hindex (List.mem_cons_of_mem _ (succ_mem_succ.2 hmem))

/-- The first field is passed over. -/
theorem routes_skipped :
    Routes defs policy (field :: fields) tlvs (lower.map (· + 1)) (slot :: slots) ↔
      slot = ⟨field, none⟩ ∧ field.optional = true ∧
        Routes defs policy fields tlvs lower slots := by
  constructor
  · rintro ⟨hfields, hincreasing, hfilled, hunset⟩
    obtain ⟨hfield, hrest⟩ := List.cons.inj hfields
    obtain ⟨hcontent, hoptional⟩ := hunset 0 slot (zero_notMem_succ lower) rfl
    subst hfield
    refine ⟨by rw [← hcontent], hoptional, hrest, pairwise_succ.1 hincreasing,
      forall₂_filled_succ.1 hfilled, ?_⟩
    intro index other hindex hother
    apply hunset (index + 1) other _ hother
    intro hmem
    exact hindex (succ_mem_succ.1 hmem)
  · rintro ⟨rfl, hoptional, hfields, hincreasing, hfilled, hunset⟩
    refine ⟨congrArg _ hfields, pairwise_succ.2 hincreasing, forall₂_filled_succ.2 hfilled, ?_⟩
    rintro (_ | index) other hindex hother
    · cases hother
      exact ⟨rfl, hoptional⟩
    · apply hunset index other _ hother
      intro hmem
      exact hindex (succ_mem_succ.2 hmem)

/-- Without elements all fields stay unset. -/
theorem routes_unsetAll :
    Routes defs policy fields [] [] slots ↔
      (∀ field ∈ fields, field.optional) ∧ slots = fields.map fun field => ⟨field, none⟩ := by
  induction fields generalizing slots with
  | nil =>
    constructor
    · intro h
      exact ⟨nofun, List.map_eq_nil_iff.1 h.fields_eq⟩
    · rintro ⟨-, rfl⟩
      exact ⟨rfl, .nil, .nil, nofun⟩
  | cons field fields ih =>
    constructor
    · intro h
      obtain ⟨slot, rest, rfl, -, -⟩ := List.map_eq_cons_iff.1 h.fields_eq
      obtain ⟨rfl, hoptional, hrest⟩ :=
        (@routes_skipped defs policy field fields [] [] slot rest).1 h
      obtain ⟨hfields, rfl⟩ := ih.1 hrest
      exact ⟨List.forall_mem_cons.2 ⟨hoptional, hfields⟩, rfl⟩
    · rintro ⟨hoptional, rfl⟩
      obtain ⟨hfield, hfields⟩ := List.forall_mem_cons.1 hoptional
      exact (@routes_skipped defs policy field fields [] [] _ _).2
        ⟨rfl, hfield, ih.2 ⟨hfields, rfl⟩⟩

end Steps

/-- A strict decoding routes all elements that it is given. -/
theorem DecodesSlots.routes {fields : List Field} {stream : Tlv.Stream}
    {slots : List (Slot Value)} (h : DecodesSlots defs policy fields stream slots)
    (hstrict : policy.strict = true) :
    ∃ tlvs indices, stream = .ofList tlvs ∧ Routes defs policy fields tlvs indices slots := by
  induction fields generalizing stream slots with
  | nil =>
    cases h with
    | done hoptional => exact ⟨[], [], rfl, routes_unsetAll.2 ⟨hoptional, rfl⟩⟩
    | ignored hlenient =>
      rw [hstrict] at hlenient
      cases hlenient
  | cons field fields ih =>
    cases h with
    | done hoptional => exact ⟨[], [], rfl, routes_unsetAll.2 ⟨hoptional, rfl⟩⟩
    | filled haccepts hvalue hrest =>
      obtain ⟨tlvs, indices, rfl, hroutes⟩ := ih hrest
      exact ⟨_ :: tlvs, 0 :: indices.map (· + 1), rfl,
        routes_filled.2 ⟨_, rfl, haccepts, hvalue.decodeField 0, hroutes⟩⟩
    | skipped _ hoptional hrest =>
      obtain ⟨tlvs, indices, hstream, hroutes⟩ := ih hrest
      exact ⟨tlvs, indices.map (· + 1), hstream, routes_skipped.2 ⟨rfl, hoptional, hroutes⟩⟩

/-- Where no tag belongs to two fields, the first field that accepts an element is the one it
goes to. -/
theorem Routes.decodesSlots {fields : List Field} {tlvs : List Tlv} {indices : List Nat}
    {slots : List (Slot Value)} (h : Routes defs policy fields tlvs indices slots)
    (hexclusive : Field.Exclusive defs fields) :
    DecodesSlots defs policy fields (.ofList tlvs) slots := by
  induction fields generalizing tlvs indices slots with
  | nil =>
    obtain rfl := List.map_eq_nil_iff.1 h.fields_eq
    cases h.filled with
    | nil => exact .done nofun
    | cons hfilled _ =>
      obtain ⟨_, _, hslot, -⟩ := hfilled
      cases hslot
  | cons field fields ih =>
    obtain ⟨hearlier, hlater⟩ := List.pairwise_cons.1 hexclusive
    obtain ⟨slot, rest, rfl, -, -⟩ := List.map_eq_cons_iff.1 h.fields_eq
    match tlvs, indices, h.filled with
    | [], [], .nil =>
      obtain ⟨hoptional, hslots⟩ := routes_unsetAll.1 h
      rw [hslots]
      exact .done hoptional
    | tlv :: tlvs, 0 :: indices, _ =>
      obtain ⟨hpos, hincreasing⟩ := List.pairwise_cons.1 h.increasing
      obtain ⟨lower, rfl⟩ := exists_lower hincreasing
        fun index hindex => hpos index (List.mem_of_mem_head? hindex)
      obtain ⟨value, rfl, haccepts, hvalue, hroutes⟩ := routes_filled.1 h
      exact .filled haccepts (decodesField_of_decodeField hvalue) (ih hroutes hlater)
    | tlv :: tlvs, (index + 1) :: indices, _ =>
      have hpos : ∀ first ∈ ((index + 1) :: indices).head?, 0 < first := by
        rintro _ ⟨⟩
        exact Nat.succ_pos index
      obtain ⟨lower, hlower⟩ := exists_lower h.increasing hpos
      rw [hlower] at h
      obtain ⟨rfl, hoptional, hroutes⟩ := routes_skipped.1 h
      have hrefuses : field.accepts? defs tlv.tag = some false := by
        cases hroutes.filled with
        | cons hfilled _ =>
          obtain ⟨taker, value, hslot, haccepts, -⟩ := hfilled
          apply hearlier taker _ tlv.tag haccepts
          rw [← hroutes.fields_eq]
          exact List.mem_map_of_mem (List.mem_of_getElem? hslot)
      exact .skipped hrefuses hoptional (ih hroutes hlater)

/-- Decoding the content of a SEQUENCE or SET strictly takes it apart into elements that go to
fields in order, and any such way to take it apart is the one that decoding finds if no tag
belongs to two fields. -/
theorem slots_decoded_as_routed {fields : List Field} {offset : Nat} {octets : Octets}
    {slots : List (Slot Value)} (hstrict : policy.strict = true) :
    (decodeSlots defs policy (offset + octets.length) 0 fields
          (Tlv.stream policy.rules offset octets) = .ok slots →
        ∃ tlvs indices, Tlv.Splits policy.rules offset octets tlvs ∧
          Routes defs policy fields tlvs indices slots) ∧
      (Field.Exclusive defs fields →
        ∀ tlvs indices, Tlv.Splits policy.rules offset octets tlvs →
          Routes defs policy fields tlvs indices slots →
          decodeSlots defs policy (offset + octets.length) 0 fields
            (Tlv.stream policy.rules offset octets) = .ok slots) := by
  constructor
  · intro h
    obtain ⟨tlvs, indices, hstream, hroutes⟩ := (decodesSlots_of_decodeSlots h).routes hstrict
    exact ⟨tlvs, indices, Tlv.stream_eq_ofList_iff.1 hstream, hroutes⟩
  · intro hexclusive tlvs indices hsplits hroutes
    rw [Tlv.stream_eq_ofList_iff.2 hsplits]
    exact (hroutes.decodesSlots hexclusive).decodeSlots _ _

/-- Of three fields only the second is set, and has to be. -/
theorem second_of_three_decoded_as_routed :
    decodeSlots ⟨[("number", .leaf (.integer 0))]⟩ .der (2 + 5) 0
        [⟨"a", some 0, none, true, "number"⟩, ⟨"b", some 1, none, false, "number"⟩,
          ⟨"c", some 2, none, true, "number"⟩]
        (Tlv.stream Policy.der.rules 2 [0xA1, 0x03, 0x02, 0x01, 0x07]) =
      .ok [⟨⟨"a", some 0, none, true, "number"⟩, none⟩,
        ⟨⟨"b", some 1, none, false, "number"⟩, some (.leaf (.integer 7))⟩,
        ⟨⟨"c", some 2, none, true, "number"⟩, none⟩] := by
  have hlegible : Tlv.Legible Policy.der.rules
      ⟨⟨.context, true, 1⟩, 2, [0xA1, 0x03], [0x02, 0x01, 0x07]⟩ := by
    unfold Tlv.Legible
    rfl
  have hsplits : Tlv.Splits Policy.der.rules 2 [0xA1, 0x03, 0x02, 0x01, 0x07]
      [⟨⟨.context, true, 1⟩, 2, [0xA1, 0x03], [0x02, 0x01, 0x07]⟩] := .cons hlegible (.nil 7)
  refine (slots_decoded_as_routed rfl).2 ?_ _ [1] hsplits ⟨rfl, by simp, ?_, ?_⟩
  · exact Field.exclusive_of_numbers (by decide) (by decide)
  · refine .cons ⟨_, _, rfl, rfl, ?_⟩ .nil
    exact (DecodesField.tagged rfl (.explicit rfl rfl rfl (.leaf rfl rfl rfl))).decodeField 1
  · intro index slot hindex hslot
    match index, hslot with
    | 0, rfl => exact ⟨rfl, rfl⟩
    | 1, _ => exact absurd List.mem_cons_self hindex
    | 2, rfl => exact ⟨rfl, rfl⟩

end Value

end Asn1
