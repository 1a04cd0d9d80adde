import Asn1.Proofs.Offset
import Asn1.Proofs.Reader
import Asn1.Proofs.Value.Calls
import Asn1.Proofs.Value.Relaxation
import Asn1.Proofs.Value.Stepwise

/-!
What may follow. A lenient decoding lets anything follow the root, and a strict one refuses it
only after the root has been decoded as if nothing followed. Behind the last field of a SEQUENCE
or SET a lenient decoding wants to see one more element before it lets the rest go, so the octets
that follow have to begin with an element, or there are none.
-/

namespace Asn1.Value

variable {defs : Definitions} {policy : Policy}

/-- The slots in the content of a SEQUENCE or SET of which the first octet lies at `offset`. -/
def decodeContent (defs : Definitions) (policy : Policy) (fields : List Field) (offset : Nat)
    (octets : Octets) : Except Error (List (Slot Value)) :=
  decodeSlots defs policy (offset + octets.length) 0 fields
    (Tlv.stream policy.rules offset octets)

/-- Whatever lies around it, a SEQUENCE or SET is decoded by its content. -/
theorem decodeFrom_record_content {depth : Nat} {grouping : Grouping}
    {slots : List (Slot Value)} {own : Option Policy} {source : Source} :
    decodeFrom defs depth policy (.record grouping slots own) source =
      (source.contentAs grouping.tag true grouping.name).bind fun content =>
        (decodeContent defs (own.getD policy) (slots.map (·.field)) content.offset
          content.octets).map (.record grouping · own) :=
  decodeFrom_record_eq

/-- How many fields are set. -/
def setCount (slots : List (Slot Value)) : Nat := slots.countP (·.content.isSome)

/-- If there are fields, the last one is set. -/
def LastSet (slots : List (Slot Value)) : Prop :=
  ∀ slot ∈ slots.getLast?, slot.content.isSome = true

theorem LastSet.rest {slot : Slot Value} {slots : List (Slot Value)} (h : LastSet (slot :: slots)) :
    LastSet slots := by
  intro last hlast
  apply h last
  rw [Option.mem_def, List.getLast?_cons, Option.mem_def.1 hlast]
  rfl

theorem not_lastSet_of_unset {slots : List (Slot Value)} (hsome : slots ≠ [])
    (h : ∀ slot ∈ slots, slot.content = none) : ¬ LastSet slots := by
  intro hset
  have hlast := hset _ (List.getLast?_eq_some_getLast hsome)
  rw [h _ (List.getLast_mem hsome)] at hlast
  cases hlast

/-- The fields take an element for each slot that is set, and so they do if more octets follow:
all that comes behind the last one is left. -/
theorem DecodesSlots.fillsFirst {fields : List Field} {slots : List (Slot Value)} {offset : Nat}
    {octets : Octets}
    (h : DecodesSlots defs policy fields (Tlv.stream policy.rules offset octets) slots)
    (hlast : LastSet slots) :
    ∃ tlvs last, (Reader.mk policy.rules offset octets).readMany (setCount slots) =
        .ok (tlvs, last) ∧
      ∀ trailing, FillsFirst defs policy fields
        (Tlv.stream policy.rules offset (octets ++ trailing)) slots []
        (Tlv.stream policy.rules last.offset (last.remaining ++ trailing)) := by
  generalize hstream : Tlv.stream policy.rules offset octets = stream at h
  induction fields generalizing offset octets slots stream with
  | nil =>
    have hslots : slots = [] := by cases h <;> rfl
    subst hslots
    exact ⟨[], ⟨policy.rules, offset, octets⟩, rfl, fun trailing => .none _ _⟩
  | cons field fields ih =>
    cases h with
    | done => exact absurd hlast (not_lastSet_of_unset (by simp) (by simp))
    | @filled _ _ _ tlv _ value more haccepts hvalue hrest =>
      obtain ⟨rest, hread, rfl⟩ := Tlv.read_of_stream_next hstream
      obtain ⟨tlvs, last, hmany, hfills⟩ := ih hlast.rest _ rfl hrest
      refine ⟨tlv :: tlvs, last, ?_, ?_⟩
      · have hcount : setCount (⟨field, some value⟩ :: more) = setCount more + 1 :=
          List.countP_cons_of_pos rfl
        rw [hcount]
        refine Reader.readMany_succ_eq_ok_iff.2
          ⟨tlv, ⟨policy.rules, tlv.endOffset, rest⟩, tlvs, ?_, hmany, rfl⟩
        rw [Reader.read, hread]
      · intro trailing
        rw [Tlv.stream_of_read (Tlv.read_append hread trailing)]
        exact .filled haccepts hvalue (hfills trailing)
    | @skipped _ _ _ tlv rest more haccepts hoptional hrest =>
      obtain ⟨after, hread, rfl⟩ := Tlv.read_of_stream_next hstream
      obtain ⟨tlvs, last, hmany, hfills⟩ := ih hlast.rest _ hstream hrest
      refine ⟨tlvs, last, ?_, ?_⟩
      · have hcount : setCount (⟨field, none⟩ :: more) = setCount more :=
          List.countP_cons_of_neg (by simp)
        rw [hcount, hmany]
      · intro trailing
        have hfront := hfills trailing
        rw [Tlv.stream_of_read (Tlv.read_append hread trailing)] at hfront ⊢
        exact .skipped haccepts hoptional hfront

/-- With no field left, octets are let go from an element on. -/
theorem decodeSlots_behind (hlenient : policy.strict = false) (endOffset index offset : Nat)
    (octets : Octets) :
    decodeSlots defs policy endOffset index [] (Tlv.stream policy.rules offset octets) =
      if octets = [] then .ok []
      else (Tlv.read policy.rules offset octets).map fun _ => [] := by
  split
  · rename_i hempty
    rw [hempty, Tlv.stream_nil, decodeSlots]
    rfl
  · rename_i hsome
    cases hread : Tlv.read policy.rules offset octets with
    | error error =>
      rw [Tlv.stream_of_error (mt List.isEmpty_iff.1 hsome) hread, decodeSlots]
      rfl
    | ok read =>
      rw [Tlv.stream_of_read hread, decodeSlots, hlenient]
      rfl

/-- Whatever follows is put behind what the fields leave, and looked at no further. -/
theorem decodeContent_append (hlenient : policy.strict = false) {fields : List Field}
    {slots : List (Slot Value)} {offset : Nat} {octets : Octets}
    (h : decodeContent defs policy fields offset octets = .ok slots) (hlast : LastSet slots) :
    ∃ tlvs last, (Reader.mk policy.rules offset octets).readMany (setCount slots) =
        .ok (tlvs, last) ∧
      ∀ trailing, decodeContent defs policy fields offset (octets ++ trailing) =
        if last.remaining ++ trailing = [] then .ok slots
        else (Tlv.read policy.rules last.offset (last.remaining ++ trailing)).map
          fun _ => slots := by
  obtain ⟨tlvs, last, hmany, hfills⟩ := (decodesSlots_of_decodeSlots h).fillsFirst hlast
  refine ⟨tlvs, last, hmany, fun trailing => ?_⟩
  rw [decodeContent, (hfills trailing).decodeSlots, decodeSlots_behind hlenient]
  split
  · simp only [Except.map, List.append_nil]
  · simp only [map_map, List.append_nil]

section Roots

variable {value result : Value} {octets : Octets} {inherited : Policy}

/-- The first element is decoded without a look at what lies behind it, and only then does a
strict policy ask whether something does. -/
theorem decodeRoot_append {decoded : Tlv → Except Error Value}
    (h : decodeRoot policy octets decoded = .ok result) (trailing : Octets) :
    decodeRoot policy (octets ++ trailing) decoded =
      if policy.strict = true ∧ trailing ≠ [] then
        .error (.trailing octets.length trailing.length)
      else .ok result := by
  obtain ⟨⟨tlv, rest⟩, hread, h⟩ := bind_eq_ok_iff.1 h
  obtain ⟨value, hvalue, hend⟩ := bind_eq_ok_iff.1 h
  obtain ⟨hrest, rfl⟩ := atEnd_eq_ok_iff.1 hend
  rw [decodeRoot, Tlv.read_append hread trailing]
  simp only [Except.bind, hvalue]
  cases hstrict : policy.strict with
  | false => simp [atEnd, hstrict]
  | true =>
    have hlength := (Tlv.endOffset_of_read hread).2
    obtain rfl := hrest hstrict
    rw [List.length_nil, Nat.add_zero, Nat.zero_add] at hlength
    cases trailing <;> simp [atEnd, hstrict, hlength]

theorem decode_append_eq (h : decode defs value octets inherited = .ok result)
    (trailing : Octets) :
    decode defs value (octets ++ trailing) inherited =
      if (value.resolve inherited).strict = true ∧ trailing ≠ [] then
        .error (.trailing octets.length trailing.length)
      else .ok result := by
  rw [decode_eq] at h ⊢
  exact decodeRoot_append h trailing

theorem taggedDecode_append_eq {tagging : Tagging}
    (h : taggedDecode defs value tagging octets inherited = .ok result) (trailing : Octets) :
    taggedDecode defs value tagging (octets ++ trailing) inherited =
      if (value.resolve inherited).strict = true ∧ trailing ≠ [] then
        .error (.trailing octets.length trailing.length)
      else .ok result := by
  rw [taggedDecode_eq] at h ⊢
  exact decodeRoot_append h trailing

theorem decode_append (hlenient : (value.resolve inherited).strict = false)
    (h : decode defs value octets inherited = .ok result) (trailing : Octets) :
    decode defs value (octets ++ trailing) inherited = .ok result := by
  rw [decode_append_eq h, hlenient, if_neg (by simp)]

theorem taggedDecode_append {tagging : Tagging}
    (hlenient : (value.resolve inherited).strict = false)
    (h : taggedDecode defs value tagging octets inherited = .ok result) (trailing : Octets) :
    taggedDecode defs value tagging (octets ++ trailing) inherited = .ok result := by
  rw [taggedDecode_append_eq h, hlenient, if_neg (by simp)]

/-- A strict policy refuses what follows the root, whatever it is, and says where the root ends
and how much follows. The lenient policy lets it go and has the same value. -/
theorem trailing_refused_behind_strict_root (hstrict : policy.strict = true)
    (hnone : value.policy? = none) :
    (decode defs value octets policy = .ok result → ∀ trailing, trailing ≠ [] →
      decode defs value (octets ++ trailing) policy =
          .error (.trailing octets.length trailing.length) ∧
        decode defs value (octets ++ trailing) policy.lenient = .ok result) ∧
    ∀ tagging, taggedDecode defs value tagging octets policy = .ok result →
      ∀ trailing, trailing ≠ [] →
        taggedDecode defs value tagging (octets ++ trailing) policy =
            .error (.trailing octets.length trailing.length) ∧
          taggedDecode defs value tagging (octets ++ trailing) policy.lenient = .ok result := by
  have hresolve : (value.resolve policy).strict = true := by
    rw [resolve_of_policy?_eq_none hnone, hstrict]
  have hlenient : (value.resolve policy.lenient).strict = false := by
    rw [resolve_of_policy?_eq_none hnone]
    rfl
  constructor
  · intro h trailing hsome
    have hrelaxed := decode_of_relaxes policy.relaxes_lenient h
    constructor
    · rw [decode_append_eq h, if_pos ⟨hresolve, hsome⟩]
    · exact decode_append hlenient hrelaxed trailing
  · intro tagging h trailing hsome
    have hrelaxed := taggedDecode_of_relaxes policy.relaxes_lenient h
    constructor
    · rw [taggedDecode_append_eq h, if_pos ⟨hresolve, hsome⟩]
    · exact taggedDecode_append hlenient hrelaxed trailing

/-- Octets behind a SEQUENCE within a SEQUENCE, and behind an explicit tag around both. -/
theorem nested_sequences_followed_by_an_octet :
    let defs : Definitions :=
      ⟨[("number", .leaf (.integer 0)),
        ("pair", emptyRecord .sequence [⟨"x", some 0, none, false, "number"⟩])]⟩
    let value := emptyRecord .sequence [⟨"pair", none, none, false, "pair"⟩]
    let octets : Octets := [0x30, 7, 0x30, 5, 0xA0, 3, 2, 1, 7]
    let result : Value := .record .sequence [⟨⟨"pair", none, none, false, "pair"⟩,
      some (.record .sequence [⟨⟨"x", some 0, none, false, "number"⟩,
        some (.leaf (.integer 7))⟩] none)⟩] none
    decode defs value octets .der = .ok result ∧
      taggedDecode defs value ⟨.application, 1, .explicit⟩ ([0x61, 9] ++ octets) .der =
        .ok result ∧
      ∀ octet, decode defs value (octets ++ [octet]) .der = .error (.trailing 9 1) ∧
        decode defs value (octets ++ [octet]) (.lenient .der) = .ok result ∧
        taggedDecode defs value ⟨.application, 1, .explicit⟩ ([0x61, 9] ++ octets ++ [octet]) .der =
          .error (.trailing 11 1) ∧
        taggedDecode defs value ⟨.application, 1, .explicit⟩ ([0x61, 9] ++ octets ++ [octet])
          (.lenient .der) = .ok result := by
  intro defs value octets result
  have hpair (offset : Nat) : Decodes defs defs.choiceLimit .der value
      (.element ⟨.sequence, offset, [0x30, 7], [0x30, 5, 0xA0, 3, 2, 1, 7]⟩) result := by
    refine .record rfl rfl ?_
    rw [Tlv.stream_of_last rfl]
    refine .filled rfl (.untagged rfl (.record rfl rfl ?_)) (.done nofun)
    rw [Tlv.stream_of_last rfl]
    exact .filled rfl (.tagged rfl (.explicit rfl rfl rfl (.leaf rfl rfl rfl))) (.done nofun)
  have hroot : decode defs value octets .der = .ok result :=
    decode_eq_ok_iff.2 ⟨_, _, rfl, hpair 0, fun _ => rfl⟩
  have htagged : taggedDecode defs value ⟨.application, 1, .explicit⟩ ([0x61, 9] ++ octets) .der =
      .ok result :=
    taggedDecode_eq_ok_iff.2 ⟨_, _, rfl, .explicit rfl rfl rfl (hpair 2), fun _ => rfl⟩
  refine ⟨hroot, htagged, fun octet => ?_⟩
  obtain ⟨hrefused, hlet⟩ :=
    (trailing_refused_behind_strict_root rfl rfl).1 hroot [octet] (List.cons_ne_nil _ _)
  obtain ⟨htaggedRefused, htaggedLet⟩ :=
    (trailing_refused_behind_strict_root rfl rfl).2 _ htagged [octet] (List.cons_ne_nil _ _)
  exact ⟨hrefused, hlet, htaggedRefused, htaggedLet⟩

end Roots

/-- Where the policy is lenient and the last field is set, a SEQUENCE or SET has the same slots
whatever octets follow its content, if there is something behind the element of the last field
already. If there is not, what follows has to begin with an element, and the error is that of
reading one. A root has the same value whatever follows it. -/
theorem trailing_let_go_from_an_element_on (hlenient : policy.strict = false) :
    (∀ fields offset octets slots,
      decodeContent defs policy fields offset octets = .ok slots → LastSet slots →
      ∃ tlvs last,
        (Reader.mk policy.rules offset octets).readMany (setCount slots) = .ok (tlvs, last) ∧
        (last.remaining ≠ [] → ∀ trailing,
          decodeContent defs policy fields offset (octets ++ trailing) = .ok slots) ∧
        (last.remaining = [] → ∀ trailing,
          decodeContent defs policy fields offset (octets ++ trailing) =
            if trailing = [] then .ok slots
            else (Tlv.read policy.rules (offset + octets.length) trailing).map fun _ => slots)) ∧
    ∀ value octets result inherited, Value.resolve value inherited = policy →
      (decode defs value octets inherited = .ok result → ∀ trailing,
        decode defs value (octets ++ trailing) inherited = .ok result) ∧
      ∀ tagging, taggedDecode defs value tagging octets inherited = .ok result → ∀ trailing,
        taggedDecode defs value tagging (octets ++ trailing) inherited = .ok result := by
  constructor
  · intro fields offset octets slots h hlast
    obtain ⟨tlvs, last, hmany, happend⟩ := decodeContent_append hlenient h hlast
    refine ⟨tlvs, last, hmany, ?_, ?_⟩
    · intro hsome trailing
      -- the octets are decoded without more behind them, so an element must come next in them
      have halone := happend []
      rw [List.append_nil, h, List.append_nil, if_neg hsome] at halone
      obtain ⟨⟨tlv, rest⟩, hread, -⟩ := map_eq_ok_iff.1 halone.symm
      rw [happend, if_neg (by simp [hsome]), Tlv.read_append hread]
      rfl
    · intro hnone trailing
      obtain ⟨-, -, hremaining, -, hoffset⟩ := Reader.readMany_eq_ok_iff.1 hmany
      rw [hnone, List.append_nil] at hremaining
      rw [happend, hnone, List.nil_append, hoffset, ← hremaining]
  · rintro value octets result inherited rfl
    exact ⟨decode_append hlenient, fun _ => taggedDecode_append hlenient⟩

/-- With an element of no content behind the number, anything may follow, and so it may behind the
root. -/
theorem anything_follows_null_and_root :
    let defs : Definitions := ⟨[("number", .leaf (.integer 0))]⟩
    let field : Field := ⟨"x", none, none, false, "number"⟩
    let slots : List (Slot Value) := [⟨field, some (.leaf (.integer 7))⟩]
    (Policy.lenient .der).strict = false ∧ ∀ trailing,
      decodeContent defs (.lenient .der) [field] 2 ([2, 1, 7, 5, 0] ++ trailing) = .ok slots ∧
      decode defs (emptyRecord .sequence [field]) ([0x30, 3, 2, 1, 7] ++ trailing)
        (.lenient .der) = .ok (.record .sequence slots none) := by
  intro defs field slots
  have hcontent : decodeContent defs (.lenient .der) [field] 2 [2, 1, 7, 5, 0] = .ok slots := by
    refine DecodesSlots.decodeSlots ?_ _ _
    rw [Tlv.stream_of_read rfl]
    refine .filled rfl (.untagged rfl (.leaf rfl rfl rfl)) ?_
    show DecodesSlots _ _ _ (Tlv.stream .distinguished 5 [5, 0]) _
    rw [Tlv.stream_of_last rfl]
    exact .ignored rfl
  have hroot : decode defs (emptyRecord .sequence [field]) [0x30, 3, 2, 1, 7] (.lenient .der) =
      .ok (.record .sequence slots none) := by
    refine decode_eq_ok_iff.2 ⟨_, _, rfl, .record rfl rfl ?_, fun _ => rfl⟩
    rw [Tlv.stream_of_last rfl]
    exact .filled rfl (.untagged rfl (.leaf rfl rfl rfl)) (.done nofun)
  have hlast : LastSet slots := by
    rintro _ ⟨⟩
    rfl
  obtain ⟨hcontents, hroots⟩ := @trailing_let_go_from_an_element_on defs (.lenient .der) rfl
  obtain ⟨tlvs, last, hmany, hmore, -⟩ := hcontents _ _ _ _ hcontent hlast
  cases hmany
  exact ⟨rfl, fun trailing =>
    ⟨hmore (by decide) trailing, (hroots _ _ _ _ rfl).1 hroot trailing⟩⟩

/-- An octet that begins no element is let go behind the root, and refused behind the number. -/
theorem octet_without_length_refused_behind_number :
    let defs : Definitions := ⟨[("number", .leaf (.integer 0))]⟩
    let field : Field := ⟨"x", none, none, false, "number"⟩
    let slots : List (Slot Value) := [⟨field, some (.leaf (.integer 7))⟩]
    decodeContent defs (.lenient .der) [field] 2 [2, 1, 7] = .ok slots ∧ LastSet slots ∧
      decodeContent defs (.lenient .der) [field] 2 ([2, 1, 7] ++ [0]) =
        .error (.malformed 6 .lengthMissing) ∧
      decode defs (emptyRecord .sequence [field]) ([0x30, 3, 2, 1, 7] ++ [0]) (.lenient .der) =
        .ok (.record .sequence slots none) ∧
      decode defs (emptyRecord .sequence [field]) [0x30, 4, 2, 1, 7, 0] (.lenient .der) =
        .error (.malformed 6 .lengthMissing) := by
  intro defs field slots
  have hslots : DecodesSlots defs (.lenient .der) [field]
      (Tlv.stream .distinguished 2 [2, 1, 7]) slots := by
    rw [Tlv.stream_of_last rfl]
    exact .filled rfl (.untagged rfl (.leaf rfl rfl rfl)) (.done nofun)
  have hlast : LastSet slots := by
    rintro _ ⟨⟩
    rfl
  have hcontent : decodeContent defs (.lenient .der) [field] 2 [2, 1, 7] = .ok slots :=
    hslots.decodeSlots 5 0
  have hroot : decode defs (emptyRecord .sequence [field]) [0x30, 3, 2, 1, 7] (.lenient .der) =
      .ok (.record .sequence slots none) :=
    decode_eq_ok_iff.2 ⟨_, _, rfl, .record rfl rfl hslots, fun _ => rfl⟩
  have hrefused : decodeContent defs (.lenient .der) [field] 2 ([2, 1, 7] ++ [0]) =
      .error (.malformed 6 .lengthMissing) := by
    obtain ⟨tlvs, last, hmany, happend⟩ := decodeContent_append rfl hcontent hlast
    cases hmany
    exact happend [0]
  have hrefusedWithin : (Call.decode defs (emptyRecord .sequence [field])
      [0x30, 4, 2, 1, 7, 0] (.lenient .der)).Fails (.malformed 6 .lengthMissing) :=
    Call.Passes.fails (.decode rfl)
      (decodeFrom_record_content.trans (congrArg (Except.map _) hrefused))
  exact ⟨hcontent, hlast, hrefused, decode_append rfl hroot [0], hrefusedWithin⟩

end Asn1.Value
