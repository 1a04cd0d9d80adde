import Asn1.Proofs.Value.Decoded
import Asn1.Proofs.Value.Inheritance
import Asn1.Proofs.Value.InPlace
import Asn1.Proofs.Value.Record
import Asn1.Proofs.Value.TypeEquivalence
import Asn1.Proofs.Value.Typed

/-!
Values as they are worked on: made without content, then filled, emptied and decoded into, in any
order. No operation adds a place or takes one away, and none puts anything where it does not
belong.
-/

namespace Asn1

theorem Update.replace_ok {before : Value} {outcome : Except Error Value}
    (h : (replace before outcome).result = .ok ()) :
    outcome = .ok (replace before outcome).value := by
  cases outcome with
  | error => cases h
  | ok => rfl

/-- A slot that gets another content remains the slot of its field. -/
theorem Record.map_set {α : Type} (f : Field → α) {slots : List (Slot Value)} {index : Nat}
    {slot : Slot Value} (h : slots[index]? = some slot) (content : Option Value) :
    (slots.set index ⟨slot.field, content⟩).map (fun slot => f slot.field) =
      slots.map fun slot => f slot.field := by
  obtain ⟨hindex, rfl⟩ := List.getElem?_eq_some_iff.1 h
  rw [List.map_set]
  apply List.ext_getElem
  · rw [List.length_set]
  · intro place _ _
    rw [List.getElem_set]
    split
    · rename_i heq
      subst heq
      rw [List.getElem_map]
    · rfl

namespace Value

/-- A composite as it is made. -/
inductive Fresh : Value → Prop where
  | record (grouping : Grouping) (fields : List Field) : Fresh (emptyRecord grouping fields)
  | elements (grouping : Grouping) (type : String) : Fresh (.elements grouping type [] none)
  | choice (alternatives : List Field) : Fresh (.choice alternatives none none)

/-- What an operation makes of a value. All that it puts in is among the values given. There is
no rule for an operation that is refused, since it makes nothing of the value. -/
inductive Changes (defs : Definitions) (given : Value → Prop) : Value → Value → Prop where
  | set {grouping : Grouping} {slots slots' : List (Slot Value)} {own : Option Policy}
      {index : Nat} {part : Value} (hpart : given part)
      (h : Record.set defs slots index part = .ok slots') :
      Changes defs given (.record grouping slots own) (.record grouping slots' own)
  | setOptional {grouping : Grouping} {slots slots' : List (Slot Value)} {own : Option Policy}
      {index : Nat} {content : Option Value} (hcontent : ∀ part ∈ content, given part)
      (h : Record.setOptional defs slots index content = .ok slots') :
      Changes defs given (.record grouping slots own) (.record grouping slots' own)
  | clear {grouping : Grouping} {slots slots' : List (Slot Value)} {own : Option Policy}
      {index : Nat} (h : Record.clear slots index = .ok slots') :
      Changes defs given (.record grouping slots own) (.record grouping slots' own)
  | push {grouping : Grouping} {type : String} {items items' : List Value} {own : Option Policy}
      {part : Value} (hpart : given part) (h : Elements.push defs type items part = .ok items') :
      Changes defs given (.elements grouping type items own) (.elements grouping type items' own)
  | clearItems {grouping : Grouping} {type : String} {items : List Value} {own : Option Policy} :
      Changes defs given (.elements grouping type items own) (.elements grouping type [] own)
  | select {alternatives : List Field} {before : Option (Selection Value)}
      {selection : Selection Value} {own : Option Policy} {index : Nat} {part : Value}
      (hpart : given part) (h : Choice.select defs alternatives index part = .ok selection) :
      Changes defs given (.choice alternatives before own)
        (.choice alternatives (some selection) own)
  | clearSelection {alternatives : List Field} {before : Option (Selection Value)}
      {own : Option Policy} :
      Changes defs given (.choice alternatives before own) (.choice alternatives none own)
  | setPolicy (value : Value) (own : Option Policy) :
      Changes defs given value (value.setPolicy own)
  | cleared (value : Value) : Changes defs given value value.cleared
  | decode (value : Value) (octets : Octets) (policy : Policy) :
      Changes defs given value (value.decodeInto defs octets policy).value
  | taggedDecode (value : Value) (tagging : Tagging) (octets : Octets) (policy : Policy) :
      Changes defs given value (value.taggedDecodeInto defs tagging octets policy).value

/-- The result of decoding into a value, in either of the two ways. -/
inductive DecodesTo (defs : Definitions) (value result : Value) : Prop where
  | plain {octets : Octets} {policy : Policy} (h : decode defs value octets policy = .ok result)
  | tagged {tagging : Tagging} {octets : Octets} {policy : Policy}
      (h : taggedDecode defs value tagging octets policy = .ok result)

/-- The value without content and override, which is how it was made. -/
def blank (value : Value) : Value := value.cleared.setPolicy none

/-- What is held directly fits the type of its place. What a re-tag holds is in the places of
the value below it. -/
def Holding (fits : String → Value → Prop) : Value → Prop
  | .leaf _ => True
  | .record _ slots _ => ∀ slot ∈ slots, ∀ part ∈ slot.content, fits slot.field.type part
  | .elements _ type items _ => ∀ item ∈ items, fits type item
  | .choice _ none _ => True
  | .choice alternatives (some ⟨index, part⟩) _ =>
    ∃ field, alternatives[index]? = some field ∧ fits field.type part
  | .tagged _ inner _ => inner.Holding fits
  | .any _ => True

/-- What is held directly has the type of its place. -/
def Consistent (defs : Definitions) : Value → Prop :=
  Holding fun type part => sameType? defs part (defs.template type) = some true

/-- Nothing is missing. -/
def Gapless : Value → Prop
  | .record _ slots _ => ∀ slot ∈ slots, slot.content = none → slot.field.optional = true
  | .choice _ selection _ => selection ≠ none
  | _ => True

variable {defs : Definitions} {given : Value → Prop} {fits : String → Value → Prop}

namespace DecodesTo

variable {value result : Value}

theorem of_decodeInto {octets : Octets} {policy : Policy}
    (h : (value.decodeInto defs octets policy).result = .ok ()) :
    DecodesTo defs value (value.decodeInto defs octets policy).value := by
  rw [decodeInto_eq_replace] at h ⊢
  exact .plain (Update.replace_ok h)

theorem of_taggedDecodeInto {tagging : Tagging} {octets : Octets} {policy : Policy}
    (h : (value.taggedDecodeInto defs tagging octets policy).result = .ok ()) :
    DecodesTo defs value (value.taggedDecodeInto defs tagging octets policy).value := by
  rw [taggedDecodeInto_eq_replace] at h ⊢
  exact .tagged (Update.replace_ok h)

theorem typed (h : DecodesTo defs value result) : result.Typed defs := by
  cases h with
  | plain h =>
    obtain ⟨_, _, -, hdecodes, -⟩ := decode_eq_ok_iff.1 h
    exact hdecodes.typed
  | tagged h =>
    obtain ⟨_, _, -, hdecodes, -⟩ := taggedDecode_eq_ok_iff.1 h
    exact hdecodes.typed

theorem cleared_eq (h : DecodesTo defs value result) : result.cleared = value.cleared := by
  cases h with
  | plain h =>
    obtain ⟨_, _, -, hdecodes, -⟩ := decode_eq_ok_iff.1 h
    rw [hdecodes.cleared_eq, cleared_cleared]
  | tagged h =>
    obtain ⟨_, _, -, hdecodes, -⟩ := taggedDecode_eq_ok_iff.1 h
    rw [hdecodes.cleared_eq, cleared_cleared]

theorem throughout_decoded (h : DecodesTo defs value result) :
    result.Throughout (Decoded fun _ => True) := by
  cases h with
  | plain h => exact decoded_of_decode h
  | tagged h => exact decoded_of_taggedDecode h

end DecodesTo

theorem decodeInto_value (value : Value) (octets : Octets) (policy : Policy) :
    (value.decodeInto defs octets policy).value = value ∨
      DecodesTo defs value (value.decodeInto defs octets policy).value := by
  rw [decodeInto_eq_replace]
  cases h : Value.decode defs value octets policy with
  | error => exact .inl rfl
  | ok => exact .inr (.plain h)

theorem taggedDecodeInto_value (value : Value) (tagging : Tagging) (octets : Octets)
    (policy : Policy) :
    (value.taggedDecodeInto defs tagging octets policy).value = value ∨
      DecodesTo defs value (value.taggedDecodeInto defs tagging octets policy).value := by
  rw [taggedDecodeInto_eq_replace]
  cases h : Value.taggedDecode defs value tagging octets policy with
  | error => exact .inl rfl
  | ok => exact .inr (.tagged h)

section Blank

@[simp] theorem blank_setPolicy (value : Value) (own : Option Policy) :
    (value.setPolicy own).blank = value.blank := by
  cases value <;> rfl

@[simp] theorem blank_cleared (value : Value) : value.cleared.blank = value.blank := by
  rw [blank, cleared_cleared, blank]

theorem blank_of_cleared {a b : Value} (h : a.cleared = b.cleared) : a.blank = b.blank := by
  rw [blank, h, blank]

@[simp] theorem types_blank (value : Value) : value.blank.types = value.types := by
  rw [← types_cleared value, blank]
  cases value.cleared <;> rfl

theorem Fresh.blank_eq {value : Value} (h : value.Fresh) : value.blank = value := by
  cases h with
  | record grouping fields =>
    rw [emptyRecord, blank, cleared, List.map_map]
    rfl
  | elements | choice => rfl

/-- A SEQUENCE or SET that was made with some fields has a slot for each, in their order. -/
theorem exists_slots_of_blank {value : Value} {grouping : Grouping} {fields : List Field}
    (h : value.blank = emptyRecord grouping fields) :
    ∃ slots own, value = .record grouping slots own ∧ slots.map (·.field) = fields := by
  cases value with
  | record grouping' slots own =>
    unfold blank cleared setPolicy emptyRecord at h
    injection h with hgrouping hslots
    subst hgrouping
    have hfields := congrArg (List.map (·.field)) hslots
    simp only [List.map_map, Function.comp_def, List.map_id'] at hfields
    exact ⟨slots, own, rfl, hfields⟩
  | leaf | elements | choice | tagged | any => cases h

theorem blank_set {grouping : Grouping} {slots : List (Slot Value)} {own : Option Policy}
    {index : Nat} {slot : Slot Value} (h : slots[index]? = some slot) (content : Option Value) :
    (record grouping (slots.set index ⟨slot.field, content⟩) own).blank =
      (record grouping slots own).blank := by
  unfold blank cleared
  rw [Record.map_set (fun field => (⟨field, none⟩ : Slot Value)) h]

/-- No operation adds a place, takes one away or gives it another type. -/
theorem Changes.blank_eq {before after : Value} (h : Changes defs given before after) :
    after.blank = before.blank := by
  cases h with
  | set _ h =>
    obtain ⟨slot, hslot, -, rfl⟩ := Record.set_eq_ok_iff.1 h
    exact blank_set hslot _
  | @setOptional _ _ _ _ _ content _ h =>
    cases content with
    | none =>
      obtain ⟨slot, hslot, rfl⟩ := Record.clear_eq_ok_iff.1 h
      exact blank_set hslot _
    | some =>
      obtain ⟨slot, hslot, -, rfl⟩ := Record.set_eq_ok_iff.1 h
      exact blank_set hslot _
  | clear h =>
    obtain ⟨slot, hslot, rfl⟩ := Record.clear_eq_ok_iff.1 h
    exact blank_set hslot _
  | push | clearItems | select | clearSelection => rfl
  | setPolicy => exact blank_setPolicy _ _
  | cleared => exact blank_cleared _
  | decode =>
    rcases decodeInto_value before _ _ with heq | hresult
    · rw [heq]
    · exact blank_of_cleared hresult.cleared_eq
  | taggedDecode =>
    rcases taggedDecodeInto_value before _ _ _ with heq | hresult
    · rw [heq]
    · exact blank_of_cleared hresult.cleared_eq

end Blank

section Holding

theorem holding_unset {grouping : Grouping} {slots : List (Slot Value)} {own : Option Policy}
    (h : ∀ slot ∈ slots, slot.content = none) : (record grouping slots own).Holding fits := by
  intro slot hslot part hpart
  rw [h slot hslot] at hpart
  cases hpart

theorem holding_noItems (grouping : Grouping) (type : String) (own : Option Policy) :
    (elements grouping type [] own).Holding fits := by
  rintro _ ⟨⟩

theorem Fresh.holding {value : Value} (h : value.Fresh) : value.Holding fits := by
  cases h with
  | record => exact holding_unset (by simp)
  | elements grouping type => exact holding_noItems grouping type none
  | choice => trivial

theorem holding_setPolicy {value : Value} (own : Option Policy) :
    (value.setPolicy own).Holding fits ↔ value.Holding fits := by
  cases value with
  | choice _ selection _ => cases selection <;> rfl
  | leaf | record | elements | tagged | any => rfl

theorem holding_cleared (value : Value) : value.cleared.Holding fits := by
  induction value using contains_induction with
  | h value ih =>
    cases value with
    | record => exact holding_unset (by simp)
    | elements grouping type _ own => exact holding_noItems grouping type own
    | tagged _ inner =>
      unfold cleared Holding
      exact ih inner .inner
    | leaf | choice | any => trivial

theorem holding_set {grouping : Grouping} {slots : List (Slot Value)} {own : Option Policy}
    {index : Nat} {slot : Slot Value} {content : Option Value}
    (h : (record grouping slots own).Holding fits)
    (hcontent : ∀ part ∈ content, fits slot.field.type part) :
    (record grouping (slots.set index ⟨slot.field, content⟩) own).Holding fits := by
  intro other hother part hpart
  rcases List.mem_or_eq_of_mem_set hother with hold | rfl
  · exact h other hold part hpart
  · exact hcontent part hpart

/-- An operation keeps in place what fits there, if what it puts in fits, and so does what
decoding leaves. -/
theorem Changes.holding {before after : Value} (h : Changes defs given before after)
    (hbefore : before.Holding fits)
    (hgiven : ∀ type part, given part → sameType? defs part (defs.template type) = some true →
      fits type part)
    (hdecoded : ∀ result, DecodesTo defs before result → result.Holding fits) :
    after.Holding fits := by
  cases h with
  | set hpart h =>
    obtain ⟨slot, -, htype, rfl⟩ := Record.set_eq_ok_iff.1 h
    apply holding_set hbefore
    rintro _ ⟨⟩
    exact hgiven _ _ hpart htype
  | @setOptional _ _ _ _ _ content hcontent h =>
    cases content with
    | none =>
      obtain ⟨slot, -, rfl⟩ := Record.clear_eq_ok_iff.1 h
      apply holding_set hbefore
      rintro _ ⟨⟩
    | some part =>
      obtain ⟨slot, -, htype, rfl⟩ := Record.set_eq_ok_iff.1 h
      apply holding_set hbefore
      rintro _ ⟨⟩
      exact hgiven _ _ (hcontent part rfl) htype
  | clear h =>
    obtain ⟨slot, -, rfl⟩ := Record.clear_eq_ok_iff.1 h
    apply holding_set hbefore
    rintro _ ⟨⟩
  | push hpart h =>
    obtain ⟨htype, rfl⟩ := Elements.push_eq_ok_iff.1 h
    intro item hitem
    rcases List.mem_append.1 hitem with hold | hnew
    · exact hbefore item hold
    · rw [List.mem_singleton.1 hnew]
      exact hgiven _ _ hpart htype
  | clearItems => exact holding_noItems _ _ _
  | select hpart h =>
    obtain ⟨field, hfield, htype, rfl⟩ := Choice.select_eq_ok_iff.1 h
    exact ⟨field, hfield, hgiven _ _ hpart htype⟩
  | clearSelection => trivial
  | setPolicy => exact (holding_setPolicy _).2 hbefore
  | cleared => exact holding_cleared before
  | decode =>
    rcases decodeInto_value before _ _ with heq | hresult
    · rw [heq]
      exact hbefore
    · exact hdecoded _ hresult
  | taggedDecode =>
    rcases taggedDecodeInto_value before _ _ _ with heq | hresult
    · rw [heq]
      exact hbefore
    · exact hdecoded _ hresult

/-- What fits in its place and is in order itself is so at every depth. -/
theorem throughout_holding_iff {value : Value} :
    value.Throughout (Holding fits) ↔
      value.Holding fun type part => fits type part ∧ part.Throughout (Holding fits) := by
  match value with
  | .leaf _ => rw [throughout_leaf, Holding, Holding]
  | .record _ _ _ =>
    rw [throughout_record, Holding, Holding, ← forall₂_and]
    refine forall₂_congr fun slot _ => ?_
    rw [← forall₂_and]
  | .elements _ _ _ _ => rw [throughout_elements, Holding, Holding, ← forall₂_and]
  | .choice _ none _ => rw [throughout_unselected, Holding, Holding]
  | .choice _ (some ⟨_, _⟩) _ =>
    rw [throughout_selected, Holding, Holding]
    simp only [← and_assoc, exists_and_right]
  | .tagged _ inner _ =>
    rw [throughout_tagged, Holding, Holding, ← throughout_holding_iff]
    exact and_iff_right_of_imp Throughout.self
  | .any _ => rw [throughout_any, Holding, Holding]

/-- What is known of the value and handed down to its parts makes them fit their places. -/
theorem Typed.throughout_holding {known : Value → Prop} {value : Value} (h : value.Typed defs)
    (hvalue : known value)
    (hinner : ∀ {tagging inner own}, known (.tagged tagging inner own) → known inner)
    (hpart : ∀ {whole part : Value} {type : String}, known whole → type ∈ whole.types →
      part.cleared = (defs.template type).cleared → fits type part ∧ known part) :
    value.Throughout (Holding fits) := by
  rw [throughout_holding_iff]
  induction h with
  | leaf | any | unselected => trivial
  | record htypes _ ih =>
    intro slot hslot part hmem
    obtain ⟨hfits, hknown⟩ :=
      hpart hvalue (List.mem_map_of_mem hslot) (htypes slot hslot part hmem)
    exact ⟨hfits, throughout_holding_iff.2 (ih slot hslot part hmem hknown)⟩
  | elements htypes _ ih =>
    intro item hitem
    obtain ⟨hfits, hknown⟩ := hpart hvalue (List.mem_singleton_self _) (htypes item hitem)
    exact ⟨hfits, throughout_holding_iff.2 (ih item hitem hknown)⟩
  | selected hfield htype _ ih =>
    obtain ⟨hfits, hknown⟩ :=
      hpart hvalue (List.mem_map_of_mem (List.mem_of_getElem? hfield)) htype
    exact ⟨_, hfield, hfits, throughout_holding_iff.2 (ih hknown)⟩
  | tagged _ ih => exact ih (hinner hvalue)

/-- What has the type of its place is found to have it, if that type leads to none that unfolds
to itself. -/
theorem Typed.consistent {value : Value} (h : value.Typed defs)
    (hvalue : value.NonRecursive defs) : value.Throughout (Consistent defs) := by
  apply h.throughout_holding hvalue
  · intro tagging inner own htagged
    exact htagged.of_types rfl
  · intro whole part type hwhole htype hcleared
    have htemplate := hwhole.template htype
    exact ⟨htemplate.sameType?_of_cleared hcleared, htemplate.of_cleared hcleared⟩

theorem Decoded.gapless {allowed : Policy → Prop} {value : Value} (h : value.Decoded allowed) :
    value.Gapless := by
  cases value with
  | record => exact h
  | choice =>
    obtain ⟨_, _, rfl, -⟩ := h
    rintro ⟨⟩
  | leaf | elements | tagged | any => trivial

end Holding

/-- Whatever is done to a value, its places remain and what fits is held in them. -/
theorem holding_of_changes {start value : Value}
    (h : Relation.ReflTransGen (Changes defs given) start value) (hstart : start.Holding fits)
    (hgiven : ∀ type part, given part → sameType? defs part (defs.template type) = some true →
      fits type part)
    (hdecoded : ∀ before result, before.blank = start.blank → DecodesTo defs before result →
      result.Holding fits) :
    value.blank = start.blank ∧ value.Holding fits := by
  induction h with
  | refl => exact ⟨rfl, hstart⟩
  | tail _ hchanges ih =>
    obtain ⟨hblank, hholding⟩ := ih
    refine ⟨hchanges.blank_eq.trans hblank, hchanges.holding hholding hgiven ?_⟩
    intro result hresult
    exact hdecoded _ result hblank hresult

theorem DecodesTo.sound {start before result : Value} (hstart : start.NonRecursive defs)
    (hblank : before.blank = start.blank) (h : DecodesTo defs before result) :
    result.Throughout fun part => part.Consistent defs ∧ part.Gapless := by
  have htypes : result.types = start.types := by
    rw [← types_blank, blank_of_cleared h.cleared_eq, hblank, types_blank]
  have hconsistent := h.typed.consistent (hstart.of_types htypes)
  intro part hpart
  exact ⟨hconsistent part hpart, (h.throughout_decoded part hpart).gapless⟩

/-- A composite that is worked on has the places that it was made with and in each of them, if
anything, what belongs there. It is so at every depth if what was put in was so, and after
decoding it is so in any case and nothing is missing. -/
theorem composites_stay_consistent {start value : Value} (hstart : start.Fresh)
    (hrecursion : start.NonRecursive defs)
    (h : Relation.ReflTransGen (Changes defs given) start value) :
    value.blank = start ∧
      (∀ grouping fields, start = emptyRecord grouping fields →
        ∃ slots own, value = .record grouping slots own ∧ slots.map (·.field) = fields) ∧
      value.Consistent defs ∧
      ((∀ part, given part → part.Throughout (Consistent defs)) →
        value.Throughout (Consistent defs)) ∧
      (∀ octets policy, (value.decodeInto defs octets policy).result = .ok () →
        (value.decodeInto defs octets policy).value.Throughout
          fun part => part.Consistent defs ∧ part.Gapless) ∧
      ∀ tagging octets policy, (value.taggedDecodeInto defs tagging octets policy).result = .ok () →
        (value.taggedDecodeInto defs tagging octets policy).value.Throughout
          fun part => part.Consistent defs ∧ part.Gapless := by
  have hsound {before result : Value} (hblank : before.blank = start.blank)
      (hresult : DecodesTo defs before result) := hresult.sound hrecursion hblank
  obtain ⟨hblank, hconsistent⟩ := holding_of_changes h hstart.holding
    (fun _ _ _ htype => htype) fun before result hblank hresult =>
      (hsound hblank hresult).self.1
  refine ⟨hblank.trans hstart.blank_eq, ?_, hconsistent, ?_, ?_, ?_⟩
  · rintro grouping fields rfl
    exact exists_slots_of_blank (hblank.trans hstart.blank_eq)
  · intro hgiven
    obtain ⟨-, hthroughout⟩ := holding_of_changes h hstart.holding
      (fun _ part hpart htype => ⟨htype, hgiven part hpart⟩) fun before result hblank hresult =>
        throughout_holding_iff.1 ((hsound hblank hresult).imp fun _ => And.left)
    exact throughout_holding_iff.2 hthroughout
  · intro octets policy hok
    exact hsound hblank (.of_decodeInto hok)
  · intro tagging octets policy hok
    exact hsound hblank (.of_taggedDecodeInto hok)

/-- A SEQUENCE OF INTEGER that is given a number and then decodes two. -/
theorem numbers_stay_consistent :
    (decodeInto ⟨[("number", .leaf (.integer 0))]⟩
        (.elements .sequence "number" [.leaf (.integer 7)] none)
        [0x30, 0x06, 0x02, 0x01, 0x01, 0x02, 0x01, 0x02] .der).result = .ok () ∧
      (decodeInto ⟨[("number", .leaf (.integer 0))]⟩
        (.elements .sequence "number" [.leaf (.integer 7)] none)
        [0x30, 0x06, 0x02, 0x01, 0x01, 0x02, 0x01, 0x02] .der).value.Throughout
        fun part => part.Consistent ⟨[("number", .leaf (.integer 0))]⟩ ∧ part.Gapless := by
  have hpush : Elements.push ⟨[("number", .leaf (.integer 0))]⟩ "number" []
      (.leaf (.integer 7)) = .ok [.leaf (.integer 7)] :=
    Elements.push_eq_ok_iff.2 ⟨sameType?_eq_some_true_iff.2 (.leaf rfl), rfl⟩
  have hchanges : Relation.ReflTransGen
      (Changes ⟨[("number", .leaf (.integer 0))]⟩ (· = .leaf (.integer 7)))
      (.elements .sequence "number" [] none)
      (.elements .sequence "number" [.leaf (.integer 7)] none) := .single (.push rfl hpush)
  have hflat (name other : String) :
      ¬ Unfolds ⟨[("number", .leaf (.integer 0))]⟩ name other := by
    unfold Unfolds Definitions.template
    rw [List.lookup_cons]
    split <;> rintro ⟨⟩
  have hrecursion : (Value.elements .sequence "number" [] none).NonRecursive
      ⟨[("number", .leaf (.integer 0))]⟩ := by
    intro _ _ type _ hcycle
    obtain ⟨other, hother, -⟩ := Relation.TransGen.head'_iff.1 hcycle
    exact hflat type other hother
  have hok : (decodeInto ⟨[("number", .leaf (.integer 0))]⟩
      (.elements .sequence "number" [.leaf (.integer 7)] none)
      [0x30, 0x06, 0x02, 0x01, 0x01, 0x02, 0x01, 0x02] .der).result = .ok () := by
    have hdecode : decode ⟨[("number", .leaf (.integer 0))]⟩
        (.elements .sequence "number" [.leaf (.integer 7)] none)
        [0x30, 0x06, 0x02, 0x01, 0x01, 0x02, 0x01, 0x02] .der =
        .ok (.elements .sequence "number" [.leaf (.integer 1), .leaf (.integer 2)] none) := by
      refine decode_eq_ok_iff.2 ⟨_, _, rfl, .elements rfl rfl ?_, fun _ => rfl⟩
      rw [Tlv.stream_of_read rfl]
      refine .next (.leaf rfl rfl rfl) ?_
      show DecodesItems _ _ _ (Tlv.stream .distinguished 5 [0x02, 0x01, 0x02]) _
      rw [Tlv.stream_of_last rfl]
      exact .next (.leaf rfl rfl rfl) .done
    rw [decodeInto_eq_replace, hdecode]
    rfl
  have hconsistent := composites_stay_consistent (.elements .sequence "number") hrecursion hchanges
  exact ⟨hok, hconsistent.2.2.2.2.1 _ _ hok⟩

end Value

end Asn1
