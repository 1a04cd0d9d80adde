import Asn1.Proofs.Value.Stepwise
import Asn1.Value.InPlace

/-!
Decoding in place comes to what decoding from a fresh value does. A failure leaves the value
as it was, a success takes over its type and its overrides and nothing else, and what the
prototypes of the fields hold is lost as well.
-/

namespace Asn1

/-- The same types, with nothing in their prototypes. -/
def Definitions.cleared (defs : Definitions) : Definitions :=
  ⟨defs.entries.map fun (name, prototype) => (name, prototype.cleared)⟩

namespace Definitions

@[simp] theorem choiceLimit_cleared (defs : Definitions) :
    defs.cleared.choiceLimit = defs.choiceLimit := by
  rw [choiceLimit, cleared, List.length_map, choiceLimit]

@[simp] theorem template_cleared (defs : Definitions) (name : String) :
    defs.cleared.template name = (defs.template name).cleared := by
  rw [template, cleared, template]
  induction defs.entries with
  | nil => rfl
  | cons entry entries ih =>
    rw [List.map_cons, List.lookup_cons, List.lookup_cons]
    split
    · rfl
    · exact ih

end Definitions

namespace Update

variable {update : Update} {before : Value} {outcome : Except Error Value}

@[simp] theorem outcome_replace : (replace before outcome).outcome = outcome := by
  cases outcome <;> rfl

@[simp] theorem outcome_inside {whole : Value → Value} :
    (update.inside whole).outcome = update.outcome.map whole := by
  obtain ⟨result, value⟩ := update
  cases result <;> rfl

end Update

namespace Value

variable {defs : Definitions}

section Filling

theorem outcome_fillUnder {policy : Policy} {inner : Value} {fillInner : Source → Update}
    (tagging : Tagging)
    (h : ∀ source, (fillInner source).outcome =
      decodeFrom defs defs.choiceLimit policy inner source) (source : Source) :
    (fillUnder policy tagging inner fillInner source).outcome =
      decodeUnder defs policy tagging inner source := by
  rw [decodeUnder_eq, fillUnder]
  cases source.contentUnder (tagging.outerTag inner) with
  | error => rfl
  | ok content =>
    simp only [Except.bind]
    cases tagging.modeFor inner with
    | explicit =>
      simp only
      cases content.wrapped policy.rules tagging with
      | error => rfl
      | ok wrapped =>
        simp only [← h (.element wrapped.1)]
        obtain ⟨result, value⟩ := fillInner (.element wrapped.1)
        cases result with
        | error => rfl
        | ok =>
          simp only
          split <;> rfl
    | implicit => exact h (.below content)

/-- Whatever the value held, filling it makes of it what is decoded from its type. -/
theorem outcome_fill (depth : Nat) (policy : Policy) (value : Value) (source : Source) :
    (value.fill defs depth policy source).outcome =
      decodeFrom defs depth policy value source := by
  match value with
  | .tagged tagging inner own =>
    have hinner := outcome_fillUnder tagging
      (outcome_fill defs.choiceLimit (own.getD policy) inner) source
    rw [fill, Update.outcome_inside, hinner, decodeFrom_tagged_eq]
  | .leaf _ | .record _ _ _ | .elements _ _ _ _ | .choice _ _ _ | .any _ =>
    rw [fill, Update.outcome_replace]
    nofun

/-- What a field is decoded to is its prototype filled in place. -/
theorem decodeField_eq_outcome (depth : Nat) (policy : Policy) (index : Nat) (field : Field)
    (tlv : Tlv) : decodeField defs depth policy index field tlv =
      (fillField defs depth policy field tlv).outcome.mapError (.inField index field.name) := by
  rw [decodeField_eq, fillField]
  cases field.tagging policy with
  | none => simp only [outcome_fill]
  | some tagging => simp only [outcome_fillUnder tagging (outcome_fill _ _ _)]

theorem adopt_eq_replace (value : Value) (policy : Policy) (tlv : Tlv) (rest : Octets)
    (copy : Update) : value.adopt policy tlv rest copy =
      .replace value (copy.outcome.bind (atEnd policy tlv rest)) := by
  obtain ⟨result, value⟩ := copy
  cases result <;> rfl

/-- Decoding into a value replaces it by what is decoded, or leaves it alone. -/
theorem decodeInto_eq_replace (value : Value) (octets : Octets) (policy : Policy) :
    decodeInto defs value octets policy = .replace value (decode defs value octets policy) := by
  rw [decodeInto, decode_eq, decodeRoot]
  cases Tlv.read (value.resolve policy).rules 0 octets with
  | error => rfl
  | ok read => simp only [adopt_eq_replace, outcome_fill, Except.bind]

theorem taggedDecodeInto_eq_replace (value : Value) (tagging : Tagging) (octets : Octets)
    (policy : Policy) : taggedDecodeInto defs value tagging octets policy =
      .replace value (taggedDecode defs value tagging octets policy) := by
  rw [taggedDecodeInto, taggedDecode_eq, decodeRoot]
  cases Tlv.read (value.resolve policy).rules 0 octets with
  | error => rfl
  | ok read =>
    simp only [adopt_eq_replace, Except.bind]
    rw [outcome_fillUnder tagging (outcome_fill _ _ _)]

end Filling

section Types

theorem cleared_fillUnder {inner : Value} {fillInner : Source → Update} (policy : Policy)
    (tagging : Tagging)
    (h : ∀ source, (fillInner source).value.cleared = inner.cleared) (source : Source) :
    (fillUnder policy tagging inner fillInner source).value.cleared = inner.cleared := by
  rw [fillUnder]
  split
  · rfl
  · split
    · split
      · rfl
      · rename_i tlv rest hwrapped
        have hfilled := h (.element tlv)
        split
        · rename_i hupdate
          rw [hupdate] at hfilled
          exact hfilled
        · rename_i hupdate
          rw [hupdate] at hfilled
          split <;> exact hfilled
    · exact h _

theorem cleared_replace_decodeFrom (depth : Nat) (policy : Policy) (value : Value)
    (source : Source) : (Update.replace value
      (decodeFrom defs depth policy value source)).value.cleared = value.cleared := by
  cases hdecoded : decodeFrom defs depth policy value source with
  | error => rfl
  | ok result => exact (decodes_iff.1 hdecoded).cleared_eq

/-- A change that fails may be half done, but it never touches the type and the overrides. -/
theorem cleared_fill (depth : Nat) (policy : Policy) (value : Value) (source : Source) :
    (value.fill defs depth policy source).value.cleared = value.cleared := by
  match value with
  | .tagged tagging inner own =>
    have hinner := cleared_fillUnder (own.getD policy) tagging
      (cleared_fill defs.choiceLimit (own.getD policy) inner) source
    rw [fill, Update.inside, cleared, hinner, cleared]
  | .leaf _ | .record _ _ _ | .elements _ _ _ _ | .choice _ _ _ | .any _ =>
    rw [fill]
    · exact cleared_replace_decodeFrom _ _ _ _
    · nofun

/-- The BOOLEAN is true already when the NULL behind it is met. -/
example : Value.fill ⟨[]⟩ 1 .der (.tagged ⟨.context, 0, .explicit⟩ (.leaf (.boolean false)) none)
    (.element ⟨⟨.context, true, 0⟩, 0, [0xA0, 0x05], [0x01, 0x01, 0xFF, 0x05, 0x00]⟩) =
    ⟨.error (.trailing 5 2), .tagged ⟨.context, 0, .explicit⟩ (.leaf (.boolean true)) none⟩ := by
  cbv

end Types

section History

theorem acceptsBy_template_cleared {tag : Tag} {depth : Nat}
    (h : ∀ value : Value,
      value.acceptsWithin defs.cleared tag depth = value.acceptsWithin defs tag depth) :
    Field.acceptsWithin defs.cleared tag depth = Field.acceptsWithin defs tag depth := by
  funext field
  rw [Field.acceptsWithin, Field.acceptsWithin]
  simp only [Definitions.template_cleared, acceptsWithin_cleared, h]

theorem acceptsWithin_cleared_definitions (tag : Tag) (depth : Nat) (value : Value) :
    value.acceptsWithin defs.cleared tag depth = value.acceptsWithin defs tag depth := by
  induction depth generalizing value with
  | zero => cases value <;> rw [acceptsWithin, acceptsWithin]
  | succ depth ih =>
    cases value with
    | choice => rw [acceptsWithin_choice, acceptsWithin_choice, acceptsBy_template_cleared ih]
    | leaf | record | elements | tagged | any => rw [acceptsWithin, acceptsWithin]

theorem accepts?_cleared_definitions (field : Field) (tag : Tag) :
    field.accepts? defs.cleared tag = field.accepts? defs tag := by
  rw [Field.accepts?, Field.accepts?, Definitions.choiceLimit_cleared,
    acceptsBy_template_cleared fun value => acceptsWithin_cleared_definitions _ _ value]

theorem route_cleared_definitions (depth : Nat) (alternatives : List Field) (tlv : Tlv) :
    route defs.cleared depth alternatives tlv = route defs depth alternatives tlv := by
  rw [route, route,
    acceptsBy_template_cleared fun value => acceptsWithin_cleared_definitions _ _ value]

/-- No call looks at what the value or a prototype holds. -/
theorem forgets (defs : Definitions) : Stepwise defs
    (fun depth policy value source => decodeFrom defs.cleared depth policy value.cleared source =
      decodeFrom defs depth policy value source)
    (fun policy tagging inner source =>
      decodeUnder defs.cleared policy tagging inner.cleared source =
        decodeUnder defs policy tagging inner source)
    (fun depth policy field tlv => ∀ index,
      decodeField defs.cleared depth policy index field tlv =
        decodeField defs depth policy index field tlv)
    (fun policy fields stream => ∀ endOffset index,
      decodeSlots defs.cleared policy endOffset index fields stream =
        decodeSlots defs policy endOffset index fields stream)
    (fun policy type stream => ∀ index, decodeItems defs.cleared policy type index stream =
      decodeItems defs policy type index stream) where
  leaf depth policy primitive source := by
    have hcleared := Primitive.cleared_cleared primitive
    simp only [cleared, decodeFrom_leaf_eq, Primitive.typeName,
      Primitive.tag_of_cleared hcleared, Primitive.decode_of_cleared hcleared]
  record {_ _ grouping slots own source} hslots := by
    rw [cleared, decodeFrom_record_eq, decodeFrom_record_eq, List.map_map]
    cases hcontent : source.contentAs grouping.tag true grouping.name with
    | error => rfl
    | ok content =>
      have hslots := hslots content (Source.contentUnder_of_contentAs hcontent)
      exact congrArg (Except.map _) (hslots _ _)
  elements {_ _ grouping type items own source} hitems := by
    rw [cleared, decodeFrom_elements_eq, decodeFrom_elements_eq]
    cases hcontent : source.contentAs grouping.tag true (grouping.name ++ " OF") with
    | error => rfl
    | ok content =>
      have hitems := hitems content (Source.contentUnder_of_contentAs hcontent)
      exact congrArg (Except.map _) (hitems _)
  notChosen {depth _ _ _ _ source} hnone := by
    cases source with
    | below content => rw [cleared, decodeFrom_choice_below, decodeFrom_choice_below]
    | element tlv =>
      rcases hnone with rfl | ⟨_, hbelow⟩
      · rw [cleared, decodeFrom_choice_zero, decodeFrom_choice_zero]
      · cases hbelow
  choice {depth _ alternatives _ _ tlv} hfield := by
    simp only [cleared, decodeFrom_choice_eq, route_cleared_definitions, hfield]
  tagged {_ _ tagging inner own source} hinner := by
    rw [cleared, decodeFrom_tagged_eq, decodeFrom_tagged_eq, hinner]
  any depth policy raw source := by
    cases source <;> rw [cleared, decodeFrom, decodeFrom]
  under {policy tagging inner source} hexplicit himplicit := by
    rw [decodeUnder_eq, decodeUnder_eq, Tagging.outerTag_cleared, Tagging.modeFor_cleared]
    cases hcontent : source.contentUnder (tagging.outerTag inner) with
    | error => rfl
    | ok content =>
      simp only [Except.bind]
      cases hmode : tagging.modeFor inner with
      | explicit =>
        simp only
        cases hwrapped : content.wrapped policy.rules tagging with
        | error => rfl
        | ok wrapped =>
          simp only [Definitions.choiceLimit_cleared,
            hexplicit content wrapped.1 wrapped.2 hcontent hmode hwrapped]
      | implicit =>
        simp only [Definitions.choiceLimit_cleared, himplicit content hcontent hmode]
  field {depth policy field tlv} huntagged htagged index := by
    simp only [decodeField_eq, Definitions.template_cleared, huntagged, htagged]
  slotsDone policy fields endOffset index := by
    rw [decodeSlots, decodeSlots]
  slotsBroken policy fields error endOffset index := by
    rw [decodeSlots, decodeSlots]
  slotsBeyond policy tlv rest endOffset index := by
    rw [decodeSlots, decodeSlots]
  slotsNext {policy field fields tlv rest} hvalue hfilled hskipped endOffset index := by
    rw [decodeSlots_next_eq, decodeSlots_next_eq]
    simp only [Definitions.choiceLimit_cleared, accepts?_cleared_definitions, hvalue, hfilled,
      hskipped]
  itemsDone policy type index := by
    rw [decodeItems, decodeItems]
  itemsBroken policy type error index := by
    rw [decodeItems, decodeItems]
  itemsNext {policy type tlv rest} hitem hrest index := by
    rw [decodeItems_next_eq, decodeItems_next_eq, Definitions.template_cleared,
      Definitions.choiceLimit_cleared, hitem, hrest]

variable (defs : Definitions)

theorem decodeFrom_cleared (depth : Nat) (policy : Policy) (value : Value) (source : Source) :
    decodeFrom defs depth policy value.cleared source =
      decodeFrom defs depth policy value source := by
  have hcleared := (forgets defs).ofValue depth policy value.cleared source
  rw [cleared_cleared] at hcleared
  rw [← hcleared, (forgets defs).ofValue depth policy value source]

theorem decodeFrom_cleared_definitions (depth : Nat) (policy : Policy) (value : Value)
    (source : Source) : decodeFrom defs.cleared depth policy value source =
      decodeFrom defs depth policy value source := by
  rw [← decodeFrom_cleared defs.cleared, (forgets defs).ofValue depth policy value source]

theorem decode_cleared (value : Value) (octets : Octets) (policy : Policy) :
    decode defs value.cleared octets policy = decode defs value octets policy := by
  rw [decode, resolve_cleared, cleared_cleared, decode]

theorem taggedDecode_cleared (value : Value) (tagging : Tagging) (octets : Octets)
    (policy : Policy) : taggedDecode defs value.cleared tagging octets policy =
      taggedDecode defs value tagging octets policy := by
  rw [taggedDecode, resolve_cleared, cleared_cleared, taggedDecode]

theorem decode_cleared_definitions (value : Value) (octets : Octets) (policy : Policy) :
    decode defs.cleared value octets policy = decode defs value octets policy := by
  simp only [decode_eq, Definitions.choiceLimit_cleared, decodeFrom_cleared_definitions]

theorem taggedDecode_cleared_definitions (value : Value) (tagging : Tagging) (octets : Octets)
    (policy : Policy) : taggedDecode defs.cleared value tagging octets policy =
      taggedDecode defs value tagging octets policy := by
  have hunder (policy : Policy) (source : Source) :
      decodeUnder defs.cleared policy tagging value.cleared source =
        decodeUnder defs policy tagging value.cleared source := by
    have hcleared := (forgets defs).ofUnder policy tagging value.cleared source
    rw [cleared_cleared] at hcleared
    exact hcleared
  simp only [taggedDecode_eq, hunder]

end History

/-- A change that happens altogether or not at all, and that depends neither on what the value
held before nor on what the prototypes hold. -/
structure AllOrNothing (defs : Definitions) (value : Value)
    (change : Definitions → Value → Update) : Prop where
  untouched : ∀ error, (change defs value).result = .error error → (change defs value).value = value
  sameType : (change defs value).value.cleared = value.cleared
  sameOverride : (change defs value).value.policy? = value.policy?
  fromCleared : (change defs value).outcome = (change defs value.cleared).outcome
  fromClearedPrototypes : (change defs value).outcome = (change defs.cleared value).outcome

/-- Replacing a value does so, if what replaces it has its type and forgets what it held. -/
theorem allOrNothing_of_replace {value : Value} {decoded : Definitions → Value → Except Error Value}
    (htype : ∀ result, decoded defs value = .ok result → result.cleared = value.cleared)
    (hcleared : decoded defs value.cleared = decoded defs value)
    (hprototypes : decoded defs.cleared value = decoded defs value) :
    AllOrNothing defs value fun defs value => .replace value (decoded defs value) := by
  have hkept : (Update.replace value (decoded defs value)).value.cleared = value.cleared := by
    cases hdecoded : decoded defs value with
    | error => rfl
    | ok result => exact htype result hdecoded
  refine ⟨?_, hkept, ?_, ?_, ?_⟩
  · intro error herror
    cases hdecoded : decoded defs value with
    | error => rfl
    | ok result =>
      rw [hdecoded] at herror
      cases herror
  · rw [← policy?_cleared, hkept, policy?_cleared]
  · simp only [Update.outcome_replace, hcleared]
  · simp only [Update.outcome_replace, hprototypes]

/-- Decoding into a value leaves it alone or replaces all that it holds by what is decoded from
its type. A change in place comes to the same wherever it succeeds, and keeps the type where it is
half done; so does one of a prototype, and nothing that prototypes hold gets into a field. -/
theorem decoding_all_or_nothing (defs : Definitions) (value : Value) (policy : Policy) :
    (∀ octets,
      decodeInto defs value octets policy = .replace value (decode defs value octets policy) ∧
      AllOrNothing defs value fun defs value => decodeInto defs value octets policy) ∧
    (∀ tagging octets,
      taggedDecodeInto defs value tagging octets policy =
        .replace value (taggedDecode defs value tagging octets policy) ∧
      AllOrNothing defs value fun defs value => taggedDecodeInto defs value tagging octets policy) ∧
    (∀ depth source,
      (value.fill defs depth policy source).outcome = decodeFrom defs depth policy value source ∧
      (value.fill defs depth policy source).value.cleared = value.cleared ∧
      (value.fill defs depth policy source).outcome =
        (value.cleared.fill defs depth policy source).outcome ∧
      (value.fill defs depth policy source).outcome =
        (value.fill defs.cleared depth policy source).outcome) ∧
    ∀ depth index field tlv,
      decodeField defs depth policy index field tlv =
        (fillField defs depth policy field tlv).outcome.mapError (.inField index field.name) ∧
      decodeField defs.cleared depth policy index field tlv =
        decodeField defs depth policy index field tlv := by
  refine ⟨?_, ?_, ?_, ?_⟩
  · intro octets
    refine ⟨decodeInto_eq_replace value octets policy, ?_⟩
    simp only [decodeInto_eq_replace]
    refine allOrNothing_of_replace ?_ (decode_cleared _ _ _ _) (decode_cleared_definitions _ _ _ _)
    intro result hresult
    obtain ⟨_, _, -, hdecodes, -⟩ := decode_eq_ok_iff.1 hresult
    rw [hdecodes.cleared_eq, cleared_cleared]
  · intro tagging octets
    refine ⟨taggedDecodeInto_eq_replace value tagging octets policy, ?_⟩
    simp only [taggedDecodeInto_eq_replace]
    refine allOrNothing_of_replace ?_ (taggedDecode_cleared _ _ _ _ _)
      (taggedDecode_cleared_definitions _ _ _ _ _)
    intro result hresult
    obtain ⟨_, _, -, hdecodes, -⟩ := taggedDecode_eq_ok_iff.1 hresult
    rw [hdecodes.cleared_eq, cleared_cleared]
  · intro depth source
    refine ⟨outcome_fill _ _ _ _, cleared_fill _ _ _ _, ?_, ?_⟩
    · rw [outcome_fill, outcome_fill, decodeFrom_cleared]
    · rw [outcome_fill, outcome_fill, decodeFrom_cleared_definitions]
  · intro depth index field tlv
    exact ⟨decodeField_eq_outcome _ _ _ _ _, (forgets defs).ofField depth policy field tlv index⟩

/-- The copy held a new BOOLEAN when the NULL behind it was met, the value holds the old one. -/
theorem half_filled_copy_dropped :
    (decodeInto ⟨[]⟩ (.tagged ⟨.context, 0, .explicit⟩ (.leaf (.boolean false)) none)
        [0xA0, 0x05, 0x01, 0x01, 0xFF, 0x05, 0x00] .der).result = .error (.trailing 5 2) ∧
      (decodeInto ⟨[]⟩ (.tagged ⟨.context, 0, .explicit⟩ (.leaf (.boolean false)) none)
        [0xA0, 0x05, 0x01, 0x01, 0xFF, 0x05, 0x00] .der).value =
        .tagged ⟨.context, 0, .explicit⟩ (.leaf (.boolean false)) none := by
  have hresult : (decodeInto ⟨[]⟩
      (.tagged ⟨.context, 0, .explicit⟩ (.leaf (.boolean false)) none)
      [0xA0, 0x05, 0x01, 0x01, 0xFF, 0x05, 0x00] .der).result = .error (.trailing 5 2) := by cbv
  exact ⟨hresult, ((decoding_all_or_nothing _ _ _).1 _).2.untouched _ hresult⟩

end Value

end Asn1
