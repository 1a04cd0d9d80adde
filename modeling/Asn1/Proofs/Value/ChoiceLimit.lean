import Asn1.Proofs.Value.Stepwise

/-!
How many CHOICEs may lead from one to the next is never seen. Answers and results come from what the
names stand for, whatever limit the number of entries sets.
-/

namespace Asn1

variable {defs other : Definitions} {tag : Tag}

theorem Value.acceptsWithin_of_template (h : other.template = defs.template) (depth : Nat)
    (value : Value) : value.acceptsWithin other tag depth = value.acceptsWithin defs tag depth := by
  induction depth generalizing value with
  | zero => cases value <;> simp only [acceptsWithin]
  | succ depth ih =>
    cases value with
    | choice =>
      have hfields : Field.acceptsWithin other tag depth = Field.acceptsWithin defs tag depth := by
        funext field
        simp only [Field.acceptsWithin, Field.acceptsBy, h, ih]
      rw [acceptsWithin_choice, acceptsWithin_choice, hfields]
    | leaf | record | elements | tagged | any => simp only [acceptsWithin]

theorem Field.acceptsWithin_of_template (h : other.template = defs.template) (depth : Nat)
    (field : Field) : field.acceptsWithin other tag depth = field.acceptsWithin defs tag depth := by
  simp only [acceptsWithin, acceptsBy, h, Value.acceptsWithin_of_template h]

/-- A limit that there is an answer within is high enough for that of either definitions. -/
theorem Value.acceptsWithin_choiceLimit (h : other.template = defs.template) (value : Value) :
    value.acceptsWithin defs tag other.choiceLimit = value.accepts? defs tag := by
  cases hmore : value.acceptsWithin defs tag other.choiceLimit with
  | some answer => exact (accepts?_of_acceptsWithin hmore).symm
  | none =>
    cases hanswer : value.accepts? defs tag with
    | none => rfl
    | some answer =>
      rw [accepts?, ← acceptsWithin_of_template h] at hanswer
      rw [← acceptsWithin_of_template h] at hmore
      rw [← accepts?, accepts?_of_acceptsWithin hanswer] at hmore
      cases hmore

theorem Field.acceptsWithin_choiceLimit (h : other.template = defs.template) (field : Field) :
    field.acceptsWithin defs tag other.choiceLimit = field.accepts? defs tag := by
  rw [accepts?, acceptsWithin, acceptsWithin, acceptsBy, acceptsBy]
  split
  · rfl
  · exact Value.acceptsWithin_choiceLimit h _

theorem Field.accepts?_of_template (h : other.template = defs.template) (field : Field) :
    field.accepts? other tag = field.accepts? defs tag := by
  rw [accepts?, acceptsWithin_of_template h, acceptsWithin_choiceLimit h]

namespace Value

/-- Two searches that both end find the same. -/
theorem firstAccepting_unique {depth more start : Nat} {fields : List Field}
    {found found' : Option (Nat × Field)}
    (h : Field.firstAccepting (Field.acceptsWithin defs tag depth) start fields = some found)
    (h' : Field.firstAccepting (Field.acceptsWithin defs tag more) start fields = some found') :
    found = found' := by
  have hany : ∀ depth field answer, Field.acceptsWithin defs tag depth field = some answer →
      Field.accepts? field defs tag = some answer :=
    fun _ _ _ => Field.accepts?_of_acceptsWithin
  have hfound := Field.firstAccepting_mono (hany depth) h
  rw [Field.firstAccepting_mono (hany more) h'] at hfound
  exact (Option.some.inj hfound).symm

theorem decodeFrom_unanswered {depth : Nat} {policy : Policy} {value : Value} {tlv : Tlv}
    (h : value.acceptsWithin defs tlv.tag depth = none) :
    decodeFrom defs depth policy value (.element tlv) = .error .endlessType := by
  cases value with
  | choice =>
    cases depth with
    | zero => exact decodeFrom_choice_zero
    | succ depth =>
      rw [acceptsWithin_choice, Option.map_eq_none_iff] at h
      rw [decodeFrom_choice_eq, route, h]
      rfl
  | leaf | record | elements | tagged | any =>
    rw [acceptsWithin] at h
    cases h

/-- Asked about the tag of the element, the value answers the same within either limit. -/
def AnswersAlike (defs : Definitions) (depth more : Nat) (value : Value) (source : Source) : Prop :=
  ∀ tlv, source = .element tlv →
    value.acceptsWithin defs tlv.tag depth = value.acceptsWithin defs tlv.tag more

theorem unlimited (h : other.template = defs.template) : Stepwise defs
    (fun depth policy value source => ∀ more, AnswersAlike defs depth more value source →
      decodeFrom other more policy value source = decodeFrom defs depth policy value source)
    (fun policy tagging inner source =>
      decodeUnder other policy tagging inner source = decodeUnder defs policy tagging inner source)
    (fun depth policy field tlv => ∀ more,
      field.acceptsWithin defs tlv.tag depth = field.acceptsWithin defs tlv.tag more → ∀ index,
        decodeField other more policy index field tlv =
          decodeField defs depth policy index field tlv)
    (fun policy fields stream => ∀ endOffset index,
      decodeSlots other policy endOffset index fields stream =
        decodeSlots defs policy endOffset index fields stream)
    (fun policy type stream => ∀ index,
      decodeItems other policy type index stream =
        decodeItems defs policy type index stream) where
  leaf depth policy primitive source more _ := by
    rw [decodeFrom_leaf_eq, decodeFrom_leaf_eq]
  record {_ _ grouping slots own source} hslots more _ := by
    rw [decodeFrom_record_eq, decodeFrom_record_eq]
    cases hcontent : source.contentAs grouping.tag true grouping.name with
    | error => rfl
    | ok content =>
      simp only [Except.bind, hslots content (Source.contentUnder_of_contentAs hcontent)]
  elements {_ _ grouping type items own source} hitems more _ := by
    rw [decodeFrom_elements_eq, decodeFrom_elements_eq]
    cases hcontent : source.contentAs grouping.tag true (grouping.name ++ " OF") with
    | error => rfl
    | ok content =>
      simp only [Except.bind, hitems content (Source.contentUnder_of_contentAs hcontent)]
  notChosen {depth _ _ _ _ source} hnone more halike := by
    cases source with
    | below content => rw [decodeFrom_choice_below, decodeFrom_choice_below]
    | element tlv =>
      rcases hnone with rfl | ⟨_, hbelow⟩
      · have hunanswered := (halike tlv rfl).symm
        rw [decodeFrom_choice_zero, decodeFrom_unanswered]
        rw [acceptsWithin_of_template h, hunanswered, acceptsWithin]
      · cases hbelow
  choice {depth _ alternatives selection own tlv} hfield more halike := by
    have halike := halike tlv rfl
    cases hfound : Field.firstAccepting (Field.acceptsWithin defs tlv.tag depth) 0 alternatives with
    | none =>
      have hnone : (Value.choice alternatives selection own).acceptsWithin defs tlv.tag
          (depth + 1) = none := by
        rw [acceptsWithin_choice, hfound]
        rfl
      rw [decodeFrom_unanswered hnone, decodeFrom_unanswered]
      rw [acceptsWithin_of_template h, ← halike, hnone]
    | some found =>
      rw [acceptsWithin_choice, hfound] at halike
      cases more with
      | zero => cases halike
      | succ more =>
        rw [acceptsWithin_choice] at halike
        obtain ⟨found', hfound', -⟩ := Option.map_eq_some_iff.1 halike.symm
        obtain rfl := firstAccepting_unique hfound hfound'
        have hasked : Field.acceptsWithin other tlv.tag more =
            Field.acceptsWithin defs tlv.tag more :=
          funext (Field.acceptsWithin_of_template h more)
        rw [decodeFrom_choice_eq, decodeFrom_choice_eq, route, route, hasked, hfound, hfound']
        cases found with
        | none => rfl
        | some routed =>
          obtain ⟨index, field⟩ := routed
          obtain ⟨_, -, -, haccepts, -⟩ := Field.firstAccepting_eq_some_iff.1 hfound
          obtain ⟨_, -, -, haccepts', -⟩ := Field.firstAccepting_eq_some_iff.1 hfound'
          simp only [Except.bind, hfield field more (haccepts.trans haccepts'.symm)]
  tagged {_ _ tagging inner own source} hinner more _ := by
    rw [decodeFrom_tagged_eq, decodeFrom_tagged_eq, hinner]
  any depth policy raw source more _ := by
    cases source <;> rw [decodeFrom, decodeFrom]
  under {policy tagging inner source} hexplicit himplicit := by
    rw [decodeUnder_eq, decodeUnder_eq]
    cases hcontent : source.contentUnder (tagging.outerTag inner) with
    | error => rfl
    | ok content =>
      simp only [Except.bind]
      cases hmode : tagging.modeFor inner with
      | explicit =>
        simp only
        cases hwrapped : content.wrapped policy.rules tagging with
        | error => rfl
        | ok wrapped =>
          obtain ⟨tlv, rest⟩ := wrapped
          simp only
          rw [hexplicit content tlv rest hcontent hmode hwrapped]
          rintro _ ⟨⟩
          exact (acceptsWithin_choiceLimit h inner).symm
      | implicit => exact himplicit content hcontent hmode _ (by rintro _ ⟨⟩)
  field {depth policy field tlv} huntagged htagged more halike index := by
    rw [decodeField_eq, decodeField_eq, h]
    cases htagging : field.tagging policy with
    | none =>
      simp only
      simp only [Field.acceptsWithin, Field.acceptsBy, Option.map_eq_none_iff.1 htagging] at halike
      rw [huntagged]
      rintro _ ⟨⟩
      exact halike
    | some tagging => simp only [htagged tagging]
  slotsDone policy fields endOffset index := by
    rw [decodeSlots, decodeSlots]
  slotsBroken policy fields error endOffset index := by
    rw [decodeSlots, decodeSlots]
  slotsBeyond policy tlv rest endOffset index := by
    rw [decodeSlots, decodeSlots]
  slotsNext {policy field fields tlv rest} hvalue hfilled hskipped endOffset index := by
    have halike := (@Field.acceptsWithin_choiceLimit defs other tlv.tag h field).symm
    rw [decodeSlots_next_eq, decodeSlots_next_eq, Field.accepts?_of_template h,
      hvalue _ halike, hfilled, hskipped]
  itemsDone policy type index := by
    rw [decodeItems, decodeItems]
  itemsBroken policy type error index := by
    rw [decodeItems, decodeItems]
  itemsNext {policy type tlv rest} hitem hrest index := by
    rw [decodeItems_next_eq, decodeItems_next_eq, hrest, h, hitem]
    rintro _ ⟨⟩
    exact (acceptsWithin_choiceLimit h _).symm

/-- Two definitions in which each name stands for the same decode alike, whatever the number of
their entries allows. -/
theorem decode_of_template (h : other.template = defs.template) (value : Value) (octets : Octets)
    (policy : Policy) : decode other value octets policy = decode defs value octets policy := by
  rw [decode_eq, decode_eq]
  refine congrArg _ (funext fun tlv => ?_)
  rw [(unlimited h).ofValue defs.choiceLimit]
  rintro _ ⟨⟩
  exact (acceptsWithin_choiceLimit h _).symm

theorem taggedDecode_of_template (h : other.template = defs.template) (value : Value)
    (tagging : Tagging) (octets : Octets) (policy : Policy) :
    taggedDecode other value tagging octets policy =
      taggedDecode defs value tagging octets policy := by
  rw [taggedDecode_eq, taggedDecode_eq]
  refine congrArg _ (funext fun tlv => ?_)
  rw [(unlimited h).ofUnder]

end Value

end Asn1
