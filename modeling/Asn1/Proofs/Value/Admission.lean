import Asn1.Proofs.Value.Offset
import Asn1.Proofs.Value.Termination

/-!
Which elements belong to a type is decided twice, before an element is handed on and again where it
is decoded. The two go different ways through CHOICEs, re-tags and context tags, and come to the
same: a tag is refused just where it was not accepted. An accepted element may still fail, but
not for its tag. Where untagged CHOICEs come to an end there is always an answer.
-/

namespace Asn1

namespace Error

/-- What failed is that the tag there belongs to nothing that is expected. -/
def RefusesTagAt (offset : Nat) (error : Error) : Prop :=
  (∃ expected found, error.rootCause = .unexpectedTag offset expected found) ∨
    ∃ tag, error.rootCause = .unknownAlternative offset tag

variable {offset : Nat}

theorem refusesTagAt_inField {index : Nat} {name : String} {source : Error} :
    (Error.inField index name source).RefusesTagAt offset ↔ source.RefusesTagAt offset := Iff.rfl

/-- Further on there is another tag. -/
theorem Within.not_refusesTagAt {error : Error} {first last : Nat} (h : error.Within first last)
    (hbefore : offset < first) : ¬ error.RefusesTagAt offset := by
  rintro (⟨_, _, hroot⟩ | ⟨_, hroot⟩)
  · have := h.1 offset (by rw [hroot]; rfl)
    omega
  · have := h.1 offset (by rw [hroot]; rfl)
    omega

end Error

/-- The answer about the tag tells whether the result is a refusal of the tag. -/
structure Foretells {α : Type} (offset : Nat) (answer : Option Bool) (result : Except Error α) :
    Prop where
  refused : answer = some false → ∃ error, result = .error error ∧ error.RefusesTagAt offset
  entered : answer = some true → FailsWith (fun error => ¬ error.RefusesTagAt offset) result

/-- There is an answer about the tag, and it is no just where the result is a refusal of it. -/
structure Decides {α : Type} (offset : Nat) (answer : Option Bool) (result : Except Error α) :
    Prop where
  answered : answer ≠ none
  refused_iff : answer = some false ↔ ∃ error, result = .error error ∧ error.RefusesTagAt offset
  entered_iff : answer = some true ↔ FailsWith (fun error => ¬ error.RefusesTagAt offset) result

namespace Foretells

variable {α β : Type} {offset : Nat} {answer : Option Bool} {result : Except Error α}

theorem unanswered : Foretells offset none result := by
  constructor <;> rintro ⟨⟩

theorem map {f : α → β} (h : Foretells offset answer result) :
    Foretells offset answer (result.map f) := by
  constructor
  · intro hanswer
    obtain ⟨error, rfl, hrefuses⟩ := h.refused hanswer
    exact ⟨error, rfl, hrefuses⟩
  · intro hanswer
    exact (h.entered hanswer).map

theorem inField (h : Foretells offset answer result) (index : Nat) (name : String) :
    Foretells offset answer (result.mapError (.inField index name)) := by
  constructor
  · intro hanswer
    obtain ⟨error, rfl, hrefuses⟩ := h.refused hanswer
    exact ⟨_, rfl, Error.refusesTagAt_inField.2 hrefuses⟩
  · intro hanswer
    refine (h.entered hanswer).mapError ?_
    intro error hrefuses
    rw [Error.refusesTagAt_inField]
    exact hrefuses

/-- Of two answers each excludes what the other foretells. -/
theorem decides (h : Foretells offset answer result) (hanswered : answer ≠ none) :
    Decides offset answer result := by
  obtain ⟨accepted, rfl⟩ := Option.ne_none_iff_exists'.1 hanswered
  cases accepted with
  | false =>
    obtain ⟨error, rfl, hrefuses⟩ := h.refused rfl
    refine ⟨hanswered, iff_of_true rfl ⟨error, rfl, hrefuses⟩, iff_of_false nofun ?_⟩
    intro hentered
    exact FailsWith.error_iff.1 hentered hrefuses
  | true =>
    have hentered := h.entered rfl
    refine ⟨hanswered, iff_of_false nofun ?_, iff_of_true rfl hentered⟩
    rintro ⟨error, rfl, hrefuses⟩
    exact FailsWith.error_iff.1 hentered hrefuses

end Foretells

/-- Content lies behind the tag, so that what fails in it does not fail for the tag. -/
theorem foretells_of_contentUnder {α : Type} {expected : Tag} {tlv : Tlv}
    {step : Content → Except Error α} (hheader : 0 < tlv.header.length)
    (hstep : ∀ content, FailsWith (Error.Within content.offset content.endOffset)
      (step content)) :
    Foretells tlv.offset (some (expected.sameIdentity tlv.tag))
      (((Source.element tlv).contentUnder expected).bind step) := by
  rw [Source.contentUnder]
  constructor
  · intro hanswer
    rw [if_neg (by simpa using hanswer)]
    exact ⟨_, rfl, .inl ⟨expected, tlv.tag, rfl⟩⟩
  · intro hanswer
    rw [if_pos (by simpa using hanswer)]
    refine (hstep _).imp ?_
    intro error herror
    apply herror.not_refusesTagAt
    show tlv.offset < tlv.offset + tlv.header.length
    omega

namespace Value

variable {defs : Definitions} {policy : Policy} {tlv : Tlv}

theorem decodeUnder_foretold (hheader : 0 < tlv.header.length) (tagging : Tagging)
    (inner : Value) :
    Foretells tlv.offset (some (tagging.accepts tlv.tag))
      (decodeUnder defs policy tagging inner (.element tlv)) := by
  rw [decodeUnder_below, Tagging.accepts_eq_sameIdentity tagging inner]
  apply foretells_of_contentUnder hheader
  intro content
  exact (locates defs).ofUnder policy tagging inner (.below content)

/-- Whatever has a tag of its own is read from below that tag. -/
theorem decodeFrom_below {value : Value} {expected : Tag} (hown : value.hasOwnTag = true)
    (htag : value.tag? = some expected) {depth : Nat} {source : Source} :
    decodeFrom defs depth policy value source =
      (source.contentUnder expected).bind fun content =>
        decodeFrom defs depth policy value (.below content) := by
  cases value with
  | leaf =>
    cases htag
    simp only [decodeFrom_leaf_eq, Source.contentAs]
    cases source.contentUnder _ <;> rfl
  | record =>
    cases htag
    simp only [decodeFrom_record_eq, Source.contentAs]
    cases source.contentUnder _ <;> rfl
  | elements =>
    cases htag
    simp only [decodeFrom_elements_eq, Source.contentAs]
    cases source.contentUnder _ <;> rfl
  | tagged =>
    cases htag
    simp only [decodeFrom_tagged_eq]
    rw [decodeUnder_below]
    cases source.contentUnder _ <;> rfl
  | choice | any => cases hown

theorem acceptsWithin_of_tag? {value : Value} {expected : Tag} (hown : value.hasOwnTag = true)
    (htag : value.tag? = some expected) (tag : Tag) (depth : Nat) :
    value.acceptsWithin defs tag depth = some (expected.sameIdentity tag) := by
  cases value with
  | leaf | record | elements =>
    cases htag
    rw [acceptsWithin]
  | tagged tagging inner =>
    cases htag
    rw [acceptsWithin, Tagging.accepts_eq_sameIdentity tagging inner]
  | choice | any => cases hown

theorem decodeFrom_foretold_of_hasOwnTag {value : Value} (hheader : 0 < tlv.header.length)
    (hown : value.hasOwnTag = true) (depth : Nat) :
    Foretells tlv.offset (value.acceptsWithin defs tlv.tag depth)
      (decodeFrom defs depth policy value (.element tlv)) := by
  obtain ⟨expected, htag⟩ : ∃ expected, value.tag? = some expected := by
    cases value with
    | leaf | record | elements | tagged => exact ⟨_, rfl⟩
    | choice | any => cases hown
  rw [acceptsWithin_of_tag? hown htag, decodeFrom_below hown htag]
  apply foretells_of_contentUnder hheader
  intro content
  exact (locates defs).ofValue depth policy value (.below content)

theorem decodeField_foretold {depth : Nat} {field : Field} (hheader : 0 < tlv.header.length)
    (hvalue : Foretells tlv.offset ((defs.template field.type).acceptsWithin defs tlv.tag depth)
      (decodeFrom defs depth policy (defs.template field.type) (.element tlv))) (index : Nat) :
    Foretells tlv.offset (field.acceptsWithin defs tlv.tag depth)
      (decodeField defs depth policy index field tlv) := by
  rw [decodeField_eq, Field.acceptsWithin, Field.acceptsBy, Field.tagging]
  apply Foretells.inField
  cases field.number with
  | none => exact hvalue
  | some number =>
    exact decodeUnder_foretold hheader ⟨.context, number, field.mode.getD policy.tagging⟩ _

theorem any_foretold {raw : Octets} (depth : Nat) :
    Foretells tlv.offset ((Value.any raw).acceptsWithin defs tlv.tag depth)
      (decodeFrom defs depth policy (.any raw) (.element tlv)) := by
  rw [decodeFrom]
  constructor
  · intro hanswer
    rw [acceptsWithin] at hanswer
    cases hanswer
  · intro _
    exact .ok

/-- Going by the depth, since a CHOICE asks the types of its alternatives. -/
theorem decodeFrom_foretold (hheader : 0 < tlv.header.length) (depth : Nat) (policy : Policy)
    (value : Value) :
    Foretells tlv.offset (value.acceptsWithin defs tlv.tag depth)
      (decodeFrom defs depth policy value (.element tlv)) := by
  induction depth generalizing policy value with
  | zero =>
    cases value with
    | leaf | record | elements | tagged => exact decodeFrom_foretold_of_hasOwnTag hheader rfl 0
    | choice => exact .unanswered
    | any => exact any_foretold 0
  | succ depth ih =>
    cases value with
    | leaf | record | elements | tagged =>
      exact decodeFrom_foretold_of_hasOwnTag hheader rfl (depth + 1)
    | choice alternatives selection own =>
      rw [acceptsWithin_choice, decodeFrom_choice_eq, route]
      cases hfirst : Field.firstAccepting (Field.acceptsWithin defs tlv.tag depth) 0 alternatives
        with
      | none => exact .unanswered
      | some found =>
        cases found with
        | none =>
          constructor
          · intro _
            exact ⟨_, rfl, .inr ⟨tlv.tag, rfl⟩⟩
          · rintro ⟨⟩
        | some found =>
          obtain ⟨index, field⟩ := found
          obtain ⟨_, -, -, haccepts, -⟩ := Field.firstAccepting_eq_some_iff.1 hfirst
          have hfield : Foretells tlv.offset (field.acceptsWithin defs tlv.tag depth)
              (decodeField defs depth (own.getD policy) index field tlv) :=
            decodeField_foretold hheader (ih _ _) index
          rw [haccepts] at hfield
          exact hfield.map
    | any => exact any_foretold (depth + 1)

/-- For every element that can be read, the answer whether its tag is accepted tells whether
decoding fails for that tag. It is so for values and for fields, whatever the policy and the mode
of the field's tag. If no type leads to itself by way of untagged alternatives alone, there always
is an answer. -/
theorem accepting_foretells_decoding (defs : Definitions) (value : Value) (policy : Policy)
    {rules : Rules} {tlv : Tlv} (h : tlv.Legible rules) :
    Foretells tlv.offset (value.accepts? defs tlv.tag)
        (decodeFrom defs defs.choiceLimit policy value (.element tlv)) ∧
      (∀ index field, Foretells tlv.offset (field.accepts? defs tlv.tag)
        (decodeField defs defs.choiceLimit policy index field tlv)) ∧
      (defs.ChoicesEnd →
        Decides tlv.offset (value.accepts? defs tlv.tag)
          (decodeFrom defs defs.choiceLimit policy value (.element tlv)) ∧
        ∀ index field, Decides tlv.offset (field.accepts? defs tlv.tag)
          (decodeField defs defs.choiceLimit policy index field tlv)) := by
  have hheader : 0 < tlv.header.length := by
    have := (Tlv.read_length h).1
    omega
  have hvalue (value : Value) : Foretells tlv.offset (value.accepts? defs tlv.tag)
      (decodeFrom defs defs.choiceLimit policy value (.element tlv)) :=
    decodeFrom_foretold hheader _ policy value
  have hfield (index : Nat) (field : Field) : Foretells tlv.offset (field.accepts? defs tlv.tag)
      (decodeField defs defs.choiceLimit policy index field tlv) :=
    decodeField_foretold hheader (hvalue _) index
  refine ⟨hvalue value, hfield, ?_⟩
  intro hends
  refine ⟨(hvalue value).decides (hends.value_answers value tlv.tag), ?_⟩
  intro index field
  exact (hfield index field).decides (hends.field_answers field tlv.tag)

/-- A CHOICE whose alternative is another CHOICE, and a tag that neither has. -/
theorem unknown_tag_refused_as_foretold :
    (Definitions.mk [("inner", .choice [⟨"number", none, none, false, "number"⟩] none none),
        ("number", .leaf (.integer 0))]).ChoicesEnd ∧
      ∃ error, decodeFrom ⟨[("inner", .choice [⟨"number", none, none, false, "number"⟩] none none),
          ("number", .leaf (.integer 0))]⟩ 3 .der
        (.choice [⟨"inner", none, none, false, "inner"⟩, ⟨"text", some 0, none, false, "text"⟩]
          none none) (.element ⟨⟨.context, false, 1⟩, 0, [0x81, 0x00], []⟩) = .error error ∧
        error.RefusesTagAt 0 := by
  have hlegible : Tlv.Legible .distinguished ⟨⟨.context, false, 1⟩, 0, [0x81, 0x00], []⟩ := by
    cbv
  have hends : (Definitions.mk
      [("inner", .choice [⟨"number", none, none, false, "number"⟩] none none),
        ("number", .leaf (.integer 0))]).ChoicesEnd := by
    apply Definitions.ChoicesEnd.of_rank fun name => if name = "inner" then 1 else 0
    decide
  have hdecides := ((accepting_foretells_decoding
    ⟨[("inner", .choice [⟨"number", none, none, false, "number"⟩] none none),
      ("number", .leaf (.integer 0))]⟩
    (.choice [⟨"inner", none, none, false, "inner"⟩, ⟨"text", some 0, none, false, "text"⟩]
      none none) .der hlegible).2.2 hends).1
  exact ⟨hends, hdecides.refused_iff.1 (by decide)⟩

end Value

end Asn1
