import Asn1.Proofs.Value.ChoiceLimit
import Asn1.Proofs.Value.Failures
import Asn1.Proofs.Value.Nesting
import Asn1.Proofs.Value.Unfolding

/-!
Where decoding comes to an end. Whether a CHOICE accepts a tag may be up to another CHOICE, and so
on. If no type leads back to itself in this way, each such question has an answer, decoding never
stops for want of one, and its results do not depend on how many CHOICEs may follow each other.
Other types may lead back to themselves as they like: octets run out.
-/

namespace Asn1

theorem Field.exists_of_firstAccepting_eq_none {accepts : Field → Option Bool} {start : Nat}
    {fields : List Field} (h : firstAccepting accepts start fields = none) :
    ∃ field ∈ fields, accepts field = none := by
  induction fields generalizing start with
  | nil => cases h
  | cons first rest ih =>
    rw [firstAccepting] at h
    split at h
    · rename_i hfirst
      exact ⟨first, List.mem_cons_self, hfirst⟩
    · cases h
    · obtain ⟨field, hfield, hasked⟩ := ih h
      exact ⟨field, List.mem_cons_of_mem _ hfield, hasked⟩

/-- The types that a CHOICE asks about a tag, those of its untagged alternatives. -/
def Value.untaggedTypes : Value → List String
  | .choice alternatives _ _ =>
    (alternatives.filter fun field => field.number.isNone).map (·.type)
  | _ => []

theorem Value.mem_untaggedTypes {alternatives : List Field} {selection : Option (Selection Value)}
    {own : Option Policy} {field : Field} (hfield : field ∈ alternatives)
    (hnumber : field.number = none) :
    field.type ∈ (Value.choice alternatives selection own).untaggedTypes := by
  refine List.mem_map_of_mem (List.mem_filter.2 ⟨hfield, ?_⟩)
  rw [hnumber]
  rfl

namespace Definitions

variable {defs : Definitions}

/-- The one type is a CHOICE with an untagged alternative of the other. -/
def Offers (defs : Definitions) (name other : String) : Prop :=
  other ∈ (defs.template name).untaggedTypes

/-- No type leads to itself by way of untagged alternatives alone. -/
def ChoicesEnd (defs : Definitions) : Prop :=
  ∀ name, ¬ Relation.TransGen defs.Offers name name

/-- It is enough to number the types so that the numbers fall. -/
theorem ChoicesEnd.of_rank (rank : String → Nat)
    (h : ∀ entry ∈ defs.entries, ∀ other ∈ entry.2.untaggedTypes, rank other < rank entry.1) :
    defs.ChoicesEnd := by
  have hfalls : ∀ name other, defs.Offers name other → rank other < rank name := by
    intro name other hoffers
    rw [Offers, template] at hoffers
    cases hlookup : defs.entries.lookup name with
    | none =>
      rw [hlookup] at hoffers
      cases hoffers
    | some value =>
      obtain ⟨before, after, hentries, -⟩ := List.lookup_eq_some_iff.1 hlookup
      rw [hlookup] at hoffers
      exact h (name, value) (by simp [hentries]) other hoffers
  have hfar : ∀ name other, Relation.TransGen defs.Offers name other →
      rank other < rank name := by
    intro name other hpath
    induction hpath with
    | single hoffers => exact hfalls _ _ hoffers
    | tail _ hoffers ih => exact Nat.lt_trans (hfalls _ _ hoffers) ih
  intro name hround
  exact Nat.lt_irrefl _ (hfar name name hround)

/-- A question without an answer has been handed on from one named CHOICE to the next as often as
that was allowed. -/
theorem exists_offers {tag : Tag} {depth : Nat} {value : Value}
    (h : value.acceptsWithin defs tag depth = none) :
    ∃ names : List String, names.length = depth ∧
      (∀ name ∈ names.head?, name ∈ value.untaggedTypes) ∧ names.IsChain defs.Offers ∧
      ∀ name ∈ names, name ∈ defs.entries.map Prod.fst := by
  induction depth generalizing value with
  | zero => exact ⟨[], rfl, nofun, .nil, nofun⟩
  | succ depth ih =>
    cases value with
    | choice alternatives selection own =>
      rw [Value.acceptsWithin_choice, Option.map_eq_none_iff] at h
      obtain ⟨field, hfield, hasked⟩ := Field.exists_of_firstAccepting_eq_none h
      rw [Field.acceptsWithin, Field.acceptsBy] at hasked
      cases hnumber : field.number with
      | some => simp [hnumber] at hasked
      | none =>
        simp only [hnumber] at hasked
        obtain ⟨names, hlength, hhead, hchain, hnames⟩ := ih hasked
        have htype : field.type ∈ defs.entries.map Prod.fst := by
          by_contra hmissing
          rw [template_of_notMem hmissing] at hasked
          rw [Value.acceptsWithin] at hasked
          cases hasked
        refine ⟨field.type :: names, congrArg (· + 1) hlength, ?_,
          List.isChain_cons.2 ⟨hhead, hchain⟩, List.forall_mem_cons.2 ⟨htype, hnames⟩⟩
        rintro _ ⟨⟩
        exact Value.mem_untaggedTypes hfield hnumber
    | leaf | record | elements | tagged | any =>
      rw [Value.acceptsWithin] at h
      cases h

namespace ChoicesEnd

variable (h : defs.ChoicesEnd)
include h

theorem value_answers (value : Value) (tag : Tag) : value.accepts? defs tag ≠ none := by
  intro hnone
  obtain ⟨names, hlength, -, hchain, hnames⟩ := exists_offers hnone
  cases names with
  | nil => cases hlength
  | cons first rest =>
    obtain ⟨name, -, hround⟩ := exists_round hchain hnames (by
      rw [List.length_cons, choiceLimit] at hlength
      rw [List.length_map]
      omega)
    exact h name hround

theorem field_answers (field : Field) (tag : Tag) : field.accepts? defs tag ≠ none := by
  rw [Field.accepts?, Field.acceptsWithin, Field.acceptsBy]
  cases field.number with
  | none => exact h.value_answers _ tag
  | some number => exact Option.some_ne_none _

end ChoicesEnd

end Definitions

namespace Error

/-- The error is another than that a type unfolds without end. -/
def Answered (error : Error) : Prop := error.rootCause ≠ .endlessType

section Answered

@[simp] theorem answered_malformed (offset : Nat) (cause : Malformation) :
    (Error.malformed offset cause).Answered := by simp [Answered, rootCause]

@[simp] theorem answered_missingField (index : Nat) (name : String) :
    (Error.missingField index name).Answered := by simp [Answered, rootCause]

@[simp] theorem answered_unknownAlternative (offset : Nat) (tag : Tag) :
    (Error.unknownAlternative offset tag).Answered := by simp [Answered, rootCause]

@[simp] theorem answered_trailing (offset remaining : Nat) :
    (Error.trailing offset remaining).Answered := by simp [Answered, rootCause]

@[simp] theorem answered_inField {index : Nat} {name : String} {source : Error} :
    (Error.inField index name source).Answered ↔ source.Answered := Iff.rfl

theorem Placed.answered {error : Error} (h : error.Placed) : error.Answered := by
  intro hroot
  cases error with
  | endlessType | inField => exact h rfl
  | malformed | unexpectedTag | missingField | unknownAlternative | trailing | unencodable |
    noSuchField | typeMismatch | violated => cases hroot

end Answered

end Error

section Reading

theorem FailsWith.answered {α : Type} {result : Except Error α}
    (h : FailsWith Error.Placed result) : FailsWith Error.Answered result :=
  h.imp fun _ => Error.Placed.answered

/-- The break, if there is one, is not for a type. -/
def Tlv.Stream.Answered : Tlv.Stream → Prop
  | .done => True
  | .broken error => error.Answered
  | .next _ rest => rest.Answered

theorem Tlv.stream_answered (rules : Rules) (offset : Nat) (octets : Octets) :
    (stream rules offset octets).Answered := by
  fun_induction stream rules offset octets with
  | case1 => trivial
  | case2 _ _ _ _ herror => exact (read_placed _ _ _ _ herror).answered
  | case3 _ _ _ _ _ _ ih => exact ih

theorem Field.unsetAll_answered (index : Nat) (fields : List Field) :
    FailsWith Error.Answered (unsetAll index fields) := by
  induction fields generalizing index with
  | nil => exact .ok
  | cons field rest ih =>
    rw [unsetAll]
    split
    · split
      · rename_i herror
        exact FailsWith.error_iff.2 (ih _ _ herror)
      · exact .ok
    · simp

end Reading

namespace Value

variable {defs : Definitions}

/-- If there is an element, the value has an answer about its tag. -/
def AnswersWithin (defs : Definitions) (depth : Nat) (value : Value) (source : Source) : Prop :=
  ∀ tlv, source = .element tlv → value.acceptsWithin defs tlv.tag depth ≠ none

theorem answersWithin_below {depth : Nat} {value : Value} {content : Content} :
    value.AnswersWithin defs depth (.below content) := by
  rintro _ ⟨⟩

theorem answersWithin_element {depth : Nat} {value : Value} {tlv : Tlv} :
    value.AnswersWithin defs depth (.element tlv) ↔
      value.acceptsWithin defs tlv.tag depth ≠ none := by
  constructor
  · intro h
    exact h tlv rfl
  · rintro h _ ⟨⟩
    exact h

theorem route_answered {depth : Nat} {alternatives : List Field} {tlv : Tlv}
    (h : Field.firstAccepting (Field.acceptsWithin defs tlv.tag depth) 0 alternatives ≠ none) :
    FailsWith Error.Answered (route defs depth alternatives tlv) := by
  rw [route]
  split
  · contradiction
  · simp
  · exact .ok

theorem accepts_of_route {depth index : Nat} {alternatives : List Field} {tlv : Tlv} {field : Field}
    (h : route defs depth alternatives tlv = .ok (index, field)) :
    field.acceptsWithin defs tlv.tag depth = some true := by
  rw [route] at h
  split at h
  · cases h
  · cases h
  · rename_i hfirst
    cases h
    obtain ⟨_, -, -, haccepts, -⟩ := Field.firstAccepting_eq_some_iff.1 hfirst
    exact haccepts

/-- If each question is answered that decoding begins with, all on the way are. -/
theorem answers (hends : defs.ChoicesEnd) : Stepwise defs
    (fun depth policy value source => value.AnswersWithin defs depth source →
      FailsWith Error.Answered (decodeFrom defs depth policy value source))
    (fun policy tagging inner source =>
      FailsWith Error.Answered (decodeUnder defs policy tagging inner source))
    (fun depth policy field tlv => field.acceptsWithin defs tlv.tag depth ≠ none → ∀ index,
      FailsWith Error.Answered (decodeField defs depth policy index field tlv))
    (fun policy fields stream => stream.Answered → ∀ endOffset index,
      FailsWith Error.Answered (decodeSlots defs policy endOffset index fields stream))
    (fun policy type stream => stream.Answered → ∀ index,
      FailsWith Error.Answered (decodeItems defs policy type index stream)) where
  leaf depth policy primitive source _ := by
    rw [decodeFrom_leaf_eq]
    refine (source.contentAs_placed _ _ _).answered.bind fun content _ => ?_
    exact (FailsWith.of_mapError fun cause => Error.answered_malformed _ cause).map
  record {_ _ grouping slots own source} hslots _ := by
    rw [decodeFrom_record_eq]
    refine (source.contentAs_placed _ _ _).answered.bind fun content hcontent => ?_
    have hunder := Source.contentUnder_of_contentAs hcontent
    exact (hslots content hunder (Tlv.stream_answered _ _ _) _ _).map
  elements {_ _ grouping type items own source} hitems _ := by
    rw [decodeFrom_elements_eq]
    refine (source.contentAs_placed _ _ _).answered.bind fun content hcontent => ?_
    have hunder := Source.contentUnder_of_contentAs hcontent
    exact (hitems content hunder (Tlv.stream_answered _ _ _) _).map
  notChosen {depth _ _ _ _ source} hnone hanswers := by
    cases source with
    | below content =>
      rw [decodeFrom_choice_below]
      simp
    | element tlv =>
      rcases hnone with rfl | ⟨_, hbelow⟩
      · exact absurd rfl (answersWithin_element.1 hanswers)
      · cases hbelow
  choice {depth _ alternatives _ _ tlv} hfield hanswers := by
    rw [answersWithin_element, acceptsWithin_choice, ne_eq, Option.map_eq_none_iff] at hanswers
    rw [decodeFrom_choice_eq]
    refine (route_answered hanswers).bind ?_
    rintro ⟨index, field⟩ hroute
    exact (hfield field (by simp [accepts_of_route hroute]) index).map
  tagged {_ _ tagging inner own source} hinner _ := by
    rw [decodeFrom_tagged_eq]
    exact hinner.map
  any depth policy raw source _ := by
    cases source <;> (rw [decodeFrom]; simp)
  under {policy tagging inner source} hexplicit himplicit := by
    rw [decodeUnder_eq]
    refine (source.contentUnder_placed _).answered.bind fun content hcontent => ?_
    cases hmode : tagging.modeFor inner with
    | explicit =>
      refine (content.wrapped_placed _ _).answered.bind ?_
      rintro ⟨tlv, rest⟩ hwrapped
      refine FailsWith.bind ?_ fun value _ => ?_
      · exact hexplicit content tlv rest hcontent hmode hwrapped
          (answersWithin_element.2 (hends.value_answers inner tlv.tag))
      · split <;> simp
    | implicit => exact himplicit content hcontent hmode answersWithin_below
  field {depth policy field tlv} huntagged htagged hanswers index := by
    rw [decodeField_eq]
    cases htagging : field.tagging policy with
    | none =>
      rw [Field.acceptsWithin, Field.acceptsBy, Option.map_eq_none_iff.1 htagging] at hanswers
      exact (huntagged (answersWithin_element.2 hanswers)).mapError
        fun _ => Error.answered_inField.2
    | some tagging => exact (htagged tagging).mapError fun _ => Error.answered_inField.2
  slotsDone policy fields _ endOffset index := by
    rw [decodeSlots]
    exact Field.unsetAll_answered index fields
  slotsBroken policy fields error hstream endOffset index := by
    rw [decodeSlots, FailsWith.error_iff]
    exact hstream
  slotsBeyond policy tlv rest _ endOffset index := by
    rw [decodeSlots]
    split <;> simp
  slotsNext {policy field fields tlv rest} hvalue hfilled hskipped hstream endOffset index := by
    have hanswers := hends.field_answers field tlv.tag
    rw [decodeSlots_next_eq]
    split
    · contradiction
    · exact (hvalue hanswers index).bind fun value _ => (hfilled hstream _ _).map
    · split
      · exact (hskipped hstream _ _).map
      · simp
  itemsDone policy type _ index := by
    rw [decodeItems]
    exact .ok
  itemsBroken policy type error hstream index := by
    rw [decodeItems, FailsWith.error_iff]
    exact hstream
  itemsNext {policy type tlv rest} hitem hrest hstream index := by
    have hanswers := answersWithin_element.2 (hends.value_answers (defs.template type) tlv.tag)
    rw [decodeItems_next_eq]
    refine FailsWith.bind ?_ fun item _ => (hrest hstream _).map
    exact (hitem hanswers).mapError fun _ => Error.answered_inField.2

/-- A root fails where nothing can be read, where what is read fails, or for what is left. -/
theorem root_answered (policy : Policy) (octets : Octets) {decoded : Tlv → Except Error Value}
    (h : ∀ tlv, FailsWith Error.Answered (decoded tlv)) :
    FailsWith Error.Answered (decodeRoot policy octets decoded) := by
  refine (Tlv.read_placed _ _ _).answered.bind ?_
  rintro ⟨tlv, rest⟩ -
  exact (h tlv).bind fun value _ => (atEnd_placed policy tlv rest value).answered

theorem decode_answered (hends : defs.ChoicesEnd) (value : Value) (octets : Octets)
    (policy : Policy) : FailsWith Error.Answered (decode defs value octets policy) := by
  rw [decode_eq]
  exact root_answered _ octets fun tlv => (answers hends).ofValue _ _ _ (.element tlv)
    (answersWithin_element.2 (hends.value_answers _ _))

theorem taggedDecode_answered (hends : defs.ChoicesEnd) (value : Value) (tagging : Tagging)
    (octets : Octets) (policy : Policy) :
    FailsWith Error.Answered (taggedDecode defs value tagging octets policy) := by
  rw [taggedDecode_eq]
  exact root_answered _ octets fun tlv => (answers hends).ofUnder _ _ _ _

/-- If no type leads to itself by way of untagged alternatives alone, decoding ends, whatever the
octets, the policy and the re-tag: each question about a tag has an answer, and how many CHOICEs
may follow each other is not seen. Composites are nested in the result no deeper than half the
number of octets allows, since whatever is inside a composite is decoded from at least two octets
fewer. -/
theorem decoding_ends (hends : defs.ChoicesEnd) (value : Value) :
    (∀ field tag, Field.accepts? field defs tag ≠ none) ∧
      (∀ octets policy error,
        (decode defs value octets policy = .error error ∨
          ∃ tagging, taggedDecode defs value tagging octets policy = .error error) →
        error.rootCause ≠ .endlessType) ∧
      (∀ other : Definitions, other.template = defs.template → ∀ octets policy,
        decode other value octets policy = decode defs value octets policy ∧
          ∀ tagging, taggedDecode other value tagging octets policy =
            taggedDecode defs value tagging octets policy) ∧
      (∀ octets policy result,
        (decode defs value octets policy = .ok result ∨
          ∃ tagging, taggedDecode defs value tagging octets policy = .ok result) →
        2 * result.nesting ≤ octets.length) ∧
      ∀ depth policy composite source path last,
        (Call.decoding defs depth policy composite source).Reaches path last →
        composite.isComposite = true → path ≠ [] →
        last.octets.length + 2 ≤ source.content.length := by
  refine ⟨hends.field_answers, ?_, ?_, ?_, ?_⟩
  · intro octets policy error hfails
    rcases hfails with hdecode | ⟨tagging, htagged⟩
    · exact decode_answered hends value octets policy error hdecode
    · exact taggedDecode_answered hends value tagging octets policy error htagged
  · intro other htemplate octets policy
    exact ⟨decode_of_template htemplate value octets policy,
      fun tagging => taggedDecode_of_template htemplate value tagging octets policy⟩
  · intro octets policy result hresult
    rcases hresult with hdecode | ⟨tagging, htagged⟩
    · exact nesting_le_of_decode hdecode
    · exact nesting_le_of_taggedDecode htagged
  · intro depth policy composite source path last hreaches
    exact hreaches.length_le_of_composite

/-- A node is a CHOICE of nothing but a SEQUENCE OF nodes, so the two types lead to each other. An
empty SEQUENCE in a SEQUENCE is as deep as four octets go. -/
theorem nodes_decoded_to_their_end :
    (Definitions.mk [("node", .choice [⟨"below", none, none, false, "nodes"⟩] none none),
      ("nodes", .elements .sequence "node" [] none)]).ChoicesEnd ∧
      decode ⟨[("node", .choice [⟨"below", none, none, false, "nodes"⟩] none none),
          ("nodes", .elements .sequence "node" [] none)]⟩ (.elements .sequence "node" [] none)
          [0x30, 0x02, 0x30, 0x00] .der =
        .ok (.elements .sequence "node" [.choice [⟨"below", none, none, false, "nodes"⟩]
          (some ⟨0, .elements .sequence "node" [] none⟩) none] none) ∧
      2 * nesting (.elements .sequence "node" [.choice [⟨"below", none, none, false, "nodes"⟩]
        (some ⟨0, .elements .sequence "node" [] none⟩) none] none) ≤ 4 := by
  have hends : (Definitions.mk
      [("node", .choice [⟨"below", none, none, false, "nodes"⟩] none none),
        ("nodes", .elements .sequence "node" [] none)]).ChoicesEnd := by
    apply Definitions.ChoicesEnd.of_rank fun name => if name = "node" then 1 else 0
    decide
  have hdecode : decode ⟨[("node", .choice [⟨"below", none, none, false, "nodes"⟩] none none),
        ("nodes", .elements .sequence "node" [] none)]⟩ (.elements .sequence "node" [] none)
        [0x30, 0x02, 0x30, 0x00] .der =
      .ok (.elements .sequence "node" [.choice [⟨"below", none, none, false, "nodes"⟩]
        (some ⟨0, .elements .sequence "node" [] none⟩) none] none) := by
    refine decode_eq_ok_iff.2 ⟨_, _, rfl, .elements rfl rfl ?_, fun _ => rfl⟩
    rw [Tlv.stream_of_last rfl]
    refine .next (.choice rfl (.untagged rfl (.elements rfl rfl ?_))) .done
    show DecodesItems _ _ _ (Tlv.stream .distinguished 4 []) _
    rw [Tlv.stream_nil]
    exact .done
  exact ⟨hends, hdecode, (decoding_ends hends _).2.2.2.1 _ _ _ (.inl hdecode)⟩

/-- Where an untagged alternative leads back to its own CHOICE, its tags are not known. -/
example : Value.accepts? (.choice [⟨"again", none, none, false, "again"⟩] none none)
    ⟨[("again", .choice [⟨"again", none, none, false, "again"⟩] none none)]⟩ .null = none := by
  decide

end Value

end Asn1
