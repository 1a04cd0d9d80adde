import Asn1.Proofs.Value.Accepts
import Asn1.Proofs.Value.Overrides
import Asn1.Value.Comparison
import Mathlib.Data.List.Forall2
import Mathlib.Data.List.Zip

/-!
When two types can be used for each other. The comparison of two SEQUENCEs, SETs or CHOICEs
does not look at the types of their fields, so it has to be made of those as well, and of
what they are made of. Such types look alike from outside, all the way down.
-/

namespace Asn1

namespace Primitive

/-- Primitives of one type start from the same content. -/
theorem cleared_of_sameType {a b : Primitive} (h : a.sameType b = true) :
    a.cleared = b.cleared := by
  have htag : a.tag = b.tag := by
    unfold sameType at h
    exact beq_iff_eq.1 h
  cases a with
  | characterString string =>
    obtain ⟨kind, text⟩ := string
    cases b with
    | characterString string' =>
      obtain ⟨kind', text'⟩ := string'
      cases kind <;> cases kind' <;> first | rfl | cases htag
    | _ => cases kind <;> cases htag
  | _ =>
    cases b with
    | characterString string' =>
      obtain ⟨kind', text'⟩ := string'
      cases kind' <;> cases htag
    | _ => first | rfl | cases htag

end Primitive

namespace Field

theorem sameShape_iff {a b : Field} :
    a.sameShape b = true ↔
      a.name = b.name ∧ a.number = b.number ∧ a.mode = b.mode ∧ a.optional = b.optional := by
  simp [sameShape, and_assoc]

theorem tagging_of_sameShape {a b : Field} (h : a.sameShape b = true) (policy : Policy) :
    a.tagging policy = b.tagging policy := by
  obtain ⟨-, hnumber, hmode, -⟩ := sameShape_iff.1 h
  rw [tagging, tagging, hnumber, hmode]

theorem acceptsWithin_of_sameShape {defs : Definitions} {a b : Field} {tag : Tag} {depth : Nat}
    (h : a.sameShape b = true)
    (htypes : (defs.template a.type).acceptsWithin defs tag depth =
      (defs.template b.type).acceptsWithin defs tag depth) :
    a.acceptsWithin defs tag depth = b.acceptsWithin defs tag depth := by
  obtain ⟨-, hnumber, -⟩ := sameShape_iff.1 h
  rw [acceptsWithin, acceptsWithin, acceptsBy, acceptsBy, hnumber, htypes]

theorem sameShapes_iff {a b : List Field} :
    sameShapes a b = true ↔ List.Forall₂ (fun a b => a.sameShape b = true) a b := by
  rw [List.forall₂_iff_zip, sameShapes, Bool.and_eq_true, beq_iff_eq, List.all_eq_true]
  refine and_congr_right fun _ => ?_
  constructor
  · intro h a b hmem
    exact h (a, b) hmem
  · rintro h ⟨a, b⟩ hmem
    exact h hmem

/-- What fields are compared by. -/
def shape (field : Field) : String × Option UInt32 × Option TaggingMode × Bool :=
  (field.name, field.number, field.mode, field.optional)

theorem sameShapes_iff_map {a b : List Field} :
    sameShapes a b = true ↔ a.map shape = b.map shape := by
  have hshape (a b : Field) : a.sameShape b = true ↔ a.shape = b.shape := by
    rw [sameShape_iff, shape, shape]
    simp only [Prod.mk.injEq]
  simp only [sameShapes_iff, hshape]
  rw [← List.forall₂_eq_eq_eq, List.forall₂_map_left_iff, List.forall₂_map_right_iff]

theorem sameShapes_comm (a b : List Field) : sameShapes a b = sameShapes b a := by
  rw [Bool.eq_iff_iff, sameShapes_iff_map, sameShapes_iff_map, eq_comm]

/-- A table need not be looked through to be found the same as itself. -/
theorem sameShapes_self (fields : List Field) : sameShapes fields fields = true :=
  sameShapes_iff_map.2 rfl

theorem sameShapes_trans {a b c : List Field} (hab : sameShapes a b = true)
    (hbc : sameShapes b c = true) : sameShapes a c = true := by
  rw [sameShapes_iff_map] at hab hbc ⊢
  exact hab.trans hbc

/-- Searches that get the same answers end at the same place. -/
theorem firstAccepting_congr {R : Field → Field → Prop} {accepts : Field → Option Bool}
    {fields fields' : List Field} (h : List.Forall₂ R fields fields')
    (haccepts : ∀ field field', R field field' → accepts field = accepts field') (start : Nat) :
    (firstAccepting accepts start fields = none ∧ firstAccepting accepts start fields' = none) ∨
      (firstAccepting accepts start fields = some none ∧
        firstAccepting accepts start fields' = some none) ∨
      ∃ index field field', firstAccepting accepts start fields = some (some (index, field)) ∧
        firstAccepting accepts start fields' = some (some (index, field')) ∧ R field field' := by
  induction h generalizing start with
  | nil => exact .inr (.inl ⟨rfl, rfl⟩)
  | @cons field field' rest rest' hfield _ ih =>
    have hanswer := haccepts field field' hfield
    rw [firstAccepting, firstAccepting, ← hanswer]
    cases accepts field with
    | none => exact .inl ⟨rfl, rfl⟩
    | some answer =>
      cases answer with
      | true => exact .inr (.inr ⟨start, field, field', rfl, rfl, hfield⟩)
      | false => exact ih (start + 1)

theorem found_of_congr {R : Field → Field → Prop} {accepts : Field → Option Bool}
    {fields fields' : List Field} (h : List.Forall₂ R fields fields')
    (haccepts : ∀ field field', R field field' → accepts field = accepts field')
    {start index : Nat} {field : Field}
    (hfound : firstAccepting accepts start fields = some (some (index, field))) :
    ∃ field', firstAccepting accepts start fields' = some (some (index, field')) ∧
      R field field' := by
  rcases firstAccepting_congr h haccepts start with
    ⟨hnone, -⟩ | ⟨hnone, -⟩ | ⟨_, _, field', hsome, hsome', hsame⟩
  · rw [hnone] at hfound
    cases hfound
  · rw [hnone] at hfound
    cases hfound
  · rw [hsome] at hfound
    cases hfound
    exact ⟨field', hsome', hsame⟩

end Field

namespace Value

variable {defs : Definitions}

theorem sameTypeWithin_comm (unfoldings : Nat) (a b : Value) :
    sameTypeWithin defs unfoldings a b = sameTypeWithin defs unfoldings b a := by
  fun_induction sameTypeWithin defs unfoldings a b with
  | case1 unfoldings a b =>
    rw [sameTypeWithin, Primitive.sameType, Primitive.sameType, BEq.comm]
  | case2 unfoldings grouping slots own grouping' slots' own' =>
    rw [sameTypeWithin, BEq.comm, Field.sameShapes_comm]
  | case3 | case9 => simp [sameTypeWithin]
  | case4 _ _ _ _ _ _ _ _ ih =>
    rw [sameTypeWithin, if_pos rfl]
    exact ih
  | case5 unfoldings _ _ _ _ _ _ _ _ hne =>
    cases unfoldings <;> simp [sameTypeWithin, Ne.symm hne]
  | case8 _ _ _ _ _ _ _ hne => simp [sameTypeWithin, Ne.symm hne]
  | case6 => rw [sameTypeWithin, Field.sameShapes_comm]
  | case7 _ _ _ _ _ _ ih =>
    rw [sameTypeWithin, if_pos rfl]
    exact ih
  | case10 _ a b hleaf hrecord helements hchoice htagged hany =>
    cases a <;> cases b <;> first
      | exact (hleaf _ _ rfl rfl).elim
      | exact (hrecord _ _ _ _ _ _ rfl rfl).elim
      | exact (helements _ _ _ _ _ _ _ _ rfl rfl).elim
      | exact (hchoice _ _ _ _ _ _ rfl rfl).elim
      | exact (htagged _ _ _ _ _ _ rfl rfl).elim
      | exact (hany _ _ rfl rfl).elim
      | simp [sameTypeWithin]

theorem sameType?_comm (a b : Value) : sameType? defs a b = sameType? defs b a :=
  sameTypeWithin_comm (unfoldingLimit defs) a b

/-- The two have the same type, by a finite comparison. Of a SEQUENCE, SET or CHOICE it only
looks at the table of fields. -/
inductive SameType (defs : Definitions) : Value → Value → Prop where
  | leaf {a b : Primitive} (h : a.sameType b = true) : SameType defs (.leaf a) (.leaf b)
  | record {grouping : Grouping} {slots slots' : List (Slot Value)} {own own' : Option Policy}
      (h : Field.sameShapes (fields slots) (fields slots') = true) :
      SameType defs (.record grouping slots own) (.record grouping slots' own')
  | elements {grouping : Grouping} {type type' : String} {items items' : List Value}
      {own own' : Option Policy} (h : SameType defs (defs.template type) (defs.template type')) :
      SameType defs (.elements grouping type items own) (.elements grouping type' items' own')
  | choice {alternatives alternatives' : List Field}
      {selection selection' : Option (Selection Value)} {own own' : Option Policy}
      (h : Field.sameShapes alternatives alternatives' = true) :
      SameType defs (.choice alternatives selection own) (.choice alternatives' selection' own')
  | tagged {tagging : Tagging} {a b : Value} {own own' : Option Policy} (h : SameType defs a b) :
      SameType defs (.tagged tagging a own) (.tagged tagging b own')
  | any {raw raw' : Octets} : SameType defs (.any raw) (.any raw')

theorem SameType.of_sameTypeWithin {unfoldings : Nat} {a b : Value}
    (h : sameTypeWithin defs unfoldings a b = some true) : SameType defs a b := by
  fun_induction sameTypeWithin defs unfoldings a b with
  | case1 => exact .leaf (Option.some.inj h)
  | case2 =>
    rw [Option.some.injEq, Bool.and_eq_true, beq_iff_eq] at h
    obtain ⟨rfl, hshapes⟩ := h
    exact .record hshapes
  | case3 => cases h
  | case4 _ _ _ _ _ _ _ _ ih => exact .elements (ih h)
  | case5 => cases h
  | case6 => exact .choice (Option.some.inj h)
  | case7 _ _ _ _ _ _ ih => exact .tagged (ih h)
  | case8 => cases h
  | case9 => exact .any
  | case10 => cases h

/-- The types that are to be compared once two types have been, place by place. -/
inductive Corresponds (defs : Definitions) : Value × Value → Value × Value → Prop where
  | field {grouping grouping' : Grouping} {slots slots' : List (Slot Value)}
      {own own' : Option Policy} {a b : Field} (h : (a, b) ∈ (fields slots).zip (fields slots')) :
      Corresponds defs (.record grouping slots own, .record grouping' slots' own')
        (defs.template a.type, defs.template b.type)
  | item {grouping grouping' : Grouping} {type type' : String} {items items' : List Value}
      {own own' : Option Policy} :
      Corresponds defs (.elements grouping type items own, .elements grouping' type' items' own')
        (defs.template type, defs.template type')
  | alternative {alternatives alternatives' : List Field}
      {selection selection' : Option (Selection Value)} {own own' : Option Policy} {a b : Field}
      (h : (a, b) ∈ alternatives.zip alternatives') :
      Corresponds defs (.choice alternatives selection own, .choice alternatives' selection' own')
        (defs.template a.type, defs.template b.type)
  | inner {tagging tagging' : Tagging} {a b : Value} {own own' : Option Policy} :
      Corresponds defs (.tagged tagging a own, .tagged tagging' b own') (a, b)

theorem Corresponds.swap {pair next : Value × Value} (h : Corresponds defs pair next) :
    Corresponds defs pair.swap next.swap := by
  have hzip {fields fields' : List Field} {a b : Field} (hmem : (a, b) ∈ fields.zip fields') :
      (b, a) ∈ fields'.zip fields := by
    rw [← List.zip_swap, List.mem_map]
    exact ⟨(a, b), hmem, rfl⟩
  cases h with
  | field hmem => exact .field (hzip hmem)
  | item => exact .item
  | alternative hmem => exact .alternative (hzip hmem)
  | inner => exact .inner

theorem Corresponds.mentions {pair next : Value × Value} (h : Corresponds defs pair next) :
    Mentions defs pair.1 next.1 ∧ Mentions defs pair.2 next.2 := by
  cases h with
  | field hmem =>
    obtain ⟨hfield, hfield'⟩ := List.of_mem_zip hmem
    exact ⟨.field hfield, .field hfield'⟩
  | item => exact ⟨.item, .item⟩
  | alternative hmem =>
    obtain ⟨hfield, hfield'⟩ := List.of_mem_zip hmem
    exact ⟨.alternative hfield, .alternative hfield'⟩
  | inner => exact ⟨.inner, .inner⟩

/-- The comparison says yes wherever the two types lead. -/
def SameThroughout (defs : Definitions) (a b : Value) : Prop :=
  ∀ pair, Relation.ReflTransGen (Corresponds defs) (a, b) pair →
    sameType? defs pair.1 pair.2 = some true

theorem SameThroughout.intro {a b : Value} (hself : sameType? defs a b = some true)
    (h : ∀ c d, Corresponds defs (a, b) (c, d) → SameThroughout defs c d) :
    SameThroughout defs a b := by
  intro pair hpair
  rcases hpair.cases_head with rfl | ⟨⟨c, d⟩, hcorresponds, hpair⟩
  · exact hself
  · exact h c d hcorresponds pair hpair

/-- The types are the same throughout and nothing in them overrides the policy. -/
structure Interchangeable (defs : Definitions) (a b : Value) : Prop where
  same : SameThroughout defs a b
  left : a.WithoutOverrides defs
  right : b.WithoutOverrides defs

end Value

/-- Fields that look alike and whose types can be used for each other. -/
structure Field.Interchangeable (defs : Definitions) (a b : Field) : Prop where
  shape : a.sameShape b = true
  types : Value.Interchangeable defs (defs.template a.type) (defs.template b.type)

namespace Value

/-- How two such types look from outside. -/
inductive Alike (defs : Definitions) : Value → Value → Prop where
  | leaf {a b : Primitive} (h : a.cleared = b.cleared) : Alike defs (.leaf a) (.leaf b)
  | record {grouping : Grouping} {slots slots' : List (Slot Value)} {own : Option Policy}
      (h : List.Forall₂ (Field.Interchangeable defs) (fields slots) (fields slots')) :
      Alike defs (.record grouping slots own) (.record grouping slots' own)
  | elements {grouping : Grouping} {type type' : String} {items items' : List Value}
      {own : Option Policy}
      (h : Interchangeable defs (defs.template type) (defs.template type')) :
      Alike defs (.elements grouping type items own) (.elements grouping type' items' own)
  | choice {alternatives alternatives' : List Field}
      {selection selection' : Option (Selection Value)} {own : Option Policy}
      (h : List.Forall₂ (Field.Interchangeable defs) alternatives alternatives') :
      Alike defs (.choice alternatives selection own) (.choice alternatives' selection' own)
  | tagged {tagging : Tagging} {a b : Value} {own : Option Policy}
      (h : Interchangeable defs a b) : Alike defs (.tagged tagging a own) (.tagged tagging b own)
  | any (raw raw' : Octets) : Alike defs (.any raw) (.any raw')

namespace Interchangeable

theorem corresponding {a b c d : Value} (h : Interchangeable defs a b)
    (hcorresponds : Corresponds defs (a, b) (c, d)) : Interchangeable defs c d := by
  obtain ⟨hleft, hright⟩ := hcorresponds.mentions
  refine ⟨?_, h.left.mentioned hleft, h.right.mentioned hright⟩
  intro pair hpair
  exact h.same pair (.head hcorresponds hpair)

theorem fields {a b : Value} (h : Interchangeable defs a b) {fields fields' : List Field}
    (hshapes : Field.sameShapes fields fields' = true)
    (hcorresponds : ∀ field field', (field, field') ∈ fields.zip fields' →
      Corresponds defs (a, b) (defs.template field.type, defs.template field'.type)) :
    List.Forall₂ (Field.Interchangeable defs) fields fields' := by
  have hpairs := List.forall₂_iff_zip.1 (Field.sameShapes_iff.1 hshapes)
  refine List.forall₂_iff_zip.2 ⟨hpairs.1, ?_⟩
  intro field field' hmem
  exact ⟨hpairs.2 hmem, h.corresponding (hcorresponds field field' hmem)⟩

theorem alike {a b : Value} (h : Interchangeable defs a b) : Alike defs a b := by
  have hself := SameType.of_sameTypeWithin (h.same (a, b) .refl)
  have hleft := h.left a .refl
  have hright := h.right b .refl
  cases hself with
  | leaf hsame => exact .leaf (Primitive.cleared_of_sameType hsame)
  | record hshapes =>
    cases hleft
    cases hright
    exact .record (h.fields hshapes fun _ _ hmem => .field hmem)
  | elements =>
    cases hleft
    cases hright
    exact .elements (h.corresponding .item)
  | choice hshapes =>
    cases hleft
    cases hright
    exact .choice (h.fields hshapes fun _ _ hmem => .alternative hmem)
  | tagged =>
    cases hleft
    cases hright
    exact .tagged (h.corresponding .inner)
  | any => exact .any _ _

theorem symm {a b : Value} (h : Interchangeable defs a b) : Interchangeable defs b a := by
  refine ⟨?_, h.right, h.left⟩
  have hswap : ∀ pair, Relation.ReflTransGen (Corresponds defs) (b, a) pair →
      Relation.ReflTransGen (Corresponds defs) (a, b) pair.swap := by
    intro pair hpair
    induction hpair with
    | refl => exact .refl
    | tail _ hstep ih => exact ih.tail hstep.swap
  intro pair hpair
  rw [sameType?_comm]
  exact h.same pair.swap (hswap pair hpair)

theorem hasOwnTag_eq {a b : Value} (h : Interchangeable defs a b) :
    a.hasOwnTag = b.hasOwnTag := by
  cases h.alike <;> rfl

theorem acceptsWithin_eq {a b : Value} (h : Interchangeable defs a b) (tag : Tag) (depth : Nat) :
    a.acceptsWithin defs tag depth = b.acceptsWithin defs tag depth := by
  induction depth generalizing a b with
  | zero =>
    cases h.alike with
    | leaf hcleared =>
      rw [acceptsWithin, acceptsWithin, Primitive.tag_of_cleared hcleared]
    | choice => rfl
    | record | elements | tagged | any => rw [acceptsWithin, acceptsWithin]
  | succ depth ih =>
    cases h.alike with
    | leaf hcleared =>
      rw [acceptsWithin, acceptsWithin, Primitive.tag_of_cleared hcleared]
    | record | elements | tagged | any => rw [acceptsWithin, acceptsWithin]
    | choice hfields =>
      have haccepts : ∀ field field', Field.Interchangeable defs field field' →
          field.acceptsWithin defs tag depth = field'.acceptsWithin defs tag depth :=
        fun _ _ hfield => Field.acceptsWithin_of_sameShape hfield.shape (ih hfield.types)
      rw [acceptsWithin_choice, acceptsWithin_choice]
      rcases Field.firstAccepting_congr hfields haccepts 0 with
        ⟨hnone, hnone'⟩ | ⟨hnone, hnone'⟩ | ⟨_, _, _, hsome, hsome', -⟩
      · rw [hnone, hnone']
      · rw [hnone, hnone']
      · rw [hsome, hsome']
        rfl

end Interchangeable

end Value

namespace Field.Interchangeable

variable {defs : Definitions} {a b : Field}

theorem acceptsWithin_eq (h : a.Interchangeable defs b) (tag : Tag) (depth : Nat) :
    a.acceptsWithin defs tag depth = b.acceptsWithin defs tag depth :=
  acceptsWithin_of_sameShape h.shape (h.types.acceptsWithin_eq tag depth)

end Field.Interchangeable

theorem Field.optional_of_interchangeable {defs : Definitions} {fields fields' : List Field}
    (h : List.Forall₂ (Field.Interchangeable defs) fields fields')
    (hoptional : ∀ field ∈ fields, field.optional) : ∀ field ∈ fields', field.optional := by
  induction h with
  | nil => exact nofun
  | cons hfield _ ih =>
    obtain ⟨hfirst, hrest⟩ := List.forall_mem_cons.1 hoptional
    obtain ⟨-, -, -, hsame⟩ := Field.sameShape_iff.1 hfield.shape
    exact List.forall_mem_cons.2 ⟨hsame ▸ hfirst, ih hrest⟩

end Asn1
