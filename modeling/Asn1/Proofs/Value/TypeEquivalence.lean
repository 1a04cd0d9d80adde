import Asn1.Proofs.Value.Comparison

/-!
Being of the same type as a relation between values. A yes of the comparison is a finite
derivation, so the relation is symmetric and transitive whatever the types unfold to, and reflexive
just where they do not unfold for ever. Equality refines it, and clearing a value stays within it.
-/

namespace Asn1

namespace Value

variable {defs : Definitions} {a b c : Value}

section Relation

theorem SameType.exists_sameTypeWithin (h : SameType defs a b) :
    ∃ unfoldings, sameTypeWithin defs unfoldings a b = some true := by
  induction h with
  | leaf h => exact ⟨0, by rw [sameTypeWithin, h]⟩
  | record h => exact ⟨0, by rw [sameTypeWithin, h, beq_self_eq_true, Bool.true_and]⟩
  | elements _ ih =>
    -- Only to look up the two element types takes an unfolding.
    obtain ⟨unfoldings, hanswer⟩ := ih
    refine ⟨unfoldings + 1, ?_⟩
    rw [sameTypeWithin, if_pos rfl]
    exact hanswer
  | choice h => exact ⟨0, by rw [sameTypeWithin, h]⟩
  | tagged _ ih =>
    obtain ⟨unfoldings, hanswer⟩ := ih
    refine ⟨unfoldings, ?_⟩
    rw [sameTypeWithin, if_pos rfl]
    exact hanswer
  | any => exact ⟨0, by rw [sameTypeWithin]⟩

/-- A yes is a derivation. -/
theorem sameType?_eq_some_true_iff : sameType? defs a b = some true ↔ SameType defs a b := by
  constructor
  · exact SameType.of_sameTypeWithin
  · intro h
    obtain ⟨unfoldings, hanswer⟩ := h.exists_sameTypeWithin
    exact sameType?_of_sameTypeWithin hanswer

theorem SameType.trans (hab : SameType defs a b) (hbc : SameType defs b c) :
    SameType defs a c := by
  induction hab generalizing c with
  | leaf h =>
    cases hbc with
    | leaf h' =>
      simp only [Primitive.sameType, beq_iff_eq] at h h'
      exact .leaf (beq_iff_eq.2 (h.trans h'))
  | record h =>
    cases hbc with
    | record h' => exact .record (Field.sameShapes_trans h h')
  | elements _ ih =>
    cases hbc with
    | elements h' => exact .elements (ih h')
  | choice h =>
    cases hbc with
    | choice h' => exact .choice (Field.sameShapes_trans h h')
  | tagged _ ih =>
    cases hbc with
    | tagged h' => exact .tagged (ih h')
  | any =>
    cases hbc with
    | any => exact .any

/-- Only values that differ are told apart by their types. -/
theorem ne_of_sameTypeWithin {unfoldings : Nat}
    (h : sameTypeWithin defs unfoldings a b = some false) : a ≠ b := by
  fun_induction sameTypeWithin defs unfoldings a b with
  | case1 =>
    rintro ⟨⟩
    simp [Primitive.sameType] at h
  | case2 =>
    rintro ⟨⟩
    simp [Field.sameShapes_self] at h
  | case3 => cases h
  | case4 _ _ _ _ _ _ _ _ ih =>
    rintro ⟨⟩
    exact ih h rfl
  | case5 _ _ _ _ _ _ _ _ _ hne =>
    rintro ⟨⟩
    exact hne rfl
  | case6 =>
    rintro ⟨⟩
    simp [Field.sameShapes_self] at h
  | case7 _ _ _ _ _ _ ih =>
    rintro ⟨⟩
    exact ih h rfl
  | case8 _ _ _ _ _ _ _ hne =>
    rintro ⟨⟩
    exact hne rfl
  | case9 => cases h
  | case10 _ a b hleaf hrecord helements hchoice htagged hany =>
    rintro rfl
    cases a with
    | leaf => exact hleaf _ _ rfl rfl
    | record => exact hrecord _ _ _ _ _ _ rfl rfl
    | elements => exact helements _ _ _ _ _ _ _ _ rfl rfl
    | choice => exact hchoice _ _ _ _ _ _ rfl rfl
    | tagged => exact htagged _ _ _ _ _ _ rfl rfl
    | any => exact hany _ _ rfl rfl

theorem sameType?_self_iff : sameType? defs a a = some true ↔ ¬ a.Endless defs := by
  rw [← unfoldForever_self, ← sameType?_eq_none_iff]
  cases hanswer : sameType? defs a a with
  | none => simp
  | some answer =>
    cases answer with
    | false => exact (ne_of_sameTypeWithin hanswer rfl).elim
    | true => simp

theorem NonRecursive.not_endless (h : a.NonRecursive defs) : ¬ a.Endless defs := by
  rintro ⟨first, name, hfirst, hreach, hback⟩
  have huses := Relation.ReflTransGen.mono (fun _ _ => Unfolds.uses) _ _ hreach
  exact h first (mem_types_of_elementType? hfirst) name huses hback

theorem exists_answer_of_not_endless (h : ¬ a.Endless defs) (b : Value) :
    ∃ answer, sameType? defs a b = some answer := by
  rw [← Option.ne_none_iff_exists', ne_eq, sameType?_eq_none_iff]
  intro hforever
  exact h hforever.endless.1

end Relation

section Equality

theorem bothAnswers_eq_some_true_iff {first : Option Bool} {second : Unit → Option Bool} :
    bothAnswers first second = some true ↔ first = some true ∧ second () = some true := by
  unfold bothAnswers
  split <;> simp

theorem SameType.of_equal? (h : equal? defs a b = some true) : SameType defs a b := by
  induction a using contains_induction generalizing b with
  | h a ih =>
    unfold equal? at h
    split at h
    · simp only [Option.some.injEq, beq_iff_eq] at h
      subst h
      exact .leaf (beq_self_eq_true _)
    · split at h
      · rename_i hsame
        simp only [Bool.and_eq_true, beq_iff_eq] at hsame
        obtain ⟨rfl, hshapes⟩ := hsame
        exact .record hshapes
      · cases h
    · split at h
      · rename_i hsame
        simp only [Bool.and_eq_true, beq_iff_eq] at hsame
        obtain ⟨rfl, -⟩ := hsame
        obtain ⟨-, htypes⟩ := bothAnswers_eq_some_true_iff.1 h
        split at htypes
        · exact .elements (sameType?_eq_some_true_iff.1 htypes)
        · cases htypes
      · cases h
    · simp only [Option.some.injEq, Bool.and_eq_true] at h
      exact .choice h.1
    · split at h
      · rename_i hsame
        simp only [Bool.and_eq_true] at hsame
        exact .choice hsame.1
      · cases h
    · split at h
      · rename_i htagging
        subst htagging
        exact .tagged (ih _ .inner (bothAnswers_eq_some_true_iff.1 h).1)
      · cases h
    · exact .any
    · cases h

theorem equalSlots?_self {slots : List (Slot Value)}
    (h : ∀ slot ∈ slots, ∀ part ∈ slot.content, equal? defs part part = some true) :
    equalSlots? defs slots slots = some true := by
  induction slots with
  | nil => rfl
  | cons slot rest ih =>
    obtain ⟨field, content⟩ := slot
    obtain ⟨hfirst, hrest⟩ := List.forall_mem_cons.1 h
    cases content with
    | none =>
      rw [equalSlots?]
      exact ih hrest
    | some part =>
      rw [equalSlots?, bothAnswers_eq_some_true_iff]
      exact ⟨hfirst part rfl, ih hrest⟩

theorem equalItems?_self {items : List Value}
    (h : ∀ item ∈ items, equal? defs item item = some true) :
    equalItems? defs items items = some true := by
  induction items with
  | nil => rfl
  | cons item rest ih =>
    obtain ⟨hitem, hrest⟩ := List.forall_mem_cons.1 h
    rw [equalItems?, bothAnswers_eq_some_true_iff]
    exact ⟨hitem, ih hrest⟩

/-- A value is equal to itself where no type in it unfolds for ever. -/
theorem equal?_self (h : a.Throughout fun part => ¬ part.Endless defs) :
    equal? defs a a = some true := by
  induction a using contains_induction with
  | h a ih =>
    have hparts : ∀ part, Contains a part → equal? defs part part = some true := by
      intro part hpart
      exact ih part hpart (h.part hpart)
    cases a with
    | leaf => rw [equal?, beq_self_eq_true]
    | record =>
      rw [equal?, if_pos (by simp [Field.sameShapes_self]), bothAnswers_eq_some_true_iff]
      refine ⟨equalSlots?_self ?_, by rw [beq_self_eq_true]⟩
      intro slot hslot part hpart
      exact hparts part (.slot hslot hpart)
    | elements =>
      rw [equal?, if_pos (by simp), bothAnswers_eq_some_true_iff]
      refine ⟨equalItems?_self fun item hitem => hparts item (.item hitem), ?_⟩
      rw [if_pos (beq_self_eq_true _)]
      cases sameType?_eq_some_true_iff.1 (sameType?_self_iff.2 h.self) with
      | elements htype => exact sameType?_eq_some_true_iff.2 htype
    | choice alternatives selection =>
      cases selection with
      | none => simp [equal?, Field.sameShapes_self]
      | some selection =>
        rw [equal?, if_pos (by simp [Field.sameShapes_self]), bothAnswers_eq_some_true_iff]
        exact ⟨hparts _ .selected, by rw [beq_self_eq_true]⟩
    | tagged =>
      rw [equal?, if_pos rfl, bothAnswers_eq_some_true_iff]
      exact ⟨hparts _ .inner, by rw [beq_self_eq_true]⟩
    | any => rw [equal?, beq_self_eq_true]

end Equality

section Cleared

theorem sameTypeWithin_cleared (unfoldings : Nat) (a b : Value) :
    sameTypeWithin defs unfoldings a.cleared b = sameTypeWithin defs unfoldings a b := by
  induction a using contains_induction generalizing b with
  | h a ih =>
    cases a with
    | leaf primitive =>
      have htag := Primitive.tag_of_cleared (Primitive.cleared_cleared primitive)
      cases b <;> simp [cleared, sameTypeWithin, Primitive.sameType, htag]
    | record => cases b <;> simp [cleared, sameTypeWithin, fields, Function.comp_def]
    | elements => cases b <;> cases unfoldings <;> simp [cleared, sameTypeWithin]
    | choice => cases b <;> simp [cleared, sameTypeWithin]
    | tagged _ inner =>
      cases b with
      | tagged _ other =>
        rw [cleared, sameTypeWithin, sameTypeWithin, ih inner .inner other]
      | _ => simp [cleared, sameTypeWithin]
    | any => cases b <;> simp [cleared, sameTypeWithin]

@[simp] theorem sameType?_cleared_left (a b : Value) :
    sameType? defs a.cleared b = sameType? defs a b :=
  sameTypeWithin_cleared (unfoldingLimit defs) a b

/-- What differs in content alone has the same type. -/
theorem NonRecursive.sameType?_of_cleared (h : b.NonRecursive defs)
    (hcleared : a.cleared = b.cleared) : sameType? defs a b = some true := by
  rw [← sameType?_cleared_left, hcleared, sameType?_cleared_left]
  exact sameType?_self_iff.2 h.not_endless

theorem elementType?_cleared (value : Value) : value.cleared.elementType? = value.elementType? := by
  match value with
  | .tagged _ inner _ =>
    rw [cleared, elementType?, elementType?]
    exact elementType?_cleared inner
  | .leaf _ | .record _ _ _ | .elements _ _ _ _ | .choice _ _ _ | .any _ => rfl

theorem endless_cleared : a.cleared.Endless defs ↔ a.Endless defs := by
  rw [Endless, elementType?_cleared, Endless]

/-- All that a cleared value holds is what its re-tags are put on. -/
theorem throughout_cleared (h : ¬ a.Endless defs) :
    a.cleared.Throughout fun part => ¬ part.Endless defs := by
  induction a using contains_induction with
  | h a ih =>
    refine throughout_iff.2 ⟨endless_cleared.not.2 h, ?_⟩
    intro part hpart
    cases a with
    | leaf | choice | any => cases hpart
    | record =>
      cases hpart with
      | slot hslot hcontent =>
        obtain ⟨_, -, rfl⟩ := List.mem_map.1 hslot
        cases hcontent
    | elements =>
      cases hpart with
      | item hmem => cases hmem
    | tagged _ inner =>
      cases hpart
      exact ih inner .inner h

end Cleared

/-- Having the same type is an equivalence on the values of which the element types do not unfold
for ever, and just on those, and equality refines it. The comparison of such a value with any other
has an answer. Clearing keeps the type and the override, and does nothing to what it has left. -/
theorem type_comparison_is_equivalence (defs : Definitions) :
    (∀ a b, ¬ a.Endless defs → ∃ answer, sameType? defs a b = some answer) ∧
    (∀ a, sameType? defs a a = some true ↔ ¬ a.Endless defs) ∧
    (∀ a b, sameType? defs a b = sameType? defs b a) ∧
    (∀ a b c, sameType? defs a b = some true → sameType? defs b c = some true →
      sameType? defs a c = some true) ∧
    (∀ a b, equal? defs a b = some true → sameType? defs a b = some true) ∧
    (∀ a, ¬ a.Endless defs → sameType? defs a.cleared a = some true ∧
      equal? defs a.cleared.cleared a.cleared = some true) ∧
    ∀ a : Value, a.cleared.policy? = a.policy? ∧ a.cleared.cleared = a.cleared := by
  refine ⟨fun a b h => exists_answer_of_not_endless h b, fun _ => sameType?_self_iff,
    sameType?_comm, ?_, ?_, ?_, fun a => ⟨policy?_cleared a, cleared_cleared a⟩⟩
  · intro a b c hab hbc
    rw [sameType?_eq_some_true_iff] at hab hbc ⊢
    exact hab.trans hbc
  · intro a b h
    exact sameType?_eq_some_true_iff.2 (.of_equal? h)
  · intro a h
    rw [sameType?_cleared_left, cleared_cleared]
    exact ⟨sameType?_self_iff.2 h, equal?_self (throughout_cleared h)⟩

/-- SEQUENCE OF INTEGER under two names of INTEGER, with items and with an override. -/
theorem numbers_and_totals_of_one_type :
    sameType? ⟨[("number", .leaf (.integer 0)), ("total", .leaf (.integer 7))]⟩
        (.elements .sequence "number" [.leaf (.integer 1)] none)
        (.elements .sequence "number" [] (some .ber)) = some true ∧
      sameType? ⟨[("number", .leaf (.integer 0)), ("total", .leaf (.integer 7))]⟩
        (Value.elements .sequence "number" [.leaf (.integer 1)] none).cleared
        (.elements .sequence "number" [.leaf (.integer 1)] none) = some true := by
  obtain ⟨-, hself, -, htrans, hequal, hcleared, -⟩ := type_comparison_is_equivalence
    ⟨[("number", .leaf (.integer 0)), ("total", .leaf (.integer 7))]⟩
  constructor
  · refine htrans _ (.elements .sequence "total" [.leaf (.integer 1)] none) _ (hequal _ _ ?_) ?_
    · exact sameType?_eq_some_true_iff.2 (.leaf rfl)
    · exact sameType?_eq_some_true_iff.2 (.elements (.leaf rfl))
  · exact (hcleared _ ((hself _).1 (sameType?_eq_some_true_iff.2 (.elements (.leaf rfl))))).1

end Value

end Asn1
