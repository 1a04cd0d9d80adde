import Asn1.Proofs.Value.Record
import Asn1.Proofs.Value.Unfolding
import Mathlib.Data.List.ProdSigma

/-!
Where comparing types comes to an end. Element types are compared by unfolding them, side by side,
and that goes on for ever just if it comes back to two names that it has been at. What compares
types to do its work does not end there either.
-/

namespace Asn1

namespace Value

variable {defs : Definitions} {a b : Value}

theorem Unfolds.mem_names {name other : String} (h : Unfolds defs name other) :
    name ∈ defs.entries.map Prod.fst := by
  by_contra hmissing
  rw [Unfolds, Definitions.template_of_notMem hmissing] at h
  cases h

/-- The element types that two types are compared by, if it takes any. -/
def elementTypes? : Value → Value → Option (String × String)
  | .elements grouping type _ _, .elements grouping' type' _ _ =>
    if grouping = grouping' then some (type, type') else none
  | .tagged tagging a _, .tagged tagging' b _ =>
    if tagging = tagging' then elementTypes? a b else none
  | _, _ => none

theorem elementType?_of_elementTypes? {names : String × String}
    (h : elementTypes? a b = some names) :
    a.elementType? = some names.1 ∧ b.elementType? = some names.2 := by
  fun_induction elementTypes? a b with
  | case1 =>
    cases h
    exact ⟨rfl, rfl⟩
  | case2 => cases h
  | case3 _ _ _ _ _ ih =>
    rw [elementType?, elementType?]
    exact ih h
  | case4 => cases h
  | case5 => cases h

theorem elementTypes?_self {name : String} (h : a.elementType? = some name) :
    elementTypes? a a = some (name, name) := by
  fun_induction elementType? a with
  | case1 =>
    cases h
    rw [elementTypes?, if_pos rfl]
  | case2 _ _ _ ih =>
    rw [elementTypes?, if_pos rfl]
    exact ih h
  | case3 => cases h

/-- To compare two types is to compare their element types, with one unfolding less. -/
theorem sameTypeWithin_of_elementTypes? (defs : Definitions) {names : String × String}
    (h : elementTypes? a b = some names) :
    sameTypeWithin defs 0 a b = none ∧ ∀ unfoldings, sameTypeWithin defs (unfoldings + 1) a b =
      sameTypeWithin defs unfoldings (defs.template names.1) (defs.template names.2) := by
  fun_induction elementTypes? a b with
  | case1 =>
    cases h
    simp [sameTypeWithin]
  | case2 => cases h
  | case3 _ _ _ _ _ ih =>
    simp only [sameTypeWithin, if_pos]
    exact ih h
  | case4 => cases h
  | case5 => cases h

/-- Without element types no unfolding is needed. -/
theorem sameTypeWithin_of_elementTypes?_eq_none (defs : Definitions)
    (h : elementTypes? a b = none) :
    ∃ answer, ∀ unfoldings, sameTypeWithin defs unfoldings a b = some answer := by
  fun_induction elementTypes? a b with
  | case1 => cases h
  | case2 _ _ _ _ _ _ _ _ hne =>
    refine ⟨false, ?_⟩
    intro unfoldings
    cases unfoldings <;> simp [sameTypeWithin, hne]
  | case3 _ _ _ _ _ ih =>
    simp only [sameTypeWithin, if_pos]
    exact ih h
  | case4 _ _ _ _ _ _ hne => exact ⟨false, fun _ => by simp [sameTypeWithin, hne]⟩
  | case5 a b helements htagged =>
    cases a <;> cases b <;> first
      | exact (helements _ _ _ _ _ _ _ _ rfl rfl).elim
      | exact (htagged _ _ _ _ _ _ rfl rfl).elim
      | simp [sameTypeWithin]

/-- Two answers to one question agree, whatever number of unfoldings each was allowed. -/
theorem sameTypeWithin_unique {unfoldings more : Nat} {answer answer' : Bool}
    (h : sameTypeWithin defs unfoldings a b = some answer)
    (h' : sameTypeWithin defs more a b = some answer') : answer = answer' := by
  induction unfoldings generalizing more a b with
  | zero =>
    cases hnames : elementTypes? a b with
    | none =>
      obtain ⟨_, hanswer⟩ := sameTypeWithin_of_elementTypes?_eq_none defs hnames
      rw [hanswer] at h h'
      exact Option.some.inj (h.symm.trans h')
    | some names =>
      rw [(sameTypeWithin_of_elementTypes? defs hnames).1] at h
      cases h
  | succ unfoldings ih =>
    cases hnames : elementTypes? a b with
    | none =>
      obtain ⟨_, hanswer⟩ := sameTypeWithin_of_elementTypes?_eq_none defs hnames
      rw [hanswer] at h h'
      exact Option.some.inj (h.symm.trans h')
    | some names =>
      obtain ⟨hzero, hsucc⟩ := sameTypeWithin_of_elementTypes? defs hnames
      cases more with
      | zero =>
        rw [hzero] at h'
        cases h'
      | succ more =>
        rw [hsucc] at h h'
        exact ih h h'

/-- Two element types are compared by comparing those below them. -/
def Compares (defs : Definitions) (names below : String × String) : Prop :=
  elementTypes? (defs.template names.1) (defs.template names.2) = some below

theorem Compares.unfolds {names below : String × String} (h : Compares defs names below) :
    Unfolds defs names.1 below.1 ∧ Unfolds defs names.2 below.2 :=
  elementType?_of_elementTypes? h

/-- Comparing the two types comes to a pair of element types and from there back to it. -/
def UnfoldForever (defs : Definitions) (a b : Value) : Prop :=
  ∃ first names, elementTypes? a b = some first ∧
    Relation.ReflTransGen (Compares defs) first names ∧
    Relation.TransGen (Compares defs) names names

/-- The type is a SEQUENCE OF or SET OF, perhaps re-tagged, and the types of the elements, of their
elements and so on come back to one of them. -/
def Endless (defs : Definitions) (value : Value) : Prop :=
  ∃ first name, value.elementType? = some first ∧
    Relation.ReflTransGen (Unfolds defs) first name ∧ Relation.TransGen (Unfolds defs) name name

theorem UnfoldForever.endless (h : UnfoldForever defs a b) : a.Endless defs ∧ b.Endless defs := by
  obtain ⟨first, names, hfirst, hreach, hback⟩ := h
  obtain ⟨ha, hb⟩ := elementType?_of_elementTypes? hfirst
  have hleft : ∀ names below, Compares defs names below → Unfolds defs names.1 below.1 :=
    fun _ _ hcompares => hcompares.unfolds.1
  have hright : ∀ names below, Compares defs names below → Unfolds defs names.2 below.2 :=
    fun _ _ hcompares => hcompares.unfolds.2
  exact ⟨⟨first.1, names.1, ha, hreach.lift Prod.fst hleft, hback.lift Prod.fst hleft⟩,
    ⟨first.2, names.2, hb, hreach.lift Prod.snd hright, hback.lift Prod.snd hright⟩⟩

theorem unfoldForever_self : UnfoldForever defs a a ↔ a.Endless defs := by
  constructor
  · intro h
    exact h.endless.1
  · rintro ⟨first, name, hfirst, hreach, hback⟩
    have hself : ∀ name below, Unfolds defs name below →
        Compares defs (name, name) (below, below) := fun _ _ h => elementTypes?_self h
    exact ⟨(first, first), (name, name), elementTypes?_self hfirst,
      hreach.lift (fun name => (name, name)) hself, hback.lift (fun name => (name, name)) hself⟩

/-- A round can be gone any number of times. -/
theorem unanswered_of_round {names : String × String}
    (h : Relation.TransGen (Compares defs) names names) (unfoldings : Nat) :
    sameTypeWithin defs unfoldings (defs.template names.1) (defs.template names.2) = none := by
  induction unfoldings generalizing names with
  | zero =>
    obtain ⟨below, hbelow, -⟩ := Relation.TransGen.head'_iff.1 h
    exact (sameTypeWithin_of_elementTypes? defs hbelow).1
  | succ unfoldings ih =>
    obtain ⟨below, hbelow, hback⟩ := Relation.TransGen.head'_iff.1 h
    rw [(sameTypeWithin_of_elementTypes? defs hbelow).2]
    exact ih (.tail' hback hbelow)

theorem unanswered_of_reaches {first names : String × String}
    (hreach : Relation.ReflTransGen (Compares defs) first names)
    (hback : Relation.TransGen (Compares defs) names names) (unfoldings : Nat) :
    sameTypeWithin defs unfoldings (defs.template first.1) (defs.template first.2) = none := by
  induction hreach using Relation.ReflTransGen.head_induction_on generalizing unfoldings with
  | refl => exact unanswered_of_round hback unfoldings
  | head hbelow _ ih =>
    cases unfoldings with
    | zero => exact (sameTypeWithin_of_elementTypes? defs hbelow).1
    | succ unfoldings =>
      rw [(sameTypeWithin_of_elementTypes? defs hbelow).2]
      exact ih unfoldings

theorem UnfoldForever.unanswered (h : UnfoldForever defs a b) (unfoldings : Nat) :
    sameTypeWithin defs unfoldings a b = none := by
  obtain ⟨first, names, hfirst, hreach, hback⟩ := h
  cases unfoldings with
  | zero => exact (sameTypeWithin_of_elementTypes? defs hfirst).1
  | succ unfoldings =>
    rw [(sameTypeWithin_of_elementTypes? defs hfirst).2]
    exact unanswered_of_reaches hreach hback unfoldings

/-- A comparison without an answer has gone from one pair of named types to the next as often as
it was allowed to. -/
theorem exists_pairs {unfoldings : Nat} (h : sameTypeWithin defs unfoldings a b = none) :
    ∃ pairs : List (String × String), pairs.length = unfoldings ∧
      (∀ names ∈ pairs.head?, elementTypes? a b = some names) ∧
      pairs.IsChain (Compares defs) ∧
      ∀ names ∈ pairs, names ∈ defs.entries.map Prod.fst ×ˢ defs.entries.map Prod.fst := by
  induction unfoldings generalizing a b with
  | zero => exact ⟨[], rfl, nofun, .nil, nofun⟩
  | succ unfoldings ih =>
    cases hnames : elementTypes? a b with
    | none =>
      obtain ⟨_, hanswer⟩ := sameTypeWithin_of_elementTypes?_eq_none defs hnames
      rw [hanswer] at h
      cases h
    | some names =>
      rw [(sameTypeWithin_of_elementTypes? defs hnames).2] at h
      obtain ⟨pairs, hlength, hhead, hchain, hmem⟩ := ih h
      refine ⟨names :: pairs, congrArg (· + 1) hlength, ?_, List.isChain_cons.2 ⟨hhead, hchain⟩,
        List.forall_mem_cons.2 ⟨?_, hmem⟩⟩
      · rintro _ ⟨⟩
        rfl
      · obtain ⟨below, hbelow⟩ : ∃ below, Compares defs names below := by
          by_contra hlast
          have hnone : elementTypes? (defs.template names.1) (defs.template names.2) = none := by
            rw [Option.eq_none_iff_forall_ne_some]
            exact fun below hbelow => hlast ⟨below, hbelow⟩
          obtain ⟨_, hanswer⟩ := sameTypeWithin_of_elementTypes?_eq_none defs hnone
          rw [hanswer] at h
          cases h
        obtain ⟨hleft, hright⟩ := hbelow.unfolds
        exact List.mem_product.2 ⟨hleft.mem_names, hright.mem_names⟩

/-- There is no answer just if no number of unfoldings would lead to one. -/
theorem sameType?_eq_none_iff : sameType? defs a b = none ↔ UnfoldForever defs a b := by
  constructor
  · intro h
    obtain ⟨pairs, hlength, hhead, hchain, hmem⟩ := exists_pairs h
    cases pairs with
    | nil => cases hlength
    | cons first rest =>
      -- More pairs than two names can form: one of them is met twice.
      obtain ⟨names, hreach, hback⟩ := exists_round hchain hmem (by
        rw [List.length_cons, unfoldingLimit] at hlength
        rw [List.length_product, List.length_map]
        omega)
      exact ⟨first, names, hhead first rfl, hreach, hback⟩
  · intro h
    exact h.unanswered _

/-- The number of unfoldings allowed never shows in an answer. -/
theorem sameType?_of_sameTypeWithin {unfoldings : Nat} {answer : Bool}
    (h : sameTypeWithin defs unfoldings a b = some answer) :
    sameType? defs a b = some answer := by
  cases hanswer : sameType? defs a b with
  | none =>
    rw [(sameType?_eq_none_iff.1 hanswer).unanswered] at h
    cases h
  | some answer' => rw [sameTypeWithin_unique h hanswer]

/-- Both are SEQUENCE OFs or SET OFs, and comparing their element types does not end. -/
inductive ElementsUnfoldForever (defs : Definitions) : Value → Value → Prop where
  | intro {grouping : Grouping} {type type' : String} {items items' : List Value}
      {own own' : Option Policy}
      (h : UnfoldForever defs (defs.template type) (defs.template type')) :
      ElementsUnfoldForever defs (.elements grouping type items own)
        (.elements grouping type' items' own')

section Equality

theorem bothAnswers_eq_none_iff {first : Option Bool} {second : Unit → Option Bool} :
    bothAnswers first second = none ↔ first = none ∨ first = some true ∧ second () = none := by
  unfold bothAnswers
  split <;> simp

theorem exists_of_equalSlots?_eq_none {slots slots' : List (Slot Value)}
    (h : equalSlots? defs slots slots' = none) :
    ∃ slot ∈ slots, ∃ slot' ∈ slots', ∃ part ∈ slot.content, ∃ part' ∈ slot'.content,
      equal? defs part part' = none := by
  induction slots generalizing slots' with
  | nil => cases slots' <;> simp [equalSlots?] at h
  | cons slot rest ih =>
    obtain ⟨field, content⟩ := slot
    cases slots' with
    | nil => cases content <;> simp [equalSlots?] at h
    | cons slot' rest' =>
      obtain ⟨field', content'⟩ := slot'
      have hlater (h : equalSlots? defs rest rest' = none) :
          ∃ slot ∈ ⟨field, content⟩ :: rest, ∃ slot' ∈ ⟨field', content'⟩ :: rest',
            ∃ part ∈ slot.content, ∃ part' ∈ slot'.content, equal? defs part part' = none := by
        obtain ⟨slot, hslot, slot', hslot', hparts⟩ := ih h
        exact ⟨slot, .tail _ hslot, slot', .tail _ hslot', hparts⟩
      cases content with
      | none =>
        cases content' with
        | none =>
          rw [equalSlots?] at h
          exact hlater h
        | some value' => simp [equalSlots?] at h
      | some value =>
        cases content' with
        | none => simp [equalSlots?] at h
        | some value' =>
          rw [equalSlots?, bothAnswers_eq_none_iff] at h
          rcases h with h | ⟨-, h⟩
          · exact ⟨_, .head _, _, .head _, value, rfl, value', rfl, h⟩
          · exact hlater h

theorem exists_of_equalItems?_eq_none {items items' : List Value}
    (h : equalItems? defs items items' = none) :
    ∃ item ∈ items, ∃ item' ∈ items', equal? defs item item' = none := by
  induction items generalizing items' with
  | nil => cases items' <;> simp [equalItems?] at h
  | cons item rest ih =>
    cases items' with
    | nil => simp [equalItems?] at h
    | cons item' rest' =>
      rw [equalItems?, bothAnswers_eq_none_iff] at h
      rcases h with h | ⟨-, h⟩
      · exact ⟨item, .head _, item', .head _, h⟩
      · obtain ⟨item, hitem, item', hitem', h⟩ := ih h
        exact ⟨item, .tail _ hitem, item', .tail _ hitem', h⟩

/-- Where equality does not end, two parts do not whose element types are compared. -/
theorem exists_parts_of_equal?_eq_none (h : equal? defs a b = none) :
    ∃ part part', Relation.ReflTransGen Contains a part ∧
      Relation.ReflTransGen Contains b part' ∧ ElementsUnfoldForever defs part part' := by
  induction a using contains_induction generalizing b with
  | h a ih =>
    have hbelow {part part' : Value} (hpart : Contains a part) (hpart' : Contains b part')
        (h : equal? defs part part' = none) :
        ∃ inside inside', Relation.ReflTransGen Contains a inside ∧
          Relation.ReflTransGen Contains b inside' ∧
          ElementsUnfoldForever defs inside inside' := by
      obtain ⟨inside, inside', hinside, hinside', hforever⟩ := ih part hpart h
      exact ⟨inside, inside', .head hpart hinside, .head hpart' hinside', hforever⟩
    unfold equal? at h
    split at h
    · cases h
    · split at h
      · simp only [bothAnswers_eq_none_iff, reduceCtorEq, and_false, or_false] at h
        obtain ⟨slot, hslot, slot', hslot', part, hpart, part', hpart', h⟩ :=
          exists_of_equalSlots?_eq_none h
        exact hbelow (.slot hslot hpart) (.slot hslot' hpart') h
      · cases h
    · split at h
      · rename_i hsame
        simp only [Bool.and_eq_true, beq_iff_eq] at hsame
        rw [bothAnswers_eq_none_iff] at h
        rcases h with h | ⟨-, h⟩
        · obtain ⟨item, hitem, item', hitem', h⟩ := exists_of_equalItems?_eq_none h
          exact hbelow (.item hitem) (.item hitem') h
        · split at h
          · rw [hsame.1]
            exact ⟨_, _, .refl, .refl, .intro (sameType?_eq_none_iff.1 h)⟩
          · cases h
      · cases h
    · cases h
    · split at h
      · simp only [bothAnswers_eq_none_iff, reduceCtorEq, and_false, or_false] at h
        exact hbelow .selected .selected h
      · cases h
    · split at h
      · simp only [bothAnswers_eq_none_iff, reduceCtorEq, and_false, or_false] at h
        exact hbelow .inner .inner h
      · cases h
    · cases h
    · cases h

end Equality

end Value

section Operations

variable {defs : Definitions} {index : Nat} {value : Value}

open Value (UnfoldForever)

theorem Record.checkType_endless_iff (index : Nat) {type : String} :
    Record.checkType defs index type value = .error .endlessType ↔
      UnfoldForever defs value (defs.template type) := by
  rw [← Value.sameType?_eq_none_iff, Record.checkType]
  split <;> simp_all

theorem Record.set_endless_iff {slots : List (Slot Value)} :
    Record.set defs slots index value = .error .endlessType ↔
      ∃ slot, slots[index]? = some slot ∧
        UnfoldForever defs value (defs.template slot.field.type) := by
  simp only [← Record.checkType_endless_iff index]
  unfold Record.set Record.slot
  cases slots[index]? with
  | none => simp
  | some slot =>
    simp only
    split <;> simp_all

theorem Elements.push_endless_iff {type : String} {items : List Value} :
    Elements.push defs type items value = .error .endlessType ↔
      UnfoldForever defs value (defs.template type) := by
  rw [← Record.checkType_endless_iff items.length, Elements.push]
  split <;> simp_all

theorem Choice.select_endless_iff {alternatives : List Field} :
    Choice.select defs alternatives index value = .error .endlessType ↔
      ∃ field, alternatives[index]? = some field ∧
        UnfoldForever defs value (defs.template field.type) := by
  simp only [← Record.checkType_endless_iff index]
  unfold Choice.select
  cases alternatives[index]? with
  | none => simp
  | some field =>
    simp only
    split <;> simp_all

end Operations

namespace Value

/-- The comparison of two types has an answer unless both are SEQUENCE OFs or SET OFs whose
element types, side by side, unfold for ever, and then no number of unfoldings would lead to one.
Setting a field, appending an element and selecting an alternative end but for such a comparison,
and equality but for two parts of which the element types are so compared. -/
theorem comparison_ends_unless_unfolding_forever (defs : Definitions) :
    (∀ a b, (∃ answer, sameType? defs a b = some answer) ↔ ¬ UnfoldForever defs a b) ∧
    (∀ a b unfoldings answer, sameTypeWithin defs unfoldings a b = some answer →
      sameType? defs a b = some answer) ∧
    (∀ a b, UnfoldForever defs a b → a.Endless defs ∧ b.Endless defs ∧
      ∀ unfoldings, sameTypeWithin defs unfoldings a b = none) ∧
    (∀ a, UnfoldForever defs a a ↔ a.Endless defs) ∧
    (∀ type items value, Elements.push defs type items value = .error .endlessType ↔
      UnfoldForever defs value (defs.template type)) ∧
    (∀ slots index value, Record.set defs slots index value = .error .endlessType ↔
      ∃ slot, slots[index]? = some slot ∧
        UnfoldForever defs value (defs.template slot.field.type)) ∧
    (∀ alternatives index value,
      Choice.select defs alternatives index value = .error .endlessType ↔
        ∃ field, alternatives[index]? = some field ∧
          UnfoldForever defs value (defs.template field.type)) ∧
    ∀ a b, equal? defs a b = none → ∃ part part', Relation.ReflTransGen Contains a part ∧
      Relation.ReflTransGen Contains b part' ∧ ElementsUnfoldForever defs part part' := by
  refine ⟨?_, fun _ _ _ _ => sameType?_of_sameTypeWithin, ?_, fun _ => unfoldForever_self,
    fun _ _ _ => Elements.push_endless_iff,
    fun _ _ _ => Record.set_endless_iff, fun _ _ _ => Choice.select_endless_iff,
    fun _ _ => exists_parts_of_equal?_eq_none⟩
  · intro a b
    rw [← sameType?_eq_none_iff, ← ne_eq, Option.ne_none_iff_exists']
  · intro a b h
    exact ⟨h.endless.1, h.endless.2, h.unanswered⟩

/-- A SEQUENCE OF itself is told apart from a SEQUENCE OF numbers. -/
theorem chain_compared_with_numbers :
    ∃ answer, sameType? ⟨[("chain", .elements .sequence "chain" [] none),
        ("numbers", .elements .sequence "number" [] none), ("number", .leaf (.integer 0))]⟩
      (.elements .sequence "chain" [] none) (.elements .sequence "number" [] none) =
        some answer := by
  obtain ⟨hends, -, hendless, -⟩ := comparison_ends_unless_unfolding_forever
    ⟨[("chain", .elements .sequence "chain" [] none),
      ("numbers", .elements .sequence "number" [] none), ("number", .leaf (.integer 0))]⟩
  refine (hends _ _).2 ?_
  intro hforever
  obtain ⟨-, ⟨first, name, hfirst, hreach, hback⟩, -⟩ := hendless _ _ hforever
  cases hfirst
  -- A number has no elements, so nothing leads on from there.
  have hlast : ∀ below, ¬ Unfolds ⟨[("chain", .elements .sequence "chain" [] none),
      ("numbers", .elements .sequence "number" [] none), ("number", .leaf (.integer 0))]⟩
      "number" below := nofun
  rcases hreach.cases_head with rfl | ⟨below, hbelow, -⟩
  · obtain ⟨below, hbelow, -⟩ := Relation.TransGen.head'_iff.1 hback
    exact hlast below hbelow
  · exact hlast below hbelow

/-- A SEQUENCE OF itself has no answer to whether it is of its own type, so it takes no element
and is not found equal to itself. -/
theorem sequence_of_itself_never_compared :
    (∀ unfoldings, sameTypeWithin ⟨[("chain", .elements .sequence "chain" [] none)]⟩ unfoldings
      (.elements .sequence "chain" [] none) (.elements .sequence "chain" [] none) = none) ∧
    Elements.push ⟨[("chain", .elements .sequence "chain" [] none)]⟩ "chain" []
      (.elements .sequence "chain" [] none) = .error .endlessType ∧
    equal? ⟨[("chain", .elements .sequence "chain" [] none)]⟩
      (.elements .sequence "chain" [] none) (.elements .sequence "chain" [] none) = none := by
  have hforever : UnfoldForever ⟨[("chain", .elements .sequence "chain" [] none)]⟩
      (.elements .sequence "chain" [] none) (.elements .sequence "chain" [] none) :=
    ⟨("chain", "chain"), ("chain", "chain"), rfl, .refl, .single rfl⟩
  refine ⟨hforever.unanswered, Elements.push_endless_iff.2 hforever, ?_⟩
  rw [equal?, if_pos (by decide), bothAnswers_eq_none_iff]
  exact .inr ⟨rfl, sameType?_eq_none_iff.2 hforever⟩

end Value

end Asn1
