import Asn1.Value.Accepts
import Mathlib.Data.Nat.Find
import Mathlib.Order.Interval.Finset.Nat

/-!
Whether a value accepts a tag. An answer stays when more CHOICEs may be asked, and one
that can be had at all is had within the limit that the definitions set: of the CHOICEs
asked one inside the other, no two have the same name.
-/

namespace Asn1

namespace Field

variable {accepts accepts' : Field → Option Bool}

/-- The field found accepts, and all before it were asked and refused. -/
theorem firstAccepting_eq_some_iff {start index : Nat} {fields : List Field} {field : Field} :
    firstAccepting accepts start fields = some (some (index, field)) ↔
      ∃ place, index = start + place ∧ fields[place]? = some field ∧ accepts field = some true ∧
        ∀ earlier ∈ fields.take place, accepts earlier = some false := by
  induction fields generalizing start with
  | nil => simp [firstAccepting]
  | cons first rest ih =>
    rw [firstAccepting]
    constructor
    · intro h
      split at h
      · cases h
      · rename_i hfirst
        cases h
        exact ⟨0, rfl, rfl, hfirst, nofun⟩
      · rename_i hfirst
        obtain ⟨place, rfl, hat, hfield, hearlier⟩ := ih.1 h
        exact ⟨place + 1, by omega, hat, hfield, List.forall_mem_cons.2 ⟨hfirst, hearlier⟩⟩
    · rintro ⟨_ | place, rfl, hat, hfield, hearlier⟩
      · cases hat
        rw [hfield]
      · obtain ⟨hfirst, hearlier⟩ := List.forall_mem_cons.1 hearlier
        rw [hfirst]
        exact ih.2 ⟨place, by omega, hat, hfield, hearlier⟩

theorem getElem?_of_firstAccepting {index : Nat} {fields : List Field} {field : Field}
    (h : firstAccepting accepts 0 fields = some (some (index, field))) :
    fields[index]? = some field := by
  obtain ⟨place, rfl, hat, -⟩ := firstAccepting_eq_some_iff.1 h
  rw [Nat.zero_add]
  exact hat

/-- Only an answer that was missing can change the search. -/
theorem firstAccepting_mono (h : ∀ field answer, accepts field = some answer →
      accepts' field = some answer) {start : Nat} {fields : List Field}
    {found : Option (Nat × Field)} (hfound : firstAccepting accepts start fields = some found) :
    firstAccepting accepts' start fields = some found := by
  induction fields generalizing start with
  | nil => exact hfound
  | cons first rest ih =>
    rw [firstAccepting] at hfound ⊢
    split at hfound
    · cases hfound
    · rename_i hfirst
      rw [h first true hfirst]
      exact hfound
    · rename_i hfirst
      rw [h first false hfirst]
      exact ih hfound

/-- A search that has lost its answer asked a field that has lost its own. -/
theorem exists_of_firstAccepting (h : ∀ field answer, accepts' field = some answer →
      accepts field = some answer) {start : Nat} {fields : List Field}
    (hsome : firstAccepting accepts start fields ≠ none)
    (hnone : firstAccepting accepts' start fields = none) :
    ∃ field ∈ fields, accepts field ≠ none ∧ accepts' field = none := by
  induction fields generalizing start with
  | nil => exact absurd hnone hsome
  | cons first rest ih =>
    rw [firstAccepting] at hsome hnone
    split at hnone
    · rename_i hfirst
      refine ⟨first, List.mem_cons_self, ?_, hfirst⟩
      intro hlost
      rw [hlost] at hsome
      exact hsome rfl
    · cases hnone
    · rename_i hfirst
      rw [h first false hfirst] at hsome
      obtain ⟨field, hfield, hasked⟩ := ih hsome hnone
      exact ⟨field, List.mem_cons_of_mem _ hfield, hasked⟩

end Field

namespace Value

variable {defs : Definitions} {tag : Tag}

theorem acceptsWithin_mono {value : Value} {answer : Bool} {depth more : Nat}
    (h : value.acceptsWithin defs tag depth = some answer) (hle : depth ≤ more) :
    value.acceptsWithin defs tag more = some answer := by
  induction depth generalizing value more answer with
  | zero =>
    cases value with
    | choice => cases h
    | leaf | record | elements | tagged | any =>
      rw [acceptsWithin] at h ⊢
      exact h
  | succ depth ih =>
    cases value with
    | choice =>
      obtain ⟨more, rfl⟩ : ∃ less, more = less + 1 := ⟨more - 1, by omega⟩
      rw [acceptsWithin_choice, Option.map_eq_some_iff] at h ⊢
      obtain ⟨found, hfound, hanswer⟩ := h
      refine ⟨found, Field.firstAccepting_mono ?_ hfound, hanswer⟩
      intro field answer hfield
      rw [Field.acceptsWithin, Field.acceptsBy] at hfield ⊢
      split at hfield
      · exact hfield
      · exact ih hfield (by omega)
    | leaf | record | elements | tagged | any =>
      rw [acceptsWithin] at h ⊢
      exact h

end Value

namespace Field

variable {defs : Definitions} {tag : Tag}

theorem acceptsWithin_mono {field : Field} {answer : Bool} {depth more : Nat}
    (h : field.acceptsWithin defs tag depth = some answer) (hle : depth ≤ more) :
    field.acceptsWithin defs tag more = some answer := by
  rw [acceptsWithin, acceptsBy] at h ⊢
  split at h
  · exact h
  · exact Value.acceptsWithin_mono h hle

end Field

theorem Definitions.template_of_notMem {defs : Definitions} {name : String}
    (h : name ∉ defs.entries.map Prod.fst) : defs.template name = .any [] := by
  have hlookup : defs.entries.lookup name = none := by
    rw [List.lookup_eq_none_iff]
    intro entry hentry
    rw [bne_iff_ne]
    rintro rfl
    exact h (List.mem_map_of_mem hentry)
  rw [template, hlookup]
  rfl

namespace Value

variable {defs : Definitions} {tag : Tag}

/-- The least number of CHOICEs, one inside the other, with which there is an answer. -/
def Takes (defs : Definitions) (tag : Tag) (value : Value) (depth : Nat) : Prop :=
  value.acceptsWithin defs tag depth ≠ none ∧
    ∀ less < depth, value.acceptsWithin defs tag less = none

theorem exists_takes {value : Value} {depth : Nat}
    (h : value.acceptsWithin defs tag depth ≠ none) :
    ∃ least ≤ depth, Takes defs tag value least := by
  have hex : ∃ depth, value.acceptsWithin defs tag depth ≠ none := ⟨depth, h⟩
  refine ⟨Nat.find hex, Nat.find_min' hex h, Nat.find_spec hex, ?_⟩
  intro less hless
  exact not_not.1 (Nat.find_min hex hless)

theorem Takes.unique {value : Value} {a b : Nat} (ha : Takes defs tag value a)
    (hb : Takes defs tag value b) : a = b := by
  rcases Nat.lt_trichotomy a b with hlt | heq | hgt
  · exact absurd (hb.2 a hlt) ha.1
  · exact heq
  · exact absurd (ha.2 b hgt) hb.1

/-- What takes more than one CHOICE leads to a named one that takes one less. -/
theorem Takes.named {value : Value} {depth : Nat} (h : Takes defs tag value (depth + 2)) :
    ∃ type, Takes defs tag (defs.template type) (depth + 1) := by
  obtain ⟨hsome, hleast⟩ := h
  have hnone := hleast (depth + 1) (by omega)
  cases value with
  | choice alternatives =>
    rw [acceptsWithin_choice] at hsome hnone
    rw [Option.map_eq_none_iff] at hnone
    rw [ne_eq, Option.map_eq_none_iff] at hsome
    obtain ⟨field, -, hasked, hlost⟩ := Field.exists_of_firstAccepting
      (fun field answer hfield => Field.acceptsWithin_mono hfield (Nat.le_succ depth)) hsome hnone
    rw [Field.acceptsWithin, Field.acceptsBy] at hasked hlost
    cases hnumber : field.number with
    | some =>
      simp [hnumber] at hlost
    | none =>
      simp only [hnumber] at hasked hlost
      refine ⟨field.type, hasked, ?_⟩
      intro less hless
      by_contra hanswer
      obtain ⟨answer, hanswer⟩ := Option.ne_none_iff_exists'.1 hanswer
      rw [acceptsWithin_mono hanswer (Nat.le_of_lt_succ hless)] at hlost
      cases hlost
  | leaf | record | elements | tagged | any =>
    rw [acceptsWithin] at hnone
    cases hnone

theorem Takes.named_below {value : Value} {depth : Nat} (h : Takes defs tag value depth)
    {less : Nat} (hpos : 0 < less) (hless : less < depth) :
    ∃ type, Takes defs tag (defs.template type) less := by
  induction depth generalizing value with
  | zero => omega
  | succ depth ih =>
    obtain ⟨depth, rfl⟩ : ∃ fewer, depth = fewer + 1 := ⟨depth - 1, by omega⟩
    obtain ⟨type, htype⟩ := h.named
    rcases Nat.lt_or_eq_of_le (Nat.le_of_lt_succ hless) with hlt | rfl
    · exact ih htype hlt
    · exact ⟨type, htype⟩

theorem Takes.mem_names {type : String} {depth : Nat}
    (h : Takes defs tag (defs.template type) (depth + 1)) :
    type ∈ defs.entries.map Prod.fst := by
  by_contra hmissing
  have hnone := h.2 0 (by omega)
  rw [Definitions.template_of_notMem hmissing] at hnone
  cases hnone

/-- CHOICEs that lead from one to the next take different numbers, so they have different
names. -/
theorem Takes.le_choiceLimit {value : Value} {depth : Nat} (h : Takes defs tag value depth) :
    depth ≤ defs.choiceLimit := by
  classical
  have hnamed : ∀ less ∈ Finset.Ico 1 depth, ∃ type,
      Takes defs tag (defs.template type) less := by
    intro less hless
    rw [Finset.mem_Ico] at hless
    exact h.named_below hless.1 hless.2
  choose! name hname using hnamed
  have hcard : (Finset.Ico 1 depth).card ≤ (defs.entries.map Prod.fst).toFinset.card := by
    refine Finset.card_le_card_of_injOn name ?_ ?_
    · intro less hless
      have hpos := (Finset.mem_Ico.1 hless).1
      obtain ⟨fewer, rfl⟩ : ∃ fewer, less = fewer + 1 := ⟨less - 1, by omega⟩
      exact List.mem_toFinset.2 (hname _ hless).mem_names
    · intro a ha b hb hab
      have htakes := hname a ha
      rw [hab] at htakes
      exact htakes.unique (hname b hb)
  have hnames := List.toFinset_card_le (defs.entries.map Prod.fst)
  rw [List.length_map] at hnames
  rw [Nat.card_Ico] at hcard
  rw [Definitions.choiceLimit]
  omega

/-- An answer that can be had at all is had within the limit. -/
theorem accepts?_of_acceptsWithin {value : Value} {answer : Bool} {depth : Nat}
    (h : value.acceptsWithin defs tag depth = some answer) :
    value.accepts? defs tag = some answer := by
  obtain ⟨least, hle, htakes⟩ := exists_takes (Option.ne_none_iff_exists'.2 ⟨answer, h⟩)
  obtain ⟨other, hother⟩ := Option.ne_none_iff_exists'.1 htakes.1
  have hsame := acceptsWithin_mono hother hle
  rw [h] at hsame
  cases hsame
  exact acceptsWithin_mono hother htakes.le_choiceLimit

end Value

theorem Field.accepts?_of_acceptsWithin {defs : Definitions} {tag : Tag} {field : Field}
    {answer : Bool} {depth : Nat} (h : field.acceptsWithin defs tag depth = some answer) :
    field.accepts? defs tag = some answer := by
  rw [acceptsWithin, acceptsBy] at h
  rw [accepts?, acceptsWithin, acceptsBy]
  split at h
  · exact h
  · exact Value.accepts?_of_acceptsWithin h

end Asn1
