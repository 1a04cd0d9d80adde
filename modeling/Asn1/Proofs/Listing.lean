import Asn1.Listing
import Asn1.Proofs.Text.OneLine
import Asn1.Proofs.Tlv
import Mathlib.Data.List.Forall2

/-!
What has a listing, and what the listing shows. The octets have to be elements one after another,
and so does the content of every constructed element, down to a fixed depth. Each element has a
line of its own, which nothing in its content can break.
-/

namespace Asn1

open Text (OnOneLine)

section Texts

theorem Tag.onOneLine_of_universalName? {number : UInt32} {name : String}
    (h : universalName? number = some name) : OnOneLine name := by
  unfold universalName? at h
  split at h <;> cases h <;> simp [OnOneLine]

theorem Tag.onOneLine_text (tag : Tag) : OnOneLine tag.text := by
  have hbracketed {label : String} (hlabel : OnOneLine label) :
      OnOneLine ("[" ++ label ++ toString tag.number.toNat ++ "]" ++
        (if tag.constructed then " (constructed)" else "")) := by
    have hsuffix : OnOneLine (if tag.constructed then " (constructed)" else "") := by
      split <;> simp [OnOneLine]
    have hbrackets : OnOneLine "[" ∧ OnOneLine "]" := by simp [OnOneLine]
    simp [hlabel, hsuffix, hbrackets]
  rw [text]
  split
  · split
    · rename_i hname
      exact onOneLine_of_universalName? hname
    · exact hbracketed (by simp [OnOneLine])
  · exact hbracketed (by simp [OnOneLine])
  · exact hbracketed (by simp [OnOneLine])
  · exact hbracketed (by simp [OnOneLine])

theorem ObjectIdentifier.onOneLine_text (oid : ObjectIdentifier) : OnOneLine oid.text := by
  apply OnOneLine.intercalate (by simp [OnOneLine])
  intro text htext
  obtain ⟨arc, -, rfl⟩ := List.mem_map.1 htext
  exact Text.onOneLine_nat _

namespace Time.Timestamp

theorem onOneLine_yearText (year : Int) : OnOneLine (yearText year) := by
  have hminus : OnOneLine "-" := by simp [OnOneLine]
  have hplus : OnOneLine "+" := by simp [OnOneLine]
  rw [yearText]
  split_ifs <;> simp [hminus, hplus]

theorem onOneLine_fractionText (nanos : Nat) : OnOneLine (fractionText nanos) := by
  have hempty : OnOneLine "" := by simp [OnOneLine]
  have hpoint : OnOneLine "." := by simp [OnOneLine]
  rw [fractionText]
  split_ifs <;> simp [hempty, hpoint]

theorem onOneLine_text (instant : Instant) : OnOneLine (text instant) := by
  have hseparators : OnOneLine "-" ∧ OnOneLine "T" ∧ OnOneLine ":" ∧ OnOneLine "+00:00" := by
    simp [OnOneLine]
  simp only [text, OnOneLine.append_iff, Text.onOneLine_paddedDigits, onOneLine_yearText,
    onOneLine_fractionText, hseparators, and_true]

end Time.Timestamp

end Texts

namespace Listing

section Lines

theorem onOneLine_hex (octets : Octets) : OnOneLine (hex octets) := by
  rw [hex]
  split
  · have hellipsis : OnOneLine "..." := by simp [OnOneLine]
    exact OnOneLine.append_iff.2 ⟨Text.onOneLine_toHex _, hellipsis⟩
  · exact Text.onOneLine_toHex octets

theorem onOneLine_of_meaning? {tag : Tag} {content : Octets} {text : String}
    (h : meaning? tag content = some text) : OnOneLine text := by
  unfold meaning? at h
  split_ifs at h
  · cases h
    simp [OnOneLine]
  · split at h
    · cases h
      split <;> simp [OnOneLine]
    · cases h
  · obtain ⟨value, -, rfl⟩ := Option.map_eq_some_iff.1 h
    exact Text.onOneLine_int _
  · obtain ⟨oid, -, rfl⟩ := Option.map_eq_some_iff.1 h
    exact oid.onOneLine_text
  · obtain ⟨quoted, -, rfl⟩ := Option.map_eq_some_iff.1 h
    exact Text.onOneLine_quote quoted
  · obtain ⟨instant, -, rfl⟩ := Option.map_eq_some_iff.1 h
    exact Time.Timestamp.onOneLine_text instant
  · obtain ⟨instant, -, rfl⟩ := Option.map_eq_some_iff.1 h
    exact Time.Timestamp.onOneLine_text instant
  · split at h
    · rename_i unused octets
      cases h
      have hwords : OnOneLine "unused=" ∧ OnOneLine " " := by simp [OnOneLine]
      show OnOneLine ("unused=" ++ toString unused.toNat ++ " " ++ hex octets)
      simp [hwords, onOneLine_hex octets]
    · cases h

theorem onOneLine_contentText (tag : Tag) (content : Octets) :
    OnOneLine (contentText tag content) := by
  rw [contentText]
  cases hmeaning : meaning? tag content with
  | none => exact onOneLine_hex content
  | some text => exact onOneLine_of_meaning? hmeaning

theorem onOneLine_indentation (depth : Nat) : OnOneLine (indentation depth) := by
  apply OnOneLine.join
  intro text htext
  obtain ⟨-, rfl⟩ := List.mem_replicate.1 htext
  simp [OnOneLine]

theorem onOneLine_offsetText (offset : Nat) : OnOneLine (offsetText offset) := by
  have hdigits := Text.newline_notMem_toDigits 10 offset (by decide) (by decide)
  rw [offsetText, OnOneLine.ofList_iff, List.mem_append, not_or]
  refine ⟨?_, hdigits⟩
  rw [List.mem_replicate]
  rintro ⟨-, ⟨⟩⟩

theorem onOneLine_line (depth : Nat) (tlv : Tlv) : OnOneLine (line depth tlv) := by
  have hwords : OnOneLine ": " ∧ OnOneLine " len=" ∧ OnOneLine " " ∧ OnOneLine "" := by
    simp [OnOneLine]
  have hlength : OnOneLine s!" len={tlv.content.length}" := by
    show OnOneLine (" len=" ++ toString tlv.content.length)
    simp [hwords]
  have hcontent : OnOneLine (if tlv.tag.constructed ∨ (tlv.content.isEmpty ∧ tlv.tag ≠ .null)
      then "" else " " ++ contentText tlv.tag tlv.content) := by
    split
    · exact hwords.2.2.2
    · simp [hwords, onOneLine_contentText]
  simp only [line, OnOneLine.append_iff, onOneLine_offsetText, onOneLine_indentation,
    tlv.tag.onOneLine_text, hwords, hlength, hcontent, and_true]

/-- What the line of an element at `offset` begins with. -/
def margin (depth offset : Nat) : List Char :=
  List.replicate (5 - (toString offset).length) ' ' ++ (toString offset).toList ++ [':', ' '] ++
    List.replicate (2 * depth) ' '

theorem toList_indentation (depth : Nat) :
    (indentation depth).toList = List.replicate (2 * depth) ' ' := by
  rw [indentation, String.toList_join]
  induction depth with
  | zero => rfl
  | succ depth ih =>
    rw [List.replicate_succ, List.flatMap_cons, ih, Nat.mul_succ, Nat.add_comm,
      ← List.replicate_append_replicate]
    rfl

theorem margin_prefix_line (depth : Nat) (tlv : Tlv) :
    margin depth tlv.offset <+: (line depth tlv).toList := by
  have hmargin : margin depth tlv.offset =
      (offsetText tlv.offset ++ ": " ++ indentation depth).toList := by
    simp [margin, offsetText, toList_indentation, ← String.length_toList]
  have hfront (front a b c : String) : front.toList <+: (front ++ a ++ b ++ c).toList := by
    simp
  rw [hmargin, line]
  exact hfront _ _ _ _

end Lines

/-- Elements one after another, each with those inside it. -/
inductive Forest where
  | empty
  | cons (tlv : Tlv) (inside rest : Forest)

/-- An element, and how many elements it lies inside. -/
structure Entry where
  depth : Nat
  tlv : Tlv

namespace Forest

/-- Every element before those inside it, these before those after it. -/
def entries (depth : Nat) : Forest → List Entry
  | .empty => []
  | .cons tlv inside rest => ⟨depth, tlv⟩ :: inside.entries (depth + 1) ++ rest.entries depth

/-- The octets, of which the first lies at `offset`, are the elements of the forest. The content
of an element is those inside it, unless the element is primitive. -/
inductive Spells : Nat → Octets → Forest → Prop where
  | empty (offset : Nat) : Spells offset [] .empty
  | primitive {tlv : Tlv} {octets : Octets} {rest : Forest} (hlegible : tlv.Legible .basic)
      (hform : tlv.tag.constructed = false) (hrest : Spells tlv.endOffset octets rest) :
      Spells tlv.offset (tlv.raw ++ octets) (.cons tlv .empty rest)
  | constructed {tlv : Tlv} {octets : Octets} {inside rest : Forest}
      (hlegible : tlv.Legible .basic) (hform : tlv.tag.constructed = true)
      (hinside : Spells tlv.contentOffset tlv.content inside)
      (hrest : Spells tlv.endOffset octets rest) :
      Spells tlv.offset (tlv.raw ++ octets) (.cons tlv inside rest)

/-- Octets can be read in one way only. -/
theorem Spells.unique {offset : Nat} {octets : Octets} {a b : Forest}
    (ha : Spells offset octets a) (hb : Spells offset octets b) : a = b := by
  induction ha generalizing b with
  | empty offset =>
    generalize hempty : ([] : Octets) = octets at hb
    cases hb with
    | empty => rfl
    | primitive hlegible | constructed hlegible =>
      exact absurd (List.append_eq_nil_iff.1 hempty.symm).1 hlegible.raw_ne_nil
  | @primitive tlv octets rest hlegible hform hrest ih =>
    generalize hoffset : tlv.offset = offset at hb
    generalize hoctets : tlv.raw ++ octets = all at hb
    cases hb with
    | empty => exact absurd (List.append_eq_nil_iff.1 hoctets).1 hlegible.raw_ne_nil
    | primitive hlegible' hform' hrest' =>
      obtain ⟨rfl, rfl⟩ := hlegible.unique hlegible' hoffset hoctets
      rw [ih hrest']
    | constructed hlegible' hform' =>
      obtain ⟨rfl, rfl⟩ := hlegible.unique hlegible' hoffset hoctets
      rw [hform] at hform'
      cases hform'
  | @constructed tlv octets inside rest hlegible hform hinside hrest ihInside ihRest =>
    generalize hoffset : tlv.offset = offset at hb
    generalize hoctets : tlv.raw ++ octets = all at hb
    cases hb with
    | empty => exact absurd (List.append_eq_nil_iff.1 hoctets).1 hlegible.raw_ne_nil
    | primitive hlegible' hform' =>
      obtain ⟨rfl, rfl⟩ := hlegible.unique hlegible' hoffset hoctets
      rw [hform] at hform'
      cases hform'
    | constructed hlegible' hform' hinside' hrest' =>
      obtain ⟨rfl, rfl⟩ := hlegible.unique hlegible' hoffset hoctets
      rw [ihInside hinside', ihRest hrest']

/-- No constructed element lies inside `limit` others. -/
def NestsWithin (limit depth : Nat) (forest : Forest) : Prop :=
  ∀ entry ∈ forest.entries depth, entry.tlv.tag.constructed = true → entry.depth < limit

theorem nestsWithin_cons {limit depth : Nat} {tlv : Tlv} {inside rest : Forest} :
    (Forest.cons tlv inside rest).NestsWithin limit depth ↔
      (tlv.tag.constructed = true → depth < limit) ∧ inside.NestsWithin limit (depth + 1) ∧
        rest.NestsWithin limit depth := by
  simp only [NestsWithin, entries, List.cons_append, List.forall_mem_cons, List.forall_mem_append]

theorem nestsWithin_empty (limit depth : Nat) : Forest.empty.NestsWithin limit depth := nofun

/-- Each element lies where its offset says. -/
theorem Spells.located {offset : Nat} {octets : Octets} {forest : Forest}
    (h : Spells offset octets forest) {depth : Nat} {entry : Entry}
    (hentry : entry ∈ forest.entries depth) :
    ∃ before after, octets = before ++ entry.tlv.raw ++ after ∧
      entry.tlv.offset = offset + before.length := by
  induction h generalizing depth with
  | empty => cases hentry
  | @primitive tlv octets rest hlegible hform hrest ih =>
    rcases List.mem_cons.1 hentry with rfl | hentry
    · exact ⟨[], octets, rfl, rfl⟩
    · obtain ⟨before, after, rfl, hoffset⟩ := ih hentry
      refine ⟨tlv.raw ++ before, after, by simp only [List.append_assoc], ?_⟩
      rw [hoffset, List.length_append, Tlv.endOffset, Tlv.contentOffset, Tlv.raw,
        List.length_append]
      omega
  | @constructed tlv octets inside rest hlegible hform hinside hrest ihInside ihRest =>
    rcases List.mem_cons.1 hentry with rfl | hentry
    · exact ⟨[], octets, rfl, rfl⟩
    · rcases List.mem_append.1 hentry with hentry | hentry
      · obtain ⟨before, after, hcontent, hoffset⟩ := ihInside hentry
        refine ⟨tlv.header ++ before, after ++ octets, ?_, ?_⟩
        · rw [Tlv.raw, hcontent]
          simp only [List.append_assoc]
        · rw [hoffset, List.length_append, Tlv.contentOffset]
          omega
      · obtain ⟨before, after, rfl, hoffset⟩ := ihRest hentry
        refine ⟨tlv.raw ++ before, after, by simp only [List.append_assoc], ?_⟩
        rw [hoffset, List.length_append, Tlv.endOffset, Tlv.contentOffset, Tlv.raw,
          List.length_append]
        omega

/-- The lines of the elements, in their order. -/
def lines (depth : Nat) (forest : Forest) : List String :=
  (forest.entries depth).map fun entry => line entry.depth entry.tlv

theorem lines_cons {depth : Nat} {tlv : Tlv} {inside rest : Forest} :
    (Forest.cons tlv inside rest).lines depth =
      line depth tlv :: inside.lines (depth + 1) ++ rest.lines depth := by
  simp [lines, entries]

end Forest

/-- One step of the walk: an element has its line, and so have those inside it. -/
theorem lines_next_eq_ok_iff {depth : Nat} {tlv : Tlv} {rest : Tlv.Stream}
    {texts : List String} :
    lines depth (.next tlv rest) = .ok texts ↔ ∃ inside more,
      (if tlv.tag.constructed then depth < depthLimit ∧
          lines (depth + 1) (Tlv.stream .basic tlv.contentOffset tlv.content) = .ok inside
        else inside = []) ∧
        lines depth rest = .ok more ∧ texts = line depth tlv :: inside ++ more := by
  rw [lines]
  grind

theorem spells_of_lines {depth offset : Nat} {octets : Octets} {texts : List String}
    (h : lines depth (Tlv.stream .basic offset octets) = .ok texts) :
    ∃ forest, Forest.Spells offset octets forest ∧ forest.NestsWithin depthLimit depth ∧
      texts = forest.lines depth := by
  cases hstream : Tlv.stream .basic offset octets with
  | done =>
    obtain rfl := Tlv.eq_nil_of_stream_done hstream
    rw [hstream, lines] at h
    cases h
    exact ⟨.empty, .empty offset, Forest.nestsWithin_empty _ _, rfl⟩
  | broken error =>
    rw [hstream, lines] at h
    cases h
  | next tlv more =>
    obtain ⟨behind, hread, rfl⟩ := Tlv.read_of_stream_next hstream
    have hlengths := Tlv.read_length hread
    rw [hstream, lines_next_eq_ok_iff] at h
    obtain ⟨insideTexts, restTexts, hinside, hrest, rfl⟩ := h
    obtain ⟨rest, hspells, hwithin, rfl⟩ := spells_of_lines hrest
    have hlegible := Tlv.legible_of_read hread
    rw [Tlv.raw_of_read hread, ← Tlv.offset_of_read hread]
    split at hinside
    · rename_i hform
      obtain ⟨hdepth, hinside⟩ := hinside
      obtain ⟨inside, hcontent, hless, rfl⟩ := spells_of_lines hinside
      exact ⟨.cons tlv inside rest, .constructed hlegible hform hcontent hspells,
        Forest.nestsWithin_cons.2 ⟨fun _ => hdepth, hless, hwithin⟩, Forest.lines_cons.symm⟩
    · rename_i hform
      subst hinside
      exact ⟨.cons tlv .empty rest, .primitive hlegible (by simpa using hform) hspells,
        Forest.nestsWithin_cons.2 ⟨fun h => absurd h hform, Forest.nestsWithin_empty _ _, hwithin⟩,
        rfl⟩
termination_by octets.length

theorem lines_of_spells {offset : Nat} {octets : Octets} {forest : Forest}
    (h : Forest.Spells offset octets forest) {depth : Nat}
    (hwithin : forest.NestsWithin depthLimit depth) :
    lines depth (Tlv.stream .basic offset octets) = .ok (forest.lines depth) := by
  induction h generalizing depth with
  | empty offset =>
    rw [Tlv.stream_nil, lines]
    rfl
  | @primitive tlv octets rest hlegible hform hrest ih =>
    obtain ⟨-, -, hwithin⟩ := Forest.nestsWithin_cons.1 hwithin
    rw [Tlv.stream_of_read (hlegible.read octets), lines_next_eq_ok_iff]
    exact ⟨[], _, by simp [hform], ih hwithin, Forest.lines_cons⟩
  | @constructed tlv octets inside rest hlegible hform hinside hrest ihInside ihRest =>
    obtain ⟨hdepth, hless, hwithin⟩ := Forest.nestsWithin_cons.1 hwithin
    rw [Tlv.stream_of_read (hlegible.read octets), lines_next_eq_ok_iff]
    refine ⟨_, _, ?_, ihRest hwithin, Forest.lines_cons⟩
    rw [if_pos hform]
    exact ⟨hdepth hform, ihInside hless⟩

theorem listing_eq_ok_iff {octets : Octets} {text : String} :
    listing octets = .ok text ↔ ∃ forest, Forest.Spells 0 octets forest ∧
      forest.NestsWithin depthLimit 0 ∧ text = String.join ((forest.lines 0).map (· ++ "\n")) := by
  rw [listing]
  constructor
  · intro h
    cases hlines : lines 0 (Tlv.stream .basic 0 octets) with
    | error error =>
      rw [hlines] at h
      cases h
    | ok texts =>
      rw [hlines] at h
      cases h
      obtain ⟨forest, hspells, hwithin, rfl⟩ := spells_of_lines hlines
      exact ⟨forest, hspells, hwithin, rfl⟩
  · rintro ⟨forest, hspells, hwithin, rfl⟩
    rw [lines_of_spells hspells hwithin]
    rfl

/-- A line of the listing for the element. -/
structure ShownBy (entry : Entry) (text : String) : Prop where
  margin : margin entry.depth entry.tlv.offset <+: text.toList
  unbroken : '\n' ∉ text.toList

theorem forall₂_shownBy (entries : List Entry) :
    List.Forall₂ ShownBy entries (entries.map fun entry => line entry.depth entry.tlv) := by
  rw [List.forall₂_map_right_iff, List.forall₂_same]
  intro entry _
  exact ⟨margin_prefix_line entry.depth entry.tlv, onOneLine_line entry.depth entry.tlv⟩

end Listing

end Asn1
