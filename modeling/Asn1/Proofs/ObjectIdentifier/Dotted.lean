import Mathlib.Data.List.Forall2
import Asn1.Proofs.ObjectIdentifier

/-!
Dotted notation. What is read are decimal numbers with a dot between any two of them, where a plus
sign may stand before each number. What is written has no sign, so that an identifier is read back
from its text as it is from its content.
-/

namespace Asn1.ObjectIdentifier

/-- A run of digits and the number that they write. -/
def Decimal (text : List Char) (number : Nat) : Prop :=
  text ≠ [] ∧ (∀ c ∈ text, c.isDigit = true) ∧ Nat.ofDigitChars 10 text 0 = number

/-- The same, or behind a plus sign. -/
def SignedDecimal (text : List Char) (number : Nat) : Prop :=
  Decimal text number ∨ ∃ digits, text = '+' :: digits ∧ Decimal digits number

/-- Numbers with a dot between any two of them. -/
def Dotted (written : List Char → Nat → Prop) (text : List Char) (numbers : List Nat) : Prop :=
  ∃ pieces, text = ['.'].intercalate pieces ∧ List.Forall₂ written pieces numbers

theorem Decimal.notMem {text : List Char} {number : Nat} (h : Decimal text number) {c : Char}
    (hc : c.isDigit = false) : c ∉ text := by
  intro hmem
  have hdigit := h.2.1 c hmem
  rw [hc] at hdigit
  cases hdigit

theorem decimal_toDigits (number : Nat) : Decimal (Nat.toDigits 10 number) number :=
  ⟨Nat.toDigits_ne_nil, fun _ hmem => Nat.isDigit_of_mem_toDigits (by decide) (by decide) hmem,
    Nat.ofDigitChars_ten_toDigits⟩

theorem SignedDecimal.dot_notMem {text : List Char} {number : Nat}
    (h : SignedDecimal text number) : '.' ∉ text := by
  rcases h with hplain | ⟨digits, rfl, hplain⟩
  · exact hplain.notMem rfl
  · simp [hplain.notMem (c := '.') rfl]

theorem signedDecimal_cons_iff (c : Char) (rest : List Char) (number : Nat) :
    SignedDecimal (c :: rest) number ↔
      Decimal (if c = '+' then rest else c :: rest) number := by
  constructor
  · rintro (hplain | ⟨digits, hsigned, hplain⟩)
    · have hsign : c ≠ '+' := by
        rintro rfl
        exact hplain.notMem (c := '+') rfl (by simp)
      rwa [if_neg hsign]
    · obtain ⟨rfl, rfl⟩ := List.cons.inj hsigned
      rwa [if_pos rfl]
  · intro h
    split at h
    · rename_i hsign
      exact .inr ⟨rest, by rw [hsign], h⟩
    · exact .inl h

theorem foldl_eq_ofDigitChars (digits : List Char) :
    digits.foldl (fun value c => value * 10 + (c.toNat - 48)) 0 =
      Nat.ofDigitChars 10 digits 0 := by
  rw [Nat.ofDigitChars_eq_foldl]
  congr 1
  funext value c
  rw [Nat.mul_comm]
  rfl

/-- The digits that are left without a sign decide. -/
private theorem parseArc?_unsigned {text digits : List Char}
    (h : (if text.head? = some '+' then text.tail else text) = digits) (arc : UInt64) :
    parseArc? text = some arc ↔ Decimal digits arc.toNat := by
  have hwell : (digits.isEmpty = true ∨ (!digits.all Char.isDigit) = true) ↔
      ¬ (digits ≠ [] ∧ ∀ c ∈ digits, c.isDigit = true) := by
    simp [or_iff_not_imp_left]
  have hlimit := toNat_le_arcLimit arc
  simp only [parseArc?, h, foldl_eq_ofDigitChars, hwell, Decimal]
  by_cases hdigits : digits ≠ [] ∧ ∀ c ∈ digits, c.isDigit = true
  · rw [if_neg (not_not_intro hdigits)]
    split
    · rename_i hfits
      have hword : (UInt64.ofNat (Nat.ofDigitChars 10 digits 0)).toNat =
          Nat.ofDigitChars 10 digits 0 := by
        simp only [arcLimit_eq] at hfits
        rw [UInt64.toNat_ofNat']
        omega
      rw [Option.some.injEq, ← UInt64.toNat_inj, hword, ← and_assoc]
      exact (and_iff_right hdigits).symm
    · rename_i hlarge
      constructor
      · rintro ⟨⟩
      · rintro ⟨-, -, hvalue⟩
        omega
  · rw [if_pos hdigits]
    constructor
    · rintro ⟨⟩
    · rintro ⟨hsome, hall, -⟩
      exact absurd ⟨hsome, hall⟩ hdigits

theorem parseArc?_eq_some_iff (text : List Char) (arc : UInt64) :
    parseArc? text = some arc ↔ SignedDecimal text arc.toNat := by
  cases text with
  | nil =>
    rw [parseArc?_unsigned rfl]
    simp [SignedDecimal]
  | cons c rest =>
    rw [signedDecimal_cons_iff, parseArc?_unsigned]
    simp

theorem parseArcs_eq_ok_iff (pieces : List (List Char)) (arcs : List UInt64) :
    parseArcs pieces = .ok arcs ↔ List.Forall₂ SignedDecimal pieces (arcs.map UInt64.toNat) := by
  induction pieces generalizing arcs with
  | nil => simp [parseArcs, eq_comm]
  | cons text pieces ih =>
    rw [parseArcs]
    constructor
    · intro h
      split at h
      · cases h
      · rename_i arc harc
        split at h
        · cases h
        · rename_i arcs' harcs
          cases h
          rw [List.map_cons]
          exact .cons ((parseArc?_eq_some_iff text arc).1 harc) ((ih arcs').1 harcs)
    · intro h
      cases arcs with
      | nil => cases h
      | cons arc arcs =>
        rw [List.map_cons, List.forall₂_cons] at h
        rw [(parseArc?_eq_some_iff text arc).2 h.1, (ih arcs).2 h.2]

theorem splitArcs_eq_splitOn (separator : Char) (text : List Char) :
    splitArcs separator text = text.splitOn separator := by
  induction text with
  | nil => rfl
  | cons c rest ih =>
    obtain ⟨piece, pieces, hpieces⟩ := List.exists_cons_of_ne_nil (List.splitOn_ne_nil separator rest)
    rw [splitArcs, ih, List.splitOn_cons_eq_if_modifyHead, hpieces]
    simp

private theorem notMem_pieces {written : List Char → Nat → Prop} {c : Char}
    {pieces : List (List Char)} {numbers : List Nat} (h : List.Forall₂ written pieces numbers)
    (hwritten : ∀ piece number, written piece number → c ∉ piece) :
    ∀ piece ∈ pieces, c ∉ piece := by
  have hboth := h.imp fun piece number hpiece => And.intro (hwritten piece number hpiece) hpiece
  exact ((List.forall₂_and_left pieces numbers).1 hboth).1

/-- A text is read as an identifier just if it writes the arcs of one. -/
theorem parse_eq_ok_iff (text : String) (oid : ObjectIdentifier) :
    parse text = .ok oid ↔
      Dotted SignedDecimal text.toList (oid.arcs.map UInt64.toNat) ∧
        Identifies (oid.arcs.map UInt64.toNat) := by
  rw [parse, splitArcs_eq_splitOn]
  constructor
  · intro h
    split at h
    · cases h
    · rename_i arcs harcs
      obtain ⟨rfl, hidentifies⟩ := (new_eq_ok_iff arcs oid).1 h
      exact ⟨⟨_, (List.intercalate_splitOn '.').symm, (parseArcs_eq_ok_iff _ _).1 harcs⟩,
        hidentifies⟩
  · rintro ⟨⟨pieces, htext, hpieces⟩, hidentifies⟩
    have hsome : pieces ≠ [] := by
      rintro rfl
      rw [List.forall₂_nil_left_iff.1 hpieces] at hidentifies
      exact hidentifies
    have hdots := notMem_pieces hpieces fun _ _ hpiece => hpiece.dot_notMem
    rw [htext, List.splitOn_intercalate '.' hdots hsome, (parseArcs_eq_ok_iff _ _).2 hpieces]
    exact (new_eq_ok_iff _ _).2 ⟨rfl, hidentifies⟩

theorem exists_parse_iff (text : String) (numbers : List Nat) :
    (∃ oid, parse text = .ok oid ∧ oid.arcs.map UInt64.toNat = numbers) ↔
      Dotted SignedDecimal text.toList numbers ∧ (∀ number ∈ numbers, number < 2 ^ 64) ∧
        Identifies numbers := by
  constructor
  · rintro ⟨oid, h, rfl⟩
    obtain ⟨hdotted, hidentifies⟩ := (parse_eq_ok_iff text oid).1 h
    refine ⟨hdotted, ?_, hidentifies⟩
    intro number hmem
    obtain ⟨arc, -, rfl⟩ := List.mem_map.1 hmem
    exact arc.toNat_lt
  · rintro ⟨hdotted, hwords, hidentifies⟩
    have hnumbers : (numbers.map UInt64.ofNat).map UInt64.toNat = numbers := by
      rw [List.map_map, List.map_congr_left (g := id), List.map_id]
      intro number hmem
      exact UInt64.toNat_ofNat_of_lt' (hwords number hmem)
    refine ⟨⟨numbers.map UInt64.ofNat⟩, (parse_eq_ok_iff _ _).2 ?_, hnumbers⟩
    rw [hnumbers]
    exact ⟨hdotted, hidentifies⟩

theorem mem_intercalate_iff {c separator : Char} (pieces : List (List Char)) (h : c ≠ separator) :
    c ∈ [separator].intercalate pieces ↔ ∃ piece ∈ pieces, c ∈ piece := by
  induction pieces with
  | nil => simp
  | cons piece pieces ih =>
    cases pieces with
    | nil => simp
    | cons next pieces =>
      rw [List.intercalate_cons_cons, List.mem_append, List.mem_append, List.mem_singleton, ih]
      simp [h]

/-- Where there is no plus sign, every number is written by its digits alone. -/
theorem dotted_decimal_iff (text : List Char) (numbers : List Nat) :
    Dotted Decimal text numbers ↔ Dotted SignedDecimal text numbers ∧ '+' ∉ text := by
  constructor
  · rintro ⟨pieces, rfl, hpieces⟩
    refine ⟨⟨pieces, rfl, hpieces.imp fun _ _ h => .inl h⟩, ?_⟩
    rw [mem_intercalate_iff pieces (by decide)]
    rintro ⟨piece, hmem, hsign⟩
    exact notMem_pieces hpieces (fun _ _ hpiece => hpiece.notMem rfl) piece hmem hsign
  · rintro ⟨⟨pieces, rfl, hpieces⟩, hsign⟩
    rw [mem_intercalate_iff pieces (by decide)] at hsign
    have hplain : ∀ piece ∈ pieces, '+' ∉ piece := fun piece hmem h => hsign ⟨piece, hmem, h⟩
    refine ⟨pieces, rfl, ((List.forall₂_and_left _ _).2 ⟨hplain, hpieces⟩).imp ?_⟩
    rintro piece number ⟨hnosign, hdecimal | ⟨digits, rfl, -⟩⟩
    · exact hdecimal
    · exact absurd List.mem_cons_self hnosign

/-- What is read are dotted numbers of 64 bits that identify an object. Among the texts without a
plus sign these are the ones whose numbers are runs of digits. -/
theorem parsed_by_grammar_up_to_plus_signs (text : String) (numbers : List Nat) :
    ((∃ oid, parse text = .ok oid ∧ oid.arcs.map UInt64.toNat = numbers) ↔
      Dotted SignedDecimal text.toList numbers ∧ (∀ number ∈ numbers, number < 2 ^ 64) ∧
        Identifies numbers) ∧
    ('+' ∉ text.toList →
      ((∃ oid, parse text = .ok oid ∧ oid.arcs.map UInt64.toNat = numbers) ↔
        Dotted Decimal text.toList numbers ∧ (∀ number ∈ numbers, number < 2 ^ 64) ∧
          Identifies numbers)) := by
  refine ⟨exists_parse_iff text numbers, ?_⟩
  intro hsign
  rw [exists_parse_iff, dotted_decimal_iff, and_iff_left hsign]

theorem arc_with_leading_zero_parsed :
    '+' ∉ "2.999.03".toList ∧
      ∃ oid, parse "2.999.03" = .ok oid ∧ oid.arcs.map UInt64.toNat = [2, 999, 3] := by
  have hsign : '+' ∉ "2.999.03".toList := by decide
  refine ⟨hsign, ((parsed_by_grammar_up_to_plus_signs _ _).2 hsign).2 ⟨?_, by decide, ?_⟩⟩
  · refine ⟨[['2'], ['9', '9', '9'], ['0', '3']], by decide, ?_⟩
    have hzero : Decimal ['0', '3'] 3 := ⟨by simp, by simp, rfl⟩
    exact .cons (decimal_toDigits 2) (.cons (decimal_toDigits 999) (.cons hzero .nil))
  · exact ⟨by decide, by decide, by decide⟩

/-- A sign is no digit, and yet the text is read. -/
theorem plus_sign_parsed :
    parse "+1.2" = .ok ⟨[1, 2]⟩ ∧ ¬ ∃ numbers, Dotted Decimal "+1.2".toList numbers := by
  refine ⟨by decide +kernel, ?_⟩
  rintro ⟨numbers, hdotted⟩
  exact ((dotted_decimal_iff _ _).1 hdotted).2 (by decide)

theorem dotted_text (oid : ObjectIdentifier) :
    Dotted Decimal oid.text.toList (oid.arcs.map UInt64.toNat) := by
  refine ⟨oid.arcs.map fun arc => Nat.toDigits 10 arc.toNat, ?_, ?_⟩
  · rw [text, String.toList_intercalate, List.map_map]
    simp [Function.comp_def]
  · rw [List.forall₂_map_left_iff, List.forall₂_map_right_iff, List.forall₂_same]
    intro arc _
    exact decimal_toDigits arc.toNat

theorem parse_text {oid : ObjectIdentifier} (h : Identifies (oid.arcs.map UInt64.toNat)) :
    parse oid.text = .ok oid :=
  (parse_eq_ok_iff _ _).2 ⟨((dotted_decimal_iff _ _).1 (dotted_text oid)).1, h⟩

/-- An identifier is read back from its content, where the sum of its first two arcs fits into a
word, and from its text. A content that is read is the one that is written, and what is read are
the rows of minimal groups for numbers of 64 bits. -/
theorem content_and_text_read_back :
    (∀ arcs oid, new arcs = .ok oid ↔ oid.arcs = arcs ∧ Identifies (arcs.map UInt64.toNat)) ∧
    (∀ arcs oid, new arcs = .ok oid →
      (∀ number ∈ packed arcs, number < 2 ^ 64) ∧
        (∃ content, oid.encode = .ok content ∧ decode content = .ok oid) ∧
        parse oid.text = .ok oid) ∧
    (∀ content oid, decode content = .ok oid →
      new oid.arcs = .ok oid ∧ oid.encode = .ok content) ∧
    ∀ content, (∃ oid, decode content = .ok oid) ↔
      ∃ numbers : List Octets, numbers ≠ [] ∧
        (∀ octets ∈ numbers, Base128.Minimal octets ∧ Base128.value octets < 2 ^ 64) ∧
        content = numbers.flatten := by
  refine ⟨new_eq_ok_iff, ?_, ?_, exists_decode_iff⟩
  · intro arcs oid h
    obtain ⟨rfl, hidentifies⟩ := (new_eq_ok_iff arcs oid).1 h
    have hencode := (encode_eq_ok_iff oid _).2 ⟨(validate_eq_ok_iff _).2 hidentifies, rfl⟩
    exact ⟨packed_lt hidentifies, ⟨_, hencode, decode_encode hencode⟩, parse_text hidentifies⟩
  · intro content oid h
    have hencode := encode_of_decode h
    have hvalid := ((encode_eq_ok_iff oid content).1 hencode).1
    exact ⟨(new_eq_ok_iff _ _).2 ⟨rfl, (validate_eq_ok_iff _).1 hvalid⟩, hencode⟩

/-- The largest second arc and the largest arc of all, and an identifier that is read from its
content. -/
theorem largest_arcs_read_back :
    new [2, 18446744073709551535, 18446744073709551615] =
        .ok ⟨[2, 18446744073709551535, 18446744073709551615]⟩ ∧
      (∃ content, encode ⟨[2, 18446744073709551535, 18446744073709551615]⟩ = .ok content ∧
        decode content = .ok ⟨[2, 18446744073709551535, 18446744073709551615]⟩) ∧
      decode [0x88, 0x37, 0x03] = .ok ⟨[2, 999, 3]⟩ ∧
      encode ⟨[2, 999, 3]⟩ = .ok [0x88, 0x37, 0x03] := by
  obtain ⟨-, hnew, hdecode, -⟩ := content_and_text_read_back
  have hlargest : new [2, 18446744073709551535, 18446744073709551615] =
      .ok ⟨[2, 18446744073709551535, 18446744073709551615]⟩ := rfl
  have hread : decode [0x88, 0x37, 0x03] = .ok ⟨[2, 999, 3]⟩ := by decide +kernel
  exact ⟨hlargest, (hnew _ _ hlargest).2.1, hread, (hdecode _ _ hread).2⟩

end Asn1.ObjectIdentifier
