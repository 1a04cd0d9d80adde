import Asn1.Machine.Listing
import Asn1.Proofs.Machine.Primitive
import Asn1.Proofs.Machine.Reader

/-!
Listing does not fault. Content lies behind a header whatever it means, and nobody goes deeper
than the limit.
-/

namespace Asn1.Machine

namespace Listing

open Asn1.Listing (depthLimit hexLimit)

theorem hex_eq (octets : Octets) : hex octets = some (Asn1.Listing.hex octets) := by
  rw [hex, Asn1.Listing.hex]
  split
  · rename_i hlong
    have hslice : slice octets 0 hexLimit = some (octets.take hexLimit) := by
      rw [slice_of_le (Nat.zero_add _).symm (by omega), List.drop_zero]
    rw [hslice]
    rfl
  · rfl

theorem textOf_settled {α : Type} (text : α → String) (outcome : Except Malformation α) :
    textOf text (settled outcome) = some (outcome.toOption.map text) := rfl

theorem bitsText_eq (content : Octets) :
    bitsText content = some (Asn1.Listing.meaning? .bitString content) := by
  cases content with
  | nil => rfl
  | cons unused octets =>
    rw [bitsText, hex_eq]
    rfl

theorem meaning?_eq (tag : Tag) {content : Octets} (hshort : content.length + 2 < wordLimit) :
    meaning? tag content = some (Asn1.Listing.meaning? tag content) := by
  rw [meaning?]
  split_ifs with hinteger hidentifier hutc hgeneralized hbits
  · rw [Integer.decode_eq, textOf_settled]
    rcases hinteger with rfl | rfl <;> rfl
  · rw [Identifier.decode_eq (by omega), textOf_settled, hidentifier]
    rfl
  · rw [Utc.decode_eq .basic hshort, textOf_settled, hutc]
    rfl
  · rw [Generalized.decode_eq .basic hshort, textOf_settled, hgeneralized]
    rfl
  · rw [bitsText_eq, hbits]
  · rfl

theorem contentText_eq (tag : Tag) {content : Octets} (hshort : content.length + 2 < wordLimit) :
    contentText tag content = some (Asn1.Listing.contentText tag content) := by
  rw [contentText, meaning?_eq tag hshort, Asn1.Listing.contentText, hex_eq]
  cases Asn1.Listing.meaning? tag content <;> rfl

theorem line_eq (depth : Nat) {tlv : Tlv} (h : Addressed tlv) :
    line depth (.of tlv) = some (Asn1.Listing.line depth tlv) := by
  have hshort : tlv.content.length + 2 < wordLimit := by
    have hheader := h.header
    have hend := h.endOffset
    rw [Tlv.endOffset, Tlv.contentOffset] at hend
    omega
  simp only [line, Asn1.Listing.line, Span.of, contentText_eq tlv.tag hshort]
  split
  · rw [String.append_empty]
    rfl
  · rfl

/-- The lines of the elements inside an element. -/
def linesOfContent (depth : Nat) (tlv : Tlv) : Except Error (List String) :=
  if tlv.tag.constructed then
    if depthLimit ≤ depth then .error (.malformed tlv.offset .tooDeep)
    else Asn1.Listing.lines (depth + 1) (Tlv.stream .basic tlv.contentOffset tlv.content)
  else .ok []

theorem lines_next_eq (depth : Nat) (tlv : Tlv) (rest : Tlv.Stream) :
    Asn1.Listing.lines depth (.next tlv rest) =
      (linesOfContent depth tlv).bind fun inside =>
        (Asn1.Listing.lines depth rest).map (Asn1.Listing.line depth tlv :: inside ++ ·) := by
  rw [Asn1.Listing.lines]
  simp only [linesOfContent]
  cases (if tlv.tag.constructed = true then
      if depthLimit ≤ depth then Except.error (Error.malformed tlv.offset .tooDeep)
      else Asn1.Listing.lines (depth + 1) (Tlv.stream .basic tlv.contentOffset tlv.content)
    else .ok [] : Except Error (List String)) with
  | error error => rfl
  | ok inside =>
    simp only [Except.bind]
    cases Asn1.Listing.lines depth rest <;> rfl

/-- What one element adds, if the same holds of its content. -/
theorem linesInside_eq {depth : Nat} {tlv : Tlv} (haddressed : Addressed tlv)
    (hcontent : ∀ cursor : Cursor, cursor.Sound →
      cursor.stream = Tlv.stream .basic tlv.contentOffset tlv.content →
      lines (depth + 1) cursor = settled (Asn1.Listing.lines (depth + 1) cursor.stream)) :
    linesInside depth (.of tlv) = settled (linesOfContent depth tlv) := by
  have htag : (Span.of tlv).tag = tlv.tag := rfl
  rw [linesInside.eq_def, linesOfContent, contentOffset_of haddressed]
  by_cases hconstructed : tlv.tag.constructed = true
  · simp only [htag, if_pos hconstructed]
    by_cases hdeep : depthLimit ≤ depth
    · rw [if_pos hdeep, if_pos hdeep]
      rfl
    · have hword : depth + 1 < wordLimit := by
        have hlimit : depthLimit < wordLimit := by decide
        omega
      have hsound : (Cursor.start .basic tlv.content tlv.contentOffset).Sound :=
        .start haddressed.endOffset .basic
      simp only [if_neg hdeep, add_of_lt hword, lift_some, settled_ok_bind,
        Span.of, hcontent _ hsound (Cursor.stream_start _ _ _), Cursor.stream_start]
  · simp only [htag, if_neg hconstructed]
    rfl

/-- The induction is on what is left, the content of an element being less than the element. -/
theorem lines_eq (depth : Nat) (stream : Tlv.Stream) {cursor : Cursor} (hsound : cursor.Sound)
    (hstream : cursor.stream = stream) :
    lines depth cursor = settled (Asn1.Listing.lines depth cursor.stream) := by
  match stream with
  | .done =>
    rw [lines.eq_def, Cursor.hasRemaining_of_done hstream, hstream, Asn1.Listing.lines]
    rfl
  | .broken error =>
    obtain ⟨hremaining, hnext⟩ := Cursor.next_of_broken hsound hstream
    rw [lines.eq_def, if_pos hremaining, hnext, hstream, Asn1.Listing.lines]
    rfl
  | .next tlv rest =>
    obtain ⟨hremaining, _, hnext⟩ := Cursor.next_of_stream hsound hstream
    obtain ⟨hbeyond, hrest, haddressed⟩ := Cursor.stream_beyond hsound hstream
    have hinside : linesInside depth (.of tlv) = settled (linesOfContent depth tlv) :=
      linesInside_eq haddressed fun inner hinner hcontent => lines_eq (depth + 1)
        (Tlv.stream .basic tlv.contentOffset tlv.content) hinner hcontent
    rw [lines.eq_def, if_pos hremaining, hnext, hstream, lines_next_eq]
    simp only [settled_ok_bind, line_eq depth haddressed, lift_some, hinside]
    refine settled_bind fun inside _ => ?_
    rw [lines_eq depth rest hbeyond hrest, hrest]
    exact settled_map _ _
termination_by stream.weight
decreasing_by
  · have := Tlv.weight_stream_le .basic tlv.contentOffset tlv.content
    simp only [Tlv.Stream.weight, Tlv.weight]
    omega
  · simp only [Tlv.Stream.weight, Tlv.weight]
    omega

end Listing

theorem listing_eq {octets : Octets} (hword : octets.length < wordLimit) :
    listing octets = settled (Asn1.listing octets) := by
  have hsound : (Cursor.start .basic octets 0).Sound := .start (by omega) .basic
  rw [listing, Listing.lines_eq 0 _ hsound rfl, Asn1.listing]
  exact settled_map _ _

end Asn1.Machine
