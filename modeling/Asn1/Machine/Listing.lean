import Asn1.Listing
import Asn1.Machine.Primitive
import Asn1.Machine.Reader

/-!
Listings as a machine writes them.
-/

namespace Asn1.Machine

namespace Listing

open Asn1.Listing (depthLimit hexLimit indentation offsetText)

def hex (octets : Octets) : Option String := do
  if hexLimit < octets.length then
    let shown ← slice octets 0 hexLimit
    return Octets.toHex shown ++ "..."
  else return Octets.toHex octets

/-- The text for what was decoded, if it could be. -/
def textOf {α : Type} (text : α → String) (decoded : Checked Malformation α) :
    Option (Option String) :=
  decoded.run.map fun outcome => outcome.toOption.map text

/-- The unused count of a bit string, and its octets. -/
def bitsText : Octets → Option (Option String)
  | [] => some none
  | unused :: octets => (hex octets).map fun shown => some s!"unused={unused.toNat} {shown}"

/-- What content means under a universal tag, if it means anything. -/
def meaning? (tag : Tag) (content : Octets) : Option (Option String) :=
  if tag = .integer ∨ tag = .enumerated then
    textOf (fun value => toString value.toInt) (Integer.decode .basic content)
  else if tag = .objectIdentifier then
    textOf ObjectIdentifier.text (Identifier.decode content)
  else if tag = .utcTime then
    textOf Time.Timestamp.text (Utc.decode .basic content)
  else if tag = .generalizedTime then
    textOf Time.Timestamp.text (Generalized.decode .basic content)
  else if tag = .bitString then bitsText content
  else some (Asn1.Listing.meaning? tag content)

def contentText (tag : Tag) (content : Octets) : Option String := do
  match ← meaning? tag content with
  | some text => return text
  | none => hex content

/-- One line, without its end. -/
def line (depth : Nat) (span : Span) : Option String := do
  let front := offsetText span.offset ++ ": " ++ indentation depth ++ span.tag.text
    ++ s!" len={span.content.length}"
  if span.tag.constructed ∨ (span.content.isEmpty ∧ span.tag ≠ .null) then return front
  else
    let text ← contentText span.tag span.content
    return front ++ (" " ++ text)

mutual

/-- The lines of the elements inside an element that lies inside `depth` others. -/
def linesInside (depth : Nat) (span : Span) : Checked Error (List String) := do
  if span.tag.constructed then
    if depthLimit ≤ depth then throw (.malformed span.offset .tooDeep)
    else
      let offset ← span.contentOffset
      let depth ← add depth 1
      lines depth (.start .basic span.content offset)
  else return []
termination_by 2 * span.content.length + 2
decreasing_by
  rw [Cursor.remaining_start]
  omega

/-- The lines of all elements that are left. -/
def lines (depth : Nat) (cursor : Cursor) : Checked Error (List String) := do
  if cursor.hasRemaining then
    let ⟨(span, cursor), _hless⟩ ← cursor.next
    let first ← line depth span
    let inside ← linesInside depth span
    let more ← lines depth cursor
    return first :: inside ++ more
  else return []
termination_by 2 * cursor.remaining + 1
decreasing_by
  · simp only [Cursor.Advances] at _hless
    omega
  · simp only [Cursor.Advances] at _hless
    omega

end

end Listing

/-- The listing of all that the octets hold. -/
def listing (octets : Octets) : Checked Error String := do
  let lines ← Listing.lines 0 (.start .basic octets 0)
  return String.join (lines.map (· ++ "\n"))

end Asn1.Machine
