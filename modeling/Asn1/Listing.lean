import Asn1.Primitive
import Asn1.Time.Timestamp
import Asn1.Tlv.Stream

/-!
Any octets that can be read under the basic rules as an indented listing, one
line for each tag, length and content.
-/

namespace Asn1.Listing

/-- The most octets shown in full. -/
def hexLimit : Nat := 32

/-- The most constructed elements around a constructed one. -/
def depthLimit : Nat := 64

def hex (octets : Octets) : String :=
  if hexLimit < octets.length then Octets.toHex (octets.take hexLimit) ++ "..."
  else Octets.toHex octets

/-- What content means under a universal tag, if it means anything. -/
def meaning? (tag : Tag) (content : Octets) : Option String :=
  if tag = .null then some "NULL"
  else if tag = .boolean then
    match content with
    | [octet] => some (if octet = 0 then "FALSE" else "TRUE")
    | _ => none
  else if tag = .integer ∨ tag = .enumerated then
    (Integer.decode .basic content).toOption.map fun value => toString value.toInt
  else if tag = .objectIdentifier then
    (ObjectIdentifier.decode content).toOption.map ObjectIdentifier.text
  else if tag = .utf8String ∨ tag = .printableString ∨ tag = .ia5String ∨
      tag = .visibleString ∨ tag = .generalString then
    (Text.Utf8.decode? content).map Text.quote
  else if tag = .utcTime then
    (Time.Utc.decode .basic content).toOption.map Time.Timestamp.text
  else if tag = .generalizedTime then
    (Time.Generalized.decode .basic content).toOption.map Time.Timestamp.text
  else if tag = .bitString then
    match content with
    | unused :: octets => some s!"unused={unused.toNat} {hex octets}"
    | [] => none
  else none

/-- Content without a meaning shows in hexadecimal. -/
def contentText (tag : Tag) (content : Octets) : String :=
  (meaning? tag content).getD (hex content)

/-- The offset, right-aligned in five columns. -/
def offsetText (offset : Nat) : String :=
  let digits := Nat.toDigits 10 offset
  String.ofList (List.replicate (5 - digits.length) ' ' ++ digits)

def indentation (depth : Nat) : String := String.join (List.replicate depth "  ")

/-- One line, without its end. An empty content is left out, unless it is that
of a NULL. -/
def line (depth : Nat) (tlv : Tlv) : String :=
  offsetText tlv.offset ++ ": " ++ indentation depth ++ tlv.tag.text
    ++ s!" len={tlv.content.length}"
    ++ (if tlv.tag.constructed ∨ (tlv.content.isEmpty ∧ tlv.tag ≠ .null) then ""
        else " " ++ contentText tlv.tag tlv.content)

/-- The lines of a stream that lies inside `depth` constructed elements. -/
def lines (depth : Nat) (stream : Tlv.Stream) : Except Error (List String) :=
  match stream with
  | .done => .ok []
  | .broken error => .error error
  | .next tlv rest =>
    let inner :=
      if tlv.tag.constructed then
        if depthLimit ≤ depth then .error (.malformed tlv.offset .tooDeep)
        else lines (depth + 1) (Tlv.stream .basic tlv.contentOffset tlv.content)
      else .ok []
    match inner with
    | .error error => .error error
    | .ok inner =>
      match lines depth rest with
      | .error error => .error error
      | .ok more => .ok (line depth tlv :: inner ++ more)
termination_by stream.weight
decreasing_by
  · have := Tlv.weight_stream_le .basic tlv.contentOffset tlv.content
    simp only [Tlv.Stream.weight, Tlv.weight]
    omega
  · simp only [Tlv.Stream.weight, Tlv.weight]
    omega

end Asn1.Listing

namespace Asn1

/-- The listing of all that the octets hold. -/
def listing (octets : Octets) : Except Error String :=
  (Listing.lines 0 (Tlv.stream .basic 0 octets)).map fun lines =>
    String.join (lines.map (· ++ "\n"))

end Asn1
