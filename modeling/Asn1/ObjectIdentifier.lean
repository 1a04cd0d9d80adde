import Asn1.Base128
import Asn1.Error

/-!
Object identifiers. The first two arcs share one base-128 number, every other
arc has its own.
-/

namespace Asn1

/-- Any list of arcs, so that an identifier can be empty until it is decoded;
`validate` says which lists identify an object. -/
structure ObjectIdentifier where
  arcs : List UInt64
  deriving DecidableEq, Repr

namespace ObjectIdentifier

/-- The largest arc. -/
def arcLimit : Nat := UInt64.size - 1

/-- The number that stands for the first two arcs. -/
def pack (first second : UInt64) : Nat := first.toNat * 40 + second.toNat

/-- The first two arcs are bounded so that their common number tells them apart
and is itself no larger than an arc. -/
def validate : List UInt64 → Except Unencodable Unit
  | first :: second :: _ =>
    if 2 < first then .error (.firstArc first)
    else if first < 2 ∧ 40 ≤ second then .error (.secondArc first second)
    else if first = 2 ∧ arcLimit - 80 < second.toNat then .error .secondArcTooLarge
    else .ok ()
  | _ => .error .tooFewArcs

def new (arcs : List UInt64) : Except Unencodable ObjectIdentifier :=
  (validate arcs).map fun _ => ⟨arcs⟩

/-- The base-128 numbers of an identifier with at least two arcs. -/
def packed : List UInt64 → List Nat
  | first :: second :: rest => pack first second :: rest.map UInt64.toNat
  | _ => []

def encode (oid : ObjectIdentifier) : Except Unencodable Octets :=
  (validate oid.arcs).map fun _ => (packed oid.arcs).flatMap Base128.encode

def arcMalformation : Base128.Fault → Malformation
  | .truncated => .arcUnfinished
  | .leadingZero => .arcLeadingZero
  | .overflow => .arcTooLarge

/-- All base-128 numbers of the content. -/
def decodeArcs (content : Octets) : Except Malformation (List UInt64) :=
  if content.isEmpty then .ok []
  else
    match _h : Base128.decode arcLimit content with
    | .error (_, fault) => .error (arcMalformation fault)
    | .ok (arc, rest) =>
      match decodeArcs rest with
      | .error cause => .error cause
      | .ok arcs => .ok (UInt64.ofNat arc :: arcs)
termination_by content.length
decreasing_by exact Base128.decode_shortens _h

/-- The first two arcs from their common number. -/
def unpack (packed : UInt64) : List UInt64 :=
  if packed < 40 then [0, packed]
  else if packed < 80 then [1, packed - 40]
  else [2, packed - 80]

def decode (content : Octets) : Except Malformation ObjectIdentifier :=
  if content.isEmpty then .error .arcsMissing
  else if 0x80 ≤ content.getLastD 0 then .error .arcUnfinished
  else
    match decodeArcs content with
    | .error cause => .error cause
    | .ok [] => .error .arcsMissing
    | .ok (packed :: arcs) => .ok ⟨unpack packed ++ arcs⟩

/-- Decimal digits, with an optional plus sign before them. -/
def parseArc? (text : List Char) : Option UInt64 :=
  let digits := if text.head? = some '+' then text.tail else text
  if digits.isEmpty ∨ !digits.all Char.isDigit then none
  else
    let value := digits.foldl (fun value c => value * 10 + (c.toNat - 48)) 0
    if value ≤ arcLimit then some (UInt64.ofNat value) else none

/-- The pieces between separators, one more than there are separators. -/
def splitArcs (separator : Char) : List Char → List (List Char)
  | [] => [[]]
  | c :: rest =>
    match splitArcs separator rest with
    | [] => [[c]]
    | piece :: pieces => if c = separator then [] :: piece :: pieces else (c :: piece) :: pieces

def parseArcs : List (List Char) → Except Unencodable (List UInt64)
  | [] => .ok []
  | text :: rest =>
    match parseArc? text with
    | none => .error (.arcText (String.ofList text))
    | some arc =>
      match parseArcs rest with
      | .error cause => .error cause
      | .ok arcs => .ok (arc :: arcs)

/-- Reads dotted notation. -/
def parse (text : String) : Except Unencodable ObjectIdentifier :=
  match parseArcs (splitArcs '.' text.toList) with
  | .error cause => .error cause
  | .ok arcs => new arcs

/-- Dotted notation, empty for an identifier without arcs. -/
def text (oid : ObjectIdentifier) : String :=
  ".".intercalate (oid.arcs.map fun arc => toString arc.toNat)

end ObjectIdentifier

end Asn1
