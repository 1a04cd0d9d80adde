import Asn1.Machine.Word
import Asn1.Tlv.Basic

/-!
Elements read from a buffer at a position. Tags and lengths are read from where they begin, and
their errors are moved to where that lies.
-/

namespace Asn1.Machine

/-- The error in octets that lie `base` further on. -/
def located (base : Nat) : Error → Option Error
  | .malformed offset cause => (add offset base).map (.malformed · cause)
  | .unexpectedTag offset expected found =>
    (add offset base).map (.unexpectedTag · expected found)
  | .unknownAlternative offset tag => (add offset base).map (.unknownAlternative · tag)
  | .trailing offset remaining => (add offset base).map (.trailing · remaining)
  | .inField index name source => (located base source).map (.inField index name)
  | error => some error

/-- The groups of a long tag number, after those that gave `number`; the next one lies at
`position`. -/
def tagNumber (number position : Nat) : Octets → Checked Error (Nat × Nat)
  | [] => throw (.malformed position .tagUnfinished)
  | octet :: rest => do
    if position = 1 ∧ octet = 0x80 then throw (.malformed position .tagLeadingZero)
    else if Tag.numberLimit / 128 < number then throw (.malformed position .tagTooLarge)
    else
      let number ← push UInt32.size 128 number (octet.toNat % 128)
      let position ← add position 1
      if octet < 0x80 then return (number, position)
      else tagNumber number position rest

/-- The tag at the front, and how many octets it takes. -/
def tag : Octets → Checked Error (Tag × Nat)
  | [] => throw (.malformed 0 .tagMissing)
  | first :: rest => do
    let cls := TagClass.ofCode (first.toNat / 64)
    let constructed := first.toNat / 32 % 2 == 1
    if first.toNat % 32 < 31 then
      return (⟨cls, constructed, UInt32.ofNat (first.toNat % 32)⟩, 1)
    else
      let (number, size) ← tagNumber 0 1 rest
      if number ≤ Tag.lowLimit then throw (.malformed 0 (.tagNotLow number))
      else return (⟨cls, constructed, UInt32.ofNat number⟩, size)

/-- The number that the octets are the base-256 digits of. -/
def number (octets : Octets) : Option Nat :=
  octets.foldlM (fun value octet => push UInt64.size 256 value octet.toNat) 0

/-- The length at the front, and how many octets it takes. -/
def length (octets : Octets) : Checked Error (Length × Nat) := do
  match octets with
  | [] => throw (.malformed 0 .lengthMissing)
  | first :: _ =>
    let count := first.toNat % 128
    if first.toNat < 128 then return (.short first.toNat, 1)
    else if count = 0 then throw (.malformed 0 .lengthIndefinite)
    else if count = 127 then throw (.malformed 0 .lengthReserved)
    else if Length.digitLimit < count then throw (.malformed 0 (.lengthTooLarge count))
    else
      let size ← add 1 count
      if octets.length < size then throw (.malformed 0 (.lengthUnfinished size octets.length))
      else
        let digits ← slice octets 1 size
        let value ← number digits
        return (.long value, size)

/-- One element that was read, in the octets that it was read from. -/
structure Span where
  tag : Tag
  /-- Of the first tag octet. -/
  offset : Nat
  headerLength : Nat
  content : Octets
  raw : Octets
  deriving DecidableEq, Repr

def Span.contentOffset (span : Span) : Option Nat := add span.offset span.headerLength

structure Cursor where
  rules : Rules
  buffer : Octets
  position : Nat
  /-- Of the first octet of the buffer. -/
  base : Nat
  deriving DecidableEq, Repr

/-- A procedure that moves a cursor. Where it was moved to shows after an error, too. -/
abbrev Moving (α : Type) := ExceptT Error (StateT Cursor Option) α

/-- Procedures that stay where they are. -/
instance : MonadLift (Checked Error) Moving where
  monadLift procedure := ExceptT.mk fun cursor => procedure.run.map (·, cursor)

/-- How the procedure ends for a cursor, and where it leaves that. -/
def Moving.outcome {α : Type} (procedure : Moving α) (cursor : Cursor) :
    Option (Except Error α × Cursor) :=
  procedure.run.run cursor

namespace Cursor

def start (rules : Rules) (buffer : Octets) (base : Nat) : Cursor := ⟨rules, buffer, 0, base⟩

def offset (cursor : Cursor) : Option Nat := add cursor.base cursor.position

/-- How many octets are left. -/
def remaining (cursor : Cursor) : Nat := cursor.buffer.length - cursor.position

def hasRemaining (cursor : Cursor) : Bool := cursor.position < cursor.buffer.length

/-- The next element, behind which the cursor then stands. -/
def read : Moving Span := do
  let cursor ← get
  let start := cursor.position
  let offset ← add cursor.base start
  let octets ← slice cursor.buffer start cursor.buffer.length
  let (tag, tagSize) ← (tag octets).recast (located offset)
  let lengthStart ← add start tagSize
  let lengthOffset ← add cursor.base lengthStart
  let octets ← slice cursor.buffer lengthStart cursor.buffer.length
  let (length, lengthSize) ← (length octets).recast (located lengthOffset)
  if cursor.rules = .distinguished ∧ lengthSize ≠ (Length.ofNat length.value).encodedLength then
    throw (.malformed lengthOffset (.lengthNotMinimal length.value))
  else
    let contentStart ← add lengthStart lengthSize
    let available ← sub cursor.buffer.length contentStart
    if available < length.value then
      throw (.malformed offset (.lengthExceeds length.value available))
    else
      let stop ← add contentStart length.value
      set { cursor with position := stop }
      let headerLength ← add tagSize lengthSize
      let content ← slice cursor.buffer contentStart stop
      let raw ← slice cursor.buffer start stop
      return ⟨tag, offset, headerLength, content, raw⟩

/-- The next tag. -/
def peek : Moving Tag := do
  let cursor ← get
  let offset ← cursor.offset
  let octets ← slice cursor.buffer cursor.position cursor.buffer.length
  let (tag, _) ← (tag octets).recast (located offset)
  return tag

/-- How many octets the next element has, behind which the cursor then stands. -/
def skip : Moving Nat := do
  let span ← read
  return span.raw.length

/-- A strict policy wants nothing left. -/
def finish (cursor : Cursor) (policy : Policy) : Checked Error Unit := do
  if cursor.hasRemaining then
    let offset ← cursor.offset
    if policy.strict then throw (.trailing offset cursor.remaining) else return ()
  else return ()

/-- What was read, and where the cursor went, make up no more than what was left before. -/
def Advances (cursor : Cursor) (read : Span × Cursor) : Prop :=
  read.1.content.length + 2 + read.2.remaining ≤ cursor.remaining

instance (cursor : Cursor) (read : Span × Cursor) : Decidable (cursor.Advances read) :=
  inferInstanceAs (Decidable (_ ≤ _))

/-- The next element and the cursor behind it. A cursor that does not advance would never come to
an end, which is a fault, too. -/
def next (cursor : Cursor) : Checked Error {read : Span × Cursor // cursor.Advances read} :=
  ExceptT.mk <| (read.outcome cursor).bind fun
    | (.error error, _) => some (.error error)
    | (.ok span, moved) =>
      if h : cursor.Advances (span, moved) then some (.ok ⟨(span, moved), h⟩) else none

theorem remaining_start (rules : Rules) (buffer : Octets) (base : Nat) :
    (start rules buffer base).remaining = buffer.length := rfl

end Cursor

end Asn1.Machine
