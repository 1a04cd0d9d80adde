import Asn1.Error
import Asn1.Policy
import Asn1.Time.Decimal
import Asn1.Time.Instant

/-!
The parts that the two time types read their texts with. A part takes the
cursor and gives back what it read and the cursor after it.
-/

namespace Asn1.Time

structure Cursor where
  position : Nat
  rest : Octets
  deriving DecidableEq, Repr

namespace Cursor

def start (content : Octets) : Except Malformation Cursor :=
  if content.all (· < 0x80) then .ok ⟨0, content⟩ else .error .timeNotAscii

def atDigit (cursor : Cursor) : Bool := (cursor.rest.head?.map isDigit).getD false

def skip (cursor : Cursor) (count : Nat) : Cursor :=
  ⟨cursor.position + count, cursor.rest.drop count⟩

/-- Exactly `count` digits. -/
def number (cursor : Cursor) (count : Nat) : Except Malformation (Nat × Cursor) :=
  let taken := cursor.rest.take count
  if taken.length < count then .error (.timeTruncated cursor.position)
  else if !taken.all isDigit then .error (.timeDigits count cursor.position)
  else .ok (digitsValue taken, cursor.skip count)

/-- Two digits, if a digit comes next. -/
def optionalPair (cursor : Cursor) : Except Malformation (Option Nat × Cursor) :=
  if cursor.atDigit then (cursor.number 2).map fun (value, next) => (some value, next)
  else .ok (none, cursor)

/-- All digits up to the first octet that is none. -/
def digitRun (cursor : Cursor) : Octets × Cursor :=
  let run := cursor.rest.takeWhile isDigit
  (run, cursor.skip run.length)

/-- Hours and minutes of a zone offset, in minutes. -/
def zoneOffset (cursor : Cursor) : Except Malformation (Nat × Cursor) :=
  match cursor.number 2 with
  | .error cause => .error cause
  | .ok (hours, cursor) =>
    match cursor.number 2 with
    | .error cause => .error cause
    | .ok (minutes, cursor) =>
      if 23 < hours ∨ 59 < minutes then .error (.timeZoneRange hours minutes)
      else .ok (hours * 60 + minutes, cursor)

/-- `Z`, or a signed offset where the rules allow it; the result is how many
minutes local time is ahead. -/
def zone (rules : Rules) (cursor : Cursor) : Except Malformation (Int × Cursor) :=
  match cursor.rest.head? with
  | some 90 => .ok (0, cursor.skip 1)
  | some 43 =>
    if rules = .distinguished then .error .timeZoneNotUtc
    else (cursor.skip 1).zoneOffset.map fun (minutes, next) => ((minutes : Int), next)
  | some 45 =>
    if rules = .distinguished then .error .timeZoneNotUtc
    else (cursor.skip 1).zoneOffset.map fun (minutes, next) => (-(minutes : Int), next)
  | _ => .error .timeZoneMissing

/-- Nothing may follow. -/
def finish (cursor : Cursor) : Except Malformation Unit :=
  if cursor.rest.isEmpty then .ok () else .error (.timeUnexpected cursor.position)

end Cursor

/-- The instant of local fields, `ahead` minutes before Universal Time gets
there. -/
def instantOf (civil : Civil) (nanos : Nat) (ahead : Int) : Except Malformation Instant :=
  if !civil.date.isValid then
    .error (.dateInvalid civil.date.year.toNat civil.date.month civil.date.day)
  else if 23 < civil.hour ∨ 59 < civil.minute ∨ 59 < civil.second then
    .error (.clockInvalid civil.hour civil.minute civil.second)
  else .ok ⟨civil.toSeconds - ahead * 60, nanos⟩

end Asn1.Time
