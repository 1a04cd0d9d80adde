import Asn1.Machine.Word
import Asn1.Time.Generalized
import Asn1.Time.Utc

/-!
The two time types, read by positions in their texts.
-/

namespace Asn1.Machine

open Asn1.Time (Civil Instant isDigit)

/-- The seconds from 1970 on for which a calendar of 262142 years either way has a date. -/
def calendarLimit : Nat := 262142 * 365 * 86400

def inCalendar (seconds : Int) : Option Int :=
  if seconds.natAbs < calendarLimit then some seconds else none

structure Clock where
  content : Octets
  position : Nat
  deriving DecidableEq, Repr

namespace Clock

def start (content : Octets) : Except Malformation Clock :=
  if content.all (· < 0x80) then .ok ⟨content, 0⟩ else .error .timeNotAscii

def atDigit (clock : Clock) : Bool := (clock.content[clock.position]?.map isDigit).getD false

/-- The number that digits stand for. -/
def value (digits : Octets) : Option Nat :=
  digits.foldlM (fun value octet => (sub octet.toNat 48).bind (push UInt32.size 10 value)) 0

/-- Exactly `count` digits. Asking for more than there is finds nothing, which is no fault. -/
def number (clock : Clock) (count : Nat) : Checked Malformation (Nat × Clock) := do
  let stop ← add clock.position count
  match slice clock.content clock.position stop with
  | none => throw (.timeTruncated clock.position)
  | some digits =>
    if !digits.all isDigit then throw (.timeDigits count clock.position)
    else
      let value ← value digits
      return (value, { clock with position := stop })

/-- Two digits, if a digit comes next. -/
def optionalPair (clock : Clock) : Checked Malformation (Option Nat × Clock) := do
  if clock.atDigit then
    let (value, clock) ← clock.number 2
    return (some value, clock)
  else return (none, clock)

/-- Where a run of digits ends that goes on at `position`. -/
def runEnd (position : Nat) : Octets → Option Nat
  | [] => some position
  | octet :: rest => do
    if isDigit octet then
      let position ← add position 1
      runEnd position rest
    else return position

/-- All digits up to the first octet that is none. -/
def digitRun (clock : Clock) : Option (Octets × Clock) := do
  let stop ← runEnd clock.position (clock.content.drop clock.position)
  let run ← slice clock.content clock.position stop
  return (run, { clock with position := stop })

/-- The next octet, if it is one that is wanted. -/
def take (clock : Clock) (wanted : UInt8 → Bool) : Option (Option UInt8 × Clock) :=
  match clock.content[clock.position]? with
  | none => some (none, clock)
  | some octet =>
    if wanted octet then
      (add clock.position 1).map fun position => (some octet, { clock with position })
    else some (none, clock)

/-- Hours and minutes of a zone offset, in minutes. -/
def zoneOffset (clock : Clock) : Checked Malformation (Nat × Clock) := do
  let (hours, clock) ← clock.number 2
  let (minutes, clock) ← clock.number 2
  if 23 < hours ∨ 59 < minutes then throw (.timeZoneRange hours minutes)
  else
    let total ← push UInt32.size 60 hours minutes
    return (total, clock)

/-- `Z`, or a signed offset where the rules allow it; the result is how many minutes local time is
ahead. -/
def zone (rules : Rules) (clock : Clock) : Checked Malformation (Int × Clock) := do
  let (sign, clock) ← clock.take fun octet => octet = 90 || octet = 43 || octet = 45
  match sign with
  | none => throw .timeZoneMissing
  | some sign =>
    if sign = 90 then return (0, clock)
    else if rules = .distinguished then throw .timeZoneNotUtc
    else
      let (minutes, clock) ← clock.zoneOffset
      return (if sign = 45 then -(minutes : Int) else minutes, clock)

/-- Nothing may follow. -/
def finish (clock : Clock) : Checked Malformation Unit := do
  if clock.position ≠ clock.content.length then throw (.timeUnexpected clock.position)
  else return ()

end Clock

/-- The instant of local fields, `ahead` minutes before Universal Time gets there. -/
def instantOf (civil : Civil) (nanos : Nat) (ahead : Int) : Checked Malformation Instant := do
  if !civil.date.isValid then
    throw (.dateInvalid civil.date.year.toNat civil.date.month civil.date.day)
  else if 23 < civil.hour ∨ 59 < civil.minute ∨ 59 < civil.second then
    throw (.clockInvalid civil.hour civil.minute civil.second)
  else
    let seconds ← inCalendar (civil.toSeconds - ahead * 60)
    return ⟨seconds, nanos⟩

namespace Utc

def fullYear (pair : Nat) : Option Nat := if 50 ≤ pair then add 1900 pair else add 2000 pair

/-- Only the basic rules let seconds be left out. -/
def seconds (rules : Rules) (clock : Clock) : Checked Malformation (Nat × Clock) := do
  if clock.atDigit then clock.number 2
  else if rules = .distinguished then throw (.timeSecondsMissing .utcTime)
  else return (0, clock)

def decode (rules : Rules) (content : Octets) : Checked Malformation Instant := do
  let clock ← settled (Clock.start content)
  let (pair, clock) ← clock.number 2
  let year ← fullYear pair
  let (month, clock) ← clock.number 2
  let (day, clock) ← clock.number 2
  let (hour, clock) ← clock.number 2
  let (minute, clock) ← clock.number 2
  let (second, clock) ← seconds rules clock
  let (ahead, clock) ← clock.zone rules
  clock.finish
  instantOf ⟨⟨year, month, day⟩, hour, minute, second⟩ 0 ahead

end Utc

namespace Generalized

/-- Minutes and seconds; either may be left out from the end. -/
def minuteSecond (clock : Clock) : Checked Malformation (Nat × Option Nat × Clock) := do
  let (minute, clock) ← clock.optionalPair
  match minute with
  | none => return (0, none, clock)
  | some minute =>
    let (second, clock) ← clock.optionalPair
    return (minute, second, clock)

/-- A fraction, if a separator comes next; `second` is what it would be a fraction of. -/
def nanos (rules : Rules) (second : Option Nat) (clock : Clock) :
    Checked Malformation (Nat × Clock) := do
  let (separator, clock) ← clock.take fun octet => octet = 46 || octet = 44
  match separator with
  | none => return (0, clock)
  | some separator =>
    if second.isNone then throw .timeFractionWithoutSeconds
    else if rules = .distinguished ∧ separator = 44 then throw .timeFractionComma
    else
      let (run, clock) ← clock.digitRun
      if run.isEmpty then throw .timeFractionEmpty
      else if rules = .distinguished ∧ run.getLast? = some 48 then
        throw .timeFractionTrailingZeros
      else
        let nanos ← Clock.value (run.take 9 ++ List.replicate (9 - run.length) 48)
        return (nanos, clock)

def decode (rules : Rules) (content : Octets) : Checked Malformation Instant := do
  let clock ← settled (Clock.start content)
  let (year, clock) ← clock.number 4
  let (month, clock) ← clock.number 2
  let (day, clock) ← clock.number 2
  let (hour, clock) ← clock.number 2
  let (minute, second, clock) ← minuteSecond clock
  if rules = .distinguished ∧ second.isNone then throw (.timeSecondsMissing .generalizedTime)
  else
    let (nanos, clock) ← nanos rules second clock
    let (ahead, clock) ← clock.zone rules
    clock.finish
    instantOf ⟨⟨year, month, day⟩, hour, minute, second.getD 0⟩ nanos ahead

end Generalized

end Asn1.Machine
