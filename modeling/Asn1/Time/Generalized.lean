import Asn1.Time.Cursor

/-!
GeneralizedTime, with a four-digit year and an optional fraction of a second.
-/

namespace Asn1.Time.Generalized

/-- Zeros at the end of a fraction are left out, and so is an empty one. -/
def fractionText (nanos : Nat) : Octets :=
  if nanos = 0 then [] else 46 :: trimZeros (digits 9 nanos)

def encode (instant : Instant) : Except Unencodable Octets :=
  let civil := instant.civil
  let date := civil.date
  if date.year < 0 ∨ 9999 < date.year then .error (.year date.year .generalizedTime)
  else if 999999999 < instant.nanos then .error .leapSecond
  else
    .ok (digits 4 date.year.toNat ++ digits 2 date.month ++ digits 2 date.day
      ++ digits 2 civil.hour ++ digits 2 civil.minute ++ digits 2 civil.second
      ++ fractionText instant.nanos ++ [90])

/-- Minutes and seconds; either may be left out from the end. -/
def minuteSecond (cursor : Cursor) : Except Malformation (Nat × Option Nat × Cursor) := do
  match ← cursor.optionalPair with
  | (none, cursor) => return (0, none, cursor)
  | (some minute, cursor) =>
    let (second, cursor) ← cursor.optionalPair
    return (minute, second, cursor)

/-- The digits after a decimal separator. The distinguished rules want a point
and a last digit other than zero. -/
def fraction (rules : Rules) (separator : UInt8) (cursor : Cursor) :
    Except Malformation (Nat × Cursor) :=
  if rules = .distinguished ∧ separator = 44 then .error .timeFractionComma
  else
    let (run, cursor) := cursor.digitRun
    if run.isEmpty then .error .timeFractionEmpty
    else if rules = .distinguished ∧ run.getLast? = some 48 then
      .error .timeFractionTrailingZeros
    else .ok (nanosOfDigits run, cursor)

/-- A fraction, if a separator comes next; `second` is what it would be a
fraction of. -/
def nanos (rules : Rules) (second : Option Nat) (cursor : Cursor) :
    Except Malformation (Nat × Cursor) :=
  match cursor.rest.head? with
  | some separator =>
    if separator = 46 ∨ separator = 44 then
      if second.isNone then .error .timeFractionWithoutSeconds
      else fraction rules separator (cursor.skip 1)
    else .ok (0, cursor)
  | none => .ok (0, cursor)

def decode (rules : Rules) (content : Octets) : Except Malformation Instant := do
  let cursor ← Cursor.start content
  let (year, cursor) ← cursor.number 4
  let (month, cursor) ← cursor.number 2
  let (day, cursor) ← cursor.number 2
  let (hour, cursor) ← cursor.number 2
  let (minute, second, cursor) ← minuteSecond cursor
  if rules = .distinguished ∧ second.isNone then
    throw (.timeSecondsMissing .generalizedTime)
  let (nanos, cursor) ← nanos rules second cursor
  let (ahead, cursor) ← cursor.zone rules
  cursor.finish
  instantOf ⟨⟨year, month, day⟩, hour, minute, second.getD 0⟩ nanos ahead

end Asn1.Time.Generalized
