import Asn1.Time.Cursor

/-!
UTCTime. The year has two digits; those from 50 on belong to the twentieth
century.
-/

namespace Asn1.Time.Utc

def fullYear (year : Nat) : Nat := if 50 ≤ year then 1900 + year else 2000 + year

def encode (instant : Instant) : Except Unencodable Octets :=
  let civil := instant.civil
  let date := civil.date
  if date.year < 1950 ∨ 2049 < date.year then .error (.year date.year .utcTime)
  else if instant.nanos ≠ 0 then .error .fraction
  else
    .ok (digits 2 (date.year.toNat % 100) ++ digits 2 date.month ++ digits 2 date.day
      ++ digits 2 civil.hour ++ digits 2 civil.minute ++ digits 2 civil.second ++ [90])

/-- Only the basic rules let seconds be left out. -/
def seconds (rules : Rules) (cursor : Cursor) : Except Malformation (Nat × Cursor) :=
  if cursor.atDigit then cursor.number 2
  else if rules = .distinguished then .error (.timeSecondsMissing .utcTime)
  else .ok (0, cursor)

def decode (rules : Rules) (content : Octets) : Except Malformation Instant := do
  let cursor ← Cursor.start content
  let (year, cursor) ← cursor.number 2
  let (month, cursor) ← cursor.number 2
  let (day, cursor) ← cursor.number 2
  let (hour, cursor) ← cursor.number 2
  let (minute, cursor) ← cursor.number 2
  let (second, cursor) ← seconds rules cursor
  let (ahead, cursor) ← cursor.zone rules
  cursor.finish
  instantOf ⟨⟨fullYear year, month, day⟩, hour, minute, second⟩ 0 ahead

end Asn1.Time.Utc
