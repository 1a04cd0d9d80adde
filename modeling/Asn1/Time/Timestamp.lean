import Asn1.Error.Message
import Asn1.Time.Instant

/-!
Instants as timestamps for a reader, with as few groups of three fraction digits
as are exact.
-/

namespace Asn1.Time.Timestamp

/-- Years that do not have four digits carry a sign. -/
def yearText (year : Int) : String :=
  if year < 0 then "-" ++ paddedDigits 4 year.natAbs
  else if year ≤ 9999 then paddedDigits 4 year.toNat
  else "+" ++ paddedDigits 4 year.toNat

def fractionText (nanos : Nat) : String :=
  if nanos = 0 then ""
  else if nanos % 1000000 = 0 then "." ++ paddedDigits 3 (nanos / 1000000)
  else if nanos % 1000 = 0 then "." ++ paddedDigits 6 (nanos / 1000)
  else "." ++ paddedDigits 9 nanos

/-- A leap second shows as second 60. -/
def text (instant : Instant) : String :=
  let civil := instant.civil
  let leap := instant.nanos / 1000000000
  yearText civil.date.year ++ "-" ++ paddedDigits 2 civil.date.month ++ "-"
    ++ paddedDigits 2 civil.date.day ++ "T" ++ paddedDigits 2 civil.hour ++ ":"
    ++ paddedDigits 2 civil.minute ++ ":" ++ paddedDigits 2 (civil.second + leap)
    ++ fractionText (instant.nanos % 1000000000) ++ "+00:00"

end Asn1.Time.Timestamp
