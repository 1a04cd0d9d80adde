import Asn1.Time.Calendar

/-!
Instants of Universal Time, as seconds from the start of 1970.
-/

namespace Asn1.Time

/-- A second that is a leap second shows as the one before it, with `nanos` from
10⁹ on. -/
structure Instant where
  seconds : Int
  nanos : Nat
  deriving DecidableEq, Repr

/-- A date and a time of day. -/
structure Civil where
  date : Date
  hour : Nat
  minute : Nat
  second : Nat
  deriving DecidableEq, Repr

def Civil.toSeconds (civil : Civil) : Int :=
  civil.date.toDays * 86400 + (civil.hour * 3600 + civil.minute * 60 + civil.second : Nat)

def Civil.ofSeconds (seconds : Int) : Civil :=
  let inDay := (seconds % 86400).toNat
  ⟨.ofDays (seconds / 86400), inDay / 3600, inDay / 60 % 60, inDay % 60⟩

namespace Instant

def epoch : Instant := ⟨0, 0⟩

def civil (instant : Instant) : Civil := .ofSeconds instant.seconds

/-- Without the part of `nanos` below a second, so that a leap second stays
one. -/
def truncate (instant : Instant) : Instant :=
  { instant with nanos := instant.nanos - instant.nanos % 1000000000 }

end Instant

end Asn1.Time
