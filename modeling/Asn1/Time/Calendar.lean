/-!
The Gregorian calendar, carried on before and after its use without end, and
its days counted from 1 January 1970. Year 0 is the one before year 1.
-/

namespace Asn1.Time

structure Date where
  year : Int
  month : Nat
  day : Nat
  deriving DecidableEq, Repr

namespace Date

def isLeap (year : Int) : Bool :=
  year % 4 == 0 && (year % 100 != 0 || year % 400 == 0)

/-- The lengths of the months in order. -/
def monthLengths (leap : Bool) : List Nat :=
  [31, if leap then 29 else 28, 31, 30, 31, 30, 31, 31, 30, 31, 30, 31]

def isValid (date : Date) : Bool :=
  0 < date.month && 0 < date.day &&
    date.day ≤ (monthLengths (isLeap date.year)).getD (date.month - 1) 0

/-- Days from 1 January of year 1 to 1 January 1970. -/
def epochDay : Int := 719162

/-- Days from 1 January of year 1 to 1 January of `year`. -/
def daysBeforeYear (year : Int) : Int :=
  let past := year - 1
  past * 365 + past / 4 - past / 100 + past / 400

/-- Days from 1 January to the first of `month`. -/
def daysBeforeMonth (leap : Bool) (month : Nat) : Nat :=
  ((monthLengths leap).take (month - 1)).foldr (· + ·) 0

def toDays (date : Date) : Int :=
  daysBeforeYear date.year + daysBeforeMonth (isLeap date.year) date.month + date.day - 1
    - epochDay

/-- The month and day reached `days` after the first day of month `month`, whose
length heads the list. -/
def monthAndDay (month days : Nat) : List Nat → Nat × Nat
  | [] => (month, days + 1)
  | length :: rest =>
    if days < length then (month, days + 1) else monthAndDay (month + 1) (days - length) rest

/-- Years are taken off in groups of 400, 100, 4 and 1. The last of the four
centuries and the last of the four years are the longer ones. -/
def ofDays (days : Int) : Date :=
  let day := days + epochDay
  let inEra := (day % 146097).toNat
  let century := min (inEra / 36524) 3
  let inCentury := inEra - century * 36524
  let inFour := inCentury % 1461
  let single := min (inFour / 365) 3
  let inYear := inFour - single * 365
  let year := day / 146097 * 400 + (century * 100 + inCentury / 1461 * 4 + single : Nat) + 1
  let (month, day) := monthAndDay 1 inYear (monthLengths (isLeap year))
  ⟨year, month, day⟩

end Date

end Asn1.Time
