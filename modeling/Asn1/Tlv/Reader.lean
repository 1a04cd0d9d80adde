import Asn1.Tlv.Basic

/-!
A position in octets, moved on only by what can be read there.
-/

namespace Asn1

structure Reader where
  rules : Rules
  offset : Nat
  remaining : Octets
  deriving DecidableEq, Repr

namespace Reader

def read (reader : Reader) : Except Error (Tlv × Reader) :=
  match Tlv.read reader.rules reader.offset reader.remaining with
  | .error error => .error error
  | .ok (tlv, rest) => .ok (tlv, { reader with offset := tlv.endOffset, remaining := rest })

/-- The tag that comes next. -/
def peek (reader : Reader) : Except Error Tag :=
  (Tag.decode reader.offset reader.remaining).map (·.1)

/-- Reads without looking inside, and says how many octets went by. -/
def skip (reader : Reader) : Except Error (Nat × Reader) :=
  reader.read.map fun (tlv, next) => (tlv.raw.length, next)

/-- A strict policy wants nothing left. -/
def finish (reader : Reader) (policy : Policy) : Except Error Unit :=
  if policy.strict && !reader.remaining.isEmpty then
    .error (.trailing reader.offset reader.remaining.length)
  else .ok ()

end Reader

end Asn1
