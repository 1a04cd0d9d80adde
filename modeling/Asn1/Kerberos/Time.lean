import Asn1.Kerberos.Structure

/-!
KerberosTime, a GeneralizedTime without a fraction.
-/

namespace Asn1.Kerberos

structure KerberosTime where
  instant : Time.Instant
  deriving DecidableEq, Repr

namespace KerberosTime

/-- Drops what is below a second. -/
def new (instant : Time.Instant) : KerberosTime := ⟨instant.truncate⟩

def ofValue (value : Value) : Except Error KerberosTime :=
  match value.instant? with
  | none => .error (.violated (.cannotHold "KerberosTime" value.typeName))
  | some instant =>
    if instant.nanos ≠ 0 then .error (.violated (.fractionalSeconds "KerberosTime"))
    else .ok ⟨instant⟩

instance : Structure KerberosTime where
  template := .leaf (.generalizedTime .epoch)
  toValue time := .leaf (.generalizedTime time.instant)
  ofValue := ofValue

end KerberosTime

end Asn1.Kerberos
