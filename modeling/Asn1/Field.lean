import Asn1.Tagging

/-!
The columns of a SEQUENCE, SET or CHOICE. A field does not hold its type but the
name of it, so types can refer to themselves.
-/

namespace Asn1

structure Field where
  name : String
  /-- The number of the field's context tag; without one its value's own tag
  identifies it. -/
  number : Option UInt32
  /-- Without a mode of its own the field follows the policy. -/
  mode : Option TaggingMode
  optional : Bool
  type : String
  deriving DecidableEq, Repr

namespace Field

def tagging (field : Field) (policy : Policy) : Option Tagging :=
  field.number.map fun number => ⟨.context, number, field.mode.getD policy.tagging⟩

/-- The two fields look alike from outside; their types may differ. -/
def sameShape (a b : Field) : Bool :=
  a.name == b.name && a.number == b.number && a.mode == b.mode && a.optional == b.optional

def sameShapes (a b : List Field) : Bool :=
  a.length == b.length && (a.zip b).all fun (a, b) => a.sameShape b

end Field

end Asn1
