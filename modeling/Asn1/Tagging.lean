import Asn1.Policy
import Asn1.Tag.Basic

/-!
What a re-tag asks for: a class, a number and how the new tag goes on.
-/

namespace Asn1

structure Tagging where
  cls : TagClass
  number : UInt32
  mode : TaggingMode
  deriving DecidableEq, Repr

namespace Tagging

/-- The new tag with the given constructed bit. -/
def tag (tagging : Tagging) (constructed : Bool) : Tag :=
  ⟨tagging.cls, constructed, tagging.number⟩

def accepts (tagging : Tagging) (tag : Tag) : Bool :=
  tag.cls == tagging.cls && tag.number == tagging.number

end Tagging

end Asn1
