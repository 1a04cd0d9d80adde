import Asn1.Value.Basic

/-!
Named types. A name stands for a prototype, the value that decoding starts from.
Prototypes may refer to each other and to themselves, without any bound; whoever
unfolds names has to say when to stop.
-/

namespace Asn1

structure Definitions where
  entries : List (String × Value)

namespace Definitions

/-- The prototype of a name. A name without an entry stands for ANY. -/
def template (defs : Definitions) (name : String) : Value :=
  (defs.entries.lookup name).getD (.any [])

/-- The most CHOICEs that lead from one to the next without meeting a name
twice: one that need not have a name, and one for each entry. -/
def choiceLimit (defs : Definitions) : Nat := defs.entries.length + 1

end Definitions

end Asn1
