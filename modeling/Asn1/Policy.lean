/-!
The settings that travel down a value while it is encoded or decoded.
-/

namespace Asn1

/-- Both rule sets use definite lengths. The distinguished rules allow one
encoding of a value, the basic rules several. -/
inductive Rules where
  | basic
  | distinguished
  deriving DecidableEq, Repr

/-- An implicit tag replaces the tag of what it is put on, an explicit tag
wraps the complete encoding. -/
inductive TaggingMode where
  | implicit
  | explicit
  deriving DecidableEq, Repr

structure Policy where
  rules : Rules
  /-- The mode of a context tag that names none. -/
  tagging : TaggingMode
  /-- Refuse octets after the last expected field and after the root. -/
  strict : Bool
  deriving DecidableEq, Repr

namespace Policy

def der : Policy := ⟨.distinguished, .explicit, true⟩

def ber : Policy := ⟨.basic, .explicit, true⟩

def withRules (policy : Policy) (rules : Rules) : Policy := { policy with rules }

def withTagging (policy : Policy) (tagging : TaggingMode) : Policy := { policy with tagging }

def lenient (policy : Policy) : Policy := { policy with strict := false }

def isDer (policy : Policy) : Bool := policy.rules == .distinguished

end Policy

end Asn1
