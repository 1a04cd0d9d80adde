import Asn1.Kerberos.Structure

/-!
Flag words. They are sent as 32 bits; shorter bit strings are read as if zeros
followed, and bits past the 32nd do not count.
-/

namespace Asn1.Kerberos

structure KerberosFlags where
  word : UInt32
  deriving DecidableEq, Repr

namespace KerberosFlags

/-- The word with only the flag at `position` in it; bit 0 is the most
significant. There are no flags from 32 on. -/
def mask (position : Nat) : UInt32 :=
  if position < 32 then UInt32.ofNat (Nat.pow 2 (31 - position)) else 0

def contains (flags : KerberosFlags) (position : Nat) : Bool :=
  flags.word &&& mask position != 0

def set (flags : KerberosFlags) (position : Nat) (on : Bool) : KerberosFlags :=
  ⟨if on then flags.word ||| mask position else flags.word &&& ~~~mask position⟩

def toBitString (flags : KerberosFlags) : BitString := .ofUInt32 flags.word

def ofBitString (bits : BitString) : KerberosFlags :=
  ⟨((List.range (min bits.size 32)).filter bits.bit).foldl
    (fun word position => word ||| mask position) 0⟩

/-- The word in hexadecimal. -/
def summary (flags : KerberosFlags) : String :=
  let digits := Nat.toDigits 16 flags.word.toNat
  "KerberosFlags(0x" ++ String.ofList (List.replicate (8 - digits.length) '0' ++ digits) ++ ")"

def ofValue (value : Value) : Except Error KerberosFlags :=
  match value.bitString? with
  | none => .error (.violated (.cannotHold "KerberosFlags" value.typeName))
  | some bits => .ok (ofBitString bits)

instance : Structure KerberosFlags where
  template := .leaf (.bitString .empty)
  toValue flags := .leaf (.bitString flags.toBitString)
  ofValue := ofValue

end KerberosFlags

inductive TicketFlag where
  | reserved
  | forwardable
  | forwarded
  | proxiable
  | proxy
  | mayPostdate
  | postdated
  | invalid
  | renewable
  | initial
  | preAuthent
  | hwAuthent
  | transitedPolicyChecked
  | okAsDelegate
  deriving DecidableEq, Repr

namespace TicketFlag

def all : List TicketFlag :=
  [.reserved, .forwardable, .forwarded, .proxiable, .proxy, .mayPostdate, .postdated, .invalid,
    .renewable, .initial, .preAuthent, .hwAuthent, .transitedPolicyChecked, .okAsDelegate]

def position : TicketFlag → Nat
  | .reserved => 0
  | .forwardable => 1
  | .forwarded => 2
  | .proxiable => 3
  | .proxy => 4
  | .mayPostdate => 5
  | .postdated => 6
  | .invalid => 7
  | .renewable => 8
  | .initial => 9
  | .preAuthent => 10
  | .hwAuthent => 11
  | .transitedPolicyChecked => 12
  | .okAsDelegate => 13

def name : TicketFlag → String
  | .reserved => "Reserved"
  | .forwardable => "Forwardable"
  | .forwarded => "Forwarded"
  | .proxiable => "Proxiable"
  | .proxy => "Proxy"
  | .mayPostdate => "MayPostdate"
  | .postdated => "Postdated"
  | .invalid => "Invalid"
  | .renewable => "Renewable"
  | .initial => "Initial"
  | .preAuthent => "PreAuthent"
  | .hwAuthent => "HwAuthent"
  | .transitedPolicyChecked => "TransitedPolicyChecked"
  | .okAsDelegate => "OkAsDelegate"

def ofName? (name : String) : Option TicketFlag := all.find? (·.name == name)

end TicketFlag

/-- Options of a request to the key distribution centre. -/
inductive KdcOption where
  | reserved
  | forwardable
  | forwarded
  | proxiable
  | proxy
  | allowPostdate
  | postdated
  | renewable
  | canonicalize
  | disableTransitedCheck
  | renewableOk
  | encTktInSkey
  | renew
  | validate
  deriving DecidableEq, Repr

namespace KdcOption

def all : List KdcOption :=
  [.reserved, .forwardable, .forwarded, .proxiable, .proxy, .allowPostdate, .postdated,
    .renewable, .canonicalize, .disableTransitedCheck, .renewableOk, .encTktInSkey, .renew,
    .validate]

def position : KdcOption → Nat
  | .reserved => 0
  | .forwardable => 1
  | .forwarded => 2
  | .proxiable => 3
  | .proxy => 4
  | .allowPostdate => 5
  | .postdated => 6
  | .renewable => 8
  | .canonicalize => 15
  | .disableTransitedCheck => 26
  | .renewableOk => 27
  | .encTktInSkey => 28
  | .renew => 30
  | .validate => 31

def name : KdcOption → String
  | .reserved => "Reserved"
  | .forwardable => "Forwardable"
  | .forwarded => "Forwarded"
  | .proxiable => "Proxiable"
  | .proxy => "Proxy"
  | .allowPostdate => "AllowPostdate"
  | .postdated => "Postdated"
  | .renewable => "Renewable"
  | .canonicalize => "Canonicalize"
  | .disableTransitedCheck => "DisableTransitedCheck"
  | .renewableOk => "RenewableOk"
  | .encTktInSkey => "EncTktInSkey"
  | .renew => "Renew"
  | .validate => "Validate"

def ofName? (name : String) : Option KdcOption := all.find? (·.name == name)

end KdcOption

end Asn1.Kerberos
