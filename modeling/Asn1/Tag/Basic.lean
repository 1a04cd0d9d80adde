/-!
Tags: class, constructed bit and number.
-/

namespace Asn1

inductive TagClass where
  | universal
  | application
  | context
  | priv
  deriving DecidableEq, Repr

structure Tag where
  cls : TagClass
  constructed : Bool
  number : UInt32
  deriving DecidableEq, Repr

namespace Tag

def universal (constructed : Bool) (number : UInt32) : Tag := ⟨.universal, constructed, number⟩

def boolean : Tag := universal false 1
def integer : Tag := universal false 2
def bitString : Tag := universal false 3
def octetString : Tag := universal false 4
def null : Tag := universal false 5
def objectIdentifier : Tag := universal false 6
def enumerated : Tag := universal false 10
def utf8String : Tag := universal false 12
def sequence : Tag := universal true 16
def set : Tag := universal true 17
def printableString : Tag := universal false 19
def ia5String : Tag := universal false 22
def utcTime : Tag := universal false 23
def generalizedTime : Tag := universal false 24
def visibleString : Tag := universal false 26
def generalString : Tag := universal false 27

def withConstructed (tag : Tag) (constructed : Bool) : Tag := { tag with constructed }

/-- Class and number agree. Routing compares tags this way; whoever decodes the
content checks the constructed bit. -/
def sameIdentity (a b : Tag) : Bool := a.cls == b.cls && a.number == b.number

def universalName? (number : UInt32) : Option String :=
  match number.toNat with
  | 1 => some "BOOLEAN"
  | 2 => some "INTEGER"
  | 3 => some "BIT STRING"
  | 4 => some "OCTET STRING"
  | 5 => some "NULL"
  | 6 => some "OBJECT IDENTIFIER"
  | 10 => some "ENUMERATED"
  | 12 => some "UTF8String"
  | 16 => some "SEQUENCE"
  | 17 => some "SET"
  | 19 => some "PrintableString"
  | 22 => some "IA5String"
  | 23 => some "UTCTime"
  | 24 => some "GeneralizedTime"
  | 26 => some "VisibleString"
  | 27 => some "GeneralString"
  | _ => none

private def bracketed (tag : Tag) (label : String) : String :=
  "[" ++ label ++ toString tag.number.toNat ++ "]" ++
    (if tag.constructed then " (constructed)" else "")

/-- Types of the standard go by their names. Any other tag shows class, number
and constructed bit. -/
def text (tag : Tag) : String :=
  match tag.cls with
  | .universal =>
    match universalName? tag.number with
    | some name => name
    | none => bracketed tag "UNIVERSAL "
  | .application => bracketed tag "APPLICATION "
  | .context => bracketed tag ""
  | .priv => bracketed tag "PRIVATE "

end Tag

end Asn1
