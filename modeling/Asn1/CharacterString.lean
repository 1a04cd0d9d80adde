import Asn1.Error

/-!
Character strings: a text under the alphabet of its type.
-/

namespace Asn1

inductive StringKind where
  | utf8
  | printable
  | ia5
  | visible
  | general
  deriving DecidableEq, Repr

namespace StringKind

def tag : StringKind → Tag
  | .utf8 => .utf8String
  | .printable => .printableString
  | .ia5 => .ia5String
  | .visible => .visibleString
  | .general => .generalString

/-- GeneralString is held to ASCII, which is what its Kerberos profile sends. -/
def permits (kind : StringKind) (c : Char) : Bool :=
  match kind with
  | .utf8 => true
  | .printable => c.isAlphanum || " '()+,-./:=?".toList.contains c
  | .ia5 | .general => c.toNat < 128
  | .visible => ' ' ≤ c && c ≤ '~'

/-- The first character outside the alphabet, `position` counting the octets
before it. -/
def forbidden? (kind : StringKind) (position : Nat) : List Char → Option ForbiddenCharacter
  | [] => none
  | c :: rest =>
    if kind.permits c then forbidden? kind (position + c.utf8Size) rest
    else some ⟨c, position, kind.tag⟩

end StringKind

structure CharacterString where
  kind : StringKind
  text : String
  deriving DecidableEq, Repr

namespace CharacterString

def forbidden? (string : CharacterString) : Option ForbiddenCharacter :=
  string.kind.forbidden? 0 string.text.toList

def encode (string : CharacterString) : Except Unencodable Octets :=
  match string.forbidden? with
  | some character => .error (.forbidden character)
  | none => .ok (Text.Utf8.encode string.text)

def decode (kind : StringKind) (content : Octets) : Except Malformation CharacterString :=
  match Text.Utf8.decode? content with
  | none => .error (.notText kind.tag (Text.Utf8.fault content))
  | some text =>
    let string : CharacterString := ⟨kind, text⟩
    match string.forbidden? with
    | some character => .error (.forbidden character)
    | none => .ok string

end CharacterString

end Asn1
