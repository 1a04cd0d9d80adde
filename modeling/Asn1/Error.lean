import Asn1.Tag.Basic
import Asn1.Text.Utf8

/-!
What can go wrong, as causes. The wording is in `Asn1.Error.Message`.
-/

namespace Asn1

/-- A character outside the alphabet of a string type, at its octet index. -/
structure ForbiddenCharacter where
  char : Char
  position : Nat
  type : Tag
  deriving DecidableEq, Repr

/-- Why octets do not hold what they are read as. -/
inductive Malformation where
  | tagMissing
  | tagUnfinished
  | tagLeadingZero
  | tagTooLarge
  | tagNotLow (number : Nat)
  | lengthMissing
  | lengthIndefinite
  | lengthReserved
  | lengthTooLarge (octets : Nat)
  | lengthUnfinished (needed available : Nat)
  | lengthNotMinimal (length : Nat)
  | lengthExceeds (declared available : Nat)
  | booleanContent (octet : UInt8)
  | booleanSize (size : Nat)
  | nullSize (size : Nat)
  | integerEmpty
  | integerNotMinimal
  | integerTooLarge (size : Nat)
  | bitStringEmpty
  | bitStringUnused (unused : Nat)
  | bitStringNoBits
  | bitStringPadding
  | arcsMissing
  | arcUnfinished
  | arcLeadingZero
  | arcTooLarge
  | notText (type : Tag) (fault : Text.Utf8.Fault)
  | forbidden (character : ForbiddenCharacter)
  | timeNotAscii
  | timeTruncated (position : Nat)
  | timeDigits (count position : Nat)
  | timeSecondsMissing (type : Tag)
  | timeFractionWithoutSeconds
  | timeFractionComma
  | timeFractionEmpty
  | timeFractionTrailingZeros
  | timeZoneNotUtc
  | timeZoneRange (hours minutes : Nat)
  | timeZoneMissing
  | timeUnexpected (position : Nat)
  | dateInvalid (year month day : Nat)
  | clockInvalid (hour minute second : Nat)
  | explicitPrimitive (tag : Tag)
  | explicitEmpty (tag : Tag)
  | form (type : String) (constructed : Bool)
  | notImplicit (type : String)
  | tooDeep
  deriving DecidableEq, Repr

/-- Why a value has no encoding, or is no value of its type. -/
inductive Unencodable where
  | bitStringUnused (unused : Nat)
  | bitStringNoBits
  | tooFewArcs
  | firstArc (arc : UInt64)
  | secondArc (first second : UInt64)
  | secondArcTooLarge
  | arcText (text : String)
  | forbidden (character : ForbiddenCharacter)
  | year (year : Int) (type : Tag)
  | fraction
  | leapSecond
  | fieldNotSet (index : Nat) (name : String)
  | noAlternative
  | emptyAny
  deriving DecidableEq, Repr

/-- Which rule of a typed structure a well-formed value breaks. -/
inductive Constraint where
  | cannotHold (holder type : String)
  | fractionalSeconds (holder : String)
  | notSequence (holder type : String)
  | outside (value : Int64) (type : String)
  | unsupported (name : String) (value : Int64)
  | invalid (name : String) (value : Int)
  deriving DecidableEq, Repr

inductive Error where
  | malformed (offset : Nat) (cause : Malformation)
  | unexpectedTag (offset : Nat) (expected found : Tag)
  | missingField (index : Nat) (name : String)
  | unknownAlternative (offset : Nat) (tag : Tag)
  | trailing (offset remaining : Nat)
  | unencodable (cause : Unencodable)
  | noSuchField (index size : Nat)
  | typeMismatch (index : Nat) (expected : String)
  /-- A type that unfolds for ever where an answer about it was needed. -/
  | endlessType
  | violated (constraint : Constraint)
  | inField (index : Nat) (name : String) (source : Error)
  deriving DecidableEq, Repr

namespace Error

/-- The error below all fields it surfaced from. -/
def rootCause : Error → Error
  | .inField _ _ source => source.rootCause
  | error => error

/-- The field indices from the outermost composite down to the root cause. -/
def fieldPath : Error → List Nat
  | .inField index _ source => index :: source.fieldPath
  | _ => []

end Error

end Asn1
