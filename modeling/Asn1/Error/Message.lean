import Asn1.Error
import Asn1.Text.Quoted

/-!
The wording of every error.
-/

namespace Asn1

/-- At least `width` digits, zeros in front. -/
def paddedDigits (width n : Nat) : String :=
  let digits := Nat.toDigits 10 n
  String.ofList (List.replicate (width - digits.length) '0' ++ digits)

def ForbiddenCharacter.message (forbidden : ForbiddenCharacter) : String :=
  s!"character {Text.quoteChar forbidden.char} at position {forbidden.position} is not allowed in "
    ++ forbidden.type.text

def Malformation.message : Malformation → String
  | .tagMissing => "buffer exhausted while reading tag"
  | .tagUnfinished => "incomplete high-tag-number encoding"
  | .tagLeadingZero => "high tag number has a leading zero group"
  | .tagTooLarge => "tag number does not fit in 32 bits"
  | .tagNotLow number => s!"tag number {number} must use the low-tag-number form"
  | .lengthMissing => "buffer exhausted while reading length"
  | .lengthIndefinite => "indefinite length encoding not supported"
  | .lengthReserved => "reserved length octet 0xFF"
  | .lengthTooLarge octets => s!"length encoding too large: {octets} bytes"
  | .lengthUnfinished needed available =>
    s!"buffer too short for long form length: need {needed} bytes, got {available}"
  | .lengthNotMinimal length => s!"non-minimal length encoding for {length} bytes"
  | .lengthExceeds declared available =>
    s!"declared length {declared} exceeds {available} remaining bytes"
  | .booleanContent octet =>
    s!"BOOLEAN content 0x{Octets.hexPair octet} is not allowed under DER"
  | .booleanSize size => s!"BOOLEAN must have 1 content byte, got {size}"
  | .nullSize size => s!"NULL with {size} content bytes"
  | .integerEmpty => "empty integer encoding"
  | .integerNotMinimal => "non-minimal integer encoding"
  | .integerTooLarge size => s!"integer of {size} bytes does not fit in 64 bits"
  | .bitStringEmpty => "empty bit string encoding"
  | .bitStringUnused unused => s!"invalid unused bits: {unused} (must be 0-7)"
  | .bitStringNoBits => "empty bit string cannot have unused bits"
  | .bitStringPadding => "unused bits must be zero under DER"
  | .arcsMissing => "empty object identifier encoding"
  | .arcUnfinished => "object identifier ends inside an arc"
  | .arcLeadingZero => "object identifier arc has a leading zero group"
  | .arcTooLarge => "object identifier arc overflow"
  | .notText type fault => s!"{type.text} is not valid text: {fault.message}"
  | .forbidden character => character.message
  | .timeNotAscii => "time value is not ASCII"
  | .timeTruncated position => s!"time value truncated at position {position}"
  | .timeDigits count position => s!"expected {count} digits at position {position}"
  | .timeSecondsMissing type => s!"{type.text} without seconds is not allowed under DER"
  | .timeFractionWithoutSeconds => "fractional part requires seconds"
  | .timeFractionComma => "DER requires '.' as the decimal separator"
  | .timeFractionEmpty => "empty fractional seconds"
  | .timeFractionTrailingZeros => "fractional seconds have trailing zeros"
  | .timeZoneNotUtc => "DER time values must end in 'Z'"
  | .timeZoneRange hours minutes =>
    s!"invalid zone offset {paddedDigits 2 hours}{paddedDigits 2 minutes}"
  | .timeZoneMissing => "time value has no 'Z' or zone offset"
  | .timeUnexpected position => s!"unexpected characters at position {position}"
  | .dateInvalid year month day =>
    s!"invalid date {paddedDigits 4 year}-{paddedDigits 2 month}-{paddedDigits 2 day}"
  | .clockInvalid hour minute second =>
    s!"invalid time {paddedDigits 2 hour}:{paddedDigits 2 minute}:{paddedDigits 2 second}"
  | .explicitPrimitive tag => s!"explicit {tag.text} must be constructed"
  | .explicitEmpty tag => s!"explicit {tag.text} has no inner value"
  | .form type constructed =>
    let encoding := if constructed then "constructed" else "primitive"
    s!"{type} must use the {encoding} encoding"
  | .notImplicit type => s!"{type} cannot be implicitly tagged"
  | .tooDeep => "nesting too deep"

def Unencodable.message : Unencodable → String
  | .bitStringUnused unused => s!"unused bits must be 0-7, got {unused}"
  | .bitStringNoBits => "empty bit string cannot have unused bits"
  | .tooFewArcs => "object identifier must have at least 2 arcs"
  | .firstArc arc => s!"first arc must be 0, 1 or 2, got {arc.toNat}"
  | .secondArc first second =>
    s!"second arc must be below 40 under arc {first.toNat}, got {second.toNat}"
  | .secondArcTooLarge => "second arc too large"
  | .arcText text => s!"invalid object identifier arc '{text}'"
  | .forbidden character => character.message
  | .year value type => s!"year {value} cannot be represented as {type.text}"
  | .fraction => "UTCTime cannot carry fractional seconds"
  | .leapSecond => "leap second cannot be represented as GeneralizedTime"
  | .fieldNotSet index name => s!"required field {index} ({name}) is not set"
  | .noAlternative => "no CHOICE alternative selected"
  | .emptyAny => "ANY value is empty"

def Constraint.message : Constraint → String
  | .cannotHold holder type => s!"{holder} cannot hold {type}"
  | .fractionalSeconds holder => s!"{holder} carries fractional seconds"
  | .notSequence holder type => s!"{holder} expects a SEQUENCE, got {type}"
  | .outside value type => s!"{value.toInt} is outside {type}"
  | .unsupported name value => s!"unsupported {name} {value.toInt}"
  | .invalid name value => s!"invalid {name} {value}"

def Error.message : Error → String
  | .malformed offset cause => s!"malformed TLV at offset {offset}: {cause.message}"
  | .unexpectedTag offset expected found =>
    s!"unexpected tag at offset {offset}: expected {expected.text}, found {found.text}"
  | .missingField index name => s!"missing required field {index} ({name})"
  | .unknownAlternative offset tag =>
    s!"no CHOICE alternative matches tag {tag.text} at offset {offset}"
  | .trailing offset remaining => s!"{remaining} trailing bytes at offset {offset}"
  | .unencodable cause => s!"encoding error: {cause.message}"
  | .noSuchField index size => s!"field index {index} out of range (schema has {size} fields)"
  | .typeMismatch index expected => s!"field {index} does not hold {expected}"
  | .endlessType => "a type unfolds without end"
  | .violated constraint => s!"constraint violated: {constraint.message}"
  | .inField index name source => s!"field {index} ({name}): {source.message}"

end Asn1
