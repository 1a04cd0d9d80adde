import Asn1.Blueprint
import Asn1.Error.Message
import Asn1.Kerberos.Flags
import Asn1.Kerberos.HostAddress
import Asn1.Kerberos.PaData
import Asn1.Kerberos.Ticket
import Asn1.Listing
import Asn1.Proofs.Kerberos.Flags
import Asn1.Proofs.Kerberos.Messages
import Asn1.Proofs.Kerberos.Time
import Asn1.Proofs.Listing
import Asn1.Proofs.Machine.Faultless
import Asn1.Proofs.ObjectIdentifier.Dotted
import Asn1.Proofs.Reader
import Asn1.Proofs.Value.Admission
import Asn1.Proofs.Value.Built
import Asn1.Proofs.Value.Comparison
import Asn1.Proofs.Value.ConstructedBit
import Asn1.Proofs.Value.Decoded
import Asn1.Proofs.Value.Encodable
import Asn1.Proofs.Value.ErrorPath
import Asn1.Proofs.Value.InPlace
import Asn1.Proofs.Value.Inheritance
import Asn1.Proofs.Value.Offset
import Asn1.Proofs.Value.OpenType
import Asn1.Proofs.Value.Reachable
import Asn1.Proofs.Value.Reencoding
import Asn1.Proofs.Value.Relaxation
import Asn1.Proofs.Value.Retagging
import Asn1.Proofs.Value.Routing
import Asn1.Proofs.Value.SameType
import Asn1.Proofs.Value.TaggingEnvironment
import Asn1.Proofs.Value.Termination
import Asn1.Proofs.Value.Trailing
import Asn1.Proofs.Value.TypeEquivalence
import Asn1.Tlv.Reader
import Asn1.Value.InPlace
import Asn1.Value.Path
