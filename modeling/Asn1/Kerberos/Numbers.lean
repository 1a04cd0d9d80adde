import Asn1.Error

/-!
Assigned numbers of the protocol. The structures keep plain numbers, so that
unregistered ones survive; the closed sets here are for callers who want them.
-/

namespace Asn1.Kerberos

/-- The version of the protocol and of tickets. -/
def version : Int64 := 5

/-- The application tags of the messages. -/
def applicationTags : List (String × Nat) :=
  [("TICKET", 1), ("AUTHENTICATOR", 2), ("ENC_TICKET_PART", 3), ("AS_REQ", 10), ("AS_REP", 11),
    ("TGS_REQ", 12), ("TGS_REP", 13), ("AP_REQ", 14), ("AP_REP", 15), ("KRB_SAFE", 20),
    ("KRB_PRIV", 21), ("KRB_CRED", 22), ("ENC_AS_REP_PART", 25), ("ENC_TGS_REP_PART", 26),
    ("KRB_ERROR", 30)]

/-- Common types of pre-authentication data. -/
def paDataTypes : List (String × Nat) :=
  [("PA_TGS_REQ", 1), ("PA_ENC_TIMESTAMP", 2), ("PA_PW_SALT", 3), ("PA_ETYPE_INFO", 11),
    ("PA_PK_AS_REQ", 16), ("PA_PK_AS_REP", 17), ("PA_ETYPE_INFO2", 19), ("PA_PAC_REQUEST", 128)]

def encryptionTypes : List (String × Nat) :=
  [("DES_CBC_CRC", 1), ("DES_CBC_MD5", 3), ("DES3_CBC_SHA1_KD", 16),
    ("AES128_CTS_HMAC_SHA1_96", 17), ("AES256_CTS_HMAC_SHA1_96", 18), ("RC4_HMAC", 23)]

def addressTypes : List (String × Nat) :=
  [("IPV4", 2), ("DIRECTIONAL", 3), ("CHAOSNET", 5), ("XNS", 6), ("ISO", 7),
    ("DECNET_PHASE_IV", 12), ("APPLETALK_DDP", 16), ("NETBIOS", 20), ("IPV6", 24)]

inductive MessageType where
  | asReq
  | asRep
  | tgsReq
  | tgsRep
  | apReq
  | apRep
  | krbSafe
  | krbPriv
  | krbCred
  | krbError
  deriving DecidableEq, Repr

namespace MessageType

def all : List MessageType :=
  [.asReq, .asRep, .tgsReq, .tgsRep, .apReq, .apRep, .krbSafe, .krbPriv, .krbCred, .krbError]

def value : MessageType → Int64
  | .asReq => 10
  | .asRep => 11
  | .tgsReq => 12
  | .tgsRep => 13
  | .apReq => 14
  | .apRep => 15
  | .krbSafe => 20
  | .krbPriv => 21
  | .krbCred => 22
  | .krbError => 30

def name : MessageType → String
  | .asReq => "AsReq"
  | .asRep => "AsRep"
  | .tgsReq => "TgsReq"
  | .tgsRep => "TgsRep"
  | .apReq => "ApReq"
  | .apRep => "ApRep"
  | .krbSafe => "KrbSafe"
  | .krbPriv => "KrbPriv"
  | .krbCred => "KrbCred"
  | .krbError => "KrbError"

def ofValue (value : Int64) : Except Error MessageType :=
  match all.find? fun type => type.value == value with
  | some type => .ok type
  | none => .error (.violated (.invalid "msg-type" value.toInt))

end MessageType

/-- Types of principal names. -/
inductive NameType where
  | unknown
  | principal
  | srvInst
  | srvHst
  | srvXhst
  | uid
  | x500Principal
  | smtpName
  | enterprise
  deriving DecidableEq, Repr

namespace NameType

def all : List NameType :=
  [.unknown, .principal, .srvInst, .srvHst, .srvXhst, .uid, .x500Principal, .smtpName,
    .enterprise]

def value : NameType → Int32
  | .unknown => 0
  | .principal => 1
  | .srvInst => 2
  | .srvHst => 3
  | .srvXhst => 4
  | .uid => 5
  | .x500Principal => 6
  | .smtpName => 7
  | .enterprise => 10

def name : NameType → String
  | .unknown => "Unknown"
  | .principal => "Principal"
  | .srvInst => "SrvInst"
  | .srvHst => "SrvHst"
  | .srvXhst => "SrvXhst"
  | .uid => "Uid"
  | .x500Principal => "X500Principal"
  | .smtpName => "SmtpName"
  | .enterprise => "Enterprise"

def ofValue (value : Int32) : Except Error NameType :=
  match all.find? fun type => type.value == value with
  | some type => .ok type
  | none => .error (.violated (.invalid "name-type" value.toInt))

end NameType

end Asn1.Kerberos
