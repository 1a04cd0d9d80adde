import Asn1.Proofs.Machine.Decode
import Asn1.Proofs.Machine.Listing

/-!
Whoever decodes, lists or walks octets that come from elsewhere never runs into a fault. All of
it ends as it does where sizes have no bound, if only the last octet still has an offset.
-/

namespace Asn1.Machine

namespace Cursor

/-- What can be asked of a cursor. -/
inductive Request where
  | read
  | peek
  | skip
  | finish (policy : Policy)
  deriving DecidableEq, Repr

/-- Where the cursor stands after it was asked, whether it could answer or not. -/
def Request.ask (cursor : Cursor) : Request → Option Cursor
  | .read => (Cursor.read.outcome cursor).map (·.2)
  | .peek => (Cursor.peek.outcome cursor).map (·.2)
  | .skip => (Cursor.skip.outcome cursor).map (·.2)
  | .finish policy => (cursor.finish policy).run.map fun _ => cursor

/-- Where it stands after being asked for one thing after another. -/
def askAll (requests : List Request) (cursor : Cursor) : Option Cursor :=
  requests.foldlM Request.ask cursor

/-- No request faults or takes the cursor out of its buffer. -/
theorem Sound.ask {cursor : Cursor} (h : cursor.Sound) (request : Request) :
    ∃ moved, request.ask cursor = some moved ∧ moved.Sound := by
  have hbeyond : ∀ tlv next, cursor.reader.read = .ok (tlv, next) → (cursor.beyond tlv).Sound :=
    fun tlv next hread => (h.beyond hread).1
  cases request with
  | read =>
    rw [Request.ask, outcome_read h]
    cases hread : cursor.reader.read with
    | error error => exact ⟨cursor, rfl, h⟩
    | ok read => exact ⟨_, rfl, hbeyond read.1 read.2 hread⟩
  | peek =>
    rw [Request.ask, outcome_peek h]
    exact ⟨cursor, rfl, h⟩
  | skip =>
    rw [Request.ask, outcome_skip h]
    cases hread : cursor.reader.read with
    | error error => exact ⟨cursor, rfl, h⟩
    | ok read => exact ⟨_, rfl, hbeyond read.1 read.2 hread⟩
  | finish policy =>
    rw [Request.ask, finish_eq h]
    exact ⟨cursor, rfl, h⟩

theorem Sound.askAll {cursor : Cursor} (h : cursor.Sound) (requests : List Request) :
    ∃ moved, cursor.askAll requests = some moved ∧ moved.Sound := by
  induction requests generalizing cursor with
  | nil => exact ⟨cursor, rfl, h⟩
  | cons request rest ih =>
    obtain ⟨moved, hasked, hmoved⟩ := h.ask request
    obtain ⟨last, hrest, hlast⟩ := ih hmoved
    refine ⟨last, ?_, hlast⟩
    rw [Cursor.askAll, List.foldlM_cons, hasked]
    exact hrest

end Cursor

/-- Decoding, with or without a re-tag, and listing come to an end without a fault, and so does
every row of requests to a cursor. In particular no branch is taken that no element should lead
to. -/
theorem never_faults {octets : Octets} {base : Nat} (hword : base + octets.length < wordLimit) :
    (∀ defs value policy,
      decode defs value octets policy = settled (Value.decode defs value octets policy)) ∧
    (∀ defs value tagging policy, taggedDecode defs value tagging octets policy =
      settled (Value.taggedDecode defs value tagging octets policy)) ∧
    listing octets = settled (Asn1.listing octets) ∧
    ∀ rules requests, ∃ cursor : Cursor,
      (Cursor.start rules octets base).askAll requests = some cursor ∧ cursor.Sound := by
  have hlength : octets.length < wordLimit := by omega
  refine ⟨?_, ?_, listing_eq hlength, ?_⟩
  · exact fun defs value policy => decode_eq defs value hlength policy
  · exact fun defs value tagging policy => taggedDecode_eq defs value tagging hlength policy
  · exact fun rules requests => (Cursor.Sound.start hword rules).askAll requests

/-- An implicit tag that was promoted, in front of the last octets that have offsets. -/
theorem promoted_tag_never_faults :
    18446744073709551610 + ([0xA1, 0x03, 0x02, 0x01, 0x05] : Octets).length < wordLimit ∧
    taggedDecode ⟨[]⟩ (.any []) ⟨.context, 1, .implicit⟩ [0xA1, 0x03, 0x02, 0x01, 0x05] .der =
      settled (.ok (.any [0x02, 0x01, 0x05])) ∧
    ∃ cursor : Cursor,
      (Cursor.start .basic [0xA1, 0x03, 0x02, 0x01, 0x05] 18446744073709551610).askAll
        [.read, .peek] = some cursor ∧ cursor.Sound := by
  have hword : 18446744073709551610 + ([0xA1, 0x03, 0x02, 0x01, 0x05] : Octets).length <
      wordLimit := by decide
  have hdecode : Value.taggedDecode ⟨[]⟩ (.any []) ⟨.context, 1, .implicit⟩
      [0xA1, 0x03, 0x02, 0x01, 0x05] .der = .ok (.any [0x02, 0x01, 0x05]) := by cbv
  refine ⟨hword, ?_, (never_faults hword).2.2.2 .basic [.read, .peek]⟩
  rw [(never_faults hword).2.1, hdecode]

end Asn1.Machine
