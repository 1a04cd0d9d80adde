import Asn1.Value.Record

/-!
Values inside nested SEQUENCEs and SETs, by the field indices that lead to them.
-/

namespace Asn1

inductive Path.Fault where
  | notRecord
  | unset
  | failed (error : Error)
  deriving DecidableEq, Repr

namespace Path

def get : List Nat → Value → Except Path.Fault Value
  | [], value => .ok value
  | index :: path, value =>
    match value.slots? with
    | none => .error .notRecord
    | some slots =>
      match Record.get slots index with
      | .error error => .error (.failed error)
      | .ok none => .error .unset
      | .ok (some inner) => get path inner

/-- Puts `content` where the path leads, if it leads anywhere. -/
def put (content : Value) : List Nat → Value → Value
  | [], _ => content
  | index :: path, value =>
    match value.untagged with
    | .record grouping slots own =>
      let slots := slots.modify index fun slot =>
        ⟨slot.field, slot.content.map (put content path)⟩
      value.putUntagged (.record grouping slots own)
    | _ => value

end Path

end Asn1
