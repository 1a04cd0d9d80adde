import Asn1.Value.Any
import Asn1.Value.Record

/-!
Descriptions of values, written down before the types they name are known. A
list of named descriptions makes the definitions, and any description a value
under them.
-/

namespace Asn1

inductive Blueprint where
  | leaf (primitive : Primitive)
  | bitString (octets : Octets) (unused : Nat)
  | objectIdentifier (text : String)
  | record (grouping : Grouping) (fields : List Field)
  | elements (grouping : Grouping) (type : String)
  | choice (alternatives : List Field)
  | tagged (tagging : Tagging) (inner : Blueprint)
  | emptyAny
  | any (raw : Octets)
  /-- The encoding of a value as an ANY. -/
  | anyOf (inner : Blueprint)
  | reference (name : String)
  /-- With a field of a SEQUENCE or SET set. -/
  | set (base : Blueprint) (index : Nat) (content : Blueprint)
  /-- With an item appended to a SEQUENCE OF or SET OF. -/
  | push (base item : Blueprint)
  /-- With an alternative of a CHOICE selected. -/
  | select (base : Blueprint) (index : Nat) (content : Blueprint)
  /-- Under a policy of its own, if that could be read. -/
  | override (base : Blueprint) (policy : Option Policy)
  deriving Repr

namespace Blueprint

inductive Fault where
  | notRecord
  | notElements
  | notChoice
  | badPolicy
  /-- A reference that leads to no description. -/
  | unresolved (name : String)
  | failed (error : Error)
  deriving DecidableEq, Repr

/-- Only the type of what is described. `depth` bounds how many references are
followed one after another. -/
def shape (named : List (String × Blueprint)) (depth : Nat) : Blueprint → Value
  | .leaf primitive => .leaf primitive.cleared
  | .bitString _ _ => .leaf (.bitString .empty)
  | .objectIdentifier _ => .leaf (.objectIdentifier ⟨[]⟩)
  | .record grouping fields => .emptyRecord grouping fields
  | .elements grouping type => .elements grouping type [] none
  | .choice alternatives => .choice alternatives none none
  | .tagged tagging inner => .tagged tagging (shape named depth inner) none
  | .emptyAny => .any []
  | .any _ => .any []
  | .anyOf _ => .any []
  | .reference name =>
    match depth, named.lookup name with
    | depth + 1, some blueprint => shape named depth blueprint
    | _, _ => .any []
  | .set base _ _ => shape named depth base
  | .push base _ => shape named depth base
  | .select base _ _ => shape named depth base
  | .override base _ => shape named depth base
termination_by blueprint => (depth, sizeOf blueprint)

def lift {α : Type} : Except Error α → Except Fault α
  | .ok result => .ok result
  | .error error => .error (.failed error)

def liftCause {α : Type} : Except Unencodable α → Except Fault α
  | .ok result => .ok result
  | .error cause => .error (.failed (.unencodable cause))

/-- The value described. A base is built before what goes into it, and both
before they are put together; the first step that fails decides. -/
def build (defs : Definitions) (named : List (String × Blueprint)) (depth : Nat) :
    Blueprint → Except Fault Value
  | .leaf primitive => .ok (.leaf primitive)
  | .bitString octets unused => do
    return .leaf (.bitString (← liftCause (BitString.new octets unused)))
  | .objectIdentifier text => do
    return .leaf (.objectIdentifier (← liftCause (ObjectIdentifier.parse text)))
  | .record grouping fields => .ok (.emptyRecord grouping fields)
  | .elements grouping type => .ok (.elements grouping type [] none)
  | .choice alternatives => .ok (.choice alternatives none none)
  | .tagged tagging inner => do
    return .tagged tagging (← build defs named depth inner) none
  | .emptyAny => .ok (.any [])
  | .any raw => lift (Value.anyOfOctets raw)
  | .anyOf inner => do
    lift (Value.anyOfValue (← build defs named depth inner))
  | .reference name =>
    match depth, named.lookup name with
    | depth + 1, some blueprint => build defs named depth blueprint
    | _, _ => .error (.unresolved name)
  | .set base index content => do
    let value ← build defs named depth base
    let content ← build defs named depth content
    match value.untagged with
    | .record grouping slots own =>
      let slots ← lift (Record.set defs slots index content)
      return value.putUntagged (.record grouping slots own)
    | _ => throw .notRecord
  | .push base item => do
    let value ← build defs named depth base
    let item ← build defs named depth item
    match value.untagged with
    | .elements grouping type items own =>
      let items ← lift (Elements.push defs type items item)
      return value.putUntagged (.elements grouping type items own)
    | _ => throw .notElements
  | .select base index content => do
    let value ← build defs named depth base
    let content ← build defs named depth content
    match value.untagged with
    | .choice alternatives _ own =>
      let selection ← lift (Choice.select defs alternatives index content)
      return value.putUntagged (.choice alternatives (some selection) own)
    | _ => throw .notChoice
  | .override base policy => do
    let value ← build defs named depth base
    match policy with
    | some policy => return value.withPolicy policy
    | none => throw .badPolicy
termination_by blueprint => (depth, sizeOf blueprint)

/-- References that lead further than there are names lead round in circles. -/
def depthFor (named : List (String × Blueprint)) : Nat := named.length + 1

/-- The types of all descriptions, as far as building values depends on them. -/
def shapes (named : List (String × Blueprint)) : Definitions where
  entries := named.map fun (name, blueprint) => (name, shape named (depthFor named) blueprint)

/-- Descriptions as definitions. What cannot be built is left at its shape. -/
def definitions (named : List (String × Blueprint)) : Definitions where
  entries :=
    let types := shapes named
    named.map fun (name, blueprint) =>
      match build types named (depthFor named) blueprint with
      | .ok value => (name, value)
      | .error _ => (name, shape named (depthFor named) blueprint)

end Blueprint

end Asn1
