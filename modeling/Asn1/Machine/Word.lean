import Asn1.Error

/-!
Steps of a machine whose sizes and offsets are words. A step faults where it would count below
zero, past the largest word, or look outside the octets that it is given. A fault is no error:
nobody handles it, and nothing comes after it.
-/

namespace Asn1.Machine

/-- A procedure with errors of its own, which may fault as well. -/
abbrev Checked (ε α : Type) := ExceptT ε Option α

/-- A step that must not be reached. -/
def fault {ε α : Type} : Checked ε α := ExceptT.mk none

/-- How many words there are. -/
def wordLimit : Nat := UInt64.size

def add (a b : Nat) : Option Nat := if a + b < wordLimit then some (a + b) else none

def sub (a b : Nat) : Option Nat := if b ≤ a then some (a - b) else none

/-- One more digit behind a number, where no number is as large as `size`. -/
def push (size base value digit : Nat) : Option Nat :=
  if value * base + digit < size then some (value * base + digit) else none

/-- The index after one that belongs to an entry. There are no more entries than words. -/
def after (entries index : Nat) : Option Nat := if index < entries then some (index + 1) else none

/-- The entries from `first` up to `last`. -/
def slice {α : Type} (list : List α) (first last : Nat) : Option (List α) :=
  if first ≤ last ∧ last ≤ list.length then some ((list.take last).drop first) else none

theorem length_of_slice {α : Type} {list part : List α} {first last : Nat}
    (h : slice list first last = some part) : part.length = last - first := by
  rw [slice] at h
  split at h
  · cases h
    rw [List.length_drop, List.length_take]
    omega
  · cases h

/-- The last entry. -/
def final {α : Type} (list : List α) : Option α := (sub list.length 1).bind (list[·]?)

/-- Another entry at an index that has one. -/
def put {α : Type} (list : List α) (index : Nat) (value : α) : Option (List α) :=
  if index < list.length then some (list.set index value) else none

/-- An outcome that was reached without a fault. -/
def settled {ε α : Type} (outcome : Except ε α) : Checked ε α := ExceptT.mk (some outcome)

/-- The same with errors told in another way. -/
def Checked.recast {ε ε' α : Type} (recast : ε → Option ε') (procedure : Checked ε α) :
    Checked ε' α :=
  ExceptT.mk <| procedure.run.bind fun
    | .error error => (recast error).map .error
    | .ok value => some (.ok value)

end Asn1.Machine
