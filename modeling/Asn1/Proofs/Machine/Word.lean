import Asn1.Machine.Word
import Asn1.Proofs.Outcome

/-!
Steps that do not fault, and chains of them.
-/

namespace Asn1.Machine

theorem add_of_lt {a b : Nat} (h : a + b < wordLimit) : add a b = some (a + b) := if_pos h

theorem sub_of_le {a b : Nat} (h : b ≤ a) : sub a b = some (a - b) := if_pos h

theorem push_of_lt {size base value digit : Nat} (h : value * base + digit < size) :
    push size base value digit = some (value * base + digit) := if_pos h

theorem after_of_lt {entries index : Nat} (h : index < entries) :
    after entries index = some (index + 1) := if_pos h

/-- As many entries as wanted, if there are enough of them. -/
theorem slice_of_le {α : Type} {list : List α} {first last size : Nat}
    (hlast : last = first + size) (h : last ≤ list.length) :
    slice list first last = some ((list.drop first).take size) := by
  subst hlast
  rw [slice, if_pos ⟨Nat.le_add_right _ _, h⟩, List.drop_take, Nat.add_sub_cancel_left]

theorem slice_to_end {α : Type} {list : List α} {first : Nat} (h : first ≤ list.length) :
    slice list first list.length = some (list.drop first) := by
  rw [slice, if_pos ⟨h, Nat.le_refl _⟩, List.take_length]

theorem final_of_ne_nil {α : Type} {list : List α} (h : list ≠ []) :
    final list = some (list.getLast h) := by
  have := List.length_pos_iff.2 h
  rw [final, sub_of_le (by omega), Option.bind_some, List.getLast_eq_getElem,
    List.getElem?_eq_getElem (by omega)]

theorem put_of_lt {α : Type} {list : List α} {index : Nat} (h : index < list.length) (value : α) :
    put list index value = some (list.set index value) := if_pos h

section Checked

-- Not by `rfl` alone: chains of these are rewritten, not unfolded.
variable {ε ε' α β : Type}

@[simp] theorem pure_eq_settled (value : α) : (pure value : Checked ε α) = settled (.ok value) :=
  (rfl)

@[simp] theorem throw_eq_settled (error : ε) :
    (throw error : Checked ε α) = settled (.error error) := (rfl)

@[simp] theorem lift_some (value : α) :
    (liftM (some value) : Checked ε α) = settled (.ok value) := (rfl)

@[simp] theorem settled_ok_bind (value : α) (step : α → Checked ε β) :
    settled (.ok value) >>= step = step value := (rfl)

@[simp] theorem settled_error_bind (error : ε) (step : α → Checked ε β) :
    settled (.error error) >>= step = settled (.error error) := (rfl)

/-- A chain does not fault if none of its steps does. -/
theorem settled_bind {outcome : Except ε α} {step : α → Checked ε β} {next : α → Except ε β}
    (h : ∀ value, outcome = .ok value → step value = settled (next value)) :
    settled outcome >>= step = settled (outcome.bind next) := by
  cases outcome with
  | error error => rfl
  | ok value => exact h value rfl

theorem settled_map (outcome : Except ε α) (f : α → β) :
    (settled outcome >>= fun value => settled (.ok (f value))) = settled (outcome.map f) := by
  cases outcome <;> rfl

/-- The procedure does not fault. It fails as the function does, or comes to something that stands
in a relation to what the function comes to. -/
inductive Settles (R : α → β → Prop) : Checked ε α → Except ε β → Prop where
  | error (error : ε) : Settles R (settled (.error error)) (.error error)
  | ok {a : α} {b : β} (h : R a b) : Settles R (settled (.ok a)) (.ok b)

namespace Settles

variable {R : α → β → Prop} {procedure : Checked ε α} {outcome : Except ε β}

theorem cases_iff : Settles R procedure outcome ↔
    (∃ error, procedure = settled (.error error) ∧ outcome = .error error) ∨
      ∃ a b, procedure = settled (.ok a) ∧ outcome = .ok b ∧ R a b := by
  constructor
  · rintro (error | h)
    · exact .inl ⟨error, rfl, rfl⟩
    · exact .inr ⟨_, _, rfl, rfl, h⟩
  · rintro (⟨error, rfl, rfl⟩ | ⟨a, b, rfl, rfl, h⟩)
    · exact .error error
    · exact .ok h

theorem bind {α' β' : Type} {R' : α' → β' → Prop} {step : α → Checked ε α'}
    {next : β → Except ε β'} (h : Settles R procedure outcome)
    (hstep : ∀ a b, R a b → Settles R' (step a) (next b)) :
    Settles R' (procedure >>= step) (outcome >>= next) := by
  cases h with
  | error error => exact .error error
  | ok h => exact hstep _ _ h

theorem map {α' β' : Type} {R' : α' → β' → Prop} {f : α → α'} {g : β → β'}
    (h : Settles R procedure outcome) (hmap : ∀ a b, R a b → R' (f a) (g b)) :
    Settles R' (procedure >>= fun a => settled (.ok (f a))) (outcome.map g) := by
  cases h with
  | error error => exact .error error
  | ok h => exact .ok (hmap _ _ h)

theorem imp {R' : α → β → Prop} (h : Settles R procedure outcome)
    (himp : ∀ a b, R a b → R' a b) : Settles R' procedure outcome := by
  cases h with
  | error error => exact .error error
  | ok h => exact .ok (himp _ _ h)

theorem eq_settled {outcome : Except ε α} (h : Settles Eq procedure outcome) :
    procedure = settled outcome := by
  cases h with
  | error => rfl
  | ok h => rw [h]

end Settles

theorem recast_settled {outcome : Except ε α} {recast : ε → Option ε'} {f : ε → ε'}
    (h : FailsWith (fun error => recast error = some (f error)) outcome) :
    (settled outcome).recast recast = settled (outcome.mapError f) := by
  cases outcome with
  | ok value => rfl
  | error error =>
    have hrecast : recast error = some (f error) := h error rfl
    simp only [Checked.recast, settled, ExceptT.run_mk, Option.bind_some, hrecast]
    rfl

theorem recast_some (outcome : Except ε α) (f : ε → ε') :
    ((settled outcome).recast fun error => some (f error)) = settled (outcome.mapError f) :=
  recast_settled fun _ _ => rfl

end Checked

end Asn1.Machine
