import Mathlib.Tactic.Common

/-!
Chains of steps that may fail. A failure of a chain is the failure of one of its steps, after
those before it have succeeded.
-/

namespace Asn1

variable {ε ε' α β γ : Type}

theorem map_map {result : Except ε α} {f : α → β} {g : β → γ} :
    (result.map f).map g = result.map fun value => g (f value) := by
  cases result <;> rfl

theorem bind_map {result : Except ε α} {f : α → β} {step : β → Except ε γ} :
    (result.map f).bind step = result.bind fun value => step (f value) := by
  cases result <;> rfl

theorem map_bind {result : Except ε α} {step : α → Except ε β} {g : β → γ} :
    (result.bind step).map g = result.bind fun value => (step value).map g := by
  cases result <;> rfl

theorem mapError_map {result : Except ε α} {f : ε → ε'} {g : α → β} :
    (result.map g).mapError f = (result.mapError f).map g := by
  cases result <;> rfl

theorem map_eq_ok_iff {result : Except ε α} {f : α → β} {image : β} :
    result.map f = .ok image ↔ ∃ value, result = .ok value ∧ f value = image := by
  cases result <;> simp [Except.map]

theorem map_eq_error_iff {result : Except ε α} {f : α → β} {error : ε} :
    result.map f = .error error ↔ result = .error error := by
  cases result <;> simp [Except.map]

theorem mapError_eq_ok_iff {result : Except ε α} {f : ε → ε'} {value : α} :
    result.mapError f = .ok value ↔ result = .ok value := by
  cases result <;> simp [Except.mapError]

theorem mapError_eq_error_iff {result : Except ε α} {f : ε → ε'} {error : ε'} :
    result.mapError f = .error error ↔ ∃ source, result = .error source ∧ f source = error := by
  cases result <;> simp [Except.mapError]

theorem bind_eq_ok_iff {result : Except ε α} {step : α → Except ε β} {value : β} :
    result.bind step = .ok value ↔ ∃ part, result = .ok part ∧ step part = .ok value := by
  cases result <;> simp [Except.bind]

theorem bind_eq_error_iff {result : Except ε α} {step : α → Except ε β} {error : ε} :
    result.bind step = .error error ↔
      result = .error error ∨ ∃ value, result = .ok value ∧ step value = .error error := by
  cases result <;> simp [Except.bind]

/-- If there is an error, it is one of these. -/
def FailsWith (P : ε → Prop) (result : Except ε α) : Prop :=
  ∀ error, result = .error error → P error

namespace FailsWith

variable {P : ε → Prop} {result : Except ε α}

@[simp] theorem ok {value : α} : FailsWith P (.ok value) := nofun

@[simp] theorem error_iff {error : ε} :
    FailsWith P (.error error : Except ε α) ↔ P error := by
  constructor
  · intro h
    exact h error rfl
  · rintro h _ ⟨⟩
    exact h

theorem bind {step : α → Except ε β} (hresult : FailsWith P result)
    (hstep : ∀ value, result = .ok value → FailsWith P (step value)) :
    FailsWith P (result.bind step) := by
  cases result with
  | error error => exact error_iff.2 (hresult error rfl)
  | ok value => exact hstep value rfl

theorem map {f : α → β} (h : FailsWith P result) : FailsWith P (result.map f) := by
  cases result with
  | error error => exact error_iff.2 (h error rfl)
  | ok value => exact ok

theorem mapError {Q : ε' → Prop} {f : ε → ε'} (h : FailsWith P result)
    (himp : ∀ error, P error → Q (f error)) : FailsWith Q (result.mapError f) := by
  cases result with
  | error error => exact error_iff.2 (himp error (h error rfl))
  | ok value => exact ok

theorem of_mapError {Q : ε' → Prop} {f : ε → ε'} (h : ∀ error, Q (f error)) :
    FailsWith Q (result.mapError f) := by
  cases result with
  | error error => exact error_iff.2 (h error)
  | ok value => exact ok

theorem imp {Q : ε → Prop} (h : FailsWith P result) (himp : ∀ error, P error → Q error) :
    FailsWith Q result :=
  fun error herror => himp error (h error herror)

end FailsWith

end Asn1
