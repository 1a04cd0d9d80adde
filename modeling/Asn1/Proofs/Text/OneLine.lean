import Asn1.Error.Message
import Mathlib.Tactic.Common

/-!
Texts without a line break. Numbers never have one, and neither has anything between quotes,
whatever the quoted text holds.
-/

namespace Asn1.Text

def OnOneLine (text : String) : Prop := '\n' ∉ text.toList

namespace OnOneLine

@[simp] theorem append_iff {a b : String} : OnOneLine (a ++ b) ↔ OnOneLine a ∧ OnOneLine b := by
  simp [OnOneLine]

@[simp] theorem ofList_iff {chars : List Char} :
    OnOneLine (String.ofList chars) ↔ '\n' ∉ chars := by
  simp [OnOneLine]

theorem join {texts : List String} (h : ∀ text ∈ texts, OnOneLine text) :
    OnOneLine (String.join texts) := by
  rw [OnOneLine, String.toList_join, List.mem_flatMap]
  rintro ⟨text, hmem, hbreak⟩
  exact h text hmem hbreak

theorem intercalate {separator : String} (hseparator : OnOneLine separator) {texts : List String}
    (h : ∀ text ∈ texts, OnOneLine text) : OnOneLine (separator.intercalate texts) := by
  induction texts with
  | nil => simp [OnOneLine]
  | cons first rest ih =>
    obtain ⟨hfirst, hrest⟩ := List.forall_mem_cons.1 h
    cases rest with
    | nil => simpa using hfirst
    | cons second rest =>
      rw [String.intercalate_cons_cons]
      simp [hfirst, hseparator, ih hrest]

end OnOneLine

section Numbers

theorem newline_notMem_toDigits (base n : Nat) (hmin : 1 < base) (hmax : base ≤ 16) :
    '\n' ∉ Nat.toDigits base n := by
  have hdigit : ∀ digit < 16, '\n' ≠ Nat.digitChar digit := by decide
  induction n using Nat.strongRecOn with
  | ind n ih =>
    rw [Nat.toDigits_eq_if hmin]
    split
    · rename_i hless
      simp [hdigit n (by omega)]
    · rename_i hmore
      have hlast : n % base < base := Nat.mod_lt n (by omega)
      have hquotient : n / base < n := Nat.div_lt_self (by omega) hmin
      simp [ih _ hquotient, hdigit (n % base) (by omega)]

@[simp] theorem onOneLine_nat (n : Nat) : OnOneLine n.repr := by
  rw [OnOneLine, Nat.toList_repr]
  exact newline_notMem_toDigits 10 n (by decide) (by decide)

@[simp] theorem onOneLine_int (n : Int) : OnOneLine n.repr := by
  cases n with
  | ofNat n => exact onOneLine_nat n
  | negSucc n =>
    have hminus : OnOneLine "-" := by simp [OnOneLine]
    exact OnOneLine.append_iff.2 ⟨hminus, onOneLine_nat (n + 1)⟩

@[simp] theorem onOneLine_paddedDigits (width n : Nat) : OnOneLine (paddedDigits width n) := by
  rw [paddedDigits, OnOneLine.ofList_iff, List.mem_append, not_or]
  refine ⟨?_, newline_notMem_toDigits 10 n (by decide) (by decide)⟩
  rw [List.mem_replicate]
  rintro ⟨-, ⟨⟩⟩

@[simp] theorem onOneLine_toHex (octets : Octets) : OnOneLine (Octets.toHex octets) := by
  have hdigit : ∀ digit < 16, '\n' ≠ Octets.hexDigit digit := by decide
  apply OnOneLine.join
  intro text htext
  obtain ⟨octet, -, rfl⟩ := List.mem_map.1 htext
  have hoctet := octet.toNat_lt
  have hhigh := hdigit (octet.toNat / 16) (by omega)
  have hlow := hdigit (octet.toNat % 16) (by omega)
  rw [Octets.hexPair, OnOneLine.ofList_iff]
  simp [hhigh, hlow]

end Numbers

/-- A line break is one of the characters with a short escape. -/
theorem newline_notMem_escape (delimiter c : Char) : '\n' ∉ escape delimiter c := by
  have hdigits := newline_notMem_toDigits 16 c.toNat (by decide) (by decide)
  rw [escape]
  split_ifs with hnull htab hreturn hnewline hshort hunprintable
  · decide
  · decide
  · decide
  · decide
  · simp [Ne.symm hnewline]
  · simpa [lowerHexDigits] using hdigits
  · simp [Ne.symm hnewline]

@[simp] theorem onOneLine_quote (text : String) : OnOneLine (quote text) := by
  rw [quote, OnOneLine.ofList_iff]
  have hbody : '\n' ∉ text.toList.flatMap (escape '"') := by
    rw [List.mem_flatMap]
    rintro ⟨c, -, hbreak⟩
    exact newline_notMem_escape '"' c hbreak
  simp [hbody]

end Asn1.Text
