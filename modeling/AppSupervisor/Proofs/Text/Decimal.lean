import AppSupervisor.Text.Decimal
import Mathlib.Data.List.Basic
import Mathlib.Data.List.Induction
import Mathlib.Data.Nat.Digits.Defs

namespace AppSupervisor

def digitsValue (ds : List Char) : Nat :=
  Nat.ofDigits 10 (ds.reverse.map fun c => c.toNat - '0'.toNat)

/-- One or more ASCII digits with the value `n`, possibly after a plus sign. Zeros may lead. -/
def IsNumeral (w : List Char) (n : Nat) : Prop :=
  ∃ ds, (w = ds ∨ w = '+' :: ds) ∧ ds ≠ [] ∧ (∀ c ∈ ds, '0' ≤ c ∧ c ≤ '9') ∧ digitsValue ds = n

variable {ds : List Char} {c : Char} {n m : Nat}

theorem isDigit_iff : c.isDigit ↔ '0' ≤ c ∧ c ≤ '9' := by
  rw [Char.isDigit, Bool.and_eq_true, decide_eq_true_eq, decide_eq_true_eq]
  rfl

theorem ofDigitChars_eq (ds : List Char) : Nat.ofDigitChars 10 ds 0 = digitsValue ds := by
  induction ds using List.reverseRecOn with
  | nil => rfl
  | append_singleton ds c ih =>
    have more : digitsValue (ds ++ [c]) = (c.toNat - '0'.toNat) + 10 * digitsValue ds := by
      rw [digitsValue, List.reverse_concat, List.map_cons, Nat.ofDigits_cons]
      rfl
    rw [Nat.ofDigitChars_append, ih, more, Nat.add_comm]
    rfl

theorem decimal?_eq_some :
    decimal? ds = some n ↔ ds ≠ [] ∧ (∀ c ∈ ds, '0' ≤ c ∧ c ≤ '9') ∧ digitsValue ds = n := by
  simp only [← isDigit_iff, ← ofDigitChars_eq]
  unfold decimal?
  split
  next wrong =>
    have wrong : ¬(ds ≠ [] ∧ ∀ c ∈ ds, c.isDigit) := by
      rintro ⟨some, digits⟩
      simp [some, List.all_eq_true.mpr digits] at wrong
    exact ⟨nofun, fun h => absurd ⟨h.1, h.2.1⟩ wrong⟩
  next digits =>
    have digits : ds ≠ [] ∧ ∀ c ∈ ds, c.isDigit := by simpa using digits
    rw [Option.some.injEq]
    exact ⟨fun h => ⟨digits.1, digits.2, h⟩, fun h => h.2.2⟩

theorem isNumeral_decimalChars (n : Nat) : IsNumeral (decimalChars n) n :=
  ⟨Nat.toDigits 10 n, .inl rfl, decimal?_eq_some.mp (decimal?_toDigits n)⟩

theorem head?_toDigits (h : 0 < n) : (Nat.toDigits 10 n).head? ≠ some '0' := by
  induction n using Nat.strongRecOn with
  | ind n ih =>
    rw [Nat.toDigits_eq_if (by decide)]
    split
    next small =>
      have leads : ∀ d < 10, 0 < d → [Nat.digitChar d].head? ≠ some '0' := by decide
      exact leads n small h
    next large =>
      rw [List.head?_append_of_ne_nil _ Nat.toDigits_ne_nil]
      exact ih (n / 10) (by omega) (by omega)

end AppSupervisor
