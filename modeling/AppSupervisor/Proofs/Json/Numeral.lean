import AppSupervisor.Json.Numeral
import AppSupervisor.Proofs.Json.Taken
import AppSupervisor.Proofs.Text.Decimal
import Mathlib.Data.List.TakeDrop

namespace AppSupervisor.Json

/-- The integers that are kept as such. -/
def IsIntegral (n : Int) : Prop := -2 ^ 63 ≤ n ∧ n < 2 ^ 64

variable {c : Char} {ds rest : List Char} {n : Nat}

theorem not_isDigit_of_ends (h : Ends rest) :
    ∀ c ∈ rest.head?, c.isDigit = false ∧ c ≠ '.' ∧ c ≠ 'e' ∧ c ≠ 'E' := by
  intro c first
  have delimits : c = ' ' ∨ c = '\n' ∨ c = '\t' ∨ c = '\r' ∨ c = ',' ∨ c = ']' ∨ c = '\x7d' := by
    simpa [isSpace, or_assoc] using h c first
  rcases delimits with rfl | rfl | rfl | rfl | rfl | rfl | rfl <;> decide

theorem readDigits_append (digits : ∀ c ∈ ds, c.isDigit) (some : ds ≠ []) (h : Ends rest) :
    readDigits (ds ++ rest) = .ok (ds, rest) := by
  have stop : rest.takeWhile Char.isDigit = [] ∧ rest.dropWhile Char.isDigit = rest := by
    cases rest with
    | nil => exact ⟨rfl, rfl⟩
    | cons c rest =>
      have nondigit : ¬c.isDigit := by simpa using (not_isDigit_of_ends h c rfl).1
      exact ⟨List.takeWhile_cons_of_neg nondigit, List.dropWhile_cons_of_neg nondigit⟩
  have span : (ds ++ rest).span Char.isDigit = (ds, rest) := by
    rw [List.span_eq_takeWhile_dropWhile, List.takeWhile_append_of_pos digits,
      List.dropWhile_append_of_pos digits, stop.1, stop.2, List.append_nil]
  rw [readDigits, span]
  cases ds with
  | nil => exact absurd rfl some
  | cons => rfl

theorem readIntegerDigits_toDigits (n : Nat) (h : Ends rest) :
    readIntegerDigits (Nat.toDigits 10 n ++ rest) = .ok (Nat.toDigits 10 n, rest) := by
  have digits : ∀ c ∈ Nat.toDigits 10 n, c.isDigit := fun _ hc =>
    Nat.isDigit_of_mem_toDigits (by decide) (by decide) hc
  rw [readIntegerDigits, readDigits_append digits Nat.toDigits_ne_nil h]
  simp only [bind, Except.bind]
  split
  next c cs leads =>
    exfalso
    cases n with
    | zero => cases leads
    | succ n => exact head?_toDigits n.succ_pos (by rw [leads]; rfl)
  next => rfl

theorem le_ofDigitChars (ds : List Char) (m : Nat) : m ≤ Nat.ofDigitChars 10 ds m := by
  rw [Nat.ofDigitChars_eq_ofDigitChars_zero]
  exact Nat.le_add_right_of_le (Nat.le_mul_of_pos_left _ (Nat.pow_pos (by decide)))

theorem integerPart_eq {m : Nat} (h : Nat.ofDigitChars 10 ds m < UInt64.size) :
    integerPart m ds = (Nat.ofDigitChars 10 ds m, 0) := by
  induction ds generalizing m with
  | nil => rfl
  | cons c ds ih =>
    change Nat.ofDigitChars 10 ds (pushDigit m c) < UInt64.size at h
    have fits : pushDigit m c < UInt64.size := Nat.lt_of_le_of_lt (le_ofDigitChars ds _) h
    rw [integerPart, if_pos fits, ih h]
    rfl

theorem readFraction?_of_ends (h : Ends rest) : readFraction? rest = .ok (none, rest) := by
  unfold readFraction?
  split
  next => exact absurd rfl (not_isDigit_of_ends h _ rfl).2.1
  next => rfl

theorem readExponent?_of_ends (h : Ends rest) : readExponent? rest = .ok (none, rest) := by
  unfold readExponent?
  split
  next => exact absurd rfl (not_isDigit_of_ends h _ rfl).2.2.1
  next => exact absurd rfl (not_isDigit_of_ends h _ rfl).2.2.2
  next => rfl

theorem readUnsignedNumber_toDigits {negative : Bool} {i : Int} (small : n < UInt64.size)
    (value : integer? negative n = some i) (h : Ends rest) :
    readUnsignedNumber negative (Nat.toDigits 10 n ++ rest) = .ok (.int i, rest) := by
  have whole : integerPart 0 (Nat.toDigits 10 n) = (n, 0) := by
    rw [integerPart_eq] <;> rw [Nat.ofDigitChars_toDigits (by decide) (by decide)]
    exact small
  simp only [readUnsignedNumber, readIntegerDigits_toDigits n h, bind, Except.bind,
    readFraction?_of_ends h, readExponent?_of_ends h, whole, value, if_true]
  rfl

theorem toDigits_append (n : Nat) (rest : List Char) :
    ∃ d ds, Nat.toDigits 10 n ++ rest = d :: ds ∧ d.isDigit := by
  cases digits : Nat.toDigits 10 n with
  | nil => exact absurd digits Nat.toDigits_ne_nil
  | cons d ds =>
    exact ⟨d, ds ++ rest, rfl, Nat.isDigit_of_mem_toDigits (b := 10) (n := n) (by decide) (by decide)
      (digits ▸ List.mem_cons_self)⟩

theorem decimalChars_append (n : Int) (rest : List Char) :
    ∃ c cs, decimalChars n ++ rest = c :: cs ∧ (c = '-' ∨ c.isDigit) := by
  cases n with
  | ofNat n =>
    obtain ⟨d, ds, text, digit⟩ := toDigits_append n rest
    exact ⟨d, ds, text, .inr digit⟩
  | negSucc n => exact ⟨_, _, rfl, .inl rfl⟩

theorem solid_of_numeric (h : c = '-' ∨ c.isDigit) : isSpace c = false ∧ c ≠ ']' := by
  rcases h with rfl | digit
  · decide
  constructor
  · rw [Bool.eq_false_iff]
    intro space
    rw [isSpace] at space
    simp only [Bool.or_eq_true, beq_iff_eq, or_assoc] at space
    rcases space with rfl | rfl | rfl | rfl <;> cases digit
  · rintro rfl
    cases digit

theorem takes_decimalChars {i : Int} (h : IsIntegral i) :
    Takes readNumber (.int i) (decimalChars i) := by
  intro rest ends
  cases i with
  | ofNat n =>
    have unsigned : readNumber (Nat.toDigits 10 n ++ rest) =
        readUnsignedNumber false (Nat.toDigits 10 n ++ rest) := by
      obtain ⟨d, ds, text, digit⟩ := toDigits_append n rest
      rw [text]
      unfold readNumber
      split
      next minus =>
        cases minus
        cases digit
      next => rfl
    exact unsigned.trans (readUnsignedNumber_toDigits (Int.ofNat_lt.mp h.2) rfl ends)
  | negSucc n =>
    have range : 2 * (n + 1) ≤ UInt64.size := by
      have low := h.1
      rw [UInt64.size]
      omega
    have value : integer? true (n + 1) = some (.negSucc n) := by
      rw [integer?, if_neg (by decide), if_neg (by simp [range])]
      rfl
    exact readUnsignedNumber_toDigits (by omega) value ends

end AppSupervisor.Json
