import AppSupervisor.Json.Printer
import AppSupervisor.Proofs.Json.Reader
import AppSupervisor.Proofs.Text.Decimal

namespace AppSupervisor.Json

def IsPrintable (cs : List Char) : Prop := ∀ c ∈ cs, 0x20 ≤ c.toNat

instance (cs : List Char) : Decidable (IsPrintable cs) := List.decidableBAll _ cs

variable {c : Char} {cs ds : List Char} {parts : List (List Char)}

theorem IsPrintable.append (h : IsPrintable cs) (h' : IsPrintable ds) : IsPrintable (cs ++ ds) :=
  List.forall_mem_append.mpr ⟨h, h'⟩

theorem IsPrintable.cons (h : 0x20 ≤ c.toNat) (h' : IsPrintable cs) : IsPrintable (c :: cs) :=
  List.forall_mem_cons.mpr ⟨h, h'⟩

theorem printable_singleton (h : 0x20 ≤ c.toNat) : IsPrintable [c] := IsPrintable.cons h nofun

theorem printable_quoteChar (c : Char) : IsPrintable (quoteChar c) := by
  have hex : ∀ n < 16, 0x20 ≤ (hexChar n).toNat := by decide
  unfold quoteChar
  split
  case h_8 =>
    split
    next low =>
      simp [IsPrintable, hex _ (Nat.mod_lt _ _), hex (c.toNat / 16) (by omega)]
    next printable =>
      exact printable_singleton (Nat.le_of_not_lt printable)
  all_goals decide

theorem printable_quote (s : String) : IsPrintable (quote s) := by
  intro x hx
  rcases List.mem_cons.mp hx with rfl | hx
  · decide
  rcases List.mem_append.mp hx with hx | hx
  · obtain ⟨c, _, hx⟩ := List.mem_flatMap.mp hx
    exact printable_quoteChar c x hx
  · cases List.mem_singleton.mp hx
    decide

theorem printable_decimalChars (n : Int) : IsPrintable (decimalChars n) := by
  have digits : ∀ n, IsPrintable (Nat.toDigits 10 n) := by
    intro n c hc
    have digit : '0' ≤ c ∧ c ≤ '9' :=
      isDigit_iff.mp (Nat.isDigit_of_mem_toDigits (by decide) (by decide) hc)
    exact Nat.le_trans (by decide) digit.1
  cases n with
  | ofNat n => exact digits n
  | negSucc n => exact .cons (by decide) (digits (n + 1))

theorem printable_printNumber (n : Number) : IsPrintable (printNumber n) := by
  cases n with
  | int n => exact printable_decimalChars n
  | decimal negative digits exponent =>
    refine .append (.append ?_ (printable_decimalChars _))
      (.cons (by decide) (printable_decimalChars _))
    cases negative <;> decide

theorem printable_commaSeparated (h : ∀ part ∈ parts, IsPrintable part) :
    IsPrintable (commaSeparated parts) := by
  cases parts with
  | nil => exact nofun
  | cons part parts =>
    rw [List.forall_mem_cons] at h
    rw [commaSeparated_cons]
    refine h.1.append fun c hc => ?_
    obtain ⟨other, listed, hc⟩ := List.mem_flatMap.mp hc
    exact IsPrintable.cons (by decide) (h.2 other listed) c hc

mutual

theorem printable_print : ∀ v : Json, IsPrintable (print v)
  | .null => of_decide_eq_true rfl
  | .bool true => of_decide_eq_true rfl
  | .bool false => of_decide_eq_true rfl
  | .number n => printable_printNumber n
  | .string s => printable_quote s
  | .array vs =>
    .cons (by decide) (.append (printable_commaSeparated (printable_printElements vs))
      (printable_singleton (by decide)))
  | .object ms =>
    .cons (by decide) (.append (printable_commaSeparated (printable_printMembers ms))
      (printable_singleton (by decide)))

theorem printable_printElements : ∀ vs : List Json, ∀ part ∈ printElements vs, IsPrintable part
  | [] => nofun
  | v :: vs => List.forall_mem_cons.mpr ⟨printable_print v, printable_printElements vs⟩

theorem printable_printMembers :
    ∀ ms : List (String × Json), ∀ part ∈ printMembers ms, IsPrintable part
  | [] => nofun
  | (k, v) :: ms =>
    List.forall_mem_cons.mpr ⟨(printable_quote k).append (.cons (by decide) (printable_print v)),
      printable_printMembers ms⟩

end

/-- The line that a value is written on holds all of it. -/
theorem render_one_line (v : Json) : '\n' ∉ v.render.toList ∧ '\r' ∉ v.render.toList := by
  have printable : IsPrintable v.render.toList := by
    rw [render, String.toList_ofList]
    exact printable_print v
  exact ⟨fun h => absurd (printable _ h) (by decide), fun h => absurd (printable _ h) (by decide)⟩

end AppSupervisor.Json
