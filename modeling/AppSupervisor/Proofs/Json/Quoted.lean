import AppSupervisor.Json.Quoted
import Mathlib.Data.List.Forall2

namespace AppSupervisor.Json

/-- The ways to write a character between quotes. -/
inductive Spells : Char → List Char → Prop
  | plain {c : Char} (printable : 0x20 ≤ c.toNat) (unquoted : c ≠ '"') (unescaped : c ≠ '\\') :
      Spells c [c]
  | short {c e : Char} (short : escaped? e = some c) : Spells c ['\\', e]
  | unit {c a b x y : Char} (unit : unit? a b x y = some c.toNat) : Spells c ['\\', 'u', a, b, x, y]
  | pair {c a b x y a' b' x' y' : Char} {lead trail : Nat} (first : unit? a b x y = some lead)
      (second : unit? a' b' x' y' = some trail) (leads : isLeadUnit lead) (trails : isTrailUnit trail)
      (value : c.toNat = 0x10000 + (lead - 0xd800) * 0x400 + (trail - 0xdc00)) :
      Spells c ['\\', 'u', a, b, x, y, '\\', 'u', a', b', x', y']

def Quotes (s : String) (cs : List Char) : Prop :=
  ∃ parts, List.Forall₂ Spells s.toList parts ∧ cs = '"' :: (parts.flatten ++ ['"'])

variable {c : Char} {s : String} {cs done rest : List Char} {parts : List (List Char)}

theorem not_surrogate (c : Char) : isTrailUnit c.toNat = false ∧ isLeadUnit c.toNat = false := by
  have valid : c.toNat < 0xd800 ∨ 0xdfff < c.toNat := c.valid.imp_right And.left
  simp only [isTrailUnit, isLeadUnit, Bool.and_eq_false_iff, decide_eq_false_iff_not]
  omega

theorem not_trail_of_lead {n : Nat} (h : isLeadUnit n) : isTrailUnit n = false := by
  simp only [isLeadUnit, Bool.and_eq_true, decide_eq_true_eq] at h
  simp only [isTrailUnit, Bool.and_eq_false_iff, decide_eq_false_iff_not]
  omega

theorem readQuotedFrom_spells (h : Spells c cs) :
    readQuotedFrom done (cs ++ rest) = readQuotedFrom (c :: done) rest := by
  cases h with
  | plain printable unquoted unescaped =>
    rw [List.singleton_append, readQuotedFrom, if_neg (Nat.not_lt.mpr printable)]
    · exact unquoted
    · exact unescaped
  | @short e short =>
    have other : e ≠ 'u' := by
      rintro rfl
      cases short
    simp only [List.cons_append, List.nil_append, readQuotedFrom, short]
  | unit unit =>
    obtain ⟨trail, lead⟩ := not_surrogate c
    simp only [List.cons_append, List.nil_append, readQuotedFrom, unit, trail, lead,
      Bool.false_eq_true, if_false, Char.ofNat_toNat]
  | @pair _ _ _ _ _ _ _ _ lead trail first second leads trails value =>
    have apart := not_trail_of_lead leads
    have char : pairChar lead trail = c := by
      rw [pairChar, ← value, Char.ofNat_toNat]
    simp only [List.cons_append, List.nil_append, readQuotedFrom, first, second, leads, trails,
      apart, char, Bool.false_eq_true, if_false, if_true]

theorem readQuoted_parts (h : List.Forall₂ Spells s.toList parts) :
    readQuoted (parts.flatten ++ '"' :: rest) = .ok (s, rest) := by
  have read : ∀ (u done : List Char) parts, List.Forall₂ Spells u parts →
      readQuotedFrom done (parts.flatten ++ '"' :: rest) = .ok (done.reverse ++ u, rest) := by
    intro u done parts h
    induction h generalizing done with
    | nil => simp [readQuotedFrom]
    | cons first _ ih =>
      rw [List.flatten_cons, List.append_assoc, readQuotedFrom_spells first, ih]
      simp
  rw [readQuoted, read _ [] _ h]
  simp only [List.reverse_nil, List.nil_append, bind, Except.bind, pure, Except.pure,
    String.ofList_toList]

theorem Quotes.exists_body {s : String} (h : Quotes s cs) :
    ∃ body, cs = '"' :: body ∧ ∀ rest, readQuoted (body ++ rest) = .ok (s, rest) := by
  obtain ⟨parts, spelled, rfl⟩ := h
  refine ⟨_, rfl, fun rest => ?_⟩
  rw [List.append_assoc]
  exact readQuoted_parts spelled

theorem spells_quoteChar (c : Char) : Spells c (quoteChar c) := by
  have control : ∀ n < 0x20, unit? '0' '0' (hexChar (n / 16)) (hexChar (n % 16)) = some n := by
    decide
  unfold quoteChar
  split
  case h_8 unquoted unescaped _ _ _ _ _ =>
    split
    next low => exact .unit (control _ low)
    next printable => exact .plain (Nat.le_of_not_lt printable) unquoted unescaped
  all_goals exact .short rfl

theorem quotes_quote (s : String) : Quotes s (quote s) := by
  refine ⟨s.toList.map quoteChar, ?_, ?_⟩
  · rw [List.forall₂_map_right_iff, List.forall₂_same]
    exact fun c _ => spells_quoteChar c
  · rw [quote, List.flatMap]

end AppSupervisor.Json
