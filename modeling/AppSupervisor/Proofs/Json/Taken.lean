import AppSupervisor.Json.Fault

namespace AppSupervisor.Json

def IsSpacing (g : List Char) : Prop := ∀ c ∈ g, isSpace c

instance (g : List Char) : Decidable (IsSpacing g) := List.decidableBAll _ g

/-- A value ends in front of this text. -/
def Ends (rest : List Char) : Prop :=
  ∀ c ∈ rest.head?, isSpace c ∨ c = ',' ∨ c = ']' ∨ c = '\x7d'

/-- The reader takes the text as the value and leaves what comes behind. -/
def Takes {α : Type} (read : Reader α) (x : α) (cs : List Char) : Prop :=
  ∀ rest, Ends rest → read (cs ++ rest) = .ok (x, rest)

inductive Padded (P : List Char → Prop) : List Char → Prop
  | pad {before cs after : List Char} (left : IsSpacing before) (text : P cs)
      (right : IsSpacing after) : Padded P (before ++ (cs ++ after))

variable {α : Type} {read : Reader α} {x : α} {P Q : List Char → Prop} {g cs rest : List Char}
  {c : Char}

theorem IsSpacing.nil : IsSpacing [] := nofun

theorem Padded.plain (h : P cs) : Padded P cs := by
  have padded : Padded P ([] ++ (cs ++ [])) := .pad .nil h .nil
  rwa [List.nil_append, List.append_nil] at padded

theorem skipSpace_append (h : IsSpacing g) : skipSpace (g ++ cs) = skipSpace cs := by
  rw [skipSpace, List.dropWhile_append_of_pos h]
  rfl

theorem skipSpace_spacing (h : IsSpacing g) : skipSpace g = [] := by
  have all : skipSpace (g ++ []) = skipSpace [] := skipSpace_append h
  rwa [List.append_nil] at all

theorem skipSpace_cons (h : isSpace c = false) : skipSpace (c :: cs) = c :: cs := by
  rw [skipSpace, List.dropWhile_cons_of_neg (by simp [h])]

theorem ends_append (h : IsSpacing g) (ends : Ends rest) : Ends (g ++ rest) := by
  cases g with
  | nil => exact ends
  | cons c g =>
    intro d first
    cases Option.some.inj first
    exact .inl (h c List.mem_cons_self)

theorem ends_cons (h : c = ',' ∨ c = ']' ∨ c = '\x7d') : Ends (c :: rest) := by
  intro d first
  cases Option.some.inj first
  exact .inr h

theorem ends_spacing (h : IsSpacing g) : Ends g := by
  have ends : Ends (g ++ []) := ends_append h nofun
  rwa [List.append_nil] at ends

end AppSupervisor.Json
