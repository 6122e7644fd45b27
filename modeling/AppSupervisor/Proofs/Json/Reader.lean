import AppSupervisor.Json.Printer
import AppSupervisor.Json.Reader
import AppSupervisor.Proofs.Json.Taken
import Mathlib.Data.List.Forall2

namespace AppSupervisor.Json

def Opens (cs : List Char) : Prop := ∃ c ds, cs = c :: ds ∧ isSpace c = false ∧ c ≠ ']'

def Item {α : Type} (item : Reader α) (x : α) : List Char → Prop :=
  Padded fun cs => Opens cs ∧ Takes item x cs

/-- A member of an object, which takes one state to the next. -/
inductive Member {κ σ : Type} (key : Reader κ) (member : σ → κ → Except Fault (Reader σ)) (s s' : σ) :
    List Char → Prop
  | member {name gap value : List Char} {k : κ} {read : Reader σ}
      (named : ∀ rest, key (name ++ rest) = .ok (k, rest)) (spacing : IsSpacing gap)
      (known : member s k = .ok read) (takes : Takes read s' value) :
      Member key member s s' ('"' :: (name ++ (gap ++ ':' :: value)))

inductive Members {κ σ : Type} (key : Reader κ) (member : σ → κ → Except Fault (Reader σ)) :
    σ → List (List Char) → σ → Prop
  | nil {s : σ} : Members key member s [] s
  | cons {s s' s'' : σ} {part : List Char} {parts : List (List Char)}
      (first : Padded (Member key member s s') part) (others : Members key member s' parts s'') :
      Members key member s (part :: parts) s''

/-- The fields of a structure in their order, each taken by its own reader. -/
inductive Fields {σ : Type} : List (σ → Reader σ) → σ → List (List Char) → σ → Prop
  | nil {s : σ} : Fields [] s [] s
  | cons {s s' s'' : σ} {field : σ → Reader σ} {fields : List (σ → Reader σ)} {part : List Char}
      {parts : List (List Char)} (first : Item (field s) s' part)
      (others : Fields fields s' parts s'') : Fields (field :: fields) s (part :: parts) s''

def afterCommas (parts : List (List Char)) : List Char := parts.flatMap (',' :: ·)

theorem Member.quoted {κ σ : Type} {key : Reader κ} {member : σ → κ → Except Fault (Reader σ)}
    {s s' : σ} {part : List Char} (h : Member key member s s' part) : ∃ cs, part = '"' :: cs := by
  cases h
  exact ⟨_, rfl⟩

theorem Opens.cons {c : Char} {cs : List Char} (solid : isSpace c = false) (inside : c ≠ ']') :
    Opens (c :: cs) :=
  ⟨c, cs, rfl, solid, inside⟩

variable {α κ σ : Type} {g cs rest text : List Char} {parts : List (List Char)} {n : Nat}
  {first : Bool}

theorem commaSeparated_cons (part : List Char) (parts : List (List Char)) :
    commaSeparated (part :: parts) = part ++ afterCommas parts := by
  induction parts generalizing part with
  | nil => simp [commaSeparated, afterCommas]
  | cons next parts ih =>
    rw [commaSeparated, ih]
    · rfl
    · exact nofun

theorem afterCommas_cons (before after : List Char) (parts : List (List Char)) :
    afterCommas ((before ++ (cs ++ after)) :: parts) ++ rest =
      ',' :: (before ++ (cs ++ (after ++ (afterCommas parts ++ rest)))) := by
  simp [afterCommas]

theorem commaSeparated_append (before after : List Char) (parts : List (List Char)) :
    commaSeparated ((before ++ (cs ++ after)) :: parts) ++ rest =
      before ++ (cs ++ (after ++ (afterCommas parts ++ rest))) := by
  simp [commaSeparated_cons]

theorem length_le_commaSeparated (parts : List (List Char)) :
    parts.length ≤ (commaSeparated parts).length + 1 := by
  have commas : ∀ parts, parts.length ≤ (afterCommas parts).length := by
    intro parts
    induction parts with
    | nil => exact Nat.le_refl _
    | cons part parts ih =>
      rw [afterCommas, List.flatMap_cons, List.length_append, List.length_cons, List.length_cons]
      exact Nat.le_trans (Nat.succ_le_succ ih) (by rw [afterCommas]; omega)
  cases parts with
  | nil => exact Nat.zero_le _
  | cons part parts =>
    rw [commaSeparated_cons, List.length_append, List.length_cons]
    have := commas parts
    omega

theorem ends_afterCommas {close : Char} (h : close = ']' ∨ close = '\x7d') :
    Ends (afterCommas parts ++ close :: rest) := by
  cases parts with
  | nil => exact ends_cons (.inr h)
  | cons part parts => exact ends_cons (.inl rfl)

theorem nextElement_close (h : IsSpacing g) : nextElement first (g ++ ']' :: rest) = .ok none := by
  rw [nextElement, skipSpace_append h, skipSpace_cons (by decide)]
  rfl

theorem nextElement_first (h : IsSpacing g) (opens : Opens cs) :
    nextElement true (g ++ (cs ++ rest)) = .ok (some (cs ++ rest)) := by
  obtain ⟨c, ds, rfl, solid, inside⟩ := opens
  rw [nextElement, skipSpace_append h, List.cons_append, skipSpace_cons solid]
  split
  next none => cases none
  next closed =>
    cases closed
    exact absurd rfl inside
  next text =>
    cases text
    rfl

theorem nextElement_comma {g' : List Char} (h : IsSpacing g) (h' : IsSpacing g')
    (opens : Opens cs) :
    nextElement false (g ++ ',' :: (g' ++ (cs ++ rest))) = .ok (some (cs ++ rest)) := by
  obtain ⟨c, ds, rfl, solid, inside⟩ := opens
  have comma : skipSpace (g ++ ',' :: (g' ++ (c :: ds ++ rest))) =
      ',' :: (g' ++ (c :: ds ++ rest)) := by rw [skipSpace_append h, skipSpace_cons (by decide)]
  have opened : skipSpace (g' ++ (c :: ds ++ rest)) = c :: ds ++ rest := by
    rw [skipSpace_append h', List.cons_append, skipSpace_cons solid]
  rw [nextElement, comma]
  split
  next none => cases none
  next closed => cases closed
  next text =>
    cases text
    rw [if_neg Bool.false_ne_true, if_pos rfl, opened]
    split
    next none => cases none
    next closed =>
      cases closed
      exact absurd rfl inside
    next => rfl

theorem closeArray_close (h : IsSpacing g) : closeArray (g ++ ']' :: rest) = .ok rest := by
  rw [closeArray, skipSpace_append h, skipSpace_cons (by decide)]
  rfl

section Array

variable {item : Reader α} {x : α} {xs done : List α}

theorem elementsFrom_close (h : IsSpacing g) :
    elementsFrom item (n + 1) first done (g ++ ']' :: rest) = .ok (done.reverse, rest) := by
  rw [elementsFrom, nextElement_close h]
  simp only [bind, Except.bind, closeArray_close h, pure, Except.pure]

theorem elementsFrom_next (next : nextElement first text = .ok (some (cs ++ rest)))
    (takes : Takes item x cs) (ends : Ends rest) :
    elementsFrom item (n + 1) first done text = elementsFrom item n false (x :: done) rest := by
  rw [elementsFrom, next]
  simp only [bind, Except.bind, takes rest ends]

theorem elementsFrom_parts (h : List.Forall₂ (Item item) xs parts) (gap : IsSpacing g)
    (fuel : xs.length < n) :
    elementsFrom item n false done (g ++ (afterCommas parts ++ ']' :: rest)) =
      .ok (done.reverse ++ xs, rest) := by
  -- The white space in front of a comma belongs to the part before it.
  induction h generalizing n g done with
  | nil =>
    obtain ⟨n, rfl⟩ := Nat.exists_eq_succ_of_ne_zero (Nat.ne_zero_of_lt fuel)
    rw [List.append_nil]
    exact elementsFrom_close gap
  | cons padded _ ih =>
    obtain ⟨left, ⟨opens, takes⟩, right⟩ := padded
    obtain ⟨n, rfl⟩ := Nat.exists_eq_succ_of_ne_zero (Nat.ne_zero_of_lt fuel)
    rw [afterCommas_cons, elementsFrom_next (nextElement_comma gap left opens) takes
      (ends_append right (ends_afterCommas (.inl rfl))), ih right (Nat.lt_of_succ_lt_succ fuel)]
    simp

theorem elements_parts (h : List.Forall₂ (Item item) xs parts) :
    elements item (commaSeparated parts ++ ']' :: rest) = .ok (xs, rest) := by
  have fuel : xs.length < (commaSeparated parts ++ ']' :: rest).length + 1 := by
    have count := length_le_commaSeparated parts
    rw [h.length_eq]
    simp only [List.length_append, List.length_cons]
    omega
  rw [elements]
  generalize (commaSeparated parts ++ ']' :: rest).length = n at fuel ⊢
  cases h with
  | nil => exact elementsFrom_close .nil
  | cons padded others =>
    obtain ⟨left, ⟨opens, takes⟩, right⟩ := padded
    rw [commaSeparated_append, elementsFrom_next (nextElement_first left opens) takes
        (ends_append right (ends_afterCommas (.inl rfl))),
      elementsFrom_parts others right (Nat.lt_of_succ_lt_succ fuel)]
    rfl

end Array

theorem nextMember_close (h : IsSpacing g) : nextMember first (g ++ '\x7d' :: rest) = .ok none := by
  rw [nextMember, skipSpace_append h, skipSpace_cons (by decide)]
  rfl

theorem nextMember_first (h : IsSpacing g) :
    nextMember true (g ++ ('"' :: cs ++ rest)) = .ok (some (cs ++ rest)) := by
  rw [nextMember, skipSpace_append h, List.cons_append, skipSpace_cons (by decide)]
  rfl

theorem nextMember_comma {g' : List Char} (h : IsSpacing g) (h' : IsSpacing g') :
    nextMember false (g ++ ',' :: (g' ++ ('"' :: cs ++ rest))) = .ok (some (cs ++ rest)) := by
  have comma : skipSpace (g ++ ',' :: (g' ++ ('"' :: cs ++ rest))) =
      ',' :: (g' ++ ('"' :: cs ++ rest)) := by rw [skipSpace_append h, skipSpace_cons (by decide)]
  have opened : skipSpace (g' ++ ('"' :: cs ++ rest)) = '"' :: (cs ++ rest) := by
    rw [skipSpace_append h', List.cons_append, skipSpace_cons (by decide)]
  rw [nextMember, comma]
  split
  next none => cases none
  next closed => cases closed
  next text =>
    cases text
    rw [if_neg Bool.false_ne_true, if_pos rfl, opened]
    rfl

theorem closeObject_close (h : IsSpacing g) : closeObject (g ++ '\x7d' :: rest) = .ok rest := by
  rw [closeObject, skipSpace_append h, skipSpace_cons (by decide)]
  rfl

theorem readColon_colon (h : IsSpacing g) : readColon (g ++ ':' :: rest) = .ok rest := by
  rw [readColon, skipSpace_append h, skipSpace_cons (by decide)]
  rfl

section Object

variable {key : Reader κ} {member : σ → κ → Except Fault (Reader σ)} {s s' : σ}

theorem membersFrom_close (h : IsSpacing g) :
    membersFrom key member (n + 1) first s (g ++ '\x7d' :: rest) = .ok (s, rest) := by
  rw [membersFrom, nextMember_close h]
  simp only [bind, Except.bind, closeObject_close h, pure, Except.pure]

theorem membersFrom_next (next : nextMember first text = .ok (some (cs ++ rest)))
    (takes : Member key member s s' ('"' :: cs)) (ends : Ends rest) :
    membersFrom key member (n + 1) first s text = membersFrom key member n false s' rest := by
  obtain ⟨named, spacing, known, takes⟩ := takes
  simp only [List.cons_append, List.append_assoc] at next
  rw [membersFrom, next]
  simp only [bind, Except.bind, named, known, readColon_colon spacing, takes rest ends]

theorem membersFrom_parts (h : Members key member s parts s') (gap : IsSpacing g)
    (fuel : parts.length < n) :
    membersFrom key member n false s (g ++ (afterCommas parts ++ '\x7d' :: rest)) =
      .ok (s', rest) := by
  induction h generalizing n g with
  | nil =>
    obtain ⟨n, rfl⟩ := Nat.exists_eq_succ_of_ne_zero (Nat.ne_zero_of_lt fuel)
    exact membersFrom_close gap
  | cons padded _ ih =>
    obtain ⟨left, takes, right⟩ := padded
    obtain ⟨n, rfl⟩ := Nat.exists_eq_succ_of_ne_zero (Nat.ne_zero_of_lt fuel)
    obtain ⟨cs, rfl⟩ := takes.quoted
    rw [afterCommas_cons, membersFrom_next (nextMember_comma gap left) takes
      (ends_append right (ends_afterCommas (.inr rfl))), ih right (Nat.lt_of_succ_lt_succ fuel)]

theorem members_parts (h : Members key member s parts s') :
    members key member s (commaSeparated parts ++ '\x7d' :: rest) = .ok (s', rest) := by
  have fuel : parts.length < (commaSeparated parts ++ '\x7d' :: rest).length + 1 := by
    have count := length_le_commaSeparated parts
    simp only [List.length_append, List.length_cons]
    omega
  rw [members]
  generalize (commaSeparated parts ++ '\x7d' :: rest).length = n at fuel ⊢
  cases h with
  | nil => exact membersFrom_close .nil
  | cons padded others =>
    obtain ⟨left, takes, right⟩ := padded
    obtain ⟨cs, rfl⟩ := takes.quoted
    rw [commaSeparated_append, membersFrom_next (nextMember_first left) takes
        (ends_append right (ends_afterCommas (.inr rfl))),
      membersFrom_parts others right (Nat.lt_of_succ_lt_succ fuel)]

end Object

section Structure

variable {readers : List (σ → Reader σ)} {reader : σ → Reader σ} {short : σ → Except Fault σ}
  {s s' : σ}

theorem fields_nil (h : IsSpacing g) :
    fields short [] first s (g ++ ']' :: rest) = .ok (s, rest) := by
  rw [fields]
  simp only [bind, Except.bind, closeArray_close h, pure, Except.pure]

theorem fields_next (next : nextElement first text = .ok (some (cs ++ rest)))
    (takes : Takes (reader s) s' cs) (ends : Ends rest) :
    fields short (reader :: readers) first s text = fields short readers false s' rest := by
  rw [fields, next]
  simp only [bind, Except.bind, takes rest ends]

theorem fields_afterCommas (h : Fields readers s parts s') (gap : IsSpacing g) :
    fields short readers false s (g ++ (afterCommas parts ++ ']' :: rest)) = .ok (s', rest) := by
  induction h generalizing g with
  | nil => exact fields_nil gap
  | cons padded _ ih =>
    obtain ⟨left, ⟨opens, takes⟩, right⟩ := padded
    rw [afterCommas_cons, fields_next (nextElement_comma gap left opens) takes
      (ends_append right (ends_afterCommas (.inl rfl))), ih right]

theorem fields_parts (h : Fields readers s parts s') :
    fields short readers true s (commaSeparated parts ++ ']' :: rest) = .ok (s', rest) := by
  cases h with
  | nil => exact fields_nil .nil
  | cons padded others =>
    obtain ⟨left, ⟨opens, takes⟩, right⟩ := padded
    rw [commaSeparated_append, fields_next (nextElement_first left opens) takes
        (ends_append right (ends_afterCommas (.inl rfl))),
      fields_afterCommas others right]

end Structure

/-- What is relied on of a reader that takes any of these texts as the value. -/
structure Reads (read : Reader α) (x : α) (P : List Char → Prop) : Prop where
  skips : ∀ g cs, IsSpacing g → read (g ++ cs) = read cs
  opens : ∀ cs, P cs → Opens cs
  takes : ∀ cs, P cs → Takes read x cs

section Reads

variable {β : Type} {read : Reader α} {x : α} {P : List Char → Prop}

theorem Reads.item (h : Reads read x P) (text : Padded P cs) : Item read x cs := by
  obtain ⟨left, inside, right⟩ := text
  exact .pad left ⟨h.opens _ inside, h.takes _ inside⟩ right

theorem Reads.map (h : Reads read x P) (f : α → β) :
    Reads (fun cs => do let (x, cs) ← read cs; return (f x, cs)) (f x) P where
  skips g cs spacing := by simp only [h.skips g cs spacing]
  opens := h.opens
  takes cs text rest ends := by
    simp only [h.takes cs text rest ends, bind, Except.bind]
    rfl

/-- A whole text is read when its value is, whatever white space stands around it. -/
theorem readAll_padded (h : Reads read x P) (text : Padded P cs) :
    readAll read (String.ofList cs) = .ok x := by
  obtain ⟨left, inside, right⟩ := text
  rw [readAll, String.toList_ofList, h.skips _ _ left, h.takes _ inside _ (ends_spacing right)]
  simp only [bind, Except.bind, skipSpace_spacing right, List.isEmpty_nil, if_true, pure, Except.pure]

end Reads

end AppSupervisor.Json
