import AppSupervisor.Proofs.Json.RoundTrip
import Mathlib.Data.List.Perm.Basic

namespace AppSupervisor.Json

section Scalars

variable {α : Type} {choice? : String → Option α} {x : α} {s : String} {bound n : Nat}

theorem reads_string (s : String) : Reads readString s (Quotes s) where
  skips _ _ spacing := by rw [readString, readString, skipSpace_append spacing]
  opens _ quoted := quoted.opens
  takes cs quoted rest _ := by
    obtain ⟨body, rfl, read⟩ := quoted.exists_body
    rw [List.cons_append, readString, skipSpace_cons (by decide)]
    exact read rest

theorem reads_choice (known : choice? s = some x) : Reads (readChoice choice?) x (Quotes s) where
  skips _ _ spacing := by rw [readChoice, readChoice, skipSpace_append spacing]
  opens _ quoted := quoted.opens
  takes cs quoted rest _ := by
    obtain ⟨body, rfl, read⟩ := quoted.exists_body
    rw [List.cons_append, readChoice, skipSpace_cons (by decide)]
    simp only [read, bind, Except.bind, known]
    rfl

theorem reads_below (small : n < bound) (word : bound ≤ 2 ^ 64) :
    Reads (readBelow bound) n (· = decimalChars n) where
  skips _ _ spacing := by rw [readBelow, readBelow, skipSpace_append spacing]
  opens := by
    rintro _ rfl
    exact opens_decimalChars n
  takes := by
    rintro _ rfl rest ends
    have range : IsIntegral n := ⟨by omega, by omega⟩
    have number := takes_decimalChars range rest ends
    obtain ⟨c, cs, text, numeric⟩ := decimalChars_append n rest
    rw [text] at number ⊢
    rw [readBelow, skipSpace_cons (solid_of_numeric numeric).1]
    simp only [numeric, Bool.or_eq_true, decide_eq_true_eq, if_true, number, bind, Except.bind]
    exact if_pos small

end Scalars

inductive MemberText (key : String) (value : List Char → Prop) : List Char → Prop
  | member {name before after cs : List Char} (named : Quotes key name) (left : IsSpacing before)
      (right : IsSpacing after) (text : value cs) :
      MemberText key value (name ++ (before ++ ':' :: (after ++ cs)))

/-- The texts of a value that may be missing: null stands for none. -/
def OptionText {α : Type} (value : α → List Char → Prop) : Option α → List Char → Prop
  | none => (· = "null".toList)
  | some x => value x

inductive ArrayText {α : Type} (value : α → List Char → Prop) (xs : List α) : List Char → Prop
  | array {parts : List (List Char)} (items : List.Forall₂ (fun x => Padded (value x)) xs parts) :
      ArrayText value xs ('[' :: (commaSeparated parts ++ [']']))

inductive ObjectText {ι : Type} (key : ι → String) (value : ι → List Char → Prop) (order : List ι) :
    List Char → Prop
  | object {parts : List (List Char)}
      (members : List.Forall₂ (fun i => Padded (MemberText (key i) (value i))) order parts) :
      ObjectText key value order ('\x7b' :: (commaSeparated parts ++ ['\x7d']))

/-- A structure with these fields, as an object or as an array. -/
inductive StructureText {ι : Type} (key : ι → String) (value : ι → List Char → Prop) (all : List ι) :
    List Char → Prop
  | object {order : List ι} {parts : List (List Char)} (fields : order.Perm all)
      (members : List.Forall₂ (fun i => Padded (MemberText (key i) (value i))) order parts) :
      StructureText key value all ('\x7b' :: (commaSeparated parts ++ ['\x7d']))
  | array {parts : List (List Char)} (items : List.Forall₂ (fun i => Padded (value i)) all parts) :
      StructureText key value all ('[' :: (commaSeparated parts ++ [']']))

/-- What the readers of fields make of a draft that holds some fields already. -/
structure Drafts {ι σ : Type} (key : ι → String) (value : ι → List Char → Prop)
    (field : ι → σ → Reader σ) (member : σ → String → Except Fault (Reader σ))
    (draft : List ι → σ) : Prop where
  known : ∀ done i, i ∉ done → member (draft done) (key i) = .ok (field i (draft done))
  reads : ∀ done i, Reads (field i (draft done)) (draft (i :: done)) (value i)

section Collections

variable {α ι σ : Type} {read : Reader α} {value : α → List Char → Prop} {name : String}
  {key : ι → String} {field : ι → List Char → Prop} {member : σ → String → Except Fault (Reader σ)}
  {put : σ → ι → σ} {s s' : σ} {order : List ι} {cs : List Char} {parts : List (List Char)}

theorem reads_option (h : ∀ x, Reads read x (value x))
    (apart : ∀ x cs, value x cs → cs.head? ≠ some 'n') (x : Option α) :
    Reads (readOption read) x (OptionText value x) where
  skips _ _ spacing := by rw [readOption, readOption, skipSpace_append spacing]
  opens cs text := by
    cases x with
    | none =>
      cases text
      exact .cons rfl (by decide)
    | some x => exact (h x).opens cs text
  takes cs text rest ends := by
    cases x with
    | none =>
      cases text
      show readOption read ('n' :: 'u' :: 'l' :: 'l' :: rest) = _
      rw [readOption, skipSpace_cons (by decide)]
      rfl
    | some x =>
      have takes := (h x).takes cs text rest ends
      have other := apart x cs text
      obtain ⟨c, ds, rfl, solid, _⟩ := (h x).opens cs text
      rw [readOption, List.cons_append, skipSpace_cons solid]
      split
      next n =>
        cases n
        exact absurd rfl other
      next =>
        rw [← List.cons_append, takes]
        rfl

theorem reads_array (h : ∀ x, Reads read x (value x)) (xs : List α) :
    Reads (readArray read) xs (ArrayText value xs) where
  skips _ _ spacing := by rw [readArray, readArray, skipSpace_append spacing]
  opens _ text := by
    cases text
    exact .cons rfl (by decide)
  takes cs text rest _ := by
    obtain ⟨items⟩ := text
    rw [List.cons_append, List.append_assoc, readArray, skipSpace_cons (by decide)]
    exact elements_parts (items.imp fun x _ text => (h x).item text)

theorem MemberText.taken {P : List Char → Prop} {reader : Reader σ} (text : MemberText name P cs)
    (known : member s name = .ok reader) (reads : Reads reader s' P) :
    Member readQuoted member s s' cs := by
  obtain ⟨named, left, right, inside⟩ := text
  obtain ⟨body, rfl, read⟩ := named.exists_body
  refine .member read left known fun rest ends => ?_
  rw [List.append_assoc, reads.skips _ _ right]
  exact reads.takes _ inside rest ends

theorem members_of_texts
    (put_reads : ∀ s i, ∃ read, member s (key i) = .ok read ∧ Reads read (put s i) (field i))
    (texts : List.Forall₂ (fun i => Padded (MemberText (key i) (field i))) order parts) (s : σ) :
    Members readQuoted member s parts (order.foldl put s) := by
  induction texts generalizing s with
  | nil => exact .nil
  | @cons i part order parts text _ ih =>
    obtain ⟨left, inside, right⟩ := text
    obtain ⟨read, known, reads⟩ := put_reads s i
    exact .cons (.pad left (inside.taken known reads) right) (ih _)

theorem reads_object
    (put_reads : ∀ s i, ∃ read, member s (key i) = .ok read ∧ Reads read (put s i) (field i))
    (order : List ι) (s : σ) :
    Reads (readObject member s) (order.foldl put s) (ObjectText key field order) where
  skips _ _ spacing := by rw [readObject, readObject, skipSpace_append spacing]
  opens _ text := by
    cases text
    exact .cons rfl (by decide)
  takes cs text rest _ := by
    obtain ⟨members⟩ := text
    rw [List.cons_append, List.append_assoc, readObject, skipSpace_cons (by decide)]
    exact members_parts (members_of_texts put_reads members s)

theorem ArrayText.print {values : α → Json} (h : ∀ x, value x (print (values x))) (xs : List α) :
    ArrayText value xs (print (.array (xs.map values))) := by
  rw [Json.print, printElements_eq, List.map_map]
  refine .array ?_
  rw [List.forall₂_map_right_iff, List.forall₂_same]
  exact fun x _ => .plain (h x)

theorem ObjectText.print {values : ι → Json} (h : ∀ i, field i (print (values i)))
    (order : List ι) :
    ObjectText key field order (print (.object (order.map fun i => (key i, values i)))) := by
  rw [Json.print, printMembers_eq, List.map_map]
  refine .object ?_
  rw [List.forall₂_map_right_iff, List.forall₂_same]
  exact fun i _ => .plain (.member (quotes_quote (key i)) .nil .nil (h i))

end Collections

section Structure

variable {ι σ : Type} {key : ι → String} {value : ι → List Char → Prop} {field : ι → σ → Reader σ}
  {member : σ → String → Except Fault (Reader σ)} {draft : List ι → σ} {done order all : List ι}
  {short : σ → Except Fault σ} {inOrder : List (σ → Reader σ)} {s : σ} {i : ι} {cs : List Char}
  {parts : List (List Char)}

theorem StructureText.opens (h : StructureText key value all cs) : Opens cs := by
  cases h <;> exact .cons rfl (by decide)

theorem ObjectText.structure (h : ObjectText key value order cs) (fields : order.Perm all) :
    StructureText key value all cs := by
  obtain ⟨members⟩ := h
  exact .object fields members

theorem ArrayText.structure (h : ArrayText value all cs) : StructureText key value all cs := by
  obtain ⟨items⟩ := h
  exact .array items

theorem StructureText.print {values : ι → Json} (h : ∀ i, value i (print (values i))) :
    StructureText key value all (print (.object (all.map fun i => (key i, values i)))) :=
  (ObjectText.print h all).structure (.refl all)

theorem readStructure_skips (g cs : List Char) (h : IsSpacing g) :
    readStructure member inOrder short s (g ++ cs) = readStructure member inOrder short s cs := by
  rw [readStructure, readStructure, skipSpace_append h]

namespace Drafts

variable (h : Drafts key value field member draft)

include h

theorem member_of_text (fresh : i ∉ done) (text : MemberText (key i) (value i) cs) :
    Member readQuoted member (draft done) (draft (i :: done)) cs :=
  text.taken (h.known done i fresh) (h.reads done i)

theorem members_of_texts (apart : (order.reverse ++ done).Nodup)
    (texts : List.Forall₂ (fun i => Padded (MemberText (key i) (value i))) order parts) :
    Members readQuoted member (draft done) parts (draft (order.reverse ++ done)) := by
  induction texts generalizing done with
  | nil => exact .nil
  | @cons i part order parts text _ ih =>
    rw [List.reverse_cons, List.append_assoc, List.singleton_append] at apart ⊢
    -- The draft only tells which fields are there, so their order is of no account.
    have fresh : i ∉ done := (List.nodup_cons.mp (List.nodup_append.mp apart).2.1).1
    obtain ⟨left, inside, right⟩ := text
    exact .cons (.pad left (h.member_of_text fresh inside) right) (ih apart)

theorem fields_of_texts (texts : List.Forall₂ (fun i => Padded (value i)) order parts) :
    Fields (order.map field) (draft done) parts (draft (order.reverse ++ done)) := by
  induction texts generalizing done with
  | nil => exact .nil
  | @cons i part order parts text _ ih =>
    rw [List.reverse_cons, List.append_assoc, List.singleton_append]
    exact .cons ((h.reads done i).item text) ih

theorem takes_object (apart : order.Nodup)
    (members : List.Forall₂ (fun i => Padded (MemberText (key i) (value i))) order parts) :
    Takes (readStructure member inOrder short (draft [])) (draft order.reverse)
      ('\x7b' :: (commaSeparated parts ++ ['\x7d'])) := by
  have apart : (order.reverse ++ []).Nodup := by
    rw [List.append_nil]
    exact (List.reverse_perm order).nodup_iff.mpr apart
  have read := h.members_of_texts apart members
  rw [List.append_nil] at read
  intro rest _
  rw [List.cons_append, List.append_assoc, readStructure, skipSpace_cons (by decide)]
  exact members_parts read

theorem takes_array (items : List.Forall₂ (fun i => Padded (value i)) all parts) :
    Takes (readStructure member (all.map field) short (draft [])) (draft all.reverse)
      ('[' :: (commaSeparated parts ++ [']'])) := by
  have read : Fields (all.map field) (draft []) parts (draft (all.reverse ++ [])) :=
    h.fields_of_texts items
  rw [List.append_nil] at read
  intro rest _
  rw [List.cons_append, List.append_assoc, readStructure, skipSpace_cons (by decide)]
  exact fields_parts read

theorem takes_structure (short : σ → Except Fault σ) (apart : all.Nodup)
    (text : StructureText key value all cs) :
    ∃ order, order.Perm all ∧
      Takes (readStructure member (all.map field) short (draft [])) (draft order) cs := by
  cases text with
  | object fields members =>
    exact ⟨_, (List.reverse_perm _).trans fields,
      h.takes_object (fields.nodup_iff.mpr apart) members⟩
  | array items => exact ⟨_, List.reverse_perm all, h.takes_array items⟩

end Drafts

end Structure

end AppSupervisor.Json
