import AppSupervisor.Proofs.Json.Numeral
import AppSupervisor.Proofs.Json.Quoted
import AppSupervisor.Proofs.Json.Reader

namespace AppSupervisor.Json

/-- A value that a text of at most so many nested arrays and objects can hold: integers have 64
bits, and no object has two members of one key. -/
inductive Readable : Nat → Json → Prop
  | null {depth : Nat} : Readable depth .null
  | bool {depth : Nat} (b : Bool) : Readable depth (.bool b)
  | integer {depth : Nat} {n : Int} (range : IsIntegral n) : Readable depth (.ofInt n)
  | string {depth : Nat} (s : String) : Readable depth (.string s)
  | array {depth : Nat} {vs : List Json} (items : ∀ v ∈ vs, Readable depth v) :
      Readable (depth + 1) (.array vs)
  | object {depth : Nat} {ms : List (String × Json)} (keys : (ms.map Prod.fst).Nodup)
      (values : ∀ m ∈ ms, Readable depth m.2) : Readable (depth + 1) (.object ms)

variable {depth : Nat} {v : Json} {vs : List Json} {ms : List (String × Json)} {key : String}
  {c : Char} {g cs rest : List Char} {parts : List (List Char)}

theorem printElements_eq (vs : List Json) : printElements vs = vs.map print := by
  induction vs with
  | nil => rfl
  | cons v vs ih => rw [printElements, ih, List.map_cons]

theorem printMembers_eq (ms : List (String × Json)) :
    printMembers ms = ms.map fun m => quote m.1 ++ ':' :: print m.2 := by
  induction ms with
  | nil => rfl
  | cons m ms ih => rw [printMembers, ih, List.map_cons]

theorem putMember_of_not_mem (h : key ∉ ms.map Prod.fst) :
    putMember key v ms = ms ++ [(key, v)] := by
  induction ms with
  | nil => rfl
  | cons m ms ih =>
    rw [List.map_cons, List.mem_cons, not_or] at h
    rw [putMember, if_neg (Ne.symm h.1), ih h.2, List.cons_append]

theorem Quotes.opens {s : String} (h : Quotes s cs) : Opens cs := by
  obtain ⟨body, rfl, _⟩ := h.exists_body
  exact .cons rfl (by decide)

theorem opens_decimalChars (n : Int) : Opens (decimalChars n) := by
  obtain ⟨c, cs, text, numeric⟩ := decimalChars_append n []
  rw [List.append_nil] at text
  exact ⟨c, cs, text, solid_of_numeric numeric⟩

theorem opens_print (h : Readable depth v) : Opens (print v) := by
  cases h with
  | null => exact .cons rfl (by decide)
  | bool b => cases b <;> exact .cons rfl (by decide)
  | integer => exact opens_decimalChars _
  | string s => exact (quotes_quote s).opens
  | array => exact .cons rfl (by decide)
  | object => exact .cons rfl (by decide)

theorem takes_string {s : String} (h : Quotes s cs) : Takes (readValue depth) (.string s) cs := by
  obtain ⟨body, rfl, read⟩ := h.exists_body
  intro rest _
  rw [List.cons_append, readValue, skipSpace_cons (by decide)]
  show (readQuoted (body ++ rest) >>= fun x => pure (Json.string x.1, x.2)) = _
  rw [read]
  rfl

theorem takes_integer {n : Int} (h : IsIntegral n) :
    Takes (readValue depth) (.ofInt n) (decimalChars n) := by
  intro rest ends
  have number := takes_decimalChars h rest ends
  obtain ⟨c, cs, text, numeric⟩ := decimalChars_append n rest
  rw [text] at number ⊢
  rw [readValue, skipSpace_cons (solid_of_numeric numeric).1]
  -- All other cases begin with a character that no number begins with.
  split
  case h_1 none => cases none
  case h_8 text =>
    cases text
    rw [if_pos (by simpa using numeric), number]
    rfl
  all_goals
    rename_i text
    cases text
    simp at numeric

def valueMember (depth : Nat) (ms : List (String × Json)) (key : String) :
    Except Fault (Reader (List (String × Json))) :=
  .ok fun cs => do
    let (v, cs) ← readValue depth cs
    return (putMember key v ms, cs)

theorem member_print (h : Takes (readValue depth) v (print v)) (fresh : key ∉ ms.map Prod.fst) :
    Member readQuoted (valueMember depth) ms (ms ++ [(key, v)]) (quote key ++ ':' :: print v) := by
  obtain ⟨body, text, named⟩ := (quotes_quote key).exists_body
  rw [text]
  refine .member named .nil rfl fun rest ends => ?_
  simp only [h rest ends, bind, Except.bind, putMember_of_not_mem fresh]
  rfl

theorem members_print {done : List (String × Json)}
    (keys : ((done ++ ms).map Prod.fst).Nodup)
    (values : ∀ m ∈ ms, Takes (readValue depth) m.2 (print m.2)) :
    Members readQuoted (valueMember depth) done (printMembers ms) (done ++ ms) := by
  induction ms generalizing done with
  | nil =>
    rw [List.append_nil]
    exact .nil
  | cons m ms ih =>
    -- A key that is not there yet is put behind the others.
    have fresh : m.1 ∉ done.map Prod.fst := by
      rw [List.map_append, List.map_cons] at keys
      exact fun known => (List.nodup_append.mp keys).2.2 _ known _ List.mem_cons_self rfl
    have split : done ++ m :: ms = done ++ [m] ++ ms := by simp
    rw [split] at keys ⊢
    exact .cons (.plain (member_print (values m List.mem_cons_self) fresh))
      (ih keys fun m hm => values m (List.mem_cons_of_mem _ hm))

theorem takes_print (h : Readable depth v) : Takes (readValue depth) v (print v) := by
  induction h with
  | null =>
    intro rest _
    show readValue _ ('n' :: 'u' :: 'l' :: 'l' :: rest) = _
    rw [readValue, skipSpace_cons (by decide)]
    rfl
  | bool b =>
    intro rest _
    cases b
    · show readValue _ ('f' :: 'a' :: 'l' :: 's' :: 'e' :: rest) = _
      rw [readValue, skipSpace_cons (by decide)]
      rfl
    · show readValue _ ('t' :: 'r' :: 'u' :: 'e' :: rest) = _
      rw [readValue, skipSpace_cons (by decide)]
      rfl
  | integer range => exact takes_integer range
  | string s => exact takes_string (quotes_quote s)
  | @array depth vs items ih =>
    intro rest _
    have parts : List.Forall₂ (Item (readValue depth)) vs (vs.map print) := by
      rw [List.forall₂_map_right_iff, List.forall₂_same]
      exact fun v hv => .plain ⟨opens_print (items v hv), ih v hv⟩
    rw [print, printElements_eq, List.cons_append, readValue, skipSpace_cons (by decide)]
    show (elements (readValue depth) _ >>= fun x => pure (Json.array x.1, x.2)) = _
    rw [List.append_assoc, List.singleton_append, elements_parts parts]
    rfl
  | @object depth ms keys values ih =>
    intro rest _
    have parts : Members readQuoted (valueMember depth) [] (printMembers ms) ([] ++ ms) :=
      members_print keys ih
    rw [print, List.cons_append, readValue, skipSpace_cons (by decide)]
    show (members readQuoted (valueMember depth) [] _ >>= fun x => pure (Json.object x.1, x.2)) = _
    rw [List.append_assoc, List.singleton_append, members_parts parts]
    rfl

theorem reads_value (h : Readable depth v) : Reads (readValue depth) v (· = print v) where
  skips _ _ spacing := by rw [readValue, readValue, skipSpace_append spacing]
  opens := by
    rintro _ rfl
    exact opens_print h
  takes := by
    rintro _ rfl
    exact takes_print h

/-- A written value is read back as it was, within the limits on nesting. -/
theorem parse_render (h : Readable maxDepth v) : parse v.render = .ok v :=
  readAll_padded (reads_value h) (.plain rfl)

end AppSupervisor.Json
