import AppSupervisor.Text.Substitution
import Mathlib.Data.List.Nodup

namespace AppSupervisor

/-- Copies the text, putting its value for each pattern of the table that is met from the left; the
first `skip` characters still belong to a pattern already replaced. -/
def substituteFrom (table : List (List Char × List Char)) : Nat → List Char → List Char
  | _, [] => []
  | skip + 1, _ :: cs => substituteFrom table skip cs
  | 0, c :: cs =>
    match table.find? fun entry => entry.1.isPrefixOf (c :: cs) with
    | some (pattern, value) => value ++ substituteFrom table (pattern.length - 1) cs
    | none => c :: substituteFrom table 0 cs

def substitute (table : List (List Char × List Char)) (text : List Char) : List Char :=
  substituteFrom table 0 text

def replaceEach (table : List (List Char × List Char)) (text : List Char) : List Char :=
  table.foldl (fun text entry => replaceAll entry.1 entry.2 text) text

def occurrences (pattern : List Char) : List Char → Nat
  | [] => 0
  | c :: cs => occurrences pattern cs + if pattern <+: c :: cs then 1 else 0

/-- When it is its turn, no pattern is met at more places than it has in the text itself. -/
def Undisturbed (table : List (List Char × List Char)) (text : List Char) : Prop :=
  ∀ i (h : i < table.length),
    occurrences table[i].1 (replaceEach (table.take i) text) = occurrences table[i].1 text

instance (table : List (List Char × List Char)) (text : List Char) :
    Decidable (Undisturbed table text) :=
  inferInstanceAs (Decidable (∀ i (_ : i < table.length), _ = _))

def Braced (pattern : List Char) : Prop :=
  ∃ name, '\x7b' ∉ name ∧ '\x7d' ∉ name ∧ pattern = '\x7b' :: (name ++ ['\x7d'])

variable {p q v u xs text : List Char} {table rest order : List (List Char × List Char)} {c : Char}

namespace Braced

theorem ne_nil (h : Braced p) : p ≠ [] := by
  obtain ⟨name, _, _, rfl⟩ := h
  exact List.cons_ne_nil _ _

theorem head_eq (h : Braced p) (hp : p <+: c :: u) : c = '\x7b' := by
  obtain ⟨name, _, _, rfl⟩ := h
  exact (List.cons_prefix_cons.mp hp).1.symm

theorem not_mem_tail (h : Braced p) : '\x7b' ∉ p.tail := by
  obtain ⟨name, opening, _, rfl⟩ := h
  simpa using opening

theorem takeWhile_name {name : List Char} (closing : '\x7d' ∉ name) :
    (name ++ '\x7d' :: u).takeWhile (· ≠ '\x7d') = name := by
  rw [List.takeWhile_append_of_pos fun c hc => by simpa using ne_of_mem_of_not_mem hc closing]
  simp

theorem eq_of_starts (hp : Braced p) (hq : Braced q) (h : q <+: p ++ u) : q = p := by
  obtain ⟨name, _, closing, rfl⟩ := hp
  obtain ⟨name', _, closing', rfl⟩ := hq
  obtain ⟨w, hw⟩ := h
  simp only [List.cons_append, List.append_assoc, List.nil_append, List.cons.injEq, true_and] at hw
  have same : name' = name := by
    rw [← takeWhile_name closing' (u := w), hw, takeWhile_name closing]
  rw [same]

end Braced

theorem occurrences_cons_le : occurrences q u ≤ occurrences q (c :: u) := by
  rw [occurrences]
  omega

theorem occurrences_append_le (xs : List Char) : occurrences q u ≤ occurrences q (xs ++ u) := by
  induction xs with
  | nil => exact Nat.le_refl _
  | cons c xs ih => exact Nat.le_trans ih occurrences_cons_le

theorem occurrences_cons_append (h : occurrences q (c :: xs ++ u) = occurrences q u) :
    ¬q <+: c :: (xs ++ u) ∧ occurrences q (xs ++ u) = occurrences q u := by
  have le := occurrences_append_le (q := q) (u := u) xs
  rw [List.cons_append, occurrences] at h
  split at h
  next => omega
  next absent => exact ⟨absent, by omega⟩

theorem occurrences_append_of_not_mem (hq : Braced q) (h : '\x7b' ∉ xs) :
    occurrences q (xs ++ u) = occurrences q u := by
  induction xs with
  | nil => rfl
  | cons c xs ih =>
    rw [List.mem_cons, not_or] at h
    have absent : ¬q <+: c :: (xs ++ u) := fun hp => h.1 (hq.head_eq hp).symm
    rw [List.cons_append, occurrences, if_neg absent, ih h.2, Nat.add_zero]

theorem occurrences_braced (hp : Braced p) (hq : Braced q) :
    occurrences q (p ++ u) = occurrences q u + if q = p then 1 else 0 := by
  obtain ⟨c, tail, rfl⟩ := List.exists_cons_of_ne_nil hp.ne_nil
  have opening : '\x7b' ∉ tail := hp.not_mem_tail
  have same : q <+: c :: (tail ++ u) ↔ q = c :: tail := by
    refine ⟨fun h => hp.eq_of_starts hq h, fun h => h ▸ List.prefix_append _ u⟩
  rw [List.cons_append, occurrences, occurrences_append_of_not_mem hq opening]
  simp only [same]

theorem occurrences_of_ne (hp : Braced p) (hq : Braced q) (hne : q ≠ p) :
    occurrences q (p ++ u) = occurrences q u := by
  rw [occurrences_braced hp hq, if_neg hne, Nat.add_zero]

section

variable (p v : List Char)

theorem replaceFrom_eq (n : Nat) (cs : List Char) :
    replaceFrom p v n cs = replaceAll p v (cs.drop n) := by
  induction cs generalizing n with
  | nil => simp [replaceFrom, replaceAll]
  | cons c cs ih =>
    cases n with
    | zero => rfl
    | succ n => rw [replaceFrom, ih, List.drop_succ_cons]

variable {p}

theorem replaceAll_append_self (hp : p ≠ []) (u : List Char) :
    replaceAll p v (p ++ u) = v ++ replaceAll p v u := by
  obtain ⟨c, tail, rfl⟩ := List.exists_cons_of_ne_nil hp
  have found : (c :: tail).isPrefixOf (c :: (tail ++ u)) :=
    List.isPrefixOf_iff_prefix.mpr (List.prefix_append _ u)
  rw [replaceAll, List.cons_append, replaceFrom, if_pos found, replaceFrom_eq]
  simp

theorem replaceAll_cons (absent : ¬p <+: c :: u) :
    replaceAll p v (c :: u) = c :: replaceAll p v u := by
  rw [replaceAll, replaceFrom, if_neg (by rwa [List.isPrefixOf_iff_prefix])]
  rfl

theorem replaceAll_append (h : occurrences p (xs ++ u) = occurrences p u) :
    replaceAll p v (xs ++ u) = xs ++ replaceAll p v u := by
  induction xs with
  | nil => rfl
  | cons c xs ih =>
    obtain ⟨absent, h⟩ := occurrences_cons_append h
    rw [List.cons_append, replaceAll_cons v absent, ih h, List.cons_append]

end

section

variable (table : List (List Char × List Char))

theorem substituteFrom_eq (n : Nat) (cs : List Char) :
    substituteFrom table n cs = substitute table (cs.drop n) := by
  induction cs generalizing n with
  | nil => simp [substituteFrom, substitute]
  | cons c cs ih =>
    cases n with
    | zero => rfl
    | succ n => rw [substituteFrom, ih, List.drop_succ_cons]

variable {table}

theorem substitute_append_self (hp : p ≠ [])
    (found : table.find? (fun entry => entry.1.isPrefixOf (p ++ u)) = some (p, v)) :
    substitute table (p ++ u) = v ++ substitute table u := by
  obtain ⟨c, tail, rfl⟩ := List.exists_cons_of_ne_nil hp
  rw [List.cons_append] at found ⊢
  rw [substitute, substituteFrom, found]
  simp only [substituteFrom_eq]
  simp

theorem substitute_cons (absent : ∀ entry ∈ table, ¬entry.1 <+: c :: u) :
    substitute table (c :: u) = c :: substitute table u := by
  have none : table.find? (fun entry => entry.1.isPrefixOf (c :: u)) = none := by
    refine List.find?_eq_none.mpr fun entry he => ?_
    rw [List.isPrefixOf_iff_prefix]
    exact absent entry he
  rw [substitute, substituteFrom, none]
  rfl

theorem substitute_append
    (h : ∀ entry ∈ table, occurrences entry.1 (xs ++ u) = occurrences entry.1 u) :
    substitute table (xs ++ u) = xs ++ substitute table u := by
  induction xs with
  | nil => rfl
  | cons c xs ih =>
    have apart := fun entry he => occurrences_cons_append (h entry he)
    rw [List.cons_append, substitute_cons fun entry he => (apart entry he).1,
      ih fun entry he => (apart entry he).2, List.cons_append]

end

theorem scan (nonempty : ∀ e ∈ table, e.1 ≠ []) {motive : List Char → Prop} (nil : motive [])
    (pattern : ∀ e ∈ table, ∀ u, motive u → motive (e.1 ++ u))
    (char : ∀ c u, (∀ e ∈ table, ¬e.1 <+: c :: u) → motive u → motive (c :: u))
    (text : List Char) : motive text := by
  induction h : text.length using Nat.strongRecOn generalizing text with
  | ind n ih =>
    subst h
    cases text with
    | nil => exact nil
    | cons c u =>
      by_cases found : ∃ e ∈ table, e.1 <+: c :: u
      · obtain ⟨e, he, w, hw⟩ := found
        have pos := List.length_pos_iff.mpr (nonempty e he)
        have size := congrArg List.length hw
        rw [List.length_append] at size
        rw [← hw]
        exact pattern e he w (ih w.length (by omega) w rfl)
      · refine char c u (fun e he here => found ⟨e, he, here⟩) (ih u.length ?_ u rfl)
        exact Nat.lt_succ_self _

theorem occurrences_le_replaceAll (hp : Braced p) (hq : Braced q) (hne : q ≠ p)
    (v text : List Char) : occurrences q text ≤ occurrences q (replaceAll p v text) := by
  have nonempty : ∀ e ∈ [(p, v), (q, [])], e.1 ≠ [] := by
    simp [hp.ne_nil, hq.ne_nil]
  induction text using scan nonempty with
  | nil => exact Nat.zero_le _
  | pattern e he u ih =>
    rcases List.mem_pair.mp he with rfl | rfl
    · rw [replaceAll_append_self v hp.ne_nil, occurrences_of_ne hp hq hne]
      exact Nat.le_trans ih (occurrences_append_le v)
    · rw [replaceAll_append v (occurrences_of_ne hq hp hne.symm), occurrences_braced hq hq,
        occurrences_braced hq hq]
      omega
  | char c u absent ih =>
    have first : ¬p <+: c :: u := absent (p, v) (by simp)
    have second : ¬q <+: c :: u := absent (q, []) (by simp)
    rw [replaceAll_cons v first, occurrences, if_neg second]
    exact Nat.le_trans ih occurrences_cons_le

theorem occurrences_squeeze {w : List Char} (least : occurrences q w ≤ occurrences q u)
    (total : occurrences q (xs ++ u) = occurrences q w) :
    occurrences q (xs ++ u) = occurrences q u ∧ occurrences q u = occurrences q w := by
  have front := occurrences_append_le (q := q) (u := u) xs
  omega

/-- The patterns of a table are names between braces, and no two are the same. -/
structure Names (table : List (List Char × List Char)) : Prop where
  braced : ∀ entry ∈ table, Braced entry.1
  nodup : (table.map Prod.fst).Nodup

namespace Names

variable {entry entry' : List Char × List Char}

theorem tail (h : Names (entry :: rest)) : Names rest :=
  ⟨fun e he => h.braced e (List.mem_cons_of_mem _ he), h.nodup.of_cons⟩

theorem head_ne (h : Names (entry :: rest)) (he : entry' ∈ rest) : entry'.1 ≠ entry.1 := by
  intro same
  have fresh := (List.nodup_cons.mp h.nodup).1
  exact fresh (same ▸ List.mem_map_of_mem he)

theorem perm (h : Names table) (p : order.Perm table) : Names order :=
  ⟨fun e he => h.braced e (p.mem_iff.mp he), (p.map Prod.fst).nodup_iff.mpr h.nodup⟩

theorem eq_of_starts (h : Names table) (he : entry ∈ table) (he' : entry' ∈ table)
    (hp : entry.1 <+: text) (hp' : entry'.1 <+: text) : entry' = entry := by
  obtain ⟨u, rfl⟩ := hp
  have same := (h.braced entry he).eq_of_starts (h.braced entry' he') hp'
  exact List.inj_on_of_nodup_map h.nodup he' he same

theorem find?_eq_some (h : Names table) :
    table.find? (fun e => e.1.isPrefixOf text) = some entry ↔
      entry ∈ table ∧ entry.1 <+: text := by
  constructor
  · intro found
    have here := List.find?_some found
    exact ⟨List.mem_of_find?_eq_some found, List.isPrefixOf_iff_prefix.mp here⟩
  · rintro ⟨he, hp⟩
    have here := List.isPrefixOf_iff_prefix.mpr hp
    obtain ⟨other, found⟩ := Option.isSome_iff_exists.mp
      (List.find?_isSome (p := fun e => e.1.isPrefixOf text) |>.mpr ⟨entry, he, here⟩)
    have there := List.find?_some found
    rw [found, h.eq_of_starts he (List.mem_of_find?_eq_some found) hp
      (List.isPrefixOf_iff_prefix.mp there)]

theorem substitute_self (h : Names table) (he : entry ∈ table) (u : List Char) :
    substitute table (entry.1 ++ u) = entry.2 ++ substitute table u :=
  substitute_append_self (h.braced entry he).ne_nil
    (h.find?_eq_some.mpr ⟨he, List.prefix_append _ u⟩)

theorem nonempty (h : Names table) : ∀ e ∈ table, e.1 ≠ [] := fun e he => (h.braced e he).ne_nil

theorem substitute_perm (h : Names table) (p : order.Perm table) (text : List Char) :
    substitute order text = substitute table text := by
  induction text using scan h.nonempty with
  | nil => rfl
  | pattern e he u ih =>
    rw [h.substitute_self he, (h.perm p).substitute_self (p.mem_iff.mpr he), ih]
  | char c u absent ih =>
    rw [substitute_cons absent, substitute_cons fun e he => absent e (p.mem_iff.mp he), ih]

/-- To replace one name first makes no difference, if its value brings none of the others into
being. -/
theorem substitute_replaceAll (h : Names (entry :: rest)) (text : List Char)
    (quiet : ∀ e ∈ rest, occurrences e.1 (replaceAll entry.1 entry.2 text) = occurrences e.1 text) :
    substitute rest (replaceAll entry.1 entry.2 text) = substitute (entry :: rest) text := by
  have hp := h.braced entry List.mem_cons_self
  have more : ∀ e ∈ rest, ∀ u, occurrences e.1 u ≤ occurrences e.1 (replaceAll entry.1 entry.2 u) :=
    fun e he u => occurrences_le_replaceAll hp (h.tail.braced e he) (h.head_ne he) _ u
  induction text using scan h.nonempty with
  | nil => rfl
  | pattern e he u ih =>
    rw [h.substitute_self he]
    rcases List.mem_cons.mp he with rfl | he
    · rw [replaceAll_append_self _ hp.ne_nil] at quiet ⊢
      have counts : ∀ e' ∈ rest, _ := fun e' he' => occurrences_squeeze (more e' he' u) <| by
        have total := quiet e' he'
        rwa [occurrences_of_ne hp (h.tail.braced e' he') (h.head_ne he')] at total
      rw [substitute_append fun e' he' => (counts e' he').1, ih fun e' he' => (counts e' he').2]
    · have hq := h.tail.braced e he
      rw [replaceAll_append _ (occurrences_of_ne hq hp (h.head_ne he).symm)] at quiet ⊢
      rw [h.tail.substitute_self he, ih fun e' he' => ?_]
      have total := quiet e' he'
      have hq' := h.tail.braced e' he'
      rwa [occurrences_braced hq hq', occurrences_braced hq hq', Nat.add_right_cancel_iff] at total
  | char c u absent ih =>
    rw [replaceAll_cons _ (absent entry List.mem_cons_self)] at quiet ⊢
    have counts : ∀ e ∈ rest,
        occurrences e.1 ([c] ++ replaceAll entry.1 entry.2 u) =
            occurrences e.1 (replaceAll entry.1 entry.2 u) ∧
          occurrences e.1 (replaceAll entry.1 entry.2 u) = occurrences e.1 u := by
      intro e he
      have total := quiet e he
      rw [occurrences.eq_2 e.1 c u, if_neg (absent e (List.mem_cons_of_mem _ he)),
        ← List.singleton_append] at total
      exact occurrences_squeeze (more e he u) total
    have alone := substitute_append fun e he => (counts e he).1
    rw [List.singleton_append, List.singleton_append] at alone
    rw [alone, substitute_cons absent, ih fun e he => (counts e he).2]

end Names

theorem substitute_nil (text : List Char) : substitute [] text = text := by
  induction text with
  | nil => rfl
  | cons c u ih => rw [substitute_cons (by simp), ih]

theorem occurrences_le_replaceEach (hq : Braced q)
    (others : ∀ e ∈ table, Braced e.1 ∧ q ≠ e.1) (text : List Char) :
    occurrences q text ≤ occurrences q (replaceEach table text) := by
  induction table generalizing text with
  | nil => exact Nat.le_refl _
  | cons e rest ih =>
    obtain ⟨hp, hne⟩ := others e List.mem_cons_self
    have first := occurrences_le_replaceAll hp hq hne e.2 text
    have others' := fun e' he' => others e' (List.mem_cons_of_mem _ he')
    exact Nat.le_trans first (ih others' (replaceAll e.1 e.2 text))

namespace Names

variable {entry : List Char × List Char}

theorem others (h : Names table) {i : Nat} (hi : i < table.length) :
    ∀ e ∈ table.take i, Braced e.1 ∧ table[i].1 ≠ e.1 := by
  intro e he
  obtain ⟨j, hj, rfl⟩ := List.mem_take_iff_getElem.mp he
  have lt : j < i := by omega
  refine ⟨h.braced _ (List.getElem_mem _), fun same => ?_⟩
  have apart := List.pairwise_iff_getElem.mp h.nodup j i (by simp; omega) (by simpa) lt
  simp [same] at apart

theorem occurrences_le (h : Names table) {i : Nat} (hi : i < table.length) (text : List Char) :
    occurrences table[i].1 text ≤ occurrences table[i].1 (replaceEach (table.take i) text) :=
  occurrences_le_replaceEach (h.braced _ (List.getElem_mem hi)) (h.others hi) text

theorem undisturbed_cons (h : Names (entry :: rest)) :
    Undisturbed (entry :: rest) text ↔
      (∀ e ∈ rest, occurrences e.1 (replaceAll entry.1 entry.2 text) = occurrences e.1 text) ∧
      Undisturbed rest (replaceAll entry.1 entry.2 text) := by
  have hp := h.braced entry List.mem_cons_self
  constructor
  · intro quiet
    -- Occurrences only ever get more, so if the last count is that of the text all counts are.
    have counts : ∀ i (hi : i < rest.length),
        occurrences rest[i].1 (replaceAll entry.1 entry.2 text) = occurrences rest[i].1 text ∧
        occurrences rest[i].1 (replaceEach (rest.take i) (replaceAll entry.1 entry.2 text)) =
          occurrences rest[i].1 (replaceAll entry.1 entry.2 text) := by
      intro i hi
      have mem : rest[i] ∈ rest := List.getElem_mem hi
      have total : occurrences rest[i].1 (replaceEach (rest.take i)
          (replaceAll entry.1 entry.2 text)) = occurrences rest[i].1 text :=
        quiet (i + 1) (Nat.succ_lt_succ hi)
      have first := occurrences_le_replaceAll hp (h.tail.braced _ mem) (h.head_ne mem) entry.2 text
      have later := h.tail.occurrences_le hi (replaceAll entry.1 entry.2 text)
      omega
    refine ⟨fun e he => ?_, fun i hi => (counts i hi).2⟩
    obtain ⟨i, hi, rfl⟩ := List.mem_iff_getElem.mp he
    exact (counts i hi).1
  · rintro ⟨first, later⟩ i hi
    cases i with
    | zero => rfl
    | succ i =>
      have hi' : i < rest.length := Nat.lt_of_succ_lt_succ hi
      exact (later i hi').trans (first _ (List.getElem_mem hi'))

/-- If no value brings a name into being, to replace the names in turn comes to replacing them all
at once. -/
theorem replaceEach_eq (h : Names table) (quiet : Undisturbed table text) :
    replaceEach table text = substitute table text := by
  induction table generalizing text with
  | nil => exact (substitute_nil text).symm
  | cons entry rest ih =>
    obtain ⟨first, later⟩ := h.undisturbed_cons.mp quiet
    have all : replaceEach rest (replaceAll entry.1 entry.2 text) =
        substitute rest (replaceAll entry.1 entry.2 text) := ih h.tail later
    exact all.trans (h.substitute_replaceAll text first)

/-- Some name is met more often than the text has it. -/
theorem exists_lt_of_disturbed (h : Names table) (disturbed : ¬Undisturbed table text) :
    ∃ i, ∃ hi : i < table.length,
      occurrences table[i].1 text < occurrences table[i].1 (replaceEach (table.take i) text) := by
  simp only [Undisturbed, not_forall] at disturbed
  obtain ⟨i, hi, more⟩ := disturbed
  exact ⟨i, hi, Nat.lt_of_le_of_ne (h.occurrences_le hi text) (Ne.symm more)⟩

end Names

def erasing (table : List (List Char × List Char)) : List (List Char × List Char) :=
  table.map fun e => (e.1, [])

/-- No value has an opening brace, and in the text each is that of a name in the table. -/
structure Plain (table : List (List Char × List Char)) (text : List Char) : Prop where
  values : ∀ e ∈ table, '\x7b' ∉ e.2
  text : '\x7b' ∉ substitute (erasing table) text

namespace Names

variable {entry e : List Char × List Char}

theorem names_erasing (h : Names table) : Names (erasing table) where
  braced e he := by
    obtain ⟨e', he', rfl⟩ := List.mem_map.mp he
    exact h.braced e' he'
  nodup := by
    rw [erasing, List.map_map]
    exact h.nodup

theorem substitute_erasing (h : Names table) (he : e ∈ table) (u : List Char) :
    substitute (erasing table) (e.1 ++ u) = substitute (erasing table) u := by
  have erased : (e.1, []) ∈ erasing table := List.mem_map_of_mem he
  exact h.names_erasing.substitute_self erased u

theorem substitute_append_of_not_mem (h : Names table) (opening : '\x7b' ∉ xs) (u : List Char) :
    substitute table (xs ++ u) = xs ++ substitute table u :=
  substitute_append fun e he => occurrences_append_of_not_mem (h.braced e he) opening

theorem plain_replaceAll (h : Names (entry :: rest)) (plain : Plain (entry :: rest) text) :
    (∀ e ∈ rest, occurrences e.1 (replaceAll entry.1 entry.2 text) = occurrences e.1 text) ∧
    Plain rest (replaceAll entry.1 entry.2 text) := by
  obtain ⟨values, opening⟩ := plain
  have hp := h.braced entry List.mem_cons_self
  suffices both : (∀ e ∈ rest,
      occurrences e.1 (replaceAll entry.1 entry.2 text) = occurrences e.1 text) ∧
      '\x7b' ∉ substitute (erasing rest) (replaceAll entry.1 entry.2 text) from
    ⟨both.1, fun e he => values e (List.mem_cons_of_mem _ he), both.2⟩
  induction text using scan h.nonempty with
  | nil => exact ⟨fun _ _ => rfl, List.not_mem_nil⟩
  | pattern e he u ih =>
    rw [h.substitute_erasing he] at opening
    obtain ⟨counts, ih⟩ := ih opening
    rcases List.mem_cons.mp he with rfl | he
    · have value := values e he
      rw [replaceAll_append_self _ hp.ne_nil, h.tail.names_erasing.substitute_append_of_not_mem value]
      refine ⟨fun e' he' => ?_, List.not_mem_append value ih⟩
      have hq := h.tail.braced e' he'
      rw [occurrences_append_of_not_mem hq value, occurrences_of_ne hp hq (h.head_ne he'),
        counts e' he']
    · have hq := h.tail.braced e he
      rw [replaceAll_append _ (occurrences_of_ne hq hp (h.head_ne he).symm),
        h.tail.substitute_erasing he]
      refine ⟨fun e' he' => ?_, ih⟩
      have hq' := h.tail.braced e' he'
      rw [occurrences_braced hq hq', occurrences_braced hq hq', counts e' he']
  | char c u absent ih =>
    have absent' : ∀ e ∈ erasing (entry :: rest), ¬e.1 <+: c :: u := by
      intro e he
      obtain ⟨e', he', rfl⟩ := List.mem_map.mp he
      exact absent e' he'
    rw [substitute_cons absent', List.mem_cons, not_or] at opening
    obtain ⟨hc, opening⟩ := opening
    obtain ⟨counts, ih⟩ := ih opening
    have other : '\x7b' ∉ [c] := by simpa using hc
    rw [replaceAll_cons _ (absent entry List.mem_cons_self), ← List.singleton_append,
      h.tail.names_erasing.substitute_append_of_not_mem other]
    refine ⟨fun e he => ?_, List.not_mem_append other ih⟩
    have hq := h.tail.braced e he
    rw [occurrences_append_of_not_mem hq other, counts e he]
    exact (occurrences_append_of_not_mem hq other).symm

theorem undisturbed_of_plain (h : Names table) (plain : Plain table text) :
    Undisturbed table text := by
  induction table generalizing text with
  | nil => exact fun i hi => absurd hi (Nat.not_lt_zero i)
  | cons entry rest ih =>
    obtain ⟨counts, plain⟩ := h.plain_replaceAll plain
    exact h.undisturbed_cons.mpr ⟨counts, ih h.tail plain⟩

theorem plain_perm (h : Names table) (p : order.Perm table) (plain : Plain table text) :
    Plain order text where
  values e he := plain.values e (p.mem_iff.mp he)
  text := by
    have same := h.names_erasing.substitute_perm (p.map fun e => (e.1, [])) text
    exact same ▸ plain.text

end Names

end AppSupervisor
