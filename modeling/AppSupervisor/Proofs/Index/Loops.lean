import AppSupervisor.Proofs.Index.Holds

namespace AppSupervisor.Index

/-- The runs of a search: the slots that are looked at, and the link at which it ends. -/
inductive Searches (x : Index) (wanted : Nat → Prop) : Link → List Nat → Link → Prop
  | stop : Searches x wanted none [] none
  | found {i : Nat} (inside : i < x.next.size) (here : wanted i) :
      Searches x wanted (some i) [i] (some i)
  | pass {i : Nat} {seen : List Nat} {last : Link} (inside : i < x.next.size) (other : ¬wanted i)
      (rest : Searches x wanted (x.after i) seen last) : Searches x wanted (some i) (i :: seen) last

/-- The search from a link on ends there, and looks at no slot twice. -/
def Finds (x : Index) (wanted : Nat → Prop) (l last : Link) : Prop :=
  ∃ seen, x.Searches wanted l seen last ∧ seen.Nodup ∧ seen.length ≤ x.next.size

def Erases (x : Index) (b i : Nat) : Prop :=
  ∃ last, x.Finds (· = i) (x.head b) last ∧ ((x.erase? b i).isSome ↔ last = some i)

section

variable {σ : Type} (index : σ → Index) (ready : σ → Nat → Prop) (visit : σ → Nat → σ)

/-- The runs of a loop that changes a state at each slot. The link behind a slot is read before the
slot is visited, and what the visit needs must be there. -/
inductive Loops : Link → σ → List Nat → σ → Prop
  | stop {s : σ} : Loops none s [] s
  | next {s s' : σ} {i : Nat} {later : List Nat} (inside : i < (index s).next.size)
      (ready : ready s i) (rest : Loops ((index s).after i) (visit s i) later s') :
      Loops (some i) s (i :: later) s'

def Ends (l : Link) (s s' : σ) : Prop :=
  ∃ visited, Loops index ready visit l s visited s' ∧ visited.Nodup ∧
    visited.length ≤ (index s).next.size

inductive EndsAll : List Nat → σ → σ → Prop
  | nil {s : σ} : EndsAll [] s s
  | cons {s s' s'' : σ} {b : Nat} {bs : List Nat}
      (chain : Ends index ready visit ((index s).head b) s s') (others : EndsAll bs s' s'') :
      EndsAll (b :: bs) s s''

end

variable {σ : Type} {index : σ → Index} {ready : σ → Nat → Prop} {visit : σ → Nat → σ}
  {Q : σ → Prop} {s s' : σ} {x y : Index} {wanted : Nat → Prop}
  {key : Nat → Nat} {b i k n : Nat} {l : Link} {is visited : List Nat}

theorem Leads.searches [DecidablePred wanted] (h : x.Leads l is) :
    ∃ seen, x.Searches wanted l seen (is.find? wanted) ∧ seen <+: is := by
  induction h with
  | stop => exact ⟨[], .stop, List.nil_prefix⟩
  | @next i is inside _ ih =>
    by_cases here : wanted i
    · rw [List.find?_cons_of_pos (by simpa using here)]
      exact ⟨[i], .found inside here, List.prefix_append [i] is⟩
    · obtain ⟨seen, rest, part⟩ := ih
      rw [List.find?_cons_of_neg (by simpa using here)]
      exact ⟨i :: seen, .pass inside here rest, List.cons_prefix_cons.mpr ⟨rfl, part⟩⟩

theorem Leads.finds [DecidablePred wanted] (h : x.Leads l is) (nodup : is.Nodup) :
    x.Finds wanted l (is.find? wanted) := by
  obtain ⟨seen, search, part⟩ : ∃ seen, x.Searches wanted l seen (is.find? wanted) ∧ seen <+: is :=
    h.searches
  exact ⟨seen, search, nodup.sublist part.sublist, part.length_le.trans (h.length_le nodup)⟩

namespace Holds

theorem finds [DecidablePred wanted] (h : x.Holds key is) (b : Nat) :
    x.Finds wanted (x.head b) ((x.chain b).find? wanted) :=
  (h.leads_chain b).finds (h.nodup_chain b)

theorem erases (h : x.Holds key is) (b i : Nat) : x.Erases b i := by
  refine ⟨_, h.finds b, ?_⟩
  by_cases hi : i ∈ x.chain b
  · obtain ⟨listed, rfl⟩ := h.mem_chain.mp hi
    obtain ⟨y, erased, _⟩ := h.erase listed
    have found : (x.chain (key i)).find? (fun j => decide (j = i)) = some i := by
      obtain ⟨j, hj⟩ := Option.isSome_iff_exists.mp
        (List.find?_isSome (p := fun j => decide (j = i)).mpr ⟨i, hi, by simp⟩)
      have same : j = i := by simpa using List.find?_some hj
      rw [hj, same]
    rw [erased, found, Option.isSome_some]
    exact iff_of_true rfl rfl
  · have none := erase?_of_not_mem (h.leads_chain b) hi
    rw [none]
    refine iff_of_false nofun fun found => hi (List.mem_of_find?_eq_some found)

end Holds

theorem Loops.visitFrom_eq (h : Loops index ready visit l s visited s') (hn : visited.length ≤ n) :
    visitFrom index visit n l s = s' := by
  induction h generalizing n with
  | stop => cases n <;> rfl
  | next _ _ _ ih =>
    cases n with
    | zero => simp at hn
    | succ n => exact ih (by simpa using hn)

theorem EndsAll.visitAll_eq (h : EndsAll index ready visit (List.range (index s).heads.size) s s') :
    visitAll index visit s = s' := by
  have walks : ∀ bs s s', EndsAll index ready visit bs s s' → bs.foldl (fun s b =>
      visitFrom index visit (index s).next.size ((index s).head b) s) s = s' := by
    intro bs s s' h
    induction h with
    | nil => rfl
    | cons chain _ ih =>
      obtain ⟨visited, run, _, bound⟩ := chain
      rw [List.foldl_cons, run.visitFrom_eq bound, ih]
  exact walks _ s s' h

/-- To make a link skip one slot makes a chain shorter, also for one who stands on a slot that is
not on the chain any more. -/
theorem Leads.skip (h : x.Leads l is) (nodup : is.Nodup) (points : x.after k = some i) :
    ∃ js, js.Sublist is ∧
      ({ x with next := x.next.setIfInBounds k (x.after i) } : Index).Leads l js := by
  induction h with
  | stop => exact ⟨[], .refl _, .stop⟩
  | @next j is inside tail ih =>
    have inside' : j < (x.next.setIfInBounds k (x.after i)).size := by simpa using inside
    obtain ⟨fresh, nodup'⟩ := List.nodup_cons.mp nodup
    by_cases he : k = j
    · subst he
      rw [points] at tail
      cases tail with
      | @next _ rest _ tail =>
        refine ⟨k :: rest, (List.sublist_cons_self i rest).cons_cons k, .next inside' ?_⟩
        rw [after_setNext, if_pos ⟨rfl, inside⟩]
        refine tail.congr (by simp) fun m hm => ?_
        have hne : k ≠ m := by
          rintro rfl
          exact fresh (List.mem_cons_of_mem i hm)
        rw [after_setNext, if_neg fun both => hne both.1]
    · obtain ⟨js, part, leads⟩ := ih nodup'
      refine ⟨j :: js, part.cons_cons j, .next inside' ?_⟩
      rwa [after_setNext, if_neg fun both => he both.1]

theorem Leads.erase? (h : x.Leads l is) (nodup : is.Nodup) (erased : x.erase? b i = some y) :
    ∃ js, js.Sublist is ∧ y.Leads l js := by
  unfold Index.erase? at erased
  split at erased
  next => cases erased
  next =>
    split at erased
    next =>
      cases erased
      exact ⟨is, .refl is, h.congr rfl fun _ _ => rfl⟩
    next =>
      obtain ⟨k, points, rfl⟩ := unlinkAfter?_eq_some erased
      exact h.skip nodup points

/-- A loop ends whose visits make the chain in front of it shorter, and not longer. -/
theorem Leads.ends (h : (index s).Leads l is) (nodup : is.Nodup) (known : Q s)
    (shrinks : ∀ s i l is, Q s → (index s).Leads l is → is.Nodup →
      Q (visit s i) ∧ ∃ js, js.Sublist is ∧ (index (visit s i)).Leads l js)
    (able : ∀ s i, Q s → ready s i) : ∃ s', Ends index ready visit l s s' := by
  have runs : ∀ n is l s, is.length ≤ n → (index s).Leads l is → is.Nodup → Q s →
      ∃ visited s', Loops index ready visit l s visited s' ∧ visited.Sublist is := by
    intro n
    induction n with
    | zero =>
      intro is l s hn h _ _
      obtain rfl := List.eq_nil_of_length_eq_zero (Nat.le_zero.mp hn)
      cases h
      exact ⟨[], s, .stop, .refl _⟩
    | succ n ih =>
      intro is l s hn h nodup known
      cases h with
      | stop => exact ⟨[], s, .stop, .refl _⟩
      | @next i rest inside tail =>
        have nodup' := (List.nodup_cons.mp nodup).2
        obtain ⟨known', js, part, leads⟩ := shrinks s i _ rest known tail nodup'
        have short : js.length ≤ n := part.length_le.trans (Nat.le_of_succ_le_succ hn)
        obtain ⟨visited, s', run, within⟩ := ih js _ _ short leads (nodup'.sublist part) known'
        exact ⟨i :: visited, s', .next inside (able s i known) run, (within.trans part).cons_cons i⟩
  obtain ⟨visited, s', run, part⟩ := runs _ is l s (Nat.le_refl _) h nodup known
  exact ⟨s', visited, run, nodup.sublist part, part.length_le.trans (h.length_le nodup)⟩

end AppSupervisor.Index
