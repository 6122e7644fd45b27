import AppSupervisor.Registry.Index
import Mathlib.Data.List.Perm.Subperm

namespace AppSupervisor.Index

/-- From a link on, the chain visits these slots of the arena and ends. -/
inductive Leads (x : Index) : Link → List Nat → Prop
  | stop : Leads x none []
  | next {i is} : i < x.next.size → Leads x (x.after i) is → Leads x (some i) (i :: is)

variable {x y z : Index} {b i j n : Nat} {l : Link} {is : List Nat}

theorem Leads.lt (h : x.Leads l is) (hi : i ∈ is) : i < x.next.size := by
  induction h with
  | stop => simp at hi
  | next hj _ ih =>
    rcases List.mem_cons.mp hi with rfl | hi
    · exact hj
    · exact ih hi

theorem Leads.walk? (h : x.Leads l is) (hn : is.length ≤ n) : x.walk? n l = some is := by
  induction h generalizing n with
  | stop => cases n <;> rfl
  | next hi _ ih =>
    cases n with
    | zero => simp at hn
    | succ n =>
      have tail := ih (by simpa using hn)
      simp [Index.walk?, hi, tail]

theorem Leads.after_mem (h : x.Leads l is) (hj : j ∈ is) (hi : x.after j = some i) : i ∈ is := by
  induction h with
  | stop => simp at hj
  | @next k is _ tail ih =>
    rcases List.mem_cons.mp hj with rfl | hj
    · rw [hi] at tail
      cases tail with
      | next => simp
    · exact List.mem_cons_of_mem k (ih hj)

theorem Leads.congr (h : x.Leads l is) (size : y.next.size = x.next.size)
    (after : ∀ j ∈ is, y.after j = x.after j) : y.Leads l is := by
  induction h with
  | stop => exact .stop
  | @next i is hi _ ih =>
    refine .next (size ▸ hi) ?_
    rw [after i (by simp)]
    exact ih fun j hj => after j (List.mem_cons_of_mem i hj)

theorem Leads.unique {l' : Link} (h : x.Leads l is) (h' : y.Leads l' is) :
    l = l' ∧ ∀ j ∈ is, x.after j = y.after j := by
  induction h generalizing l' with
  | stop =>
    cases h'
    exact ⟨rfl, by simp⟩
  | next _ _ ih =>
    cases h' with
    | next _ tail =>
      obtain ⟨first, rest⟩ := ih tail
      refine ⟨rfl, fun j hj => ?_⟩
      rcases List.mem_cons.mp hj with rfl | hj
      · exact first
      · exact rest j hj

theorem Leads.length_le (h : x.Leads l is) (nodup : is.Nodup) : is.length ≤ x.next.size := by
  have sub : is ⊆ List.range x.next.size := fun i hi => List.mem_range.mpr (h.lt hi)
  simpa using (List.Nodup.subperm nodup sub).length_le

@[simp] theorem after_setNext (x : Index) (heads : Array Link) (j : Nat) (l : Link) (k : Nat) :
    (⟨heads, x.next.setIfInBounds j l⟩ : Index).after k =
      if j = k ∧ j < x.next.size then l else x.after k := by
  simp only [Index.after, Array.getD_eq_getD_getElem?, Array.getElem?_setIfInBounds]
  grind

/-- The index `y` arises from `x` by writing at most the links that pointed at slot `i`, and the
link behind `i` itself. -/
structure Detaches (x y : Index) (i : Nat) : Prop where
  heads_size : y.heads.size = x.heads.size
  next_size : y.next.size = x.next.size
  head : ∀ b, x.head b ≠ some i → y.head b = x.head b
  after : ∀ j, j ≠ i → x.after j ≠ some i → y.after j = x.after j

theorem Detaches.refl (x : Index) (i : Nat) : x.Detaches x i :=
  ⟨rfl, rfl, fun _ _ => rfl, fun _ _ _ => rfl⟩

theorem Detaches.trans (h : x.Detaches y i) (h' : y.Detaches z i) : x.Detaches z i where
  heads_size := h'.heads_size.trans h.heads_size
  next_size := h'.next_size.trans h.next_size
  head b hb := by
    have first := h.head b hb
    exact (h'.head b (first ▸ hb)).trans first
  after j hj hb := by
    have first := h.after j hj hb
    exact (h'.after j hj (first ▸ hb)).trans first

theorem Detaches.leads (h : x.Detaches y i) (hl : x.Leads l is) (hi : i ∉ is) : y.Leads l is := by
  refine hl.congr h.next_size fun j hj => h.after j ?_ ?_
  · rintro rfl
    exact hi hj
  · intro hb
    exact hi (hl.after_mem hj hb)

theorem Detaches.head_of_leads (h : x.Detaches y i) (hl : x.Leads (x.head b) is) (hi : i ∉ is) :
    y.head b = x.head b := by
  refine h.head b fun hb => hi ?_
  rw [hb] at hl
  cases hl with
  | next => simp

theorem detaches_cut (x : Index) (i : Nat) : x.Detaches (x.cut i) i where
  heads_size := rfl
  next_size := by simp [cut]
  head _ _ := rfl
  after j hj _ := by simp [cut, Ne.symm hj]

theorem unlinkAfter?_eq_some (h : x.unlinkAfter? i n j = some y) :
    ∃ k, x.after k = some i ∧ y = { x with next := x.next.setIfInBounds k (x.after i) } := by
  induction n generalizing j with
  | zero => simp [unlinkAfter?] at h
  | succ n ih =>
    simp only [unlinkAfter?] at h
    split at h
    next => simp at h
    next k hk =>
      split at h
      next he =>
        subst he
        exact ⟨j, hk, (Option.some.inj h).symm⟩
      next => exact ih h

theorem detaches_unlinkAfter? (h : x.unlinkAfter? i n j = some y) : x.Detaches y i := by
  obtain ⟨k, hk, rfl⟩ := unlinkAfter?_eq_some h
  refine ⟨rfl, by simp, fun _ _ => rfl, fun m _ hm => ?_⟩
  have hne : k ≠ m := by
    rintro rfl
    exact hm hk
  simp [hne]

theorem unlinkAfter?_of_mem (h : x.Leads (x.after j) is) (nodup : (j :: is).Nodup)
    (hj : j < x.next.size) (hi : i ∈ is) (hn : is.length ≤ n) :
    ∃ y, x.unlinkAfter? i n j = some y ∧ y.Leads (y.after j) (is.erase i) := by
  induction n generalizing j is with
  | zero =>
    have empty : is = [] := by simpa using hn
    simp [empty] at hi
  | succ n ih =>
    cases hk : x.after j with
    | none =>
      rw [hk] at h
      cases h
      simp at hi
    | some k =>
      rw [hk] at h
      cases h with
      | @next _ rest hkn tail =>
        have hjk : j ∉ k :: rest := (List.nodup_cons.mp nodup).1
        have nodup' : (k :: rest).Nodup := (List.nodup_cons.mp nodup).2
        by_cases he : k = i
        · subst k
          have found : x.unlinkAfter? i (n + 1) j =
              some { x with next := x.next.setIfInBounds j (x.after i) } := by
            simp only [unlinkAfter?, hk, if_pos]
          refine ⟨_, found, ?_⟩
          rw [List.erase_cons_head, after_setNext, if_pos ⟨rfl, hj⟩]
          refine tail.congr (by simp) fun k hk => ?_
          have hne : j ≠ k := by
            rintro rfl
            exact hjk (List.mem_cons_of_mem i hk)
          simp [hne]
        · have hir : i ∈ rest := (List.mem_cons.mp hi).resolve_left (Ne.symm he)
          obtain ⟨y, hy, leads⟩ := ih tail nodup' hkn hir (by simpa using hn)
          have detaches := detaches_unlinkAfter? hy
          have hji : j ≠ i := by
            rintro rfl
            exact hjk (List.mem_cons_of_mem k hir)
          have hyj : y.after j = some k := by
            rw [detaches.after j hji (by simpa [hk] using he), hk]
          refine ⟨y, by simp only [unlinkAfter?, hk, if_neg he, hy], ?_⟩
          rw [hyj, List.erase_cons_tail (by simpa using he)]
          exact .next (detaches.next_size ▸ hkn) leads

theorem unlinkAfter?_of_not_mem (h : x.Leads (x.after j) is) (hi : i ∉ is) :
    x.unlinkAfter? i n j = none := by
  induction n generalizing j is with
  | zero => rfl
  | succ n ih =>
    cases hk : x.after j with
    | none => simp only [unlinkAfter?, hk]
    | some k =>
      rw [hk] at h
      cases h with
      | @next _ rest _ tail =>
        have hne : k ≠ i := fun he => hi (by simp [he])
        have hir : i ∉ rest := fun hm => hi (List.mem_cons_of_mem k hm)
        simp only [unlinkAfter?, hk, if_neg hne, ih tail hir]

@[simp] theorem head_setHead (x : Index) (next : Array Link) (b b' : Nat) (l : Link) :
    (⟨x.heads.setIfInBounds b l, next⟩ : Index).head b' =
      if b = b' ∧ b < x.heads.size then l else x.head b' := by
  simp only [Index.head, Array.getD_eq_getD_getElem?, Array.getElem?_setIfInBounds]
  grind

theorem detaches_erase? (h : x.erase? b i = some y) : x.Detaches y i := by
  unfold erase? at h
  split at h
  next => simp at h
  next j hj =>
    split at h
    next he =>
      cases Option.some.inj h
      refine ⟨by simp, rfl, fun b' hb' => ?_, fun _ _ _ => rfl⟩
      have hne : b ≠ b' := by
        rintro rfl
        exact hb' (he ▸ hj)
      simp [hne]
    next => exact detaches_unlinkAfter? h

theorem erase?_of_mem (h : x.Leads (x.head b) is) (nodup : is.Nodup) (hb : b < x.heads.size)
    (hi : i ∈ is) :
    ∃ y, x.erase? b i = some y ∧ y.Leads (y.head b) (is.erase i) := by
  have hlength := h.length_le nodup
  cases hj : x.head b with
  | none =>
    rw [hj] at h
    cases h
    simp at hi
  | some j =>
    rw [hj] at h
    cases h with
    | @next _ rest hjn tail =>
      by_cases he : j = i
      · subst j
        have found : x.erase? b i = some { x with heads := x.heads.setIfInBounds b (x.after i) } := by
          simp only [erase?, hj, if_pos]
        refine ⟨_, found, ?_⟩
        rw [List.erase_cons_head, head_setHead, if_pos ⟨rfl, hb⟩]
        exact tail.congr rfl fun _ _ => rfl
      · have hir : i ∈ rest := (List.mem_cons.mp hi).resolve_left (Ne.symm he)
        have hn : rest.length ≤ x.next.size := by
          simp only [List.length_cons] at hlength
          omega
        obtain ⟨y, hy, leads⟩ := unlinkAfter?_of_mem tail nodup hjn hir hn
        have detaches := detaches_unlinkAfter? hy
        refine ⟨y, by simp only [erase?, hj, if_neg he, hy], ?_⟩
        have hyb : y.head b = some j := by
          rw [detaches.head b (by simpa [hj] using he), hj]
        rw [hyb, List.erase_cons_tail (by simpa using he)]
        exact .next (detaches.next_size ▸ hjn) leads

theorem erase?_of_not_mem (h : x.Leads (x.head b) is) (hi : i ∉ is) : x.erase? b i = none := by
  cases hj : x.head b with
  | none => simp only [erase?, hj]
  | some j =>
    rw [hj] at h
    cases h with
    | @next _ rest _ tail =>
      have hne : j ≠ i := fun he => hi (by simp [he])
      have hir : i ∉ rest := fun hm => hi (List.mem_cons_of_mem j hm)
      simp only [erase?, hj, if_neg hne, unlinkAfter?_of_not_mem tail hir]

end AppSupervisor.Index
