import AppSupervisor.Proofs.Index.Leads
import Mathlib.Data.List.Find
import Mathlib.Data.List.Nodup

namespace AppSupervisor.Index

variable {x y : Index} {key key' : Nat → Nat} {b i n : Nat} {is : List Nat}

theorem filter_ne_eq_self (hi : i ∉ is) : is.filter (· ≠ i) = is :=
  List.filter_eq_self.mpr fun j hj => by simpa using ne_of_mem_of_not_mem hj hi

/-- The index holds these slots: each is on the chain of its own bucket only, and every chain has
the order of the list. -/
structure Holds (x : Index) (key : Nat → Nat) (is : List Nat) : Prop where
  nodup : is.Nodup
  key_lt : ∀ i ∈ is, key i < x.heads.size
  leads : ∀ b < x.heads.size, x.Leads (x.head b) (is.filter (key · = b))

theorem holds_create (buckets slots : Nat) (key : Nat → Nat) :
    (create buckets slots).Holds key [] where
  nodup := List.nodup_nil
  key_lt := by simp
  leads b hb := by
    have none : (create buckets slots).head b = none := by
      have hb' : b < buckets := by simpa [create] using hb
      simp [create, Index.head, Array.getD_eq_getD_getElem?, hb']
    rw [none]
    exact .stop

namespace Holds

theorem lt (h : x.Holds key is) (hi : i ∈ is) : i < x.next.size :=
  (h.leads (key i) (h.key_lt i hi)).lt (List.mem_filter.mpr ⟨hi, by simp⟩)

theorem congr (h : x.Holds key is) (hk : ∀ i ∈ is, key' i = key i) : x.Holds key' is where
  nodup := h.nodup
  key_lt i hi := hk i hi ▸ h.key_lt i hi
  leads b hb := by
    have same : is.filter (key' · = b) = is.filter (key · = b) :=
      List.filter_congr fun i hi => by rw [hk i hi]
    exact same ▸ h.leads b hb

theorem head_of_le (hb : x.heads.size ≤ b) : x.head b = none := by
  simp [Index.head, Array.getD_eq_getD_getElem?, hb]

theorem leads_head (h : x.Holds key is) (b : Nat) : x.Leads (x.head b) (is.filter (key · = b)) := by
  by_cases hb : b < x.heads.size
  · exact h.leads b hb
  · have empty : is.filter (key · = b) = [] := by
      apply List.filter_eq_nil_iff.mpr
      intro i hi
      have := h.key_lt i hi
      simp only [decide_eq_true_eq]
      omega
    rw [head_of_le (by omega), empty]
    exact .stop

theorem walk?_head (h : x.Holds key is) (b : Nat) :
    x.walk? x.next.size (x.head b) = some (is.filter (key · = b)) :=
  (h.leads_head b).walk? ((h.leads_head b).length_le (h.nodup.filter _))

theorem chain_eq (h : x.Holds key is) (b : Nat) : x.chain b = is.filter (key · = b) := by
  simp only [Index.chain, h.walk?_head b, Option.getD_some]

/-- Two indexes that hold the same slots differ at most in the links behind other slots. -/
theorem unique (h : x.Holds key is) (h' : y.Holds key is) (size : x.heads.size = y.heads.size) :
    x.heads = y.heads ∧ ∀ i ∈ is, x.after i = y.after i := by
  have chains : ∀ b < x.heads.size, x.head b = y.head b ∧
      ∀ i ∈ is.filter (key · = b), x.after i = y.after i :=
    fun b hb => (h.leads b hb).unique (h'.leads b (size ▸ hb))
  constructor
  · refine Array.ext size fun b hb hb' => ?_
    simpa [Index.head, hb, hb'] using (chains b hb).1
  · intro i hi
    exact (chains (key i) (h.key_lt i hi)).2 i (List.mem_filter.mpr ⟨hi, by simp⟩)

theorem leads_chain (h : x.Holds key is) (b : Nat) : x.Leads (x.head b) (x.chain b) :=
  h.chain_eq b ▸ h.leads_head b

theorem nodup_chain (h : x.Holds key is) (b : Nat) : (x.chain b).Nodup :=
  h.chain_eq b ▸ h.nodup.filter _

theorem mem_chain (h : x.Holds key is) : i ∈ x.chain b ↔ i ∈ is ∧ key i = b := by
  simp [h.chain_eq b]

theorem count_chain (h : x.Holds key is) (b i : Nat) :
    (x.chain b).count i = if i ∈ is ∧ key i = b then 1 else 0 := by
  rw [(h.nodup_chain b).count]
  simp only [h.mem_chain]

theorem mem_toList (h : x.Holds key is) : i ∈ x.toList ↔ i ∈ is := by
  simp only [Index.toList, List.mem_flatMap, List.mem_range, h.mem_chain]
  constructor
  · rintro ⟨b, _, hi, _⟩
    exact hi
  · intro hi
    exact ⟨key i, h.key_lt i hi, hi, rfl⟩

theorem toList_perm (h : x.Holds key is) : x.toList.Perm is := by
  have nodup : x.toList.Nodup := by
    refine List.nodup_flatMap.mpr ⟨fun b _ => h.nodup_chain b, ?_⟩
    refine List.nodup_range.imp fun {b c} hne i hb hc => hne ?_
    exact (h.mem_chain.mp hb).2.symm.trans (h.mem_chain.mp hc).2
  exact (List.perm_ext_iff_of_nodup nodup h.nodup).mpr fun i => h.mem_toList

theorem find?_chain (h : x.Holds key is) {p : Nat → Bool} (hp : ∀ i ∈ is, p i → key i = b) :
    (x.chain b).find? p = is.find? p := by
  rw [h.chain_eq b, List.find?_filter]
  refine List.find?_congr fun i hi => ?_
  cases hpi : p i with
  | false => simp
  | true => simp [hp i hi hpi]

theorem filter_toList (h : x.Holds key is) {p : Nat → Bool} (hp : ∀ i ∈ is, p i → key i = b) :
    x.toList.filter p = is.filter p := by
  have chains : ∀ c, (x.chain c).filter p = if c = b then is.filter p else [] := by
    intro c
    rw [h.chain_eq c, List.filter_filter]
    split
    next he =>
      refine List.filter_congr fun i hi => ?_
      cases hpi : p i with
      | false => simp
      | true => simp [he, hp i hi hpi]
    next hne =>
      refine List.filter_eq_nil_iff.mpr fun i hi both => ?_
      rw [Bool.and_eq_true, decide_eq_true_eq] at both
      exact hne (both.2.symm.trans (hp i hi both.1))
  have buckets : ∀ n, ((List.range n).flatMap x.chain).filter p =
      if b < n then is.filter p else [] := by
    intro n
    induction n with
    | zero => rfl
    | succ n ih =>
      rw [List.range_succ, List.flatMap_append, List.filter_append, ih, List.flatMap_singleton,
        chains n]
      grind
  rw [Index.toList, buckets]
  split
  next => rfl
  next outside =>
    refine (List.filter_eq_nil_iff.mpr fun i hi hpi => outside ?_).symm
    rw [← hp i hi hpi]
    exact h.key_lt i hi

theorem insert (h : x.Holds key is) (hi : i ∉ is) (hn : i < x.next.size)
    (hk : key i < x.heads.size) : (x.insert (key i) i).Holds key (i :: is) where
  nodup := List.nodup_cons.mpr ⟨hi, h.nodup⟩
  key_lt j hj := by
    have size : (x.insert (key i) i).heads.size = x.heads.size := by simp [Index.insert]
    rw [size]
    rcases List.mem_cons.mp hj with rfl | hj
    · exact hk
    · exact h.key_lt j hj
  leads b hb := by
    have hb' : b < x.heads.size := by simpa [Index.insert] using hb
    have rest : (x.insert (key i) i).Leads (x.head b) (is.filter (key · = b)) := by
      refine (h.leads b hb').congr (by simp [Index.insert]) fun j hj => ?_
      have hne : i ≠ j := by
        rintro rfl
        exact hi (List.mem_of_mem_filter hj)
      simp [Index.insert, hne]
    by_cases he : key i = b
    · have head : (x.insert (key i) i).head b = some i := by simp [Index.insert, he, hb']
      have after : (x.insert (key i) i).after i = x.head b := by simp [Index.insert, he, hn]
      rw [head, List.filter_cons_of_pos (by simpa using he)]
      exact .next (by simpa [Index.insert] using hn) (after ▸ rest)
    · have head : (x.insert (key i) i).head b = x.head b := by simp [Index.insert, he]
      rw [head, List.filter_cons_of_neg (by simpa using he)]
      exact rest

theorem detach (h : x.Holds key is) (d : x.Detaches y i) (hi : i ∉ is) : y.Holds key is where
  nodup := h.nodup
  key_lt j hj := d.heads_size ▸ h.key_lt j hj
  leads b hb := by
    have leads := h.leads b (d.heads_size ▸ hb)
    have hib : i ∉ is.filter (key · = b) := fun hm => hi (List.mem_of_mem_filter hm)
    rw [d.head_of_leads leads hib]
    exact d.leads leads hib

theorem erase (h : x.Holds key is) (hi : i ∈ is) :
    ∃ y, x.erase? (key i) i = some y ∧ y.Holds key (is.filter (· ≠ i)) := by
  have hb := h.key_lt i hi
  have hm : i ∈ is.filter (key · = key i) := List.mem_filter.mpr ⟨hi, by simp⟩
  obtain ⟨y, hy, leads⟩ := erase?_of_mem (h.leads _ hb) (h.nodup.filter _) hb hm
  have d := detaches_erase? hy
  refine ⟨y, hy, ⟨h.nodup.filter _, ?_, ?_⟩⟩
  · intro j hj
    exact d.heads_size ▸ h.key_lt j (List.mem_of_mem_filter hj)
  · intro b hb
    rw [List.filter_comm]
    by_cases he : key i = b
    · subst b
      rw [List.Nodup.erase_eq_filter (h.nodup.filter _)] at leads
      simpa only [bne, beq_eq_decide, ne_eq, decide_not] using leads
    · have hib : i ∉ is.filter (key · = b) := by simp [he]
      have old := h.leads b (d.heads_size ▸ hb)
      rw [filter_ne_eq_self hib, d.head_of_leads old hib]
      exact d.leads old hib

theorem erase?_eq_none (h : x.Holds key is) (hi : i ∉ is) (b : Nat) : x.erase? b i = none :=
  erase?_of_not_mem (h.leads_head b) fun hm => hi (List.mem_of_mem_filter hm)

end Holds
end AppSupervisor.Index
