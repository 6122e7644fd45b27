import AppSupervisor.Proofs.Registry.Instances
import AppSupervisor.Proofs.Registry.View

namespace AppSupervisor

/-- The run ids in the order in which they are tried: the ones above the last id come first. -/
def Roster.cycle (maxRunId last : UInt32) : List Nat :=
  List.range' (last.toNat + 1) (maxRunId.toNat - last.toNat) ++ List.range' 1 last.toNat

theorem Roster.map_toNat_ring {maxRunId last : UInt32} (le : last.toNat ≤ maxRunId.toNat) :
    (ring maxRunId last maxRunId.toNat).map RunId.toNat = cycle maxRunId last := by
  have length : ((ring maxRunId last maxRunId.toNat).map RunId.toNat).length =
      (cycle maxRunId last).length := by
    simp only [List.length_map, length_ring, cycle, List.length_append, List.length_range']
    omega
  refine List.ext_getElem length fun k hk hk' => ?_
  have lt : k < maxRunId.toNat := by simpa using hk
  have pos : 0 < maxRunId.toNat := by omega
  obtain ⟨x, hx⟩ : ∃ x, (ring maxRunId last maxRunId.toNat)[k]? = some x :=
    ⟨_, List.getElem?_eq_getElem (by simpa using lt)⟩
  obtain ⟨_, value⟩ := (getElem?_ring pos).mp hx
  obtain ⟨_, hx⟩ := List.getElem?_eq_some_iff.mp hx
  rw [List.getElem_map, hx, value]
  simp only [cycle, List.getElem_append, List.length_range', List.getElem_range', Nat.one_mul]
  split
  next below =>
    -- The end of the ring is not passed yet.
    rw [Nat.mod_eq_of_lt (by omega)]
    omega
  next beyond =>
    have turn : last.toNat + k = (k - (maxRunId.toNat - last.toNat)) + maxRunId.toNat := by omega
    rw [turn, Nat.add_mod_right, Nat.mod_eq_of_lt (by omega)]
    omega

namespace Registry

variable {d : Measures} {r r' : Registry} {live grouped : List Nat} {i n : Nat} {id last : UInt32}
  {m : Manifest}

def candidate (maxRunId last : UInt32) (k : Nat) : UInt32 := (nextRunId maxRunId)^[k + 1] last

theorem unusedRunId?_eq_some_iff :
    r.unusedRunId? n last = some id ↔ ∃ k < n, candidate r.maxRunId last k = id ∧
      r.slotOfRunId? ⟨id⟩ = none ∧
      ∀ j < k, r.slotOfRunId? ⟨candidate r.maxRunId last j⟩ ≠ none := by
  -- By induction on the rounds: what the later ones try behind the first id are the later candidates.
  induction n generalizing last with
  | zero => simp [unusedRunId?]
  | succ n ih =>
    simp only [unusedRunId?]
    by_cases held : (r.slotOfRunId? ⟨nextRunId r.maxRunId last⟩).isSome
    · rw [if_pos held, ih]
      have taken : r.slotOfRunId? ⟨candidate r.maxRunId last 0⟩ ≠ none :=
        Option.isSome_iff_ne_none.mp held
      constructor
      · rintro ⟨k, hk, same, unused, before⟩
        refine ⟨k + 1, by omega, same, unused, fun j hj => ?_⟩
        cases j with
        | zero => exact taken
        | succ j => exact before j (by omega)
      · rintro ⟨k, hk, same, unused, before⟩
        cases k with
        | zero =>
          rw [same] at taken
          exact absurd unused taken
        | succ k => exact ⟨k, by omega, same, unused, fun j hj => before (j + 1) (by omega)⟩
    · rw [if_neg held]
      have unused : r.slotOfRunId? ⟨candidate r.maxRunId last 0⟩ = none :=
        Option.not_isSome_iff_eq_none.mp held
      constructor
      · intro same
        obtain rfl := Option.some.inj same
        exact ⟨0, by omega, rfl, unused, by simp⟩
      · rintro ⟨k, _, same, _, before⟩
        cases k with
        | zero => exact congrArg some same
        | succ k => exact absurd unused (before 0 (by omega))

namespace Layout

theorem exists_unused (h : r.Layout d live grouped) (room : r.live < d.capacity) :
    ∃ id, r.unusedRunId? (r.live + 1) r.lastRunId = some id := by
  have short : r.live + 1 ≤ r.maxRunId.toNat := by
    have le := d.capacity_le
    rw [h.maxRunId_eq]
    omega
  by_contra none
  -- Otherwise all of the next ids, one more than there are live runners, would be held by these.
  have held : ∀ id ∈ Roster.ring r.maxRunId r.lastRunId (r.live + 1),
      id ∈ live.map fun i => (r.slot i).runId := by
    intro id hid
    rw [unusedRunId?_eq_find? h.maxRunId_pos] at none
    have search : (Roster.ring r.maxRunId r.lastRunId (r.live + 1)).find?
        (fun id => (r.slotOfRunId? id).isNone) = Option.none := by
      by_contra found
      obtain ⟨x, hx⟩ := Option.ne_none_iff_exists'.mp found
      exact none ⟨x.val, by rw [hx, Option.map_some]⟩
    have taken := List.find?_eq_none.mp search id hid
    obtain ⟨i, hi⟩ : ∃ i, r.slotOfRunId? id = some i := by
      simpa [Option.ne_none_iff_exists'] using taken
    obtain ⟨hl, named⟩ := h.slotOfRunId?_eq_some.mp hi
    exact List.mem_map.mpr ⟨i, hl, named⟩
  have nodup : (Roster.ring r.maxRunId r.lastRunId (r.live + 1)).Nodup :=
    Roster.nodup_ring short
  have few := (List.Nodup.subperm nodup held).length_le
  rw [Roster.length_ring, List.length_map, ← h.live_eq] at few
  omega

theorem exists_allocates (h : r.Layout d live grouped) (room : r.live < d.capacity)
    (m : Manifest) : ∃ r' i, r.allocate m = .ok (r', i) := by
  obtain ⟨id, unused⟩ := h.exists_unused room
  obtain ⟨i, free, hfree⟩ := h.exists_free room
  have left : ¬r.capacity ≤ r.live := by
    have size : r.capacity = d.capacity := h.slots_size
    omega
  simp only [Registry.allocate, if_neg left, unused, hfree]
  exact ⟨_, _, rfl⟩

theorem allocate_full (h : r.Layout d live grouped) (full : d.capacity ≤ r.live) (m : Manifest) :
    r.allocate m = .error (.exhausted d.capacity) := by
  have size : r.capacity = d.capacity := h.slots_size
  rw [Registry.allocate, size, if_pos full]

theorem lastRunId_range (h : r.Layout d live grouped) (a : r.Allocates m r' i) :
    1 ≤ r'.lastRunId.toNat ∧ r'.lastRunId.toNat ≤ d.maxRunId.toNat := by
  rw [← h.maxRunId_eq]
  exact (unusedRunId?_eq_some h.maxRunId_pos a.unused).2

theorem slotOfRunId?_eq_none (h : r.Layout d live grouped) {id : RunId} :
    r.slotOfRunId? id = none ↔ ∀ x ∈ r.toList, x.runId ≠ id := by
  rw [← h.lookupRunId_eq_none, lookupRunId, Option.map_eq_none_iff]

/-- The id that is found is the first one in the ring that no live runner holds. -/
theorem find?_cycle (h : r.Layout d live grouped) (paced : r.lastRunId.toNat ≤ d.maxRunId.toNat)
    (short : n ≤ d.maxRunId.toNat) (found : r.unusedRunId? n r.lastRunId = some id) :
    (Roster.cycle d.maxRunId r.lastRunId).find? (fun k => ∀ x ∈ r.toList, x.runId.toNat ≠ k) =
      some id.toNat := by
  -- A search once round the ring tries the whole cycle, and it ends with the same id.
  have longer : r.unusedRunId? d.maxRunId.toNat r.lastRunId = some id := by
    obtain ⟨k, hk, first⟩ := unusedRunId?_eq_some_iff.mp found
    exact unusedRunId?_eq_some_iff.mpr ⟨k, by omega, first⟩
  rw [unusedRunId?_eq_find? h.maxRunId_pos, h.maxRunId_eq] at longer
  obtain ⟨x, search, rfl⟩ := Option.map_eq_some_iff.mp longer
  have same : ((fun k => decide (∀ x ∈ r.toList, x.runId.toNat ≠ k)) ∘ RunId.toNat) =
      fun id => (r.slotOfRunId? id).isNone := by
    funext id
    rw [Bool.eq_iff_iff, Function.comp_apply, decide_eq_true_eq, Option.isNone_iff_eq_none,
      h.slotOfRunId?_eq_none]
    exact forall₂_congr fun x _ => not_congr RunId.toNat_inj
  rw [← Roster.map_toNat_ring paced, List.find?_map, same, search]
  rfl

end Layout
end Registry
end AppSupervisor
