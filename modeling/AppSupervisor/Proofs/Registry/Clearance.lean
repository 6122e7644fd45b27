import AppSupervisor.Proofs.Registry.Addition

namespace AppSupervisor.Registry

/-- A registry is what another one was without its Terminated runners. -/
structure Clears (r r' : Registry) : Prop where
  toList : r'.toList = r.remaining
  lookupRunId : ∀ id, r'.lookupRunId id = (r.lookupRunId id).filter (·.state ≠ .terminated)
  lookupGroup : ∀ group, r'.lookupGroup group = r.lookupGroup group
  size : r'.size = r.remaining.length
  /-- Wherever Terminated runners were on a chain, the others are left on it in their order. -/
  chain : ∀ b, r'.byRunId.chain b =
    (r.byRunId.chain b).filter fun i => (r.slot i).state ≠ .terminated
  slot : ∀ b, ∀ i ∈ r'.byRunId.chain b, r'.slot i = r.slot i
  free : ∀ i, i ∈ r'.free ↔
    i ∈ r.free ∨ (∃ b, i ∈ r.byRunId.chain b) ∧ (r.slot i).state = .terminated
  rest : r' = { r with slots := r'.slots, byRunId := r'.byRunId, live := r'.live, free := r'.free }

variable {d : Measures} {r r' : Registry} {live grouped starting : List Nat} {i : Nat}

theorem Layout.frame_reclaim (h : r.Layout d live grouped) :
    r.reclaim.1 = { r with
      slots := r.reclaim.1.slots, byRunId := r.reclaim.1.byRunId
      live := r.reclaim.1.live, free := r.reclaim.1.free } := by
  refine h.reclaim_keeps (P := fun s => s = { r with
    slots := s.slots, byRunId := s.byRunId, live := s.live, free := s.free }) (fun s i kept => ?_) rfl
  unfold reclaimAt
  split
  next =>
    conv_lhs => rw [kept]
    rfl
  next => exact kept

theorem Layout.reclaim_eq_self (h : r.Layout d live grouped)
    (unended : ∀ i ∈ live, (r.slot i).state ≠ .terminated) : r.reclaim = (r, 0) := by
  have visits : ∀ is : List Nat, (∀ i ∈ is, (r.slot i).state ≠ .terminated) →
      is.foldl reclaimAt (r, 0) = (r, 0) := by
    intro is
    induction is with
    | nil => exact fun _ => rfl
    | cons i is ih =>
      intro unended
      rw [List.foldl_cons, reclaimAt, if_neg (unended i (by simp))]
      exact ih fun j hj => unended j (List.mem_cons_of_mem i hj)
  rw [reclaim_eq_foldl h]
  exact visits _ fun i hi => unended i (h.byRunId.mem_toList.mp hi)

theorem Layout.mem_chains (h : r.Layout d live grouped) :
    (∃ b, i ∈ r.byRunId.chain b) ↔ i ∈ live := by
  simp [h.byRunId.mem_chain]

namespace Sound

variable (h : r.Sound d live grouped starting)

include h

theorem clears : r.Clears r.reclaim.1 := by
  obtain ⟨layout, slots, _⟩ := h.layout.reclaim h.unended
  have still : ∀ i ∈ live.filter (fun i => (r.slot i).state ≠ .terminated),
      r.reclaim.1.slot i = r.slot i := by
    intro i hi
    obtain ⟨hl, unended⟩ := List.mem_filter.mp hi
    exact slots i hl (by simpa using unended)
  refine ⟨h.toList_reclaim, h.lookupRunId_reclaim, h.lookupGroup_reclaim, h.live_reclaim,
    fun b => ?_, fun b i hi => still i (layout.byRunId.mem_chain.mp hi).1, fun i => ?_,
    h.layout.frame_reclaim⟩
  · rw [layout.byRunId.chain_eq, h.layout.byRunId.chain_eq]
    refine Eq.trans (List.filter_congr fun i hi => ?_) (List.filter_comm _ _ _)
    rw [still i hi]
  · have before := h.layout.lt_iff (i := i)
    have after := layout.lt_iff (i := i)
    rw [List.mem_filter, decide_eq_true_eq] at after
    rw [h.layout.mem_chains]
    constructor
    · intro hf
      have apart := layout.not_mem_live hf
      rw [List.mem_filter, decide_eq_true_eq] at apart
      tauto
    · rintro (hf | ⟨hl, ended⟩)
      · have apart := h.layout.not_mem_live hf
        tauto
      · tauto

theorem reclaim_reclaim : r.reclaim.1.reclaim = (r.reclaim.1, 0) := by
  obtain ⟨layout, slots, _⟩ := h.layout.reclaim h.unended
  refine layout.reclaim_eq_self fun i hi => ?_
  obtain ⟨hl, unended⟩ := List.mem_filter.mp hi
  rw [decide_eq_true_eq] at unended
  rwa [slots i hl unended]

theorem count_reclaim :
    r.reclaim.2 = (r.toList.filter (·.state = .terminated)).length := by
  obtain ⟨_, _, _, _, count⟩ := h.layout.reclaim h.unended
  rw [count, toList, List.filter_map, List.length_map]
  exact (h.layout.byRunId.toList_perm.symm.filter _).length_eq

end Sound
end AppSupervisor.Registry
