import AppSupervisor.Proofs.Registry.Operations
import Mathlib.Data.List.Induction

namespace AppSupervisor.Registry

variable {d : Measures} {r : Registry} {live grouped : List Nat} {i j n : Nat} {s : Registry × Nat}

def reclaimAt (s : Registry × Nat) (i : Nat) : Registry × Nat :=
  if (s.1.slot i).state = .terminated then (s.1.release i, s.2 + 1) else s

theorem reclaim_eq_visitAll (r : Registry) :
    r.reclaim = Index.visitAll (fun s => s.1.byRunId) reclaimAt (r, 0) := rfl

theorem detaches_reclaimAt (s : Registry × Nat) (i : Nat) :
    s.1.byRunId.Detaches (reclaimAt s i).1.byRunId i := by
  unfold reclaimAt
  split
  next => exact detaches_release s.1 i
  next => exact .refl _ i

theorem slot_reclaimAt (s : Registry × Nat) (i j : Nat) :
    (reclaimAt s i).1.slot j = { s.1.slot j with
      runId := ((reclaimAt s i).1.slot j).runId
      manifest := ((reclaimAt s i).1.slot j).manifest } := by
  unfold reclaimAt
  split
  next ended =>
    rw [slot_release]
    split
    next he => simp only [← he.1, ended]
    next => rfl
  next => rfl

theorem reclaim_eq_foldl (h : r.Layout d live grouped) :
    r.reclaim = r.byRunId.toList.foldl reclaimAt (r, 0) := by
  rw [reclaim_eq_visitAll]
  exact Index.visitAll_eq_foldl (P := fun _ _ => True) (s := (r, 0))
    (fun s i _ _ => ⟨trivial, detaches_reclaimAt s i⟩) h.byRunId trivial

/-- Some slots of the live runners have been looked at, the Terminated ones of them given back. -/
structure Reclaimed (d : Measures) (live grouped is : List Nat) (r : Registry) (n : Nat)
    (s : Registry × Nat) : Prop where
  layout : s.1.Layout d (live.filter fun i => ¬(i ∈ is ∧ (r.slot i).state = .terminated)) grouped
  slot : ∀ i, ¬(i ∈ is ∧ (r.slot i).state = .terminated) → s.1.slot i = r.slot i
  lastRunId : s.1.lastRunId = r.lastRunId
  allocations : s.1.allocations = r.allocations
  count : s.2 = n + (is.filter fun i => (r.slot i).state = .terminated).length

theorem Reclaimed.step {is : List Nat} (h : Reclaimed d live grouped is r n s)
    (apart : ∀ i ∈ grouped, (r.slot i).state ≠ .terminated) (hi : i ∈ live) (hn : i ∉ is) :
    Reclaimed d live grouped (is ++ [i]) r n (reclaimAt s i) := by
  have unseen : s.1.slot i = r.slot i := h.slot i fun hm => hn hm.1
  by_cases ended : (r.slot i).state = .terminated
  · have visited : reclaimAt s i = (s.1.release i, s.2 + 1) := if_pos (by rw [unseen, ended])
    have hg : i ∉ grouped := fun hm => apart i hm ended
    have left := h.layout.release (List.mem_filter.mpr ⟨hi, by simp [hn]⟩) hg
    rw [visited]
    refine ⟨?_, fun j hj => ?_, h.lastRunId, h.allocations, ?_⟩
    · rw [List.filter_filter] at left
      refine (congrArg (Layout d _ · grouped) (List.filter_congr fun j _ => ?_)).mp left
      by_cases hne : j = i
      · simp [hne, ended]
      · simp [hne]
    · have hne : j ≠ i := by
        rintro rfl
        exact hj ⟨by simp, ended⟩
      rw [slot_release_of_ne hne]
      exact h.slot j fun hm => hj ⟨List.mem_append_left [i] hm.1, hm.2⟩
    · rw [List.filter_append, List.length_append, List.filter_cons_of_pos (by simpa using ended)]
      exact congrArg (· + 1) h.count
  · have visited : reclaimAt s i = s := if_neg (by rwa [unseen])
    have same : ∀ j, (j ∈ is ++ [i] ∧ (r.slot j).state = .terminated) ↔
        (j ∈ is ∧ (r.slot j).state = .terminated) := by
      intro j
      constructor
      · rintro ⟨hm, hj⟩
        rcases List.mem_append.mp hm with hm | hm
        · exact ⟨hm, hj⟩
        · exact absurd (List.mem_singleton.mp hm ▸ hj) ended
      · exact fun hm => ⟨List.mem_append_left [i] hm.1, hm.2⟩
    rw [visited]
    refine ⟨?_, ?_, h.lastRunId, h.allocations, ?_⟩
    · simpa only [same] using h.layout
    · simpa only [same] using h.slot
    · rw [List.filter_append, List.filter_cons_of_neg (by simpa using ended), List.filter_nil,
        List.append_nil]
      exact h.count

theorem Layout.foldl_reclaimAt {is : List Nat} (h : r.Layout d live grouped)
    (apart : ∀ i ∈ grouped, (r.slot i).state ≠ .terminated) (nodup : is.Nodup)
    (sub : ∀ i ∈ is, i ∈ live) : Reclaimed d live grouped is r n (is.foldl reclaimAt (r, n)) := by
  induction is using List.reverseRecOn with
  | nil =>
    refine ⟨?_, fun i _ => rfl, rfl, rfl, rfl⟩
    have same : (live.filter fun i => ¬(i ∈ ([] : List Nat) ∧ (r.slot i).state = .terminated)) =
        live := List.filter_eq_self.mpr fun i _ => by simp
    rw [same]
    exact h
  | append_singleton is i ih =>
    obtain ⟨nodup', _, apart'⟩ := List.nodup_append'.mp nodup
    have done := ih nodup' fun j hj => sub j (List.mem_append_left [i] hj)
    rw [List.foldl_append]
    exact done.step apart (sub i (by simp)) fun hm => apart' hm (by simp)

theorem Layout.reclaim_keeps {P : Registry → Prop} (h : r.Layout d live grouped)
    (step : ∀ s i, P s.1 → P (reclaimAt s i).1) (start : P r) : P r.reclaim.1 := by
  have visits : ∀ (is : List Nat) (s : Registry × Nat), P s.1 → P (is.foldl reclaimAt s).1 := by
    intro is
    induction is with
    | nil => exact fun s hs => hs
    | cons i is ih => exact fun s hs => ih _ (step s i hs)
  rw [reclaim_eq_foldl h]
  exact visits _ _ start

/-- Reclaiming gives back the Terminated runners and leaves the others where they are. -/
theorem Layout.reclaim (h : r.Layout d live grouped)
    (apart : ∀ i ∈ grouped, (r.slot i).state ≠ .terminated) :
    r.reclaim.1.Layout d (live.filter fun i => (r.slot i).state ≠ .terminated) grouped ∧
    (∀ i ∈ live, (r.slot i).state ≠ .terminated → r.reclaim.1.slot i = r.slot i) ∧
    r.reclaim.1.lastRunId = r.lastRunId ∧ r.reclaim.1.allocations = r.allocations ∧
    r.reclaim.2 = (live.filter fun i => (r.slot i).state = .terminated).length := by
  have perm := h.byRunId.toList_perm
  have done := h.foldl_reclaimAt (n := 0) apart (perm.nodup_iff.mpr h.live_nodup)
    fun i hi => perm.mem_iff.mp hi
  rw [reclaim_eq_foldl h]
  refine ⟨?_, fun i _ hi => done.slot i fun hm => hi hm.2, done.lastRunId, done.allocations, ?_⟩
  · refine (congrArg (Layout d _ · grouped) (List.filter_congr fun j hj => ?_)).mp done.layout
    simp [h.byRunId.mem_toList, hj]
  · rw [done.count, Nat.zero_add]
    exact (perm.filter _).length_eq

theorem Layout.slot_reclaim (h : r.Layout d live grouped) (j : Nat) :
    r.reclaim.1.slot j = { r.slot j with
      runId := (r.reclaim.1.slot j).runId, manifest := (r.reclaim.1.slot j).manifest } := by
  refine h.reclaim_keeps (P := fun s => s.slot j = { r.slot j with
    runId := (s.slot j).runId, manifest := (s.slot j).manifest }) (fun s i kept => ?_) rfl
  have visited := slot_reclaimAt s i j
  rw [kept] at visited
  exact visited

end AppSupervisor.Registry
