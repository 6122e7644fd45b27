import AppSupervisor.Proofs.Registry.Reclaim
import AppSupervisor.Proofs.RunState

namespace AppSupervisor.Registry

structure Sound (d : Measures) (r : Registry) (live grouped starting : List Nat) : Prop where
  layout : r.Layout d live grouped
  mem_grouped : ∀ i ∈ live, i ∈ grouped ↔ (r.slot i).state.hasProcess
  mem_starting : ∀ i, i ∈ starting ↔ i ∈ live ∧ (r.slot i).state = .starting
  starting_nodup : starting.Nodup

variable {d : Measures} {r r' : Registry} {live grouped starting : List Nat} {i j : Nat}
  {s : RunState}

theorem sound_empty (d : Measures) :
    (empty d.capacity d.maxRunId d.buckets).Sound d [] [] [] :=
  ⟨layout_empty d, by simp, by simp, List.nodup_nil⟩

namespace Sound

theorem hasProcess (h : r.Sound d live grouped starting) (hi : i ∈ grouped) :
    (r.slot i).state.hasProcess :=
  (h.mem_grouped i (h.layout.grouped_live i hi)).mp hi

theorem not_mem_grouped (h : r.Sound d live grouped starting)
    (state : ¬(r.slot i).state.hasProcess) : i ∉ grouped := fun hi => state (h.hasProcess hi)

theorem unended (h : r.Sound d live grouped starting) (i : Nat) (hi : i ∈ grouped) :
    (r.slot i).state ≠ .terminated :=
  RunState.ne_terminated (h.hasProcess hi)

theorem reclaim (h : r.Sound d live grouped starting) :
    r.reclaim.1.Sound d (live.filter fun i => (r.slot i).state ≠ .terminated) grouped starting := by
  obtain ⟨layout, slots, _⟩ := h.layout.reclaim h.unended
  have kept : ∀ j, j ∈ live.filter (fun i => (r.slot i).state ≠ .terminated) ↔
      j ∈ live ∧ (r.slot j).state ≠ .terminated := by
    intro j
    rw [List.mem_filter, decide_eq_true_eq]
  refine ⟨layout, fun j hj => ?_, fun j => ?_, h.starting_nodup⟩
  · obtain ⟨hl, hs⟩ := (kept j).mp hj
    rw [slots j hl hs]
    exact h.mem_grouped j hl
  · rw [h.mem_starting j, kept j]
    constructor
    · rintro ⟨hl, hs⟩
      have unended : (r.slot j).state ≠ .terminated := by simp [hs]
      exact ⟨⟨hl, unended⟩, slots j hl unended ▸ hs⟩
    · rintro ⟨⟨hl, unended⟩, hs⟩
      exact ⟨hl, slots j hl unended ▸ hs⟩

theorem allocate {m : Manifest} (h : r.Sound d live grouped starting) (a : r.Allocates m r' i) :
    r'.Sound d (i :: live) grouped (i :: starting) := by
  obtain ⟨_, hi⟩ := h.layout.free_of_allocates a
  have self := h.layout.slot_allocated a
  have hs : i ∉ starting := fun hm => hi ((h.mem_starting i).mp hm).1
  refine ⟨h.layout.allocate a, fun j hj => ?_, fun j => ?_,
    List.nodup_cons.mpr ⟨hs, h.starting_nodup⟩⟩
  · rcases List.mem_cons.mp hj with rfl | hl
    · have hg : j ∉ grouped := fun hm => hi (h.layout.grouped_live j hm)
      simp [self, RunState.hasProcess, hg]
    · rw [h.layout.slot_allocate a hl]
      exact h.mem_grouped j hl
  · by_cases he : j = i
    · simp [he, self]
    · rw [a.slot_of_ne he]
      simp [he, h.mem_starting j]

theorem insertGroup (h : r.Sound d live grouped (i :: starting)) (children : Children) :
    (r.insertGroup i children).Sound d live (i :: grouped) starting := by
  obtain ⟨hi, hs⟩ := (h.mem_starting i).mp (by simp)
  obtain ⟨hne, nodup⟩ := List.nodup_cons.mp h.starting_nodup
  have hg : i ∉ grouped := h.not_mem_grouped (by simp [hs, RunState.hasProcess])
  have self : ((r.insertGroup i children).slot i).state = .running := by
    rw [slot_insertGroup, if_pos ⟨rfl, h.layout.lt_size hi⟩]
  refine ⟨h.layout.insertGroup hi hg children, fun j hj => ?_, fun j => ?_, nodup⟩
  · by_cases he : j = i
    · simp [he, self, RunState.hasProcess]
    · rw [slot_insertGroup_of_ne he]
      simp [he, h.mem_grouped j hj]
  · by_cases he : j = i
    · simp [he, self, hne]
    · have := h.mem_starting j
      rw [slot_insertGroup_of_ne he, ← this]
      simp [he]

theorem release (h : r.Sound d live grouped starting) (hi : i ∈ live) (hg : i ∉ grouped) :
    (r.release i).Sound d (live.filter (· ≠ i)) grouped (starting.filter (· ≠ i)) := by
  refine ⟨h.layout.release hi hg, fun j hj => ?_, fun j => ?_, h.starting_nodup.filter _⟩
  · rw [slot_release_of_mem hj]
    exact h.mem_grouped j (List.mem_of_mem_filter hj)
  · by_cases he : j = i
    · simp [he]
    · rw [slot_release_of_ne he]
      simp [he, h.mem_starting j]

/-- A launch that failed leaves no trace of its runner. -/
theorem release_starting (h : r.Sound d live grouped (i :: starting)) :
    (r.release i).Sound d (live.filter (· ≠ i)) grouped starting := by
  obtain ⟨hi, hs⟩ := (h.mem_starting i).mp (by simp)
  obtain ⟨hne, _⟩ := List.nodup_cons.mp h.starting_nodup
  have hg : i ∉ grouped := h.not_mem_grouped (by simp [hs, RunState.hasProcess])
  have released := h.release hi hg
  rwa [List.filter_cons_of_neg (by simp), Index.filter_ne_eq_self hne] at released

theorem release_terminated (h : r.Sound d live grouped starting) (hi : i ∈ live)
    (ended : (r.slot i).state = .terminated) :
    (r.release i).Sound d (live.filter (· ≠ i)) grouped starting := by
  have hg : i ∉ grouped := h.not_mem_grouped (by simp [ended, RunState.hasProcess])
  have hne : i ∉ starting := by simp [h.mem_starting i, ended]
  have released := h.release hi hg
  rwa [Index.filter_ne_eq_self hne] at released

theorem updateState (h : r.Sound d live grouped starting) {f : RunState → RunState}
    (process : (f (r.slot i).state).hasProcess = (r.slot i).state.hasProcess)
    (launch : f (r.slot i).state = .starting ↔ (r.slot i).state = .starting) :
    (r.updateState i f).Sound d live grouped starting := by
  have processes : ∀ j, ((r.updateState i f).slot j).state.hasProcess =
      (r.slot j).state.hasProcess := by
    intro j
    rw [slot_updateState]
    split
    next he => exact he.1 ▸ process
    next => rfl
  have launches : ∀ j, ((r.updateState i f).slot j).state = .starting ↔
      (r.slot j).state = .starting := by
    intro j
    rw [slot_updateState]
    split
    next he => exact he.1 ▸ launch
    next => rfl
  refine ⟨h.layout.updateState i f, fun j hj => ?_, fun j => ?_, h.starting_nodup⟩
  · rw [processes j]
    exact h.mem_grouped j hj
  · rw [launches j]
    exact h.mem_starting j

theorem report (h : r.Sound d live grouped starting) (hi : i ∈ grouped)
    (reported : s = .running ∨ s = .stopped) :
    (r.updateState i (afterReport s)).Sound d live grouped starting := by
  have process := h.hasProcess hi
  have still := RunState.hasProcess_afterReport process reported
  refine h.updateState (still.trans process.symm) ?_
  simp [RunState.ne_starting process, RunState.ne_starting still]

theorem finish (h : r.Sound d live grouped starting) (hi : i ∈ grouped) :
    ((r.eraseGroup i).updateState i fun _ => .terminated).Sound d live
      (grouped.filter (· ≠ i)) starting := by
  have hl := h.layout.grouped_live i hi
  have lt : i < (r.eraseGroup i).slots.size := h.layout.lt_size hl
  have process := h.hasProcess hi
  have self : (((r.eraseGroup i).updateState i fun _ => .terminated).slot i).state =
      .terminated := by
    rw [slot_updateState, if_pos ⟨rfl, lt⟩]
  refine ⟨(h.layout.eraseGroup i).updateState i _, fun j hj => ?_, fun j => ?_,
    h.starting_nodup⟩
  · by_cases he : j = i
    · simp [he, self, RunState.hasProcess]
    · rw [slot_updateState_of_ne he]
      simp [he, h.mem_grouped j hj]
  · rw [h.mem_starting j]
    by_cases he : j = i
    · simp [he, self, RunState.ne_starting process]
    · rw [slot_updateState_of_ne he, slot_eraseGroup]

end Sound
end AppSupervisor.Registry
